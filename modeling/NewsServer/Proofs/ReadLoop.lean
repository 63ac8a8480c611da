import NewsServer.Proofs.Chunks
import NewsServer.Lib.Loops
import NewsServer.Copies

/-!
# The loop of `read`

Every copy of `read_size` and `read_current_packet` stays inside the header, the array of the packet
and the chunk (`readCurrentPacket?_eq`), so no round of the loop stops. A round takes a byte or
puts a header behind it that was complete before, so there are finitely many rounds.
-/

namespace NewsServer

open Memory Loops

namespace BufferedTcpSocket

section Copies

variable {s : BufferedTcpSocket}

theorem copyToCurrent?_eq {a off n : ℕ} {src : Bytes} (ha : s.currentBuffer = some a)
    (hlt : a < s.arrays.length) (h : off + n ≤ (s.array a).length) (hn : n ≤ src.length) :
    s.copyToCurrent? off src n = some (s.copyToCurrent off (src.take n)) := by
  have harr : s.arrays[a]? = some (s.array a) := by
    rw [array, List.getD_eq_getElem?_getD, List.getElem?_eq_getElem hlt, Option.getD_some]
  unfold copyToCurrent? copyToCurrent
  simp only [ha, harr, memcpy?_eq_some h hn, Option.bind_eq_bind, Option.bind_some,
    Option.pure_def]

/-- The header's bytes are copied inside the four bytes there are for them. -/
theorem readSize?_eq (hi : s.readSizeIndex.toNat < 4) (buf : Bytes) :
    s.readSize? buf = some (s.readSize buf) := by
  have hc := headerCopy_eq hi buf.length
  have hle : s.headerCopy buf.length ≤ buf.length := by omega
  have hfit : s.readSizeIndex.toNat + s.headerCopy buf.length
      ≤ (wordBytes s.expectedSize).length := by
    rw [length_wordBytes]
    omega
  have hcopy := memcpy?_eq_some hfit hle
  unfold readSize? readSize
  simp only [hcopy, Option.bind_eq_bind, Option.bind_some, Option.pure_def]
  split_ifs <;> rfl

/-- A packet's bytes are copied inside its array, whatever of it is missing. -/
theorem readPayload?_eq {a : ℕ} (ha : s.Filling a) (buf : Bytes) :
    s.readPayload? buf = some (s.readPayload buf) := by
  have hE := ha.expected_le
  obtain ⟨n, hn⟩ : ∃ n, (if buf.length > s.expectedSize.toNat then s.expectedSize.toNat
      else buf.length) = n := ⟨_, rfl⟩
  have hle : n ≤ s.expectedSize.toNat ∧ n ≤ buf.length := by
    rw [← hn]
    split_ifs <;> omega
  have hfit : (s.bufferSize - s.expectedSize).toNat + n ≤ (s.array a).length := by
    rw [ha.toNat_off, ha.length]
    omega
  have hcopy := copyToCurrent?_eq ha.current ha.lt hfit hle.2
  unfold readPayload? readPayload
  simp only [hn, hcopy, Option.bind_eq_bind, Option.bind_some, Option.pure_def]
  split_ifs <;> rfl

theorem readCurrentPacket?_eq (h : s.Wf) (buf : Bytes) :
    s.readCurrentPacket? buf = some (s.readCurrentPacket buf) := by
  rcases hr : s.sizeRead with _ | _
  · have hsize := readSize_spec h hr buf
    simp only [readCurrentPacket?, readCurrentPacket, hr, readSize?_eq (h.index_lt hr),
      Bool.false_eq_true, ↓reduceIte, Option.bind_eq_bind, Option.bind_some, Option.pure_def]
    rcases hx : s.readSize buf with ⟨ret, s₁, buf₁⟩
    rw [hx] at hsize
    dsimp only at hsize ⊢
    split_ifs with hbig h0
    · rfl
    · rfl
    · -- bytes behind a header are there only if it is complete
      rcases hsize with ⟨hbig', -⟩ | ⟨-, hwf, -, -, hnil⟩
      · exact absurd hbig' hbig
      · have hr₁ : s₁.sizeRead = true := by
          rw [← Bool.not_eq_false]
          intro hf
          rw [hnil hf, List.length_nil] at h0
          exact h0 rfl
        obtain ⟨a, ha⟩ := hwf.filling hr₁
        exact readPayload?_eq ha buf₁
  · obtain ⟨a, ha⟩ := h.filling hr
    simp only [readCurrentPacket?, readCurrentPacket, hr, ↓reduceIte]
    exact readPayload?_eq ha buf

end Copies

section Rounds

variable {s s' : BufferedTcpSocket} {buf rest : Bytes}

/-- What a round of the loop does. -/
theorem readRound?_cases (h : s.Wf) (buf : Bytes) :
    (buf = [] ∧ readRound? (s, buf) = some (.inr (.bufferRead, s, []))) ∨
    (∃ s' rest, buf ≠ [] ∧ s.readCurrentPacket buf = (.packetTooBig, s', rest) ∧
      readRound? (s, buf) = some (.inr (.packetTooBig, s'.reset, rest))) ∨
    (∃ ret s' rest, buf ≠ [] ∧ s.readCurrentPacket buf = (ret, s', rest) ∧
      ret ≠ .packetTooBig ∧ readRound? (s, buf) = some (.inl (s', rest))) := by
  unfold readRound?
  simp only [readCurrentPacket?_eq h, List.length_eq_zero_iff, Option.bind_eq_bind,
    Option.bind_some, Option.pure_def]
  rcases hx : s.readCurrentPacket buf with ⟨ret, s', rest⟩
  dsimp only
  split_ifs with hbuf hbig
  · exact .inl ⟨hbuf, by rw [hbuf]⟩
  · exact .inr (.inl ⟨s', rest, hbuf, by rw [hbig], rfl⟩)
  · exact .inr (.inr ⟨ret, s', rest, hbuf, rfl, hbig, rfl⟩)

theorem readRound?_ne_none (h : s.Wf) (buf : Bytes) : readRound? (s, buf) ≠ none := by
  rcases readRound?_cases h buf with ⟨-, hx⟩ | ⟨s', rest, -, -, hx⟩ | ⟨ret, s', rest, -, -, -, hx⟩
  all_goals
    rw [hx]
    simp

theorem readRound?_inl (h : s.Wf) (hx : readRound? (s, buf) = some (.inl (s', rest))) :
    ∃ ret, buf ≠ [] ∧ s.readCurrentPacket buf = (ret, s', rest) ∧ ret ≠ .packetTooBig := by
  rcases readRound?_cases h buf with ⟨-, hy⟩ | ⟨s₁, rest₁, -, -, hy⟩ |
    ⟨ret, s₁, rest₁, hbuf, hcur, hret, hy⟩
  · rw [hx] at hy
    simp at hy
  · rw [hx] at hy
    simp at hy
  · rw [hx, Option.some.injEq, Sum.inl.injEq, Prod.mk.injEq] at hy
    obtain ⟨rfl, rfl⟩ := hy
    exact ⟨ret, hbuf, hcur, hret⟩

theorem readPayload_rest_isSuffix (s : BufferedTcpSocket) (buf : Bytes) :
    (s.readPayload buf).2.2 <:+ buf := by
  unfold readPayload
  dsimp only
  split_ifs <;> exact List.drop_suffix _ _

theorem readCurrentPacket_rest_isSuffix (s : BufferedTcpSocket) (buf : Bytes) :
    (s.readCurrentPacket buf).2.2 <:+ buf := by
  have hsize : (s.readSize buf).2.2 <:+ buf := by
    rw [readSize_rest]
    exact List.drop_suffix _ _
  unfold readCurrentPacket
  rcases hx : s.readSize buf with ⟨ret, s₁, buf₁⟩
  rw [hx] at hsize
  dsimp only at hsize ⊢
  split_ifs
  · exact readPayload_rest_isSuffix s buf
  · exact hsize
  · exact hsize
  · exact (readPayload_rest_isSuffix s₁ buf₁).trans hsize

theorem wf_readRound? (h : s.Wf) (hx : readRound? (s, buf) = some (.inl (s', rest))) : s'.Wf := by
  obtain ⟨ret, hbuf, hcur, hret⟩ := readRound?_inl h hx
  have hspec := readCurrentPacket_spec h hbuf
  rw [hcur] at hspec
  rcases hspec with ⟨hbig, -⟩ | ⟨-, hwf, -⟩ | ⟨p, -, hwf, -⟩
  · exact absurd hbig hret
  · exact hwf
  · exact hwf

/-- Between two rounds the measure of `read` goes down. -/
theorem rounds_readRound? (h : s.Wf) (hx : readRound? (s, buf) = some (.inl (s', rest))) :
    s'.rounds rest < s.rounds buf := by
  obtain ⟨ret, hbuf, hcur, hret⟩ := readRound?_inl h hx
  have hdown := @rounds_readCurrentPacket s buf (by simpa using hbuf) (by rwa [hcur])
  rwa [hcur] at hdown

theorem heads_readRound? (h : s.Wf) (hheads : Heads readRound? (s, buf) (s', rest)) :
    s'.Wf ∧ rest <:+ buf := by
  refine hheads.invariant (I := fun x => x.1.Wf ∧ x.2 <:+ buf) ?_ ⟨h, List.suffix_rfl⟩
  rintro ⟨s₁, buf₁⟩ ⟨s₂, buf₂⟩ ⟨hwf, hsuf⟩ hround
  refine ⟨wf_readRound? hwf hround, List.IsSuffix.trans ?_ hsuf⟩
  obtain ⟨ret, -, hcur, -⟩ := readRound?_inl hwf hround
  have hrest := readCurrentPacket_rest_isSuffix s₁ buf₁
  rwa [hcur] at hrest

end Rounds

/-- Between two calls a header is being read and has not all of its bytes, or there is an array of
the packet's size, which is no bigger than allowed, and no more is missing than that. A queued
packet has an array of its size. In every round that a chunk makes, the copies stay inside the
header, that array and the chunk. -/
theorem readCurrentPacket?_of_reached {s : BufferedTcpSocket} (h : Reached s) :
    (s.sizeRead = false → s.readSizeIndex.toNat < 4) ∧
      (s.sizeRead = true → ∃ a, s.currentBuffer = some a ∧ a < s.arrays.length ∧
        (s.array a).length = s.bufferSize.toNat ∧ s.bufferSize.toNat ≤ maxPacketSize ∧
        s.expectedSize.toNat ≤ s.bufferSize.toNat) ∧
      (∀ p ∈ s.packetQueue, p.data < s.arrays.length ∧
        (s.array p.data).length = p.size.toNat) ∧
      ∀ buf s' rest, Heads readRound? (s, buf) (s', rest) → rest <:+ buf ∧
        s'.readCurrentPacket? rest = some (s'.readCurrentPacket rest) := by
  have hwf := h.wf
  refine ⟨hwf.index_lt, fun hr => ?_, hwf.queue, fun buf s' rest hheads => ?_⟩
  · obtain ⟨a, ha⟩ := hwf.filling hr
    exact ⟨a, ha.current, ha.lt, ha.length, ha.size_le, ha.expected_le⟩
  · obtain ⟨hwf', hrest⟩ := heads_readRound? hwf hheads
    exact ⟨hrest, readCurrentPacket?_eq hwf' rest⟩

/-- In the middle of a packet of two bytes. -/
theorem readCurrentPacket?_half :
    ((new 5 ⟨7, 8, 9⟩).read [0, 0, 0, 2, 65]).2.expectedSize.toNat ≤
        ((new 5 ⟨7, 8, 9⟩).read [0, 0, 0, 2, 65]).2.bufferSize.toNat ∧
      ((new 5 ⟨7, 8, 9⟩).read [0, 0, 0, 2, 65]).2.readCurrentPacket? [66, 0] =
        some (((new 5 ⟨7, 8, 9⟩).read [0, 0, 0, 2, 65]).2.readCurrentPacket [66, 0]) := by
  obtain ⟨-, hfilling, -, hcopies⟩ :=
    readCurrentPacket?_of_reached ((Reached.new 5 ⟨7, 8, 9⟩).read [0, 0, 0, 2, 65])
  obtain ⟨a, -, -, -, -, hle⟩ := hfilling (by decide)
  exact ⟨hle, (hcopies [66, 0] _ [66, 0] .refl).2⟩

section End

variable {s s' : BufferedTcpSocket} {buf rest : Bytes}

theorem readPayload_ne_tooBig (s : BufferedTcpSocket) (buf : Bytes) :
    (s.readPayload buf).1 ≠ .packetTooBig := by
  unfold readPayload
  dsimp only
  split_ifs <;> simp

theorem readCurrentPacket_rest (hr : s.sizeRead = false)
    (hx : s.readCurrentPacket buf = (.packetTooBig, s', rest)) :
    rest = (s.readSize buf).2.2 := by
  rcases hsize : s.readSize buf with ⟨ret, s₁, buf₁⟩
  simp only [readCurrentPacket, hr, hsize, Bool.false_eq_true, ↓reduceIte] at hx
  split_ifs at hx with hbig h0
  · exact (congrArg (·.2.2) hx).symm
  · simp at hx
  · exact absurd (congrArg Prod.fst hx) (readPayload_ne_tooBig s₁ buf₁)

/-- A header that is too big is the first four bytes that were pending or have come, and the rest of
the chunk is left behind it. -/
theorem readCurrentPacket_of_tooBig (h : s.Wf) (hbuf : buf ≠ [])
    (hx : s.readCurrentPacket buf = (.packetTooBig, s', rest)) :
    ∃ header, header.length = 4 ∧ maxPacketSize < ofBeBytes header ∧
      s.pending ++ buf = header ++ rest := by
  have hover : framing.Oversize (s.pending ++ buf) := by
    have hspec := readCurrentPacket_spec h hbuf
    rw [hx] at hspec
    rcases hspec with ⟨-, hover⟩ | ⟨hret, -⟩ | ⟨p, hret, -⟩
    · exact hover
    · exact absurd rfl hret
    · exact absurd rfl hret
  have hlen : 4 ≤ (s.pending ++ buf).length := hover.1
  have hr : s.sizeRead = false := by
    rw [← Bool.not_eq_true]
    intro hr
    obtain ⟨a, ha⟩ := h.filling hr
    have hann := announced_of_filling hr ha buf
    have hbig := hover.2
    rw [hann] at hbig
    exact absurd ha.size_le hbig.not_ge
  have hrest : rest = (s.pending ++ buf).drop 4 := by
    have hidx := length_pending_of_header h hr
    have hi := h.index_lt hr
    have hcopy := headerCopy_eq hi buf.length
    have hnil : s.pending.drop 4 = [] := List.drop_of_length_le (by omega)
    rw [List.length_append] at hlen
    rw [readCurrentPacket_rest hr hx, readSize_rest, List.drop_append, hidx, hnil, List.nil_append,
      hcopy, min_eq_right (by omega)]
  refine ⟨(s.pending ++ buf).take 4, ?_, hover.2, ?_⟩
  · rw [List.length_take, min_eq_left hlen]
  · rw [hrest, List.take_append_drop]

/-- How the loop ends on `buf`, behind the frames `fs`: with all of the chunk taken, or behind the
first header that is too big. -/
def EndsWith (fs : List Bytes) (s : BufferedTcpSocket) (buf : Bytes) (ret : Code)
    (s' : BufferedTcpSocket) (rest : Bytes) : Prop :=
  (∀ p ∈ fs, p.length ≤ maxPacketSize) ∧
    (ret = .bufferRead ∧ rest = [] ∧ ¬ framing.Oversize s'.pending ∧
        s.pending ++ buf = fs.flatMap framing.enc ++ s'.pending ∧ s'.packets = s.packets ++ fs ∨
      ret = .packetTooBig ∧ ∃ header, header.length = 4 ∧ maxPacketSize < ofBeBytes header ∧
        s.pending ++ buf = fs.flatMap framing.enc ++ header ++ rest)

theorem endsWith_of_inr (h : s.Wf) {r : Code × BufferedTcpSocket × Bytes}
    (hx : readRound? (s, buf) = some (.inr r)) :
    s.read buf = (r.1, r.2.1) ∧ EndsWith [] s buf r.1 r.2.1 r.2.2 := by
  rcases readRound?_cases h buf with ⟨rfl, hy⟩ | ⟨s', rest, hbuf, hcur, hy⟩ |
    ⟨ret, s', rest, -, -, -, hy⟩
  · obtain rfl := Sum.inr.inj (Option.some.inj (hx.symm.trans hy))
    refine ⟨read_nil s, by simp, .inl ⟨rfl, rfl, not_oversize_pending h, ?_, ?_⟩⟩
    · exact List.append_nil _
    · exact (List.append_nil _).symm
  · obtain rfl := Sum.inr.inj (Option.some.inj (hx.symm.trans hy))
    exact ⟨read_of_tooBig hbuf hcur, by simp, .inr ⟨rfl, readCurrentPacket_of_tooBig h hbuf hcur⟩⟩
  · rw [hx] at hy
    simp at hy

/-- How the loop ends after a round, it ends before it. -/
theorem endsWith_of_inl (h : s.Wf) (hx : readRound? (s, buf) = some (.inl (s', rest)))
    {fs : List Bytes} {ret : Code} {s'' : BufferedTcpSocket} {rest' : Bytes}
    (hend : EndsWith fs s' rest ret s'' rest') : ∃ fs, EndsWith fs s buf ret s'' rest' := by
  obtain ⟨ret', hbuf, hcur, hret⟩ := readRound?_inl h hx
  have hspec := readCurrentPacket_spec h hbuf
  rw [hcur] at hspec
  dsimp only at hspec
  obtain ⟨hfs, hend⟩ := hend
  rcases hspec with ⟨hbig, -⟩ | ⟨-, -, hpk, hpend, hnil⟩ | ⟨p, -, -, hpk, hpend, hnext⟩
  · exact absurd hbig hret
  · refine ⟨fs, hfs, ?_⟩
    rwa [hpk, hpend, hnil, List.append_nil] at hend
  · obtain ⟨henc, hp, -⟩ := framing.eq_enc_of_next? hnext
    refine ⟨p :: fs, List.forall_mem_cons.2 ⟨hp, hfs⟩, ?_⟩
    rw [hpk, hpend, List.nil_append] at hend
    rw [henc, List.flatMap_cons]
    rcases hend with ⟨hcode, hrest, hsmall, hbytes, hpackets⟩ | ⟨hcode, header, hlen, hbig, hbytes⟩
    · refine .inl ⟨hcode, hrest, hsmall, ?_, ?_⟩
      · rw [hbytes, List.append_assoc]
      · rw [hpackets, List.append_assoc, List.singleton_append]
    · refine .inr ⟨hcode, header, hlen, hbig, ?_⟩
      rw [hbytes]
      simp only [List.append_assoc]

end End

/-- From any decoder and on any chunk the loop of `read` ends, with what `read` returns: it has
taken the whole chunk, or the first header that is too big. -/
theorem read_ends {s : BufferedTcpSocket} (h : Reached s) (buf : Bytes) :
    ∃ rest, Ends readRound? (s, buf) ((s.read buf).1, (s.read buf).2, rest) ∧
      ∃ fs, EndsWith fs s buf (s.read buf).1 (s.read buf).2 rest := by
  have hkeep : ∀ x y : BufferedTcpSocket × Bytes, x.1.Wf →
      readRound? x = some (.inl y) → y.1.Wf := fun x y hx hround => wf_readRound? hx hround
  have hdown : ∀ x y : BufferedTcpSocket × Bytes, x.1.Wf →
      readRound? x = some (.inl y) → y.1.rounds y.2 < x.1.rounds x.2 :=
    fun x y hx hround => rounds_readRound? hx hround
  obtain ⟨r, hr⟩ := exists_ends (s := (s, buf)) hkeep (fun x => x.1.rounds x.2)
    (fun x hx => readRound?_ne_none hx x.2) hdown h.wf
  have hpost := hr.post (Q := fun x r => x.1.read x.2 = (r.1, r.2.1) ∧
    ∃ fs, EndsWith fs x.1 x.2 r.1 r.2.1 r.2.2) hkeep
    (fun x r hx hround => ?_) (fun x y r hx hround hy => ?_) h.wf
  · obtain ⟨hread, hend⟩ := hpost
    rw [hread]
    exact ⟨r.2.2, hr, hend⟩
  · obtain ⟨hread, hend⟩ := endsWith_of_inr hx hround
    exact ⟨hread, [], hend⟩
  · obtain ⟨hread, fs, hend⟩ := hy
    obtain ⟨ret, hbuf, hcur, hret⟩ := readRound?_inl hx hround
    exact ⟨(read_of_round hbuf hcur hret).trans hread, endsWith_of_inl hx hround hend⟩

/-- A header of no bytes is complete when the chunk begins, which has one more, and two bytes of
another. -/
theorem read_ends_empty :
    Ends readRound? (((new 5 ⟨7, 8, 9⟩).read [0, 0, 0, 0]).2, [0, 0, 0, 0, 0, 0])
      (.bufferRead, (((new 5 ⟨7, 8, 9⟩).read [0, 0, 0, 0]).2.read [0, 0, 0, 0, 0, 0]).2, []) := by
  obtain ⟨rest, hends, fs, -, ⟨hret, rfl, -⟩ | ⟨hbig, -⟩⟩ :=
    read_ends ((Reached.new 5 ⟨7, 8, 9⟩).read [0, 0, 0, 0]) [0, 0, 0, 0, 0, 0]
  · rwa [hret] at hends
  · exact absurd hbig (by decide)

end BufferedTcpSocket

end NewsServer
