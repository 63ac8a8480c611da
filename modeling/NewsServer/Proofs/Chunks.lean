import NewsServer.Proofs.RoundTrip

/-!
# Where a stream is cut into chunks

Reading two chunks one after the other is reading them at once (`read_append`), wherever the cut
falls: in a header, behind it, or in a packet. What a decoder has not handed on after a chunk is
what of the last frame is missing, with one exception: a header of no bytes at the end of a chunk is
kept until the next byte comes (`prompt_iff`).
-/

namespace NewsServer

open Memory

namespace BufferedTcpSocket

/-- The sockets that calls of `read`, `write_packet` and `reset` lead to. -/
inductive Reached : BufferedTcpSocket → Prop
  | new (sockfd : ℤ) (u : Uninit) : Reached (new sockfd u)
  | read {s : BufferedTcpSocket} (h : Reached s) (buf : Bytes) : Reached (s.read buf).2
  | writePacket {s : BufferedTcpSocket} (h : Reached s) : Reached s.writePacket.2.2
  | reset {s : BufferedTcpSocket} (h : Reached s) : Reached s.reset

theorem Reached.wf {s : BufferedTcpSocket} (h : Reached s) : s.Wf := by
  induction h with
  | new sockfd u => exact wf_new sockfd u
  | read _ buf ih => exact wf_read ih buf
  | writePacket _ ih => exact wf_writePacket ih
  | reset => exact wf_reset _

section Loop

variable {s s' : BufferedTcpSocket} {buf rest : Bytes} {ret : Code}

theorem readLoop_succ : ∀ {fuel : ℕ} {s : BufferedTcpSocket} {buf : Bytes}
    {r : Code × BufferedTcpSocket}, readLoop fuel s buf = some r →
      readLoop (fuel + 1) s buf = some r
  | 0, s, buf, r, h => by simp [readLoop] at h
  | fuel + 1, s, buf, r, h => by
    rw [readLoop] at h ⊢
    split_ifs at h ⊢ with h0
    · exact h
    rcases hx : s.readCurrentPacket buf with ⟨ret, s', rest⟩
    rw [hx] at h
    dsimp only at h ⊢
    split_ifs at h ⊢
    · exact h
    · exact readLoop_succ h

theorem readLoop_mono {fuel n : ℕ} {r : Code × BufferedTcpSocket} (h : readLoop fuel s buf = some r)
    (hn : fuel ≤ n) : readLoop n s buf = some r := by
  induction n, hn using Nat.le_induction with
  | base => exact h
  | succ n _ ih => exact readLoop_succ ih

theorem read_eq_of_readLoop (fuel : ℕ) {r : Code × BufferedTcpSocket}
    (h : readLoop fuel s buf = some r) : s.read buf = r := by
  have hread : readLoop (s.rounds buf + 1) s buf = some (s.read buf) := (Option.some_get _).symm
  have hmax := readLoop_mono hread (le_max_left _ fuel)
  rw [readLoop_mono h (le_max_right _ fuel)] at hmax
  exact (Option.some.inj hmax).symm

theorem read_nil (s : BufferedTcpSocket) : s.read [] = (.bufferRead, s) :=
  read_eq_of_readLoop 1 rfl

theorem read_of_tooBig (hbuf : buf ≠ [])
    (hx : s.readCurrentPacket buf = (.packetTooBig, s', rest)) :
    s.read buf = (.packetTooBig, s'.reset) := by
  refine read_eq_of_readLoop 1 ?_
  rw [readLoop, if_neg (by simpa using hbuf), hx]
  rfl

theorem read_of_round (hbuf : buf ≠ []) (hx : s.readCurrentPacket buf = (ret, s', rest))
    (hret : ret ≠ .packetTooBig) : s.read buf = s'.read rest := by
  have hread : readLoop (s'.rounds rest + 1) s' rest = some (s'.read rest) :=
    (Option.some_get _).symm
  refine read_eq_of_readLoop (s'.rounds rest + 1 + 1) ?_
  rw [readLoop, if_neg (by simpa using hbuf), hx]
  dsimp only
  rw [if_neg hret, hread]

end Loop

section Header

variable {s : BufferedTcpSocket} {a b : Bytes}

theorem readSize_append_of_short (hi : s.readSizeIndex.toNat + a.length < 4) :
    s.readSize (a ++ b) = (s.readSize a).2.1.readSize b := by
  have hidx := toNat_index_add (i := s.readSizeIndex) (n := a.length) (by omega)
  rw [readSize_of_short hi]
  dsimp only
  set s₁ : BufferedTcpSocket := { s with
    expectedSize := word (overwrite (wordBytes s.expectedSize) s.readSizeIndex.toNat a)
    readSizeIndex := s.readSizeIndex + UInt8.ofNat a.length } with hs₁
  have hidx₁ : s₁.readSizeIndex.toNat = s.readSizeIndex.toNat + a.length := hidx
  have hcopy₁ := headerCopy_eq (s := s₁) (by omega) b.length
  have hcopy := headerCopy_eq (s := s) (by omega) (a.length + b.length)
  obtain ⟨n, hn⟩ : ∃ n, s₁.headerCopy b.length = n := ⟨_, rfl⟩
  have hsum : s.headerCopy (a.length + b.length) = a.length + n := by
    rw [hcopy]
    omega
  have hword : overwrite (wordBytes s₁.expectedSize) s₁.readSizeIndex.toNat (b.take n)
      = overwrite (wordBytes s.expectedSize) s.readSizeIndex.toNat (a ++ b.take n) := by
    have hlen : (overwrite (wordBytes s.expectedSize) s.readSizeIndex.toNat a).length = 4 := by
      rw [length_overwrite (by simp; omega), length_wordBytes]
    rw [hidx₁, wordBytes_word hlen, overwrite_overwrite]
    rw [length_wordBytes, List.length_take]
    omega
  have hindex : s₁.readSizeIndex + UInt8.ofNat n =
      s.readSizeIndex + UInt8.ofNat (a.length + n) := by
    rw [UInt8.ofNat_add, ← add_assoc]
  unfold readSize
  dsimp only
  rw [List.length_append, hsum, hn, hword, hindex, List.take_append, List.drop_append,
    List.take_of_length_le (by omega), List.drop_of_length_le (by omega), Nat.add_sub_cancel_left,
    List.nil_append]

theorem readSize_append_of_long (hlt : s.readSizeIndex.toNat < 4)
    (hi : 4 ≤ s.readSizeIndex.toNat + a.length) :
    s.readSize (a ++ b) =
      ((s.readSize a).1, (s.readSize a).2.1, (s.readSize a).2.2 ++ b) := by
  have hi' : 4 ≤ s.readSizeIndex.toNat + (a ++ b).length := by
    rw [List.length_append]
    omega
  rw [readSize_of_long hlt hi, readSize_of_long hlt hi',
    List.take_append_of_le_length (by omega), List.drop_append_of_le_length (by omega)]
  split_ifs <;> rfl

theorem sizeRead_readSize (hlt : s.readSizeIndex.toNat < 4)
    (hi : 4 ≤ s.readSizeIndex.toNat + a.length) : (s.readSize a).2.1.sizeRead = true := by
  rw [readSize_of_long hlt hi]
  split_ifs <;> rfl

end Header

section Payload

variable {s : BufferedTcpSocket} {a b : Bytes} {i : ℕ}

theorem Filling.stored_stored (h : s.Filling i)
    (hlen : a.length + b.length ≤ s.expectedSize.toNat) :
    (s.stored i a).stored i b = s.stored i (a ++ b) := by
  have hle := h.expected_le
  have hmissing := expectedSize_stored (s := s) (a := i) (Nat.le_of_add_right_le hlen)
  have hoff : ((s.stored i a).bufferSize - (s.stored i a).expectedSize).toNat =
      s.bufferSize.toNat - s.expectedSize.toNat + a.length := by
    have hle' : (s.stored i a).expectedSize.toNat ≤ s.bufferSize.toNat := by omega
    rw [bufferSize_stored, UInt32.toNat_sub_of_le _ _ (UInt32.le_iff_toNat_le.2 hle'), hmissing]
    omega
  have hwrite : overwrite ((s.stored i a).array i)
      ((s.stored i a).bufferSize - (s.stored i a).expectedSize).toNat b =
        overwrite (s.array i) (s.bufferSize - s.expectedSize).toNat (a ++ b) := by
    rw [hoff, h.array_stored, h.toNat_off, overwrite_overwrite]
    rw [h.length]
    omega
  rw [stored, hwrite]
  simp only [stored, List.set_set, List.length_append, UInt32.ofNat_add, sub_sub]

theorem readPayload_append_of_short (h : s.Filling i) (hE : a.length < s.expectedSize.toNat) :
    s.readPayload (a ++ b) = (s.stored i a).readPayload b := by
  have hcurr : (s.stored i a).currentBuffer = some i := h.current
  have hmissing := expectedSize_stored (a := i) hE.le
  have hlen : (a ++ b).length = a.length + b.length := List.length_append
  by_cases hb : (a ++ b).length < s.expectedSize.toNat
  · rw [readPayload_of_short h.current hb, readPayload_of_short hcurr (by omega),
      h.stored_stored (by omega)]
  · have hb := not_lt.1 hb
    rw [readPayload_of_long h.current hb, readPayload_of_long hcurr (by omega), hmissing,
      List.take_append, List.drop_append, List.take_of_length_le hE.le,
      List.drop_of_length_le hE.le, List.nil_append, h.stored_stored]
    rw [List.length_take]
    omega

theorem readPayload_append_of_long (hcurr : s.currentBuffer = some i)
    (hE : s.expectedSize.toNat ≤ a.length) :
    s.readPayload (a ++ b) =
      ((s.readPayload a).1, (s.readPayload a).2.1, (s.readPayload a).2.2 ++ b) := by
  have hE' : s.expectedSize.toNat ≤ (a ++ b).length := by
    rw [List.length_append]
    omega
  rw [readPayload_of_long hcurr hE, readPayload_of_long hcurr hE',
    List.take_append_of_le_length hE, List.drop_append_of_le_length hE]

end Payload

section Cut

variable {s : BufferedTcpSocket} {a b : Bytes}

theorem readPayload_append {i : ℕ} (h : s.Filling i) (hr : s.sizeRead = true) :
    s.readPayload (a ++ b) =
        ((s.readPayload a).1, (s.readPayload a).2.1, (s.readPayload a).2.2 ++ b) ∨
      (s.readPayload a).1 ≠ .packetTooBig ∧ (s.readPayload a).2.2 = [] ∧
        s.readPayload (a ++ b) = (s.readPayload a).2.1.readCurrentPacket b := by
  by_cases hE : a.length < s.expectedSize.toNat
  · refine .inr ?_
    have hr' : (s.stored i a).sizeRead = true := hr
    rw [readPayload_append_of_short h hE, readPayload_of_short h.current hE]
    refine ⟨by simp, rfl, ?_⟩
    rw [readCurrentPacket, if_pos hr']
  · exact .inl (readPayload_append_of_long h.current (not_lt.1 hE))

/-- A round over two chunks is the round over the first one, or, where that ends before the round
does, the next round, over the second. -/
theorem readCurrentPacket_append (h : s.Wf) (hb : b ≠ []) :
    s.readCurrentPacket (a ++ b) = ((s.readCurrentPacket a).1, (s.readCurrentPacket a).2.1,
        (s.readCurrentPacket a).2.2 ++ b) ∨
      (s.readCurrentPacket a).1 ≠ .packetTooBig ∧ (s.readCurrentPacket a).2.2 = [] ∧
        s.readCurrentPacket (a ++ b) = (s.readCurrentPacket a).2.1.readCurrentPacket b := by
  rcases hr : s.sizeRead with _ | _
  swap
  · obtain ⟨i, hi⟩ := h.filling hr
    have hsame : ∀ buf, s.readCurrentPacket buf = s.readPayload buf := fun buf => by
      rw [readCurrentPacket, if_pos hr]
    rw [hsame, hsame]
    exact readPayload_append hi hr
  have hlt := h.index_lt hr
  by_cases hi : s.readSizeIndex.toNat + a.length < 4
  · refine .inr ?_
    have happ := readSize_append_of_short (b := b) hi
    rw [readSize_of_short hi] at happ
    have hround : s.readCurrentPacket a = s.readSize a := by
      rw [readCurrentPacket, hr, readSize_of_short hi]
      rfl
    rw [hround, readSize_of_short hi]
    refine ⟨by simp, rfl, ?_⟩
    simp only [readCurrentPacket, happ, hr, Bool.false_eq_true, ↓reduceIte]
  have hi := not_lt.1 hi
  have happ := readSize_append_of_long (b := b) hlt hi
  have hsize := sizeRead_readSize hlt hi
  have hspec := readSize_spec h hr a
  rcases hx : s.readSize a with ⟨ret, s₁, a₁⟩
  rw [hx] at happ hsize hspec
  dsimp only at happ hsize hspec
  simp only [readCurrentPacket, hr, hx, happ, Bool.false_eq_true, ↓reduceIte]
  rcases hspec with ⟨hbig, -⟩ | ⟨hret, hwf, -⟩
  · exact .inl (by simp only [if_pos hbig])
  obtain ⟨i, hf⟩ := hwf.filling hsize
  have hne : ret ≠ .packetTooBig := by
    rw [hret]
    simp
  have hlen : (a₁ ++ b).length ≠ 0 := by simp [hb]
  rw [if_neg hne, if_neg hne, if_neg hlen]
  rcases a₁ with _ | ⟨x, a₁⟩
  · refine .inr ⟨by simp, rfl, ?_⟩
    simp only [List.length_nil, ↓reduceIte, List.nil_append, hsize]
  · have hpay := readPayload_append (a := x :: a₁) (b := b) hf hsize
    rw [if_neg (by simp)]
    simpa only [readCurrentPacket] using hpay

theorem read_code (h : s.Wf) (buf : Bytes) :
    (s.read buf).1 = .packetTooBig ∨ (s.read buf).1 = .bufferRead := by
  have hspec := read_spec h buf
  unfold ReadResult at hspec
  split_ifs at hspec
  · exact .inl hspec.1
  · exact .inr hspec.1

/-- Reading two chunks at once is reading the one, and, unless that finds a header too big, the
other. -/
theorem read_append (h : s.Wf) (a b : Bytes) : s.read (a ++ b) =
    if (s.read a).1 = .packetTooBig then s.read a else (s.read a).2.read b := by
  by_cases hb : b = []
  · rw [hb, List.append_nil]
    split_ifs with hbig
    · rfl
    · rw [read_nil]
      exact Prod.ext ((read_code h a).resolve_left hbig) rfl
  obtain ⟨n, hn⟩ : ∃ n, s.rounds a = n := ⟨_, rfl⟩
  induction n using Nat.strong_induction_on generalizing s a with
  | h n ih =>
  by_cases ha : a = []
  · simp [ha, read_nil]
  have hab : a ++ b ≠ [] := by simp [ha]
  have happ := readCurrentPacket_append (a := a) h hb
  have hspec := readCurrentPacket_spec h ha
  have hrounds := @rounds_readCurrentPacket s a (by simpa using ha)
  rcases hx : s.readCurrentPacket a with ⟨ret, s', rest⟩
  rw [hx] at happ hspec hrounds
  dsimp only at happ hspec hrounds
  by_cases hbig : ret = .packetTooBig
  · subst hbig
    rcases happ with happ | ⟨hne, -⟩
    · rw [read_of_tooBig ha hx, read_of_tooBig hab happ, if_pos rfl]
    · exact absurd rfl hne
  have hwf : s'.Wf := by
    rcases hspec with ⟨hbig', -⟩ | ⟨-, hwf, -⟩ | ⟨p, -, hwf, -⟩
    · exact absurd hbig' hbig
    · exact hwf
    · exact hwf
  rw [read_of_round ha hx hbig]
  rcases happ with happ | ⟨-, rfl, happ⟩
  · rw [read_of_round hab happ hbig]
    exact ih _ (hn ▸ hrounds hbig) hwf rest rfl
  · -- the round goes on with `b`
    rw [read_nil, if_neg (by simp)]
    rcases hy : s'.readCurrentPacket b with ⟨ret', s'', rest'⟩
    rw [hy] at happ
    by_cases hbig' : ret' = .packetTooBig
    · subst hbig'
      rw [read_of_tooBig hab happ, read_of_tooBig hb hy]
    · rw [read_of_round hab happ hbig', read_of_round hb hy hbig']

/-- Nothing is pending exactly if the next byte begins a header. -/
theorem header_of_pending (h : s.Wf) (hp : s.pending = []) :
    s.sizeRead = false ∧ s.readSizeIndex = 0 := by
  rcases hr : s.sizeRead with _ | _
  · have hlen := length_pending_of_header h hr
    rw [hp, List.length_nil] at hlen
    exact ⟨rfl, UInt8.toNat_inj.mp hlen.symm⟩
  · obtain ⟨i, hi⟩ := h.filling hr
    have hlen := length_pending_of_filling hr hi
    rw [hp, List.length_nil] at hlen
    omega

end Cut

/-- A chunk may be cut in two anywhere, and what follows a header that is too big does not
matter. -/
theorem read_chunks {s : BufferedTcpSocket} (h : Reached s) (a b : Bytes) :
    ((s.read a).1 = .bufferRead → s.read (a ++ b) = (s.read a).2.read b) ∧
      ((s.read a).1 = .packetTooBig → (s.read (a ++ b)).1 = .packetTooBig ∧
        (s.read (a ++ b)).2.packetQueue = [] ∧ (s.read (a ++ b)).2.sizeRead = false ∧
        (s.read (a ++ b)).2.readSizeIndex = 0) := by
  have happ := read_append h.wf a b
  constructor
  · intro hret
    rw [happ, if_neg (by rw [hret]; simp)]
  · intro hret
    have hspec := read_spec h.wf a
    unfold ReadResult at hspec
    split_ifs at hspec with hbig
    · obtain ⟨-, hwf, hpk, hpend⟩ := hspec
      rw [happ, if_pos hret]
      exact ⟨hret, List.map_eq_nil_iff.1 hpk, header_of_pending hwf hpend⟩
    · rw [hspec.1] at hret
      simp at hret

theorem read_chunks_header :
    (new 5 ⟨7, 8, 9⟩).read ([0, 0] ++ [0, 1, 65]) =
        ((new 5 ⟨7, 8, 9⟩).read [0, 0]).2.read [0, 1, 65] ∧
      ((new 5 ⟨7, 8, 9⟩).read ([1, 0, 0, 0, 65] ++ [66])).1 = .packetTooBig :=
  ⟨(read_chunks (.new 5 ⟨7, 8, 9⟩) [0, 0] [0, 1, 65]).1 (by decide),
    ((read_chunks (.new 5 ⟨7, 8, 9⟩) [1, 0, 0, 0, 65] [66]).2 (by decide)).1⟩

/-- Read some chunks. -/
def readAll (cs : List Bytes) (s : BufferedTcpSocket) : BufferedTcpSocket :=
  cs.foldl (fun s c => (s.read c).2) s

/-- The frames of the stream of `ps` that have come in some chunks are in the queue, and where a
header has been read, some of its packet is missing. -/
structure Prompt (ps cs : List Bytes) (s : BufferedTcpSocket) : Prop where
  packets : s.packets = framing.arrived ps cs.flatten.length
  waits : s.sizeRead = true → 0 < s.expectedSize

/-- What has come of the stream of `ps` ends with the header of a frame of no bytes. -/
def EndsAtHeader (ps cs : List Bytes) : Prop :=
  ∃ qs rs, ps = qs ++ [] :: rs ∧ cs.flatten = qs.flatMap framing.enc ++ framing.enc []

section Prompt

variable {s : BufferedTcpSocket} {ps cs : List Bytes}

/-- The decoder holds back the header of an empty frame. -/
theorem pending_eq_iff (h : s.Wf) :
    s.pending = framing.enc [] ↔ s.sizeRead = true ∧ s.expectedSize = 0 := by
  constructor
  · intro hp
    have hlen := congrArg List.length hp
    rw [Framing.length_enc, List.length_nil, show framing.width = 4 from rfl] at hlen
    rcases hr : s.sizeRead with _ | _
    · rw [length_pending_of_header h hr] at hlen
      have := h.index_lt hr
      omega
    · obtain ⟨i, hi⟩ := h.filling hr
      have hann := announced_of_filling hr hi []
      have hzero := framing.announced_enc (p := []) (Nat.zero_le _) []
      have hle := hi.expected_le
      rw [hp, hzero, List.length_nil] at hann
      refine ⟨rfl, UInt32.toNat_inj.mp ?_⟩
      rw [show (0 : UInt32).toNat = 0 from rfl]
      omega
  · rintro ⟨hr, h0⟩
    obtain ⟨i, hi⟩ := h.filling hr
    have hB := hi.waits (by rw [h0]; rfl)
    rw [pending_of_filling hr hi, hB, Nat.zero_sub, List.take_zero]
    rfl

/-- The decoder holds something back exactly behind the header of an empty frame. -/
theorem prompt_iff_pending (h : s.Wf) {t : Bytes} (hps : ∀ p ∈ ps, p.length ≤ framing.limit)
    (ht : t <+: ps.flatMap framing.enc) (hpk : s.packets = (framing.cut t).1)
    (hpend : s.pending = (framing.cut t).2) :
    (s.packets = framing.arrived ps t.length ↔ s.pending ≠ framing.enc []) ∧
      ((s.sizeRead = true → 0 < s.expectedSize) ↔ s.pending ≠ framing.enc []) := by
  rw [← (framing.frames_of_isPrefix hps ht).1, Framing.frames, hpk]
  constructor
  · rw [hpend]
    by_cases hc : (framing.cut t).2 = framing.enc [] <;> simp [hc]
  · rw [ne_eq, pending_eq_iff h, not_and]
    refine forall_congr' fun _ => ?_
    rw [UInt32.lt_iff_toNat_lt, ← UInt32.toNat_inj, show (0 : UInt32).toNat = 0 from rfl]
    omega

theorem wf_readAll (h : s.Wf) (cs : List Bytes) : (readAll cs s).Wf := by
  induction cs generalizing s with
  | nil => exact h
  | cons c cs ih => exact ih (wf_read h c)

/-- The queue and the pending bytes after some chunks. -/
theorem readAll_spec (h : s.Wf) (cs : List Bytes)
    (hsmall : ¬ framing.Oversize (framing.cut (s.pending ++ cs.flatten)).2) :
    (readAll cs s).packets = s.packets ++ (framing.cut (s.pending ++ cs.flatten)).1 ∧
      (readAll cs s).pending = (framing.cut (s.pending ++ cs.flatten)).2 := by
  induction cs generalizing s with
  | nil =>
    rw [List.flatten_nil, List.append_nil, Framing.cut_of_none _ (next?_pending h)]
    exact ⟨(List.append_nil _).symm, rfl⟩
  | cons c cs ih =>
    rw [List.flatten_cons, ← List.append_assoc] at hsmall ⊢
    have hmid := framing.not_oversize_of_isPrefix (List.prefix_append _ cs.flatten) hsmall
    have hread := read_spec h c
    rw [ReadResult, if_neg hmid] at hread
    obtain ⟨-, hwf, hpk, hpend⟩ := hread
    rw [Framing.cut_append, ← hpend] at hsmall ⊢
    obtain ⟨ihpk, ihpend⟩ := ih hwf hsmall
    refine ⟨?_, ihpend⟩
    rw [readAll, List.foldl_cons, ← readAll, ihpk, hpk, List.append_assoc]

end Prompt

/-- After every chunk the frames that have come in are in the queue, exactly if no chunk ends with
the header of an empty frame. -/
theorem prompt_iff (sockfd : ℤ) (u : Uninit) {ps cs : List Bytes}
    (hps : ∀ p ∈ ps, p.length ≤ maxPacketSize) (hcs : cs.flatten = ps.flatMap framing.enc) :
    (∀ cs', cs' <+: cs → Prompt ps cs' (readAll cs' (new sockfd u))) ↔
      ∀ cs', cs' <+: cs → ¬ EndsAtHeader ps cs' := by
  refine forall₂_congr fun cs' hcs' => ?_
  have ht : cs'.flatten <+: ps.flatMap framing.enc := by
    obtain ⟨rest, rfl⟩ := hcs'
    rw [← hcs, List.flatten_append]
    exact List.prefix_append _ _
  have hsmall := (framing.frames_of_isPrefix hps ht).2
  have hspec := readAll_spec (wf_new sockfd u) cs'
  rw [pending_new, List.nil_append, packets_new, List.nil_append] at hspec
  obtain ⟨hpk, hpend⟩ := hspec hsmall
  obtain ⟨hpackets, hwaits⟩ :=
    prompt_iff_pending (wf_readAll (wf_new sockfd u) cs') hps ht hpk hpend
  have hheader : (readAll cs' (new sockfd u)).pending ≠ framing.enc [] ↔ ¬ EndsAtHeader ps cs' := by
    rw [hpend, ne_eq, framing.snd_cut_eq_enc_nil_iff hps ht]
    rfl
  rw [← hheader]
  exact ⟨fun h => hpackets.1 h.packets, fun h => ⟨hpackets.2 h, hwaits.2 h⟩⟩

/-- An empty frame whose header is followed by the next one. -/
theorem prompt_iff_followed :
    Prompt [[], [65]] [[0, 0, 0, 0, 0]] (readAll [[0, 0, 0, 0, 0]] (new 5 ⟨7, 8, 9⟩)) ∧
      Prompt [[], [65]] [[0, 0, 0, 0, 0], [0, 0, 1, 65]]
        (readAll [[0, 0, 0, 0, 0], [0, 0, 1, 65]] (new 5 ⟨7, 8, 9⟩)) := by
  have hcond : ∀ cs', cs' <+: [[0, 0, 0, 0, 0], [0, 0, 1, 65]] →
      ¬ EndsAtHeader [[], [65]] cs' := by
    rintro cs' hcs' ⟨qs, rs, hps, hflat⟩
    have hqs : qs = [] := by
      rcases qs with _ | ⟨q, qs⟩
      · rfl
      · have hmem : ([] : Bytes) ∈ [[65]] := by
          rw [(List.cons.inj hps).2]
          simp
        simp at hmem
    rw [hqs] at hflat
    have hlen : cs'.flatten.length = 4 := by
      rw [hflat]
      rfl
    simp only [List.prefix_cons_iff, List.prefix_nil] at hcs'
    obtain rfl | ⟨cs', rfl, rfl | ⟨cs', rfl, rfl⟩⟩ := hcs'
    · simp at hlen
    · simp at hlen
    · simp at hlen
  have hprompt := (prompt_iff 5 ⟨7, 8, 9⟩ (by decide) (by decide)).2 hcond
  exact ⟨hprompt _ (by decide), hprompt _ List.prefix_rfl⟩

/-- An empty frame is held back. -/
theorem not_prompt_empty :
    ¬ Prompt [[]] [[0, 0, 0, 0]] (readAll [[0, 0, 0, 0]] (new 5 ⟨7, 8, 9⟩)) := by
  intro h
  exact absurd (h.waits (by decide)) (by decide)

end BufferedTcpSocket

end NewsServer
