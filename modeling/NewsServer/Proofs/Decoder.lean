import NewsServer.BufferedTcpSocket
import NewsServer.Lib.Framing

/-!
# The decoder cuts the stream into frames

The decoder's state stands for the bytes of the frame it has not finished (`pending`) and the
frames in its queue (`packets`). Reading a chunk appends to the queue the frames that
`Framing.cut` takes off the pending bytes and the chunk, and keeps what is left (`read_spec`).

The array being filled is none of the queue's (`Filling.notMem`), so a packet's bytes stay as they
were when it was queued.
-/

namespace NewsServer

open Memory

/-- The framing protocol: lengths of four bytes, at most `MAX_PACKET_SIZE`. -/
def framing : Framing where
  width := 4
  limit := maxPacketSize
  width_pos := by norm_num
  limit_lt := by norm_num [maxPacketSize]

namespace BufferedTcpSocket

/-- The bytes of a queued packet. -/
def packetBytes (s : BufferedTcpSocket) (p : PackT) : Bytes :=
  (s.array p.data).take p.size.toNat

/-- The packets that wait to be written out. -/
def packets (s : BufferedTcpSocket) : List Bytes :=
  s.packetQueue.map s.packetBytes

/-- The bytes of the frame that is not finished. -/
def pending (s : BufferedTcpSocket) : Bytes :=
  if s.sizeRead then
    beBytes 4 s.bufferSize.toNat ++
      (s.array (s.currentBuffer.getD 0)).take (s.bufferSize.toNat - s.expectedSize.toNat)
  else
    (wordBytes s.expectedSize).take s.readSizeIndex.toNat

/-- `a` is the array of the packet being read. -/
structure Filling (s : BufferedTcpSocket) (a : ℕ) : Prop where
  current : s.currentBuffer = some a
  lt : a < s.arrays.length
  length : (s.array a).length = s.bufferSize.toNat
  size_le : s.bufferSize.toNat ≤ maxPacketSize
  expected_le : s.expectedSize.toNat ≤ s.bufferSize.toNat
  waits : s.expectedSize.toNat = 0 → s.bufferSize.toNat = 0
  notMem : ∀ p ∈ s.packetQueue, p.data ≠ a

/-- What holds of a decoder between two reads. -/
structure Wf (s : BufferedTcpSocket) : Prop where
  index_lt : s.sizeRead = false → s.readSizeIndex.toNat < 4
  filling : s.sizeRead = true → ∃ a, s.Filling a
  queue : ∀ p ∈ s.packetQueue, p.data < s.arrays.length ∧
    (s.array p.data).length = p.size.toNat

theorem wf_new (sockfd : ℤ) (u : Uninit) : (new sockfd u).Wf where
  index_lt := fun _ => by simp [new]
  filling := fun h => by simp [new] at h
  queue := fun p h => by simp [new] at h

@[simp] theorem pending_new (sockfd : ℤ) (u : Uninit) : (new sockfd u).pending = [] := by
  simp [new, pending]

@[simp] theorem packets_new (sockfd : ℤ) (u : Uninit) : (new sockfd u).packets = [] := rfl

theorem wf_reset (s : BufferedTcpSocket) : s.reset.Wf where
  index_lt := fun _ => by simp [reset]
  filling := fun h => by simp [reset] at h
  queue := fun p h => by simp [reset] at h

@[simp] theorem pending_reset (s : BufferedTcpSocket) : s.reset.pending = [] := by
  simp [reset, pending]

@[simp] theorem packets_reset (s : BufferedTcpSocket) : s.reset.packets = [] := rfl

theorem pending_of_filling {s : BufferedTcpSocket} {a : ℕ} (hr : s.sizeRead = true)
    (h : s.Filling a) : s.pending = beBytes 4 s.bufferSize.toNat ++
      (s.array a).take (s.bufferSize.toNat - s.expectedSize.toNat) := by
  rw [pending, if_pos hr, h.current]
  rfl

theorem length_pending_of_filling {s : BufferedTcpSocket} {a : ℕ} (hr : s.sizeRead = true)
    (h : s.Filling a) :
    s.pending.length = 4 + (s.bufferSize.toNat - s.expectedSize.toNat) := by
  have := h.length
  rw [pending_of_filling hr h, List.length_append, length_beBytes, List.length_take]
  omega

theorem length_pending_of_header {s : BufferedTcpSocket} (h : s.Wf) (hr : s.sizeRead = false) :
    s.pending.length = s.readSizeIndex.toNat := by
  have := h.index_lt hr
  simp only [pending, hr, Bool.false_eq_true, ↓reduceIte, List.length_take, length_wordBytes]
  omega

theorem announced_of_filling {s : BufferedTcpSocket} {a : ℕ} (hr : s.sizeRead = true)
    (h : s.Filling a) (buf : Bytes) :
    framing.announced (s.pending ++ buf) = s.bufferSize.toNat := by
  have hlt : s.bufferSize.toNat < 256 ^ 4 :=
    h.size_le.trans_lt (by norm_num [maxPacketSize])
  rw [pending_of_filling hr h, List.append_assoc, Framing.announced,
    show framing.width = 4 from rfl, List.take_left' (length_beBytes _ _), ofBeBytes_beBytes hlt]

/-- What is pending is less than a header, or the header of a frame within the limit and less than
that frame. -/
theorem pending_short {s : BufferedTcpSocket} (h : s.Wf) : s.pending.length < framing.width ∨
    framing.announced s.pending ≤ framing.limit ∧
      s.pending.length < framing.width + max (framing.announced s.pending) 1 := by
  rw [show framing.width = 4 from rfl]
  rcases hr : s.sizeRead with _ | _
  · rw [length_pending_of_header h hr]
    exact .inl (h.index_lt hr)
  · obtain ⟨a, ha⟩ := h.filling hr
    have hann := announced_of_filling hr ha []
    have hle := ha.expected_le
    have hwaits := ha.waits
    rw [List.append_nil] at hann
    rw [length_pending_of_filling hr ha, hann]
    exact .inr ⟨ha.size_le, by omega⟩

theorem next?_pending {s : BufferedTcpSocket} (h : s.Wf) : framing.next? s.pending = none := by
  rw [Framing.next?, if_neg]
  rintro ⟨-, hle⟩
  rcases pending_short h with hlt | ⟨-, hlt⟩ <;> omega

theorem not_oversize_pending {s : BufferedTcpSocket} (h : s.Wf) :
    ¬ framing.Oversize s.pending := by
  rintro ⟨hle, hbig⟩
  rcases pending_short h with hlt | ⟨hlimit, -⟩ <;> omega

theorem headerCopy_eq {s : BufferedTcpSocket} (h : s.readSizeIndex.toNat < 4) (size : ℕ) :
    s.headerCopy size = min size (4 - s.readSizeIndex.toNat) := by
  have hroom : (4 - s.readSizeIndex.toUInt64 : UInt64).toNat = 4 - s.readSizeIndex.toNat := by
    rw [UInt64.toNat_sub_of_le]
    · simp
    · rw [UInt64.le_iff_toNat_le]
      simp
      omega
  unfold headerCopy
  dsimp only
  rw [hroom]
  split_ifs <;> omega

theorem take_header {v : UInt32} {i : ℕ} {src : Bytes} (h : i + src.length ≤ 4) :
    (wordBytes (word (overwrite (wordBytes v) i src))).take (i + src.length)
      = (wordBytes v).take i ++ src := by
  have hlen : (overwrite (wordBytes v) i src).length = 4 := by
    rw [length_overwrite (by simpa using h), length_wordBytes]
  rw [wordBytes_word hlen, take_overwrite (by simp; omega)]

theorem toNat_index_add {i : UInt8} {n : ℕ} (h : i.toNat + n ≤ 4) :
    (i + UInt8.ofNat n).toNat = i.toNat + n := by
  rw [UInt8.toNat_add, UInt8.toNat_ofNat']
  omega

theorem readSize_of_short {s : BufferedTcpSocket} {buf : Bytes}
    (hi : s.readSizeIndex.toNat + buf.length < 4) :
    s.readSize buf = (.packetNotReady, { s with
      expectedSize := word (overwrite (wordBytes s.expectedSize) s.readSizeIndex.toNat buf)
      readSizeIndex := s.readSizeIndex + UInt8.ofNat buf.length }, []) := by
  have hcopy : s.headerCopy buf.length = buf.length := by
    rw [headerCopy_eq (by omega)]
    omega
  have hne : s.readSizeIndex + UInt8.ofNat buf.length ≠ 4 := by
    intro h4
    have hidx := toNat_index_add (i := s.readSizeIndex) (n := buf.length) (by omega)
    rw [h4, show (4 : UInt8).toNat = 4 from rfl] at hidx
    omega
  unfold readSize
  dsimp only
  rw [hcopy, List.take_length, List.drop_length, if_neg hne]

/-- The word that a header makes, of which `src` are the last bytes. -/
def headerWord (s : BufferedTcpSocket) (src : Bytes) : UInt32 :=
  word (overwrite (wordBytes s.expectedSize) s.readSizeIndex.toNat src)

/-- What a complete header makes of a socket. -/
def sized (s : BufferedTcpSocket) (v : UInt32) : BufferedTcpSocket :=
  { s with
    bufferSize := ntohl v
    expectedSize := ntohl v
    sizeRead := true
    readSizeIndex := 4 }

/-- A socket with a new array for a packet. -/
def allocated (s : BufferedTcpSocket) : BufferedTcpSocket :=
  { s with
    currentBuffer := some s.arrays.length
    arrays := s.arrays ++ [List.replicate s.bufferSize.toNat s.fill] }

theorem readSize_of_long {s : BufferedTcpSocket} {buf : Bytes} (hlt : s.readSizeIndex.toNat < 4)
    (hi : 4 ≤ s.readSizeIndex.toNat + buf.length) :
    s.readSize buf =
      if (ntohl (s.headerWord (buf.take (4 - s.readSizeIndex.toNat)))).toNat > maxPacketSize then
        (.packetTooBig, s.sized (s.headerWord (buf.take (4 - s.readSizeIndex.toNat))),
          buf.drop (4 - s.readSizeIndex.toNat))
      else
        (.packetNotReady, (s.sized (s.headerWord (buf.take (4 - s.readSizeIndex.toNat)))).allocated,
          buf.drop (4 - s.readSizeIndex.toNat)) := by
  have hcopy : s.headerCopy buf.length = 4 - s.readSizeIndex.toNat := by
    rw [headerCopy_eq hlt]
    omega
  have h4 : s.readSizeIndex + UInt8.ofNat (4 - s.readSizeIndex.toNat) = 4 := by
    apply UInt8.toNat_inj.mp
    rw [toNat_index_add (by omega), show (4 : UInt8).toNat = 4 from rfl]
    omega
  unfold readSize headerWord
  dsimp only
  rw [hcopy, h4, if_pos rfl]
  split_ifs <;> rfl

/-- The bytes of a header are those that were pending and those that have come. -/
theorem wordBytes_headerWord {s : BufferedTcpSocket} (hr : s.sizeRead = false) {src : Bytes}
    (h : s.readSizeIndex.toNat + src.length = 4) :
    wordBytes (s.headerWord src) = s.pending ++ src := by
  have hhead := @take_header s.expectedSize s.readSizeIndex.toNat src h.le
  rw [h, List.take_of_length_le (by simp)] at hhead
  rw [headerWord, hhead, pending, hr]
  rfl

section Allocated

variable {s : BufferedTcpSocket} (h : s.Wf) {v : UInt32}
include h

theorem wf_allocated (hv : (ntohl v).toNat ≤ maxPacketSize) : (s.sized v).allocated.Wf := by
  refine ⟨fun hf => by simp [allocated, sized] at hf, fun _ => ⟨s.arrays.length, ?_⟩, ?_⟩
  · constructor
    · rfl
    · simp [allocated, sized]
    · simp [allocated, sized, array]
    · exact hv
    · exact le_rfl
    · exact id
    · exact fun p hp => (h.queue p hp).1.ne
  · intro p hp
    obtain ⟨hlt, hlen⟩ := h.queue p hp
    refine ⟨hlt.trans (by simp [allocated, sized]), ?_⟩
    rw [← hlen, array, array, allocated, sized, List.getD_append _ _ _ _ hlt]

theorem packets_allocated : (s.sized v).allocated.packets = s.packets := by
  refine List.map_congr_left fun p hp => ?_
  simp only [packetBytes, array, allocated, sized]
  rw [List.getD_append _ _ _ _ (h.queue p hp).1]

omit h in
theorem pending_allocated : (s.sized v).allocated.pending = wordBytes v := by
  simp only [pending, allocated, sized, ↓reduceIte, Nat.sub_self, List.take_zero, List.append_nil]
  have hbytes := beBytes_ofBeBytes (wordBytes v)
  rwa [length_wordBytes, ← toNat_ntohl] at hbytes

end Allocated

/-- Reading a header either finds it too big, or leaves a decoder that stands for the same bytes. -/
theorem readSize_spec {s : BufferedTcpSocket} (h : s.Wf) (hr : s.sizeRead = false) (buf : Bytes) :
    ((s.readSize buf).1 = .packetTooBig ∧ framing.Oversize (s.pending ++ buf)) ∨
    ((s.readSize buf).1 = .packetNotReady ∧ (s.readSize buf).2.1.Wf ∧
      (s.readSize buf).2.1.packets = s.packets ∧
      s.pending ++ buf = (s.readSize buf).2.1.pending ++ (s.readSize buf).2.2 ∧
      ((s.readSize buf).2.1.sizeRead = false → (s.readSize buf).2.2 = [])) := by
  have hlt := h.index_lt hr
  by_cases hi : s.readSizeIndex.toNat + buf.length < 4
  · refine .inr ?_
    have hidx : (s.readSizeIndex + UInt8.ofNat buf.length).toNat =
        s.readSizeIndex.toNat + buf.length := toNat_index_add hi.le
    rw [readSize_of_short hi]
    refine ⟨rfl, ⟨fun _ => ?_, fun h0 => ?_, h.queue⟩, rfl, ?_, fun _ => rfl⟩
    · rwa [hidx]
    · rw [hr] at h0
      simp at h0
    · simp only [pending, hr, Bool.false_eq_true, ↓reduceIte, List.append_nil]
      rw [hidx, take_header hi.le]
  · set n := 4 - s.readSizeIndex.toNat with hn
    have hlen : s.readSizeIndex.toNat + (buf.take n).length = 4 := by
      rw [List.length_take]
      omega
    have hbytes := wordBytes_headerWord hr hlen
    have hwhole : s.pending ++ buf = wordBytes (s.headerWord (buf.take n)) ++ buf.drop n := by
      rw [hbytes, List.append_assoc, List.take_append_drop]
    rw [readSize_of_long hlt (not_lt.1 hi), ← hn, hwhole]
    split_ifs with hbig
    · refine .inl ⟨rfl, by simp [framing], ?_⟩
      rw [Framing.announced, show framing.width = 4 from rfl, List.take_left' (by simp),
        ← toNat_ntohl]
      exact hbig
    · refine .inr ⟨rfl, wf_allocated h (not_lt.1 hbig), packets_allocated h, ?_, ?_⟩
      · rw [pending_allocated]
      · exact fun hf => by simp [allocated, sized] at hf

theorem copyToCurrent_eq {s : BufferedTcpSocket} {a : ℕ} (h : s.currentBuffer = some a) (off : ℕ)
    (src : Bytes) : s.copyToCurrent off src =
      { s with arrays := s.arrays.set a (overwrite (s.array a) off src) } := by
  simp [copyToCurrent, h]

theorem getD_set_self {l : List Bytes} {a : ℕ} (h : a < l.length) (v : Bytes) :
    (l.set a v).getD a [] = v := by
  simp [List.getD_eq_getElem?_getD, h]

theorem getD_set_ne {l : List Bytes} {a b : ℕ} (h : b ≠ a) (v : Bytes) :
    (l.set a v).getD b [] = l.getD b [] := by
  simp [List.getD_eq_getElem?_getD, List.getElem?_set_ne h.symm]

/-- A socket with `src` put behind what there is of the packet in the array `a`. -/
def stored (s : BufferedTcpSocket) (a : ℕ) (src : Bytes) : BufferedTcpSocket :=
  { s with
    arrays := s.arrays.set a (overwrite (s.array a) (s.bufferSize - s.expectedSize).toNat src)
    expectedSize := s.expectedSize - UInt32.ofNat src.length }

/-- A socket with the array `a` handed on as a packet. -/
def handedOn (s : BufferedTcpSocket) (a : ℕ) : BufferedTcpSocket :=
  { s with
    packetQueue := s.packetQueue ++ [⟨s.bufferSize, a⟩]
    sizeRead := false
    readSizeIndex := 0 }

theorem toNat_missing {s : BufferedTcpSocket} {n : ℕ} (h : n ≤ s.expectedSize.toNat) :
    (s.expectedSize - UInt32.ofNat n).toNat = s.expectedSize.toNat - n := by
  have hofNat : (UInt32.ofNat n).toNat = n := by
    rw [UInt32.toNat_ofNat', Nat.mod_eq_of_lt (h.trans_lt s.expectedSize.toNat_lt)]
  rw [UInt32.toNat_sub_of_le _ _ (UInt32.le_iff_toNat_le.2 (by omega)), hofNat]

section Stored

variable {s : BufferedTcpSocket} {a : ℕ} {buf src : Bytes}

@[simp] theorem sizeRead_stored : (s.stored a src).sizeRead = s.sizeRead := rfl

@[simp] theorem bufferSize_stored : (s.stored a src).bufferSize = s.bufferSize := rfl

theorem expectedSize_stored (h : src.length ≤ s.expectedSize.toNat) :
    (s.stored a src).expectedSize.toNat = s.expectedSize.toNat - src.length :=
  toNat_missing h

theorem readPayload_of_short (hcurr : s.currentBuffer = some a)
    (hE : buf.length < s.expectedSize.toNat) :
    s.readPayload buf = (.packetNotReady, s.stored a buf, []) := by
  have hne : s.expectedSize - UInt32.ofNat buf.length ≠ 0 := by
    intro h0
    have hsub := toNat_missing hE.le
    rw [h0, show (0 : UInt32).toNat = 0 from rfl] at hsub
    omega
  have hn : (if buf.length > s.expectedSize.toNat then s.expectedSize.toNat else buf.length)
      = buf.length := if_neg (by omega)
  unfold readPayload
  dsimp only
  rw [hn, List.take_length, List.drop_length, copyToCurrent_eq hcurr, if_neg hne]
  rfl

theorem readPayload_of_long (hcurr : s.currentBuffer = some a)
    (hE : s.expectedSize.toNat ≤ buf.length) :
    s.readPayload buf = (.bufferWritten, (s.stored a (buf.take s.expectedSize.toNat)).handedOn a,
      buf.drop s.expectedSize.toNat) := by
  have hn : (if buf.length > s.expectedSize.toNat then s.expectedSize.toNat else buf.length)
      = s.expectedSize.toNat := by
    split_ifs <;> omega
  have htake : (buf.take s.expectedSize.toNat).length = s.expectedSize.toNat := by
    rw [List.length_take, min_eq_left hE]
  have hnone : s.expectedSize - UInt32.ofNat s.expectedSize.toNat = 0 := by
    rw [UInt32.ofNat_toNat, sub_self]
  unfold readPayload stored handedOn
  dsimp only
  rw [hn, htake, copyToCurrent_eq hcurr, if_pos hnone]
  simp only [hcurr, Option.getD_some]

variable (h : s.Wf) (ha : s.Filling a)
include ha

theorem Filling.toNat_off : (s.bufferSize - s.expectedSize).toNat =
    s.bufferSize.toNat - s.expectedSize.toNat :=
  UInt32.toNat_sub_of_le _ _ (UInt32.le_iff_toNat_le.2 ha.expected_le)

theorem Filling.array_stored : (s.stored a src).array a =
    overwrite (s.array a) (s.bufferSize.toNat - s.expectedSize.toNat) src := by
  rw [← ha.toNat_off]
  exact getD_set_self ha.lt _

theorem Filling.length_stored (hsrc : src.length ≤ s.expectedSize.toNat) :
    ((s.stored a src).array a).length = s.bufferSize.toNat := by
  have := ha.expected_le
  rw [ha.array_stored, Memory.length_overwrite (by rw [ha.length]; omega), ha.length]

theorem Filling.take_stored : ((s.stored a src).array a).take
    (s.bufferSize.toNat - s.expectedSize.toNat + src.length) =
      (s.array a).take (s.bufferSize.toNat - s.expectedSize.toNat) ++ src := by
  rw [ha.array_stored, take_overwrite (by rw [ha.length]; omega)]

include h in
theorem Filling.queue_stored : ∀ p ∈ s.packetQueue, p.data < (s.stored a src).arrays.length ∧
    ((s.stored a src).array p.data).length = p.size.toNat ∧
    (s.stored a src).packetBytes p = s.packetBytes p := by
  intro p hp
  have hother : (s.stored a src).array p.data = s.array p.data := getD_set_ne (ha.notMem p hp) _
  rw [stored, List.length_set, ← stored, packetBytes, hother, packetBytes]
  exact ⟨(h.queue p hp).1, (h.queue p hp).2, rfl⟩

include h in
theorem Filling.packets_stored : (s.stored a src).packets = s.packets :=
  List.map_congr_left fun p hp => (ha.queue_stored h p hp).2.2

theorem filling_stored (hsrc : src.length < s.expectedSize.toNat) : (s.stored a src).Filling a := by
  have hmissing := expectedSize_stored (a := a) hsrc.le
  have hle := ha.expected_le
  constructor
  · exact ha.current
  · simpa [stored] using ha.lt
  · exact ha.length_stored hsrc.le
  · exact ha.size_le
  · rw [hmissing, bufferSize_stored]
    omega
  · rw [hmissing, bufferSize_stored]
    omega
  · exact ha.notMem

end Stored

/-- Reading the bytes of a packet either takes all there are, or finishes the frame that the
pending bytes and the chunk start with. -/
theorem readPayload_spec {s : BufferedTcpSocket} (h : s.Wf) (hr : s.sizeRead = true) {buf : Bytes}
    (hbuf : buf ≠ []) :
    ((s.readPayload buf).1 = .packetNotReady ∧ (s.readPayload buf).2.1.Wf ∧
      (s.readPayload buf).2.1.packets = s.packets ∧
      (s.readPayload buf).2.1.pending = s.pending ++ buf ∧ (s.readPayload buf).2.2 = []) ∨
    (∃ p, (s.readPayload buf).1 = .bufferWritten ∧ (s.readPayload buf).2.1.Wf ∧
      (s.readPayload buf).2.1.packets = s.packets ++ [p] ∧
      (s.readPayload buf).2.1.pending = [] ∧
      framing.next? (s.pending ++ buf) = some (p, (s.readPayload buf).2.2)) := by
  obtain ⟨a, ha⟩ := h.filling hr
  have hpend := pending_of_filling hr ha
  have hle := ha.expected_le
  by_cases hE : buf.length < s.expectedSize.toNat
  · refine .inl ?_
    have hfill := filling_stored ha hE
    rw [readPayload_of_short ha.current hE]
    refine ⟨rfl, ⟨fun hf => ?_, fun _ => ⟨a, hfill⟩, fun p hp => ?_⟩, ha.packets_stored h, ?_, rfl⟩
    · rw [sizeRead_stored, hr] at hf
      simp at hf
    · obtain ⟨hlt, hlen, -⟩ := ha.queue_stored h p hp
      exact ⟨hlt, hlen⟩
    · have htake : s.bufferSize.toNat - (s.expectedSize.toNat - buf.length) =
          s.bufferSize.toNat - s.expectedSize.toNat + buf.length := by omega
      rw [pending_of_filling (show (s.stored a buf).sizeRead = true from hr) hfill,
        expectedSize_stored hE.le, bufferSize_stored, htake, ha.take_stored, hpend,
        List.append_assoc]
  · have hE := not_lt.1 hE
    set src := buf.take s.expectedSize.toNat with hsrc
    have hlen : src.length = s.expectedSize.toNat := by
      rw [hsrc, List.length_take, min_eq_left hE]
    have hfull : ((s.stored a src).array a).take s.bufferSize.toNat =
        (s.array a).take (s.bufferSize.toNat - s.expectedSize.toNat) ++ src := by
      rw [← ha.take_stored, hlen, Nat.sub_add_cancel hle]
    refine .inr ⟨((s.stored a src).array a).take s.bufferSize.toNat, ?_⟩
    rw [readPayload_of_long ha.current hE]
    refine ⟨rfl, ⟨fun _ => by simp [handedOn], fun hf => by simp [handedOn] at hf, fun p hp => ?_⟩,
      ?_, by simp [pending, handedOn], ?_⟩
    · rcases List.mem_append.1 hp with hp | hp
      · obtain ⟨hlt, hlen', -⟩ := ha.queue_stored h p hp
        exact ⟨hlt, hlen'⟩
      · obtain rfl := List.mem_singleton.1 hp
        exact ⟨by simpa [stored, handedOn] using ha.lt, ha.length_stored hlen.le⟩
    · rw [packets, handedOn, List.map_append, ← ha.packets_stored h]
      rfl
    · rw [Framing.next?_eq_some_iff, hpend, Framing.enc, show framing.width = 4 from rfl,
        List.length_take, ha.length_stored hlen.le, min_self, hfull]
      refine ⟨?_, ha.size_le, fun hnil => ?_⟩
      · simp only [hsrc, List.append_assoc, List.take_append_drop]
      · rw [(List.append_eq_nil_iff.1 hnil).2, List.length_nil] at hlen
        rw [← hlen, List.drop_zero]
        exact hbuf

/-- A round of the loop of `read` finds a header too big, takes all the bytes into the unfinished
frame, or finishes the first frame. -/
theorem readCurrentPacket_spec {s : BufferedTcpSocket} (h : s.Wf) {buf : Bytes} (hbuf : buf ≠ []) :
    ((s.readCurrentPacket buf).1 = .packetTooBig ∧ framing.Oversize (s.pending ++ buf)) ∨
    ((s.readCurrentPacket buf).1 ≠ .packetTooBig ∧ (s.readCurrentPacket buf).2.1.Wf ∧
      (s.readCurrentPacket buf).2.1.packets = s.packets ∧
      (s.readCurrentPacket buf).2.1.pending = s.pending ++ buf ∧
      (s.readCurrentPacket buf).2.2 = []) ∨
    (∃ p, (s.readCurrentPacket buf).1 ≠ .packetTooBig ∧ (s.readCurrentPacket buf).2.1.Wf ∧
      (s.readCurrentPacket buf).2.1.packets = s.packets ++ [p] ∧
      (s.readCurrentPacket buf).2.1.pending = [] ∧
      framing.next? (s.pending ++ buf) = some (p, (s.readCurrentPacket buf).2.2)) := by
  rcases hr : s.sizeRead with _ | _
  · have hsize := readSize_spec h hr buf
    rcases hx : s.readSize buf with ⟨ret, s₁, buf₁⟩
    rw [hx] at hsize
    simp only [readCurrentPacket, hr, hx, Bool.false_eq_true, ↓reduceIte]
    rcases hsize with ⟨hbig, hover⟩ | ⟨hret, hwf, hpk, hpend, hnil⟩
    · refine .inl ?_
      rw [if_pos hbig]
      exact ⟨rfl, hover⟩
    · refine .inr ?_
      simp only at hret hwf hpk hpend hnil
      rw [if_neg (by rw [hret]; simp)]
      by_cases h0 : buf₁ = []
      · refine .inl ?_
        rw [if_pos (by rw [h0]; rfl)]
        refine ⟨by simp, hwf, hpk, ?_, h0⟩
        rw [hpend, h0, List.append_nil]
      · rw [if_neg (by simpa using h0)]
        have hr₁ : s₁.sizeRead = true := by
          rw [← Bool.not_eq_false]
          exact fun hf => h0 (hnil hf)
        rw [hpend, ← hpk]
        rcases readPayload_spec hwf hr₁ h0 with ⟨hc, hrest⟩ | ⟨p, hc, hrest⟩
        · exact .inl ⟨by rw [hc]; simp, hrest⟩
        · exact .inr ⟨p, by rw [hc]; simp, hrest⟩
  · simp only [readCurrentPacket, hr, ↓reduceIte]
    rcases readPayload_spec h hr hbuf with ⟨hc, hrest⟩ | ⟨p, hc, hrest⟩
    · exact .inr (.inl ⟨by rw [hc]; simp, hrest⟩)
    · exact .inr (.inr ⟨p, by rw [hc]; simp, hrest⟩)

/-- What reading `buf` makes of `s`: the frames `buf` completes are queued, up to a header that is
too big, which clears the decoder. -/
def ReadResult (s : BufferedTcpSocket) (buf : Bytes) (r : Code × BufferedTcpSocket) : Prop :=
  if framing.Oversize (framing.cut (s.pending ++ buf)).2 then
    r.1 = .packetTooBig ∧ r.2.Wf ∧ r.2.packets = [] ∧ r.2.pending = []
  else
    r.1 = .bufferRead ∧ r.2.Wf ∧
      r.2.packets = s.packets ++ (framing.cut (s.pending ++ buf)).1 ∧
      r.2.pending = (framing.cut (s.pending ++ buf)).2

theorem readLoop_spec : ∀ (fuel : ℕ) {s : BufferedTcpSocket} {buf : Bytes}
    {r : Code × BufferedTcpSocket}, s.Wf → readLoop fuel s buf = some r → ReadResult s buf r
  | 0, s, buf, r, _, hr => by simp [readLoop] at hr
  | fuel + 1, s, buf, r, h, hr => by
    simp only [readLoop, List.length_eq_zero_iff] at hr
    by_cases hbuf : buf = []
    · rw [if_pos hbuf, Option.some.injEq] at hr
      subst hr hbuf
      rw [ReadResult, List.append_nil, Framing.cut_of_none _ (next?_pending h),
        if_neg (not_oversize_pending h)]
      exact ⟨rfl, h, (List.append_nil _).symm, rfl⟩
    · rw [if_neg hbuf] at hr
      rcases readCurrentPacket_spec h hbuf with ⟨hbig, hover⟩ | ⟨hret, hwf, hpk, hpend, hnil⟩ |
        ⟨p, hret, hwf, hpk, hpend, hnext⟩
      · rw [if_pos hbig, Option.some.injEq] at hr
        subst hr
        rw [ReadResult, Framing.cut_of_none _ (Framing.next?_eq_none_of_oversize _ hover),
          if_pos hover]
        exact ⟨rfl, wf_reset _, packets_reset _, pending_reset _⟩
      · rw [if_neg hret] at hr
        have ih := readLoop_spec fuel hwf hr
        rwa [ReadResult, hpk, hpend, hnil, List.append_nil] at ih
      · rw [if_neg hret] at hr
        have ih := readLoop_spec fuel hwf hr
        rw [ReadResult, hpk, hpend, List.nil_append] at ih
        rw [ReadResult, Framing.cut_of_some _ hnext]
        simpa using ih

theorem read_spec {s : BufferedTcpSocket} (h : s.Wf) (buf : Bytes) :
    ReadResult s buf (s.read buf) :=
  readLoop_spec _ h (Option.some_get _).symm

theorem wf_read {s : BufferedTcpSocket} (h : s.Wf) (buf : Bytes) : (s.read buf).2.Wf := by
  have := read_spec h buf
  unfold ReadResult at this
  split_ifs at this
  · exact this.2.1
  · exact this.2.1

theorem writePacket_of_cons {s : BufferedTcpSocket} (h : s.Wf) {p : PackT} {q : List PackT}
    (hq : s.packetQueue = p :: q) :
    s.writePacket = ((s.packetBytes p).length, s.packetBytes p, { s with packetQueue := q }) := by
  have hp := (h.queue p (by rw [hq]; exact List.mem_cons_self)).2
  have hlen : (s.packetBytes p).length = p.size.toNat := by
    rw [packetBytes, List.length_take, hp, min_self]
  simp only [writePacket, hq, hlen]
  rfl

theorem wf_writePacket {s : BufferedTcpSocket} (h : s.Wf) : s.writePacket.2.2.Wf := by
  rcases hq : s.packetQueue with _ | ⟨p, q⟩
  · simpa [writePacket, hq] using h
  · rw [writePacket_of_cons h hq]
    have hsub : ∀ x ∈ q, x ∈ s.packetQueue := by
      intro x hx
      rw [hq]
      exact List.mem_cons_of_mem _ hx
    refine ⟨h.index_lt, fun hr => ?_, fun x hx => h.queue x (hsub x hx)⟩
    obtain ⟨a, ha⟩ := h.filling hr
    exact ⟨a, { ha with notMem := fun x hx => ha.notMem x (hsub x hx) }⟩

theorem length_take_pos {bytes : Bytes} (h : bytes ≠ []) :
    0 < (bytes.take tcpBufferSize).length := by
  have := List.length_pos_iff.2 h
  rw [List.length_take, tcpBufferSize]
  omega

theorem recv_of_ne_nil (s : BufferedTcpSocket) {bytes : Bytes} (h : bytes ≠ []) :
    s.recv (some bytes) = if (s.read (bytes.take tcpBufferSize)).1 = .packetTooBig
      then (0, Code.packetTooBig, (s.read (bytes.take tcpBufferSize)).2)
      else (((bytes.take tcpBufferSize).length : ℤ), Code.bufferWritten,
        (s.read (bytes.take tcpBufferSize)).2) := by
  have hne : bytes.take tcpBufferSize ≠ [] := by simpa [tcpBufferSize] using h
  unfold recv
  rw [Option.map_some]
  split
  · rename_i hx
    simp at hx
  · rename_i hx
    exact absurd (Option.some.inj hx) hne
  · rename_i buffer _ hx
    rw [Option.some.inj hx]

theorem packetReady_eq_false {s : BufferedTcpSocket} : s.packetReady = false ↔ s.packets = [] := by
  simp [packetReady, packets]

end BufferedTcpSocket

end NewsServer
