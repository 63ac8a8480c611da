import NewsServer.Subscriber

/-!
# The news codec

The server puts the sender of a datagram before its bytes, and the subscriber takes the packet
apart again: it gets back the sender, the topic and the value (`parseSubscriberNews_sendable`).

Neither side looks at the length of a datagram. Topic and value are read within the packet exactly
where the datagram has a NUL, its whole header, and the bytes its data type needs
(`accesses_within_iff`).
-/

namespace NewsServer

open Memory

section Layout

variable (saddr : SockaddrIn) (d beyond : Bytes)

@[simp] theorem size_getSendableNews : (getSendableNews d saddr).size = 6 + d.length := rfl

theorem take_addr :
    ((getSendableNews d saddr).data ++ beyond).take 4 = wordBytes saddr.sinAddr := by
  simp only [getSendableNews, List.append_assoc]
  exact List.take_left' (length_wordBytes _)

theorem take_port : (((getSendableNews d saddr).data ++ beyond).drop 4).take 2
    = halfBytes (htons saddr.sinPort) := by
  simp only [getSendableNews, List.append_assoc]
  rw [List.drop_left' (length_wordBytes _), List.take_left' (length_halfBytes _)]

theorem drop_sender : ((getSendableNews d saddr).data ++ beyond).drop (4 + 2) = d ++ beyond := by
  simp only [getSendableNews, List.append_assoc]
  rw [← List.drop_drop, List.drop_left' (length_wordBytes _), List.drop_left' (length_halfBytes _)]

end Layout

theorem half_port (saddr : SockaddrIn) (d beyond : Bytes) :
    half ((((getSendableNews d saddr).data ++ beyond).drop 4).take 2) = htons saddr.sinPort := by
  rw [take_port, half_halfBytes]

theorem cstr_topic_field {F : Bytes} (rest : Bytes) (hF : F.length = topicLen) :
    cstr ((F ++ rest).take topicLen ++ [0]) = cstr F := by
  rw [List.take_left' hF]
  by_cases h : 0 ∈ F
  · obtain ⟨s, r, rfl, hs⟩ := List.eq_append_cons_of_mem h
    rw [List.append_assoc, List.cons_append, cstr_append_nul hs, cstr_append_nul hs]
  · rw [cstr_append_nul h, cstr_of_notMem h]

section Values

variable {saddr : SockaddrIn} {F : Bytes} {type : UInt8} {p beyond : Bytes}

theorem drop_header (hF : F.length = topicLen) :
    ((getSendableNews (F ++ type :: p) saddr).data ++ beyond).drop (4 + 2 + topicLen + 1)
      = p ++ beyond := by
  rw [Nat.add_assoc (4 + 2), ← List.drop_drop, drop_sender, ← List.drop_drop, List.append_assoc,
    List.drop_left' hF, List.cons_append, List.drop_succ_cons, List.drop_zero]

theorem headD_type (hF : F.length = topicLen) :
    (((getSendableNews (F ++ type :: p) saddr).data ++ beyond).drop (4 + 2 + topicLen)).headD 0
      = type := by
  rw [← List.drop_drop, drop_sender, List.append_assoc, List.drop_left' hF, List.cons_append,
    List.headD_cons]

theorem toNat_size_left (hF : F.length = topicLen) (hp : p.length < 2 ^ 63) :
    (UInt64.ofNat (getSendableNews (F ++ type :: p) saddr).size - 4 - 2 - UInt64.ofNat topicLen
      - 1).toNat = p.length := by
  have hsize : (getSendableNews (F ++ type :: p) saddr).size = p.length + 57 := by
    rw [size_getSendableNews, List.length_append, List.length_cons, hF, topicLen]
    omega
  have h57 : UInt64.ofNat (p.length + 57) - 4 - 2 - UInt64.ofNat topicLen - 1
      = UInt64.ofNat p.length := by
    rw [UInt64.ofNat_add, topicLen]
    grind
  rw [hsize, h57, UInt64.toNat_ofNat_of_lt' (by rw [UInt64.size]; omega)]

variable (R : RealText) (news : SubscriberNews)

/-- Whatever the data type is, what is parsed shows the sender and the topic. -/
theorem parseSubscriberNews_sender {mem : Bytes} {size : UInt64} {n : SubscriberNews}
    (h : (parseSubscriberNews R mem size news).1 = some n) :
    n.addr = inetNtoa (mem.take 4) ∧ n.port = decimal (half ((mem.drop 4).take 2)).toNat ∧
      n.topic = (mem.drop (4 + 2)).take topicLen ++ [0] := by
  unfold parseSubscriberNews parseHeader at h
  dsimp only at h
  split_ifs at h <;> simp only [Option.some.injEq] at h <;> subst h <;>
    exact ⟨rfl, rfl, rfl⟩

theorem parseSubscriberNews_isSome (hF : F.length = topicLen) (hp : p.length < 2 ^ 63) :
    ∃ n, (parseSubscriberNews R ((getSendableNews (F ++ type :: p) saddr).data ++ beyond)
      (UInt64.ofNat (getSendableNews (F ++ type :: p) saddr).size) news).1 = some n := by
  have hsize := @toNat_size_left saddr F type p hF hp
  unfold parseSubscriberNews parseHeader
  dsimp only
  split_ifs with h0 hs h1 h2 h3 hbig
  · exact ⟨_, rfl⟩
  · exact ⟨_, rfl⟩
  · exact ⟨_, rfl⟩
  · exact ⟨_, rfl⟩
  · have h63 : (2 ^ 63 : UInt64).toNat = 2 ^ 63 := by decide +kernel
    have hle := UInt64.le_iff_toNat_le.1 hbig
    rw [hsize, h63] at hle
    exact absurd hp hle.not_gt
  · exact ⟨_, rfl⟩
  · exact ⟨_, rfl⟩

/-- The value of an `INT`: a sign and the four bytes of a number, the highest first. -/
theorem value_int {n : SubscriberNews} {s : UInt8} {v : ℕ} {rest : Bytes} {size : UInt64}
    (hF : F.length = topicLen) (htype : type = dataTypeInt) (hv : v < 2 ^ 32)
    (hp : p = s :: (beBytes 4 v ++ rest))
    (h : (parseSubscriberNews R ((getSendableNews (F ++ type :: p) saddr).data ++ beyond)
      size news).1 = some n) :
    n.value = decimal (if s = 0 then v else -v) := by
  have hbytes : ((p ++ beyond).drop 1).take 4 = beBytes 4 v := by
    rw [hp, List.cons_append, List.drop_succ_cons, List.drop_zero, List.append_assoc,
      List.take_left' (length_beBytes _ _)]
  have hval : (ntohl (word (beBytes 4 v))).toNat = v := by
    rw [toNat_ntohl_word (length_beBytes _ _), ofBeBytes_beBytes hv]
  have hsign : (p ++ beyond).headD 0 = s := by
    rw [hp, List.cons_append, List.headD_cons]
  unfold parseSubscriberNews parseHeader at h
  dsimp only at h
  rw [headD_type hF, drop_header hF, if_pos htype, hbytes, hval, hsign] at h
  obtain rfl := Option.some.inj h
  rcases eq_or_ne s 0 with hs | hs
  · simp [hs]
  · simp [hs]

/-- The value of a `STRING` is the rest of the packet, with the NULs in it. -/
theorem value_string {n : SubscriberNews} (hF : F.length = topicLen) (hp : p.length < 2 ^ 63)
    (htype : type = dataTypeString)
    (h : (parseSubscriberNews R ((getSendableNews (F ++ type :: p) saddr).data ++ beyond)
      (UInt64.ofNat (getSendableNews (F ++ type :: p) saddr).size) news).1 = some n) :
    n.value = p := by
  have hsize := @toNat_size_left saddr F type p hF hp
  unfold parseSubscriberNews parseHeader at h
  dsimp only at h
  rw [headD_type hF, drop_header hF, htype, if_neg (by decide), if_neg (by decide),
    if_neg (by decide), if_pos rfl] at h
  split_ifs at h with hbig
  obtain rfl := Option.some.inj h
  rw [htype] at hsize
  rw [hsize, List.take_left]

end Values

/-- What a subscriber shows of a datagram: its sender's address and port, the topic up to the first
NUL of its field, and, for an integer or a string, the value in the payload. -/
theorem parseSubscriberNews_sendable (R : RealText) (a b c d : UInt8) (port : UInt16)
    (F : Bytes) (type : UInt8) (p beyond : Bytes) (news : SubscriberNews)
    (hF : F.length = topicLen) (hp : p.length ≤ 1500) :
    ∃ n, (parseSubscriberNews R
        ((getSendableNews (F ++ type :: p) ⟨word [a, b, c, d], htons port⟩).data ++ beyond)
        (UInt64.ofNat (getSendableNews (F ++ type :: p) ⟨word [a, b, c, d], htons port⟩).size)
        news).1 = some n ∧
      n.addr = decimal a.toNat ++ text "." ++ decimal b.toNat ++ text "." ++ decimal c.toNat
        ++ text "." ++ decimal d.toNat ∧
      n.port = decimal port.toNat ∧ cstr n.topic = cstr F ∧
      (type = dataTypeInt → ∀ s v rest, v < 2 ^ 32 → p = s :: (beBytes 4 v ++ rest) →
        n.value = decimal (if s = 0 then (v : ℤ) else -v)) ∧
      (type = dataTypeString → n.value = p) := by
  have hp' : p.length < 2 ^ 63 := by omega
  obtain ⟨n, hn⟩ := parseSubscriberNews_isSome R news hF hp'
  obtain ⟨haddr, hport, htopic⟩ := parseSubscriberNews_sender R news hn
  refine ⟨n, hn, ?_, ?_, ?_, ?_, fun htype => value_string R news hF hp' htype hn⟩
  · rw [haddr, take_addr, wordBytes_word rfl, inetNtoa]
    simp [List.intercalate, List.intersperse]
  · rw [hport, half_port, htons_htons]
  · rw [htopic, drop_sender, List.append_assoc, cstr_topic_field _ hF]
  · intro htype s v rest hv hpv
    exact value_int R news hF htype hv hpv hn

/-- Where no real number is shown. -/
def noReals : RealText where
  shortReal := fun _ => []
  float := fun _ _ _ => []

/-- `-5` on the topic `ab`, from port 80 of 10.0.0.1. -/
theorem parseSubscriberNews_sendable_int :
    ∃ n, (parseSubscriberNews noReals
        ((getSendableNews ([97, 98] ++ List.replicate 48 0 ++ 0 :: [1, 0, 0, 0, 5])
          ⟨word [10, 0, 0, 1], htons 80⟩).data ++ [])
        (UInt64.ofNat (getSendableNews ([97, 98] ++ List.replicate 48 0 ++ 0 :: [1, 0, 0, 0, 5])
          ⟨word [10, 0, 0, 1], htons 80⟩).size) default).1 = some n ∧
      n.port = decimal 80 ∧ cstr n.topic = [97, 98] ∧ n.value = decimal (-5) := by
  obtain ⟨n, hn, -, hport, htopic, hint, -⟩ := parseSubscriberNews_sendable noReals 10 0 0 1 80
    ([97, 98] ++ List.replicate 48 0) 0 [1, 0, 0, 0, 5] [] default (by decide) (by decide)
  refine ⟨n, hn, hport, htopic.trans (by decide), ?_⟩
  rw [hint rfl 1 5 [] (by decide) (by decide), if_neg (by decide)]
  rfl

/-- An access stays within a packet of `n` bytes, and takes no more off `size` than it is. -/
def Access.Within (n : ℕ) : Access → Prop
  | .read off len => off + len ≤ n
  | .shrink size k => k ≤ size

instance (n : ℕ) (a : Access) : Decidable (a.Within n) :=
  match a with
  | .read off len => inferInstanceAs (Decidable (off + len ≤ n))
  | .shrink size k => inferInstanceAs (Decidable (k ≤ size))

@[simp] theorem within_read {n off len : ℕ} : (Access.read off len).Within n ↔ off + len ≤ n :=
  Iff.rfl

/-- The bytes that come behind the header of a data type at least. -/
def valueLen (type : UInt8) : ℕ :=
  if type = dataTypeInt then 5
  else if type = dataTypeShortReal then 2
  else if type = dataTypeFloat then 6
  else 0

/-- A datagram with a NUL in it, a whole header, and the bytes its data type needs. -/
def Complete (d : Bytes) : Prop :=
  0 ∈ d ∧ topicLen + 1 + valueLen ((d.drop topicLen).headD 0) ≤ d.length

instance (d : Bytes) : Decidable (Complete d) :=
  inferInstanceAs (Decidable (_ ∧ _))

theorem length_cstr_lt_iff {d : Bytes} (beyond : Bytes) :
    (cstr (d ++ beyond)).length + 1 ≤ d.length ↔ 0 ∈ d := by
  constructor
  · intro hlt
    by_contra h
    rw [cstr_append_of_notMem h, List.length_append] at hlt
    omega
  · intro h
    obtain ⟨s, r, rfl, hs⟩ := List.eq_append_cons_of_mem h
    rw [List.append_assoc, List.cons_append, cstr_append_nul hs, List.length_append,
      List.length_cons]
    omega

theorem newsTopicReads_within_iff (d beyond : Bytes) (saddr : SockaddrIn) :
    (newsTopicReads (getSendableNews d saddr).data beyond).1
        + (newsTopicReads (getSendableNews d saddr).data beyond).2
      ≤ (getSendableNews d saddr).size ↔ 0 ∈ d := by
  have hdrop := drop_sender saddr d []
  rw [List.append_nil, List.append_nil] at hdrop
  rw [newsTopicReads, getNewsTopic, hdrop, size_getSendableNews, ← length_cstr_lt_iff beyond]
  simp only
  omega

theorem parseHeader_within_iff (mem : Bytes) (n : ℕ) (hn : n < 2 ^ 64) (news : SubscriberNews) :
    (∀ a ∈ (parseHeader mem (UInt64.ofNat n) news).2.2.2, a.Within n) ↔ 57 ≤ n := by
  have hsize : (UInt64.ofNat n).toNat = n := UInt64.toNat_ofNat_of_lt' hn
  simp only [parseHeader, List.forall_mem_cons, List.not_mem_nil, false_implies, implies_true,
    and_true, Access.Within, topicLen, UInt64.le_iff_toNat_le, UInt64.toNat_sub, hsize]
  refine ⟨fun h => h.2.2.2.2.2.2.1, fun h => ?_⟩
  simp only [UInt64.reduceToNat, UInt64.reduceOfNat]
  omega

theorem toNat_size_behind {n : ℕ} (h : 57 ≤ n) (hn : n < 2 ^ 63) :
    (UInt64.ofNat n - 4 - 2 - UInt64.ofNat topicLen - 1).toNat = n - 57 := by
  have hsize : (UInt64.ofNat n).toNat = n := UInt64.toNat_ofNat_of_lt' (by
    rw [UInt64.size]
    omega)
  simp only [topicLen, UInt64.toNat_sub, hsize, UInt64.reduceToNat, UInt64.reduceOfNat]
  omega

/-- The bytes of the value that are read, `size` of them for a string that is not too long. -/
def valueReads (type : UInt8) (size : UInt64) : List Access :=
  if type = dataTypeInt then [.read 57 1, .read 58 4]
  else if type = dataTypeShortReal then [.read 57 2]
  else if type = dataTypeFloat then [.read 57 1, .read 58 4, .read 62 1]
  else if type = dataTypeString ∧ size < 2 ^ 63 then [.read 57 size.toNat]
  else []

theorem parseSubscriberNews_accesses (R : RealText) (mem : Bytes) (size : UInt64)
    (news : SubscriberNews) :
    (parseSubscriberNews R mem size news).2 = (parseHeader mem size news).2.2.2 ++
      valueReads (parseHeader mem size news).2.1 (parseHeader mem size news).2.2.1 := by
  rcases hx : parseHeader mem size news with ⟨news', t, size', acc⟩
  unfold parseSubscriberNews valueReads
  rw [hx]
  dsimp only
  by_cases h0 : t = dataTypeInt
  · rw [if_pos h0, if_pos h0]
    rfl
  rw [if_neg h0, if_neg h0]
  by_cases h1 : t = dataTypeShortReal
  · rw [if_pos h1, if_pos h1]
    rfl
  rw [if_neg h1, if_neg h1]
  by_cases h2 : t = dataTypeFloat
  · rw [if_pos h2, if_pos h2]
    rfl
  rw [if_neg h2, if_neg h2]
  by_cases h3 : t = dataTypeString
  · by_cases hbig : size' ≥ 2 ^ 63
    · rw [if_pos h3, if_pos hbig, if_neg fun h => absurd h.2 (UInt64.not_lt.2 hbig),
        List.append_nil]
    · rw [if_pos h3, if_neg hbig, if_pos ⟨h3, UInt64.not_le.1 hbig⟩]
      rfl
  · rw [if_neg h3, if_neg fun h => h3 h.1, List.append_nil]

theorem valueReads_within_iff {type : UInt8} {size : UInt64} {n : ℕ} (h : 57 ≤ n)
    (hsize : size.toNat = n - 57) :
    (∀ a ∈ valueReads type size, a.Within n) ↔ 57 + valueLen type ≤ n := by
  unfold valueReads valueLen
  split_ifs with h0 h1 h2 h3
  · simp only [List.forall_mem_cons, within_read, List.not_mem_nil, false_implies, implies_true,
      and_true]
    omega
  · simp only [List.forall_mem_cons, within_read, List.not_mem_nil, false_implies, implies_true,
      and_true]
  · simp only [List.forall_mem_cons, within_read, List.not_mem_nil, false_implies, implies_true,
      and_true]
    omega
  · simp only [List.forall_mem_cons, within_read, List.not_mem_nil, false_implies, implies_true,
      and_true]
    omega
  · simpa using h

/-- `parse_subscriber_news` stays within a packet that has, behind its header, the bytes its data
type needs. -/
theorem parseSubscriberNews_within_iff (R : RealText) (mem : Bytes) {n : ℕ} (hn : n < 2 ^ 63)
    (news : SubscriberNews) :
    (∀ a ∈ (parseSubscriberNews R mem (UInt64.ofNat n) news).2, a.Within n) ↔
      57 + valueLen ((mem.drop (4 + 2 + topicLen)).headD 0) ≤ n := by
  rw [parseSubscriberNews_accesses, List.forall_mem_append,
    parseHeader_within_iff mem n (by omega) news]
  constructor
  · rintro ⟨h57, hvalue⟩
    exact (valueReads_within_iff h57 (toNat_size_behind h57 hn)).1 hvalue
  · intro h
    have h57 : 57 ≤ n := by omega
    exact ⟨h57, (valueReads_within_iff h57 (toNat_size_behind h57 hn)).2 h⟩

/-- The server and the subscribers read a datagram's packet within its bytes, and `size` stays what
is left of it, exactly where the datagram is complete. -/
theorem accesses_within_iff (R : RealText) (d beyond beyond' : Bytes) (saddr : SockaddrIn)
    (news : SubscriberNews) (hd : d.length ≤ buflen) :
    ((newsTopicReads (getSendableNews d saddr).data beyond).1
          + (newsTopicReads (getSendableNews d saddr).data beyond).2
        ≤ (getSendableNews d saddr).size ∧
      ∀ a ∈ (parseSubscriberNews R ((getSendableNews d saddr).data ++ beyond')
          (UInt64.ofNat (getSendableNews d saddr).size) news).2,
        a.Within (getSendableNews d saddr).size) ↔ Complete d := by
  have hn : (getSendableNews d saddr).size < 2 ^ 63 := by
    rw [size_getSendableNews]
    rw [buflen] at hd
    omega
  rw [newsTopicReads_within_iff, parseSubscriberNews_within_iff R _ hn, Complete,
    size_getSendableNews, ← List.drop_drop, drop_sender]
  refine and_congr_right fun _ => ?_
  by_cases h : topicLen < d.length
  · have hne : d.drop topicLen ≠ [] := by
      rw [Ne, List.drop_eq_nil_iff]
      omega
    obtain ⟨b, r, hbr⟩ := List.exists_cons_of_ne_nil hne
    rw [List.drop_append_of_le_length h.le, hbr, List.cons_append, List.headD_cons,
      List.headD_cons, topicLen]
    omega
  · rw [topicLen] at h ⊢
    constructor
    · intro h'
      omega
    · intro h'
      omega

/-- A string of one byte on the topic `a`. -/
def stringOnA : Bytes :=
  97 :: List.replicate 49 0 ++ [3, 120]

theorem accesses_within_string :
    (newsTopicReads (getSendableNews stringOnA default).data []).1 +
        (newsTopicReads (getSendableNews stringOnA default).data []).2 ≤
      (getSendableNews stringOnA default).size ∧
    ∀ a ∈ (parseSubscriberNews noReals ((getSendableNews stringOnA default).data ++ [])
        (UInt64.ofNat (getSendableNews stringOnA default).size) default).2,
      a.Within (getSendableNews stringOnA default).size :=
  (accesses_within_iff noReals stringOnA [] [] default default (by decide)).2 (by decide)

/-- A datagram of two bytes: the topic is copied from behind the packet, `size` wraps, and where
memory then holds a `3`, the constructor of `std::string` throws. -/
theorem not_within_two_bytes :
    ¬ (∀ a ∈ (parseSubscriberNews noReals
        ((getSendableNews [97, 0] default).data ++ (List.replicate 48 0 ++ [3]))
        (UInt64.ofNat (getSendableNews [97, 0] default).size) default).2,
      a.Within (getSendableNews [97, 0] default).size) ∧
    (parseSubscriberNews noReals
        ((getSendableNews [97, 0] default).data ++ (List.replicate 48 0 ++ [3]))
        (UInt64.ofNat (getSendableNews [97, 0] default).size) default).1 = none := by
  constructor
  · decide +kernel
  · decide +kernel

/-- The data type of a news packet. -/
def dataTypeOf (f : Bytes) : UInt8 :=
  (f.drop (4 + 2 + topicLen)).headD 0

/-- A news packet of a data type that is known, with the bytes it needs, and no longer than the
packet of a datagram that fills its buffer. -/
structure NewsFrame (f : Bytes) : Prop where
  known : dataTypeOf f ∈ [dataTypeInt, dataTypeShortReal, dataTypeFloat, dataTypeString]
  value : 4 + 2 + topicLen + 1 + valueLen (dataTypeOf f) ≤ f.length
  size_le : f.length ≤ 4 + 2 + buflen

instance (f : Bytes) : Decidable (NewsFrame f) :=
  decidable_of_iff (_ ∧ _ ∧ _) ⟨fun ⟨hk, hv, hs⟩ => ⟨hk, hv, hs⟩, fun h => ⟨h.1, h.2, h.3⟩⟩

/-- What the packet of a datagram of a known data type is, if the value is all there. -/
theorem newsFrame_of_value {d : Bytes} {saddr : SockaddrIn} (hlen : d.length ≤ buflen)
    (hknown : (d.drop topicLen).headD 0 ∈
      [dataTypeInt, dataTypeShortReal, dataTypeFloat, dataTypeString])
    (hvalue : topicLen + 1 + valueLen ((d.drop topicLen).headD 0) ≤ d.length) :
    NewsFrame (getSendableNews d saddr).data := by
  have hdrop := drop_sender saddr d []
  rw [List.append_nil, List.append_nil] at hdrop
  have htype : dataTypeOf (getSendableNews d saddr).data = (d.drop topicLen).headD 0 := by
    rw [dataTypeOf, ← List.drop_drop, hdrop]
  have hsize : (getSendableNews d saddr).data.length = 6 + d.length := by
    rw [(getSendableNews d saddr).fits, size_getSendableNews]
  refine ⟨htype ▸ hknown, ?_, ?_⟩
  · rw [htype]
    omega
  · omega

theorem newsFrame_sendable {d : Bytes} {saddr : SockaddrIn} (hc : Complete d)
    (hlen : d.length ≤ buflen) (hknown : (d.drop topicLen).headD 0 ∈
      [dataTypeInt, dataTypeShortReal, dataTypeFloat, dataTypeString]) :
    NewsFrame (getSendableNews d saddr).data :=
  newsFrame_of_value hlen hknown hc.2

section Frame

variable {f : Bytes} (rest : Bytes)

theorem take_drop_append {a b : ℕ} (h : a + b ≤ f.length) :
    ((f ++ rest).drop a).take b = (f.drop a).take b := by
  rw [List.drop_append_of_le_length (by omega), List.take_append_of_le_length]
  rw [List.length_drop]
  omega

theorem headD_drop_append {a : ℕ} (h : a < f.length) :
    ((f ++ rest).drop a).headD 0 = (f.drop a).headD 0 := by
  have hne : f.drop a ≠ [] := by
    rw [Ne, List.drop_eq_nil_iff]
    omega
  obtain ⟨b, r, hbr⟩ := List.exists_cons_of_ne_nil hne
  rw [List.drop_append_of_le_length h.le, hbr, List.cons_append, List.headD_cons, List.headD_cons]

/-- What is shown of a packet is decided by its bytes and its length: not by what memory holds
behind it, nor by what was shown before. -/
theorem parseSubscriberNews_frame (R : RealText) (hf : NewsFrame f) (news : SubscriberNews) :
    ∃ n, (parseSubscriberNews R f (UInt64.ofNat f.length) default).1 = some n ∧
      (parseSubscriberNews R (f ++ rest) (UInt64.ofNat f.length) news).1 = some n := by
  obtain ⟨hknown, hvalue, hle⟩ := hf
  have h57 : 4 + 2 + topicLen + 1 ≤ f.length := by omega
  have htopic : topicLen = 50 := rfl
  have hsize : f.length < 2 ^ 63 := by
    rw [buflen] at hle
    omega
  have hleft := toNat_size_behind h57 hsize
  have haddr := @take_drop_append f rest 0 4 (by omega)
  have hport := @take_drop_append f rest 4 2 (by omega)
  have hfield := @take_drop_append f rest (4 + 2) topicLen (by omega)
  have htype := @headD_drop_append f rest (4 + 2 + topicLen) (by omega)
  have hword := @take_drop_append f rest (4 + 2 + topicLen + 1 + 1) 4
  have hhalf := @take_drop_append f rest (4 + 2 + topicLen + 1) 2
  have hstring := @take_drop_append f rest (4 + 2 + topicLen + 1) (f.length - 57) (by omega)
  have hsign := @headD_drop_append f rest (4 + 2 + topicLen + 1)
  have hexp := @headD_drop_append f rest (4 + 2 + topicLen + 1 + 5)
  rw [List.drop_zero, List.drop_zero] at haddr
  unfold dataTypeOf at hknown hvalue
  unfold parseSubscriberNews parseHeader
  dsimp only
  rw [haddr, hport, hfield, htype]
  simp only [List.mem_cons, List.not_mem_nil, or_false] at hknown
  rcases hknown with ht | ht | ht | ht
  · have hlen : 62 ≤ f.length := by rwa [ht] at hvalue
    rw [if_pos ht, if_pos ht, List.drop_drop, List.drop_drop, hword (by omega), hsign (by omega)]
    exact ⟨_, rfl, rfl⟩
  · have hlen : 59 ≤ f.length := by rwa [ht] at hvalue
    have h0 : (f.drop (4 + 2 + topicLen)).headD 0 ≠ dataTypeInt := by
      rw [ht]
      decide
    rw [if_neg h0, if_neg h0, if_pos ht, if_pos ht, hhalf (by omega)]
    exact ⟨_, rfl, rfl⟩
  · have hlen : 63 ≤ f.length := by rwa [ht] at hvalue
    have h0 : (f.drop (4 + 2 + topicLen)).headD 0 ≠ dataTypeInt ∧
        (f.drop (4 + 2 + topicLen)).headD 0 ≠ dataTypeShortReal := by
      rw [ht]
      decide
    rw [if_neg h0.1, if_neg h0.1, if_neg h0.2, if_neg h0.2, if_pos ht, if_pos ht]
    simp only [List.drop_drop, hword (by omega), hsign (by omega), hexp (by omega)]
    exact ⟨_, rfl, rfl⟩
  · have h0 : (f.drop (4 + 2 + topicLen)).headD 0 ≠ dataTypeInt ∧
        (f.drop (4 + 2 + topicLen)).headD 0 ≠ dataTypeShortReal ∧
        (f.drop (4 + 2 + topicLen)).headD 0 ≠ dataTypeFloat := by
      rw [ht]
      decide
    have hshort : ¬ (UInt64.ofNat f.length - 4 - 2 - UInt64.ofNat topicLen - 1 ≥ 2 ^ 63) := by
      have h63 : (2 ^ 63 : UInt64).toNat = 2 ^ 63 := by decide +kernel
      rw [ge_iff_le, UInt64.le_iff_toNat_le, h63, hleft]
      omega
    rw [if_neg h0.1, if_neg h0.1, if_neg h0.2.1, if_neg h0.2.1, if_neg h0.2.2, if_neg h0.2.2,
      if_pos ht, if_pos ht, if_neg hshort, if_neg hshort, hleft, hstring]
    exact ⟨_, rfl, rfl⟩

end Frame

end NewsServer
