import NewsServer.Proofs.NewsLines
import NewsServer.Proofs.Receive

/-!
# What a line of news shows of earlier ones

The receive buffer and the record keep what earlier packets left in them. A packet that has all the
bytes its data type needs covers that; one that ends before them, or whose data type has no case, is
shown with what is left of earlier ones (`shownAlone_iff`).
-/

namespace NewsServer

open Memory

theorem lt_of_mem_toList_repr {v : ℤ} {c : Char} (h : c ∈ (Int.repr v).toList) : c.toNat < 256 := by
  have hdigit : ∀ n : ℕ, c ∈ (Nat.repr n).toList → c.toNat < 256 := by
    intro n hn
    rw [Nat.repr, String.toList_ofList] at hn
    have hc := Nat.isDigit_of_mem_toDigits (by decide) (by decide) hn
    exact (Char.isDigit_iff_toNat.1 hc).2.trans_lt (by decide)
  rcases v with n | n
  · exact hdigit n h
  · rw [Int.repr, String.toList_append, List.mem_append] at h
    rcases h with h | h
    · have hminus : c = '-' := by simpa using h
      rw [hminus]
      decide
    · exact hdigit _ h

theorem map_decimal (v : ℤ) :
    (decimal v).map (fun b => Char.ofNat b.toNat) = (Int.repr v).toList := by
  rw [decimal, text, List.map_map]
  refine (List.map_congr_left fun c hc => ?_).trans (List.map_id _)
  dsimp only [Function.comp]
  rw [UInt8.toNat_ofNat_of_lt' (lt_of_mem_toList_repr hc), Char.ofNat_toNat, id]

theorem decimal_injective : Function.Injective decimal := by
  intro v v' h
  have hlist := congrArg (List.map fun b => Char.ofNat b.toNat) h
  rw [map_decimal, map_decimal] at hlist
  exact Int.repr_inj.1 (String.toList_injective hlist)

theorem ntohl_word_inj {bs bs' : Bytes} (h : bs.length = 4) (h' : bs'.length = 4) :
    ntohl (word bs) = ntohl (word bs') ↔ bs = bs' := by
  refine ⟨fun heq => ?_, fun heq => by rw [heq]⟩
  have hnat := congrArg UInt32.toNat heq
  rw [toNat_ntohl_word h, toNat_ntohl_word h'] at hnat
  rw [← beBytes_ofBeBytes bs, ← beBytes_ofBeBytes bs', hnat, h, h']

theorem htons_half_inj {bs bs' : Bytes} (h : bs.length = 2) (h' : bs'.length = 2) :
    htons (half bs) = htons (half bs') ↔ bs = bs' := by
  have hbytes : ∀ {cs : Bytes}, cs.length = 2 → halfBytes (half cs) = cs := by
    intro cs hcs
    have hlt := ofLeBytes_lt cs
    rw [hcs] at hlt
    rw [halfBytes, half, UInt16.toNat_ofNat_of_lt' hlt, ← hcs, leBytes_ofLeBytes]
  refine ⟨fun heq => ?_, fun heq => by rw [heq]⟩
  have hhalf := congrArg htons heq
  rw [htons_htons, htons_htons] at hhalf
  rw [← hbytes h, ← hbytes h', hhalf]

/-- Whatever a subscriber's buffer and record hold, it prints the same line for the packet. -/
def ShownAlone (R : RealText) (p : Bytes) : Prop :=
  ∃ line, ∀ (c : Client) (sock : BufferedTcpSocket) (rest : List Bytes) (beyond : Bytes),
    c.buffer.length = buflen → c.multi.tcpSockets[c.multi.currSockfd]? = some sock → sock.Wf →
      sock.packets = p :: rest → ∃ c', c.handleNews R beyond = .ok (c', [.news line])

/-- The line, `rest` being what memory holds behind the packet. -/
def lineOf (R : RealText) (p rest : Bytes) (news : SubscriberNews) : Option Bytes :=
  (parseSubscriberNews R (p ++ rest) (UInt64.ofNat p.length) news).1.map newsLine

section Line

variable {R : RealText} {p : Bytes}

theorem handleNews_line {c : Client} {sock : BufferedTcpSocket} {ps : List Bytes}
    (hs : c.multi.tcpSockets[c.multi.currSockfd]? = some sock) (hw : sock.Wf)
    (hp : sock.packets = p :: ps) (hlen : p.length ≤ buflen) (beyond line : Bytes) :
    (∃ c', c.handleNews R beyond = .ok (c', [.news line])) ↔
      lineOf R p (c.buffer.drop p.length ++ beyond) c.news = some line := by
  obtain ⟨sock', hrecv, -, -⟩ := MultiSocket.recv_of_packets hw hs hp
  have hbuf : overwrite c.buffer 0 p ++ beyond = p ++ (c.buffer.drop p.length ++ beyond) := by
    simp [overwrite]
  have hsize := ofInt_toInt_of_lt (n := p.length) (by
    rw [buflen] at hlen
    omega)
  unfold Client.handleNews lineOf
  rw [hrecv]
  dsimp only
  rw [if_neg (not_lt.2 hlen), hbuf, hsize]
  rcases (parseSubscriberNews R _ _ c.news).1 with _ | news
  · simp
  · simp

/-- A packet is shown alone if it fits, and its line is the same whatever memory holds behind it. -/
theorem shownAlone_iff_lineOf (hp : p ≠ [] ∧ p.length ≤ framing.limit) :
    ShownAlone R p ↔ p.length ≤ buflen ∧ ∃ line, ∀ (rest : Bytes) (news : SubscriberNews),
      buflen ≤ p.length + rest.length → lineOf R p rest news = some line := by
  constructor
  · rintro ⟨line, h⟩
    have hs : (oneFrameOn5 p).tcpSockets[(oneFrameOn5 p).currSockfd]? =
        some ((BufferedTcpSocket.new 5 default).read (framing.enc p)).2 :=
      Std.TreeMap.getElem?_insert_self
    have hw := BufferedTcpSocket.wf_read (BufferedTcpSocket.wf_new 5 default) (framing.enc p)
    have hpk := packets_oneFrameOn5 hp
    let client (buffer : Bytes) (news : SubscriberNews) : Client :=
      ⟨⟨buffer, 0, [], news⟩, oneFrameOn5 p, 5, .body 5⟩
    have hlen : p.length ≤ buflen := by
      by_contra hlong
      obtain ⟨c', hc⟩ := h (client (List.replicate buflen 0) default) _ [] []
        List.length_replicate hs hw hpk
      rw [(handleNews_undefined_iff R [] hs hw hpk).2 (not_le.1 hlong)] at hc
      simp at hc
    refine ⟨hlen, line, fun rest news hrest => ?_⟩
    have hbuffer : (p ++ rest.take (buflen - p.length)).length = buflen := by
      rw [List.length_append, List.length_take]
      omega
    have hline := h (client (p ++ rest.take (buflen - p.length)) news) _ []
      (rest.drop (buflen - p.length)) hbuffer hs hw hpk
    rw [handleNews_line hs hw hpk hlen] at hline
    rwa [List.drop_left, List.take_append_drop] at hline
  · rintro ⟨hlen, line, h⟩
    refine ⟨line, fun c sock ps beyond hbuffer hs hw hpk => ?_⟩
    rw [handleNews_line hs hw hpk hlen]
    refine h _ _ ?_
    rw [List.length_append, List.length_drop, hbuffer]
    omega

end Line

/-- The line up to the data type. -/
def newsHead (saddr : SockaddrIn) (F : Bytes) : Bytes :=
  inetNtoa (wordBytes saddr.sinAddr) ++ text ":" ++ decimal (htons saddr.sinPort).toNat
    ++ text " - " ++ cstr F ++ text " - "

/-- The value that is shown where `buf` is the memory behind the header, `news` the record as it
was. -/
def shownValue (R : RealText) (type : UInt8) (buf : Bytes) (news : SubscriberNews) :
    Bytes × Bytes :=
  if type = dataTypeInt then
    (text "INT", decimal ((ntohl (word ((buf.drop 1).take 4))).toNat
      * (if buf.headD 0 ≠ 0 then -1 else 1)))
  else if type = dataTypeShortReal then
    (text "SHORT_REAL", R.shortReal (htons (half (buf.take 2))))
  else if type = dataTypeFloat then
    (text "FLOAT",
      R.float (buf.headD 0) (ntohl (word ((buf.drop 1).take 4))) ((buf.drop 5).headD 0))
  else
    (news.dataType, news.value)

section Value

variable {R : RealText} {saddr : SockaddrIn} {F v rest : Bytes} {type : UInt8}
  {news : SubscriberNews}

theorem lineOf_value (hF : F.length = topicLen) (htype : type ≠ dataTypeString) :
    lineOf R (getSendableNews (F ++ type :: v) saddr).data rest news =
      some (newsHead saddr F ++ (shownValue R type (v ++ rest) news).1 ++ text " - " ++
        (shownValue R type (v ++ rest) news).2 ++ text "\n") := by
  have htopic : cstr (((F ++ type :: v ++ rest).take topicLen) ++ [0]) = cstr F := by
    rw [List.append_assoc, cstr_topic_field _ hF]
  unfold lineOf parseSubscriberNews parseHeader shownValue
  dsimp only
  rw [headD_type hF, drop_header hF, take_addr, half_port, drop_sender]
  by_cases h0 : type = dataTypeInt
  · rw [if_pos h0, if_pos h0, Option.map_some, newsLine, htopic, newsHead]
  rw [if_neg h0, if_neg h0]
  by_cases h1 : type = dataTypeShortReal
  · rw [if_pos h1, if_pos h1, Option.map_some, newsLine, htopic, newsHead]
  rw [if_neg h1, if_neg h1]
  by_cases h2 : type = dataTypeFloat
  · rw [if_pos h2, if_pos h2, Option.map_some, newsLine, htopic, newsHead]
  rw [if_neg h2, if_neg h2, if_neg htype, Option.map_some, newsLine, htopic, newsHead]

/-- Lines with one data type differ in their values. -/
theorem shownValue_eq_of_lineOf {rest' : Bytes} {news' : SubscriberNews}
    (hF : F.length = topicLen) (htype : type ≠ dataTypeString)
    (hname : (shownValue R type (v ++ rest) news).1 = (shownValue R type (v ++ rest') news').1)
    (h : lineOf R (getSendableNews (F ++ type :: v) saddr).data rest news =
      lineOf R (getSendableNews (F ++ type :: v) saddr).data rest' news') :
    (shownValue R type (v ++ rest) news).2 = (shownValue R type (v ++ rest') news').2 := by
  rw [lineOf_value hF htype, lineOf_value hF htype, hname, Option.some.injEq] at h
  exact List.append_cancel_left (List.append_cancel_right h)

/-- Of a data type that has no case the earlier value is shown. -/
theorem shownValue_of_unknown (buf : Bytes) (htype : type ∉
    [dataTypeInt, dataTypeShortReal, dataTypeFloat]) :
    shownValue R type buf news = (news.dataType, news.value) := by
  simp only [List.mem_cons, List.not_mem_nil, or_false, not_or] at htype
  rw [shownValue, if_neg htype.1, if_neg htype.2.1, if_neg htype.2.2]

end Value

/-- What the texts of real numbers tell: the number of hundredths; an integer, if the exponent is
zero; and whether one that is not zero has been divided by ten. -/
structure RealText.Exact (R : RealText) : Prop where
  shortReal : Function.Injective R.shortReal
  float : ∀ s, Function.Injective fun v => R.float s v 0
  tenth : ∀ s v, v ≠ 0 → R.float s v 0 ≠ R.float s v 1
  zero : ∀ s e, R.float s 0 e = R.float s 0 0

/-- The bytes behind the header decide the value: there are as many as the data type needs, or all
but the exponent of a zero. -/
def Decisive (type : UInt8) (v : Bytes) : Prop :=
  valueLen type ≤ v.length ∨
    type = dataTypeFloat ∧ v.length = 5 ∧ v.drop 1 = List.replicate 4 0

instance (type : UInt8) (v : Bytes) : Decidable (Decisive type v) :=
  inferInstanceAs (Decidable (_ ∨ _))

section Value

variable {R : RealText} {v : Bytes} {type : UInt8}

/-- A number that is not all there ends with the byte that memory holds behind it. -/
theorem exists_behind (h : v.length ≤ 4) : ∃ (behind : UInt8 → Bytes) (s : UInt8) (A : Bytes),
    A.length = 3 ∧ ∀ x, buflen ≤ (behind x).length ∧ (v ++ behind x).headD 0 = s ∧
      ((v ++ behind x).drop 1).take 4 = A ++ [x] ∧ ((v ++ behind x).drop 5).headD 0 = 0 := by
  have hlen : (v ++ List.replicate (4 - v.length) 0).length = 4 := by
    rw [List.length_append, List.length_replicate]
    omega
  obtain ⟨s, A, hA⟩ := List.exists_cons_of_length_eq_add_one hlen
  have hA3 : A.length = 3 := by
    rw [hA, List.length_cons] at hlen
    omega
  refine ⟨fun x => List.replicate (4 - v.length) 0 ++ x :: List.replicate buflen 0, s, A, hA3,
    fun x => ?_⟩
  have hnum : (A ++ [x]).length = 4 := by rw [List.length_append, hA3, List.length_singleton]
  have hmem : v ++ (List.replicate (4 - v.length) 0 ++ x :: List.replicate buflen 0) =
      s :: (A ++ [x] ++ List.replicate buflen 0) := by
    rw [← List.append_assoc, hA, List.cons_append, List.append_cons]
  rw [hmem, List.headD_cons, List.drop_succ_cons, List.drop_zero, List.take_left' hnum,
    List.drop_succ_cons, List.drop_left' hnum]
  refine ⟨?_, rfl, rfl, rfl⟩
  simp only [List.length_append, List.length_cons, List.length_replicate]
  omega

theorem ntohl_ne {A : Bytes} (hA : A.length = 3) :
    ntohl (word (A ++ [0])) ≠ ntohl (word (A ++ [1])) := by
  rw [ne_eq, ntohl_word_inj (by simp [hA]) (by simp [hA])]
  simp

theorem le_length_of_int (h : ∀ rest rest' : Bytes, buflen ≤ rest.length → buflen ≤ rest'.length →
    (shownValue R dataTypeInt (v ++ rest) default).2 =
      (shownValue R dataTypeInt (v ++ rest') default).2) : 5 ≤ v.length := by
  by_contra hv
  obtain ⟨behind, s, A, hA, hbehind⟩ := exists_behind (v := v) (by omega)
  have heq := h _ _ (hbehind 0).1 (hbehind 1).1
  have hvalue : ∀ x : UInt8, (shownValue R dataTypeInt (v ++ behind x) default).2 =
      decimal ((ntohl (word (A ++ [x]))).toNat * (if s ≠ 0 then -1 else 1)) := by
    intro x
    rw [shownValue, if_pos rfl, (hbehind x).2.1, (hbehind x).2.2.1]
  rw [hvalue, hvalue] at heq
  have hprod := decimal_injective heq
  have hword : (ntohl (word (A ++ [0]))).toNat = (ntohl (word (A ++ [1]))).toNat := by
    split_ifs at hprod <;> omega
  exact ntohl_ne hA (UInt32.toNat_inj.1 hword)

theorem le_length_of_shortReal (hR : R.Exact) (h : ∀ rest rest' : Bytes, buflen ≤ rest.length →
    buflen ≤ rest'.length → (shownValue R dataTypeShortReal (v ++ rest) default).2 =
      (shownValue R dataTypeShortReal (v ++ rest') default).2) : 2 ≤ v.length := by
  by_contra hv
  have hlen : (v ++ List.replicate (1 - v.length) 0).length = 1 := by
    rw [List.length_append, List.length_replicate]
    omega
  obtain ⟨s, hs⟩ := List.length_eq_one_iff.1 hlen
  have hlong : ∀ x : UInt8, buflen ≤
      (List.replicate (1 - v.length) 0 ++ x :: List.replicate buflen 0).length := by
    intro x
    simp only [List.length_append, List.length_cons, List.length_replicate]
    omega
  have hvalue : ∀ x : UInt8, (shownValue R dataTypeShortReal
      (v ++ (List.replicate (1 - v.length) 0 ++ x :: List.replicate buflen 0)) default).2 =
        R.shortReal (htons (half [s, x])) := by
    intro x
    rw [← List.append_assoc, hs]
    rfl
  have heq := h _ _ (hlong 0) (hlong 1)
  rw [hvalue, hvalue] at heq
  have hbytes := (htons_half_inj rfl rfl).1 (hR.shortReal heq)
  simp at hbytes

theorem decisive_of_float (hR : R.Exact) (h : ∀ rest rest' : Bytes, buflen ≤ rest.length →
    buflen ≤ rest'.length → (shownValue R dataTypeFloat (v ++ rest) default).2 =
      (shownValue R dataTypeFloat (v ++ rest') default).2) :
    6 ≤ v.length ∨ v.length = 5 ∧ v.drop 1 = List.replicate 4 0 := by
  by_contra hv
  rw [not_or, not_and, not_le] at hv
  have hfloat : ∀ buf, (shownValue R dataTypeFloat buf default).2 =
      R.float (buf.headD 0) (ntohl (word ((buf.drop 1).take 4))) ((buf.drop 5).headD 0) :=
    fun buf => rfl
  rcases Nat.lt_or_ge v.length 5 with hlt | hge
  · obtain ⟨behind, s, A, hA, hbehind⟩ := exists_behind (v := v) (by omega)
    have heq := h _ _ (hbehind 0).1 (hbehind 1).1
    have hvalue : ∀ x : UInt8, (shownValue R dataTypeFloat (v ++ behind x) default).2 =
        R.float s (ntohl (word (A ++ [x]))) 0 := by
      intro x
      rw [hfloat, (hbehind x).2.1, (hbehind x).2.2.1, (hbehind x).2.2.2]
    rw [hvalue, hvalue] at heq
    exact ntohl_ne hA (hR.float s heq)
  · have hlen : v.length = 5 := by omega
    obtain ⟨s, B, rfl⟩ := List.exists_cons_of_length_eq_add_one hlen
    have hB : B.length = 4 := by simpa using hlen
    have hvalue : ∀ x : UInt8, (shownValue R dataTypeFloat
        (s :: B ++ x :: List.replicate buflen 0) default).2 = R.float s (ntohl (word B)) x := by
      intro x
      rw [hfloat, List.cons_append, List.headD_cons, List.drop_succ_cons, List.drop_zero,
        List.take_left' hB, List.drop_succ_cons, List.drop_left' hB, List.headD_cons]
    have heq := h (0 :: List.replicate buflen 0) (1 :: List.replicate buflen 0) (by simp) (by simp)
    rw [hvalue, hvalue] at heq
    have hzero : ntohl (word B) = ntohl (word (List.replicate 4 0)) := by
      by_contra hne
      exact hR.tenth s _ hne heq
    exact hv.2 hlen ((ntohl_word_inj hB rfl).1 hzero)

end Value

/-- A datagram whose packet fits in the subscriber's buffer and has a topic field, a data type that
is known, and the bytes that decide the value. -/
def Whole (d : Bytes) : Prop :=
  4 + 2 + d.length ≤ buflen ∧ topicLen < d.length ∧
    (d.drop topicLen).headD 0 ∈
      [dataTypeInt, dataTypeShortReal, dataTypeFloat, dataTypeString] ∧
    Decisive ((d.drop topicLen).headD 0) (d.drop (topicLen + 1))

instance (d : Bytes) : Decidable (Whole d) :=
  inferInstanceAs (Decidable (_ ∧ _ ∧ _ ∧ _))

section Datagram

variable {R : RealText} {d : Bytes} {saddr : SockaddrIn}

theorem exists_parts (h : topicLen < d.length) : ∃ (F : Bytes) (type : UInt8) (v : Bytes),
    F.length = topicLen ∧ d = F ++ type :: v ∧ (d.drop topicLen).headD 0 = type ∧
      d.drop (topicLen + 1) = v := by
  have hne : d.drop topicLen ≠ [] := by
    rw [ne_eq, List.drop_eq_nil_iff]
    omega
  obtain ⟨type, v, hv⟩ := List.exists_cons_of_ne_nil hne
  refine ⟨d.take topicLen, type, v, List.length_take_of_le h.le, ?_, ?_, ?_⟩
  · rw [← hv, List.take_append_drop]
  · rw [hv, List.headD_cons]
  · rw [← List.drop_drop, hv, List.drop_succ_cons, List.drop_zero]

/-- Without its data type a packet may find one behind it that makes `size` wrap. -/
theorem lineOf_of_short (h : d.length ≤ topicLen) (news : SubscriberNews) :
    lineOf R (getSendableNews d saddr).data
      (List.replicate (topicLen - d.length) 0 ++ dataTypeString :: List.replicate buflen 0)
      news = none := by
  have hlen : (d ++ List.replicate (topicLen - d.length) 0).length = topicLen := by
    rw [List.length_append, List.length_replicate]
    omega
  have htype : (((getSendableNews d saddr).data ++ (List.replicate (topicLen - d.length) 0 ++
      dataTypeString :: List.replicate buflen 0)).drop (4 + 2 + topicLen)).headD 0 =
        dataTypeString := by
    rw [← List.drop_drop, drop_sender, ← List.append_assoc, List.drop_left' hlen, List.headD_cons]
  have hsize : UInt64.ofNat (getSendableNews d saddr).data.length - 4 - 2 - UInt64.ofNat topicLen
      - 1 ≥ 2 ^ 63 := by
    have h63 : (2 ^ 63 : UInt64).toNat = 2 ^ 63 := by decide +kernel
    have hn : (UInt64.ofNat (6 + d.length)).toNat = 6 + d.length := UInt64.toNat_ofNat_of_lt' (by
      rw [topicLen] at h
      rw [UInt64.size]
      omega)
    rw [(getSendableNews d saddr).fits, size_getSendableNews, ge_iff_le, UInt64.le_iff_toNat_le,
      h63]
    rw [topicLen] at h
    simp only [topicLen, UInt64.toNat_sub, hn, UInt64.reduceToNat, UInt64.reduceOfNat]
    omega
  unfold lineOf parseSubscriberNews parseHeader
  dsimp only
  rw [htype, if_neg (by decide), if_neg (by decide), if_neg (by decide), if_pos rfl, if_pos hsize,
    Option.map_none]

/-- A zero is shown alike with every exponent. -/
theorem lineOf_of_zero (hR : R.Exact) {F v : Bytes} (hF : F.length = topicLen)
    (hlen : v.length = 5) (hzero : v.drop 1 = List.replicate 4 0) (rest : Bytes)
    (news : SubscriberNews) : lineOf R (getSendableNews (F ++ dataTypeFloat :: v) saddr).data rest
      news = some (newsHead saddr F ++ text "FLOAT" ++ text " - " ++ R.float (v.headD 0) 0 0
        ++ text "\n") := by
  obtain ⟨s, B, rfl⟩ := List.exists_cons_of_length_eq_add_one hlen
  rw [List.drop_succ_cons, List.drop_zero] at hzero
  have hB : B.length = 4 := by simpa using hlen
  have hvalue : shownValue R dataTypeFloat (s :: B ++ rest) news =
      (text "FLOAT", R.float s 0 (rest.headD 0)) := by
    have hfloat : shownValue R dataTypeFloat (s :: B ++ rest) news = (text "FLOAT", R.float
        ((s :: B ++ rest).headD 0) (ntohl (word (((s :: B ++ rest).drop 1).take 4)))
        (((s :: B ++ rest).drop 5).headD 0)) := rfl
    rw [hfloat, List.cons_append, List.headD_cons, List.drop_succ_cons, List.drop_zero,
      List.take_left' hB, List.drop_succ_cons, List.drop_left' hB, hzero]
    rfl
  rw [lineOf_value hF (by decide), hvalue, hR.zero s (rest.headD 0), List.headD_cons]

/-- The bytes behind the header of a packet that is shown alone decide its value. -/
theorem decisive_of_lineOf (hR : R.Exact) {F v line : Bytes} {type : UInt8}
    (hF : F.length = topicLen) (h : ∀ (rest : Bytes) (news : SubscriberNews),
      buflen ≤ rest.length →
        lineOf R (getSendableNews (F ++ type :: v) saddr).data rest news = some line) :
    type ∈ [dataTypeInt, dataTypeShortReal, dataTypeFloat, dataTypeString] ∧ Decisive type v := by
  have hlong : buflen ≤ (List.replicate buflen (0 : UInt8)).length := List.length_replicate.ge
  have hvalue : type ≠ dataTypeString → ∀ rest rest' : Bytes, buflen ≤ rest.length →
      buflen ≤ rest'.length → ∀ news news', (shownValue R type (v ++ rest) news).1 =
        (shownValue R type (v ++ rest') news').1 → (shownValue R type (v ++ rest) news).2 =
          (shownValue R type (v ++ rest') news').2 := by
    intro hstring rest rest' hrest hrest' news news' hname
    exact shownValue_eq_of_lineOf hF hstring hname ((h _ _ hrest).trans (h _ _ hrest').symm)
  by_cases h3 : type = dataTypeString
  · subst h3
    exact ⟨by decide, .inl (Nat.zero_le _)⟩
  by_cases hknown : type ∈ [dataTypeInt, dataTypeShortReal, dataTypeFloat]
  · simp only [List.mem_cons, List.not_mem_nil, or_false] at hknown
    rcases hknown with rfl | rfl | rfl
    · exact ⟨by decide, .inl (le_length_of_int fun rest rest' hr hr' =>
        hvalue h3 rest rest' hr hr' default default rfl)⟩
    · exact ⟨by decide, .inl (le_length_of_shortReal hR fun rest rest' hr hr' =>
        hvalue h3 rest rest' hr hr' default default rfl)⟩
    · refine ⟨by decide, ?_⟩
      rcases decisive_of_float hR fun rest rest' hr hr' =>
        hvalue h3 rest rest' hr hr' default default rfl with hlen | hzero
      · exact .inl hlen
      · exact .inr ⟨rfl, hzero⟩
  · have heq := hvalue h3 _ _ hlong hlong default { (default : SubscriberNews) with value := [0] }
    rw [shownValue_of_unknown _ hknown, shownValue_of_unknown _ hknown] at heq
    exact absurd (heq rfl) (by decide)

/-- The line of a packet does not depend on earlier ones exactly if its datagram is whole. -/
theorem shownAlone_iff (R : RealText) (hR : R.Exact) (d : Bytes) (saddr : SockaddrIn) :
    ShownAlone R (getSendableNews (d.take buflen) saddr).data ↔ Whole d := by
  have hlen := length_sendable_le_iff d saddr
  have hp : (getSendableNews (d.take buflen) saddr).data.length = 6 + (d.take buflen).length := by
    rw [(getSendableNews _ saddr).fits, size_getSendableNews]
  have hframe : (getSendableNews (d.take buflen) saddr).data ≠ [] ∧
      (getSendableNews (d.take buflen) saddr).data.length ≤ framing.limit := by
    constructor
    · intro hnil
      rw [hnil, List.length_nil] at hp
      omega
    · have htake := List.length_take_le buflen d
      have hlimit : framing.limit = 65536 := rfl
      rw [buflen] at htake
      rw [hp, hlimit, buflen]
      omega
  rw [shownAlone_iff_lineOf hframe, hlen]
  by_cases hfits : d.length + 6 ≤ buflen
  swap
  · exact iff_of_false (fun h => hfits h.1) fun h => hfits (by have := h.1; omega)
  rw [List.take_of_length_le (by omega)]
  constructor
  · rintro ⟨-, line, h⟩
    have htopic : topicLen < d.length := by
      by_contra hshort
      have hrest : buflen ≤ (getSendableNews d saddr).data.length + (List.replicate
          (topicLen - d.length) 0 ++ dataTypeString :: List.replicate buflen 0).length := by
        rw [List.length_append, List.length_cons, List.length_replicate, List.length_replicate]
        omega
      have hnone := h _ default hrest
      rw [lineOf_of_short (not_lt.1 hshort)] at hnone
      simp at hnone
    obtain ⟨F, type, v, hF, rfl, htype, hv⟩ := exists_parts htopic
    refine ⟨by omega, htopic, ?_⟩
    rw [htype, hv]
    exact decisive_of_lineOf hR hF fun rest news hrest => h rest news (by omega)
  · rintro ⟨-, htopic, hknown, hdecisive⟩
    refine ⟨hfits, ?_⟩
    obtain ⟨F, type, v, hF, rfl, htype, hv⟩ := exists_parts htopic
    rw [htype] at hknown hdecisive
    rw [hv] at hdecisive
    rcases hdecisive with hvalue | ⟨rfl, hlen5, hzero⟩
    · have hf : NewsFrame (getSendableNews (F ++ type :: v) saddr).data := by
        refine newsFrame_of_value (by omega) (by rwa [htype]) ?_
        rw [htype, List.length_append, List.length_cons, hF]
        omega
      obtain ⟨n, hn, -⟩ := parseSubscriberNews_frame [] R hf default
      refine ⟨newsLine n, fun rest news _ => ?_⟩
      obtain ⟨n', hn', hparse⟩ := parseSubscriberNews_frame rest R hf news
      rw [hn] at hn'
      rw [lineOf, hparse, Option.map_some, Option.some.inj hn']
    · exact ⟨_, fun rest news _ => lineOf_of_zero hR hF hlen5 hzero rest news⟩

end Datagram

/-- Real numbers, a `float` with the power of ten behind it. -/
def plainReals : RealText where
  shortReal := fun n => decimal (n.toNat / 100 : ℕ) ++ text "." ++
    [UInt8.ofNat (48 + n.toNat / 10 % 10), UInt8.ofNat (48 + n.toNat % 10)]
  float := fun s v e => (if s = 0 then [] else text "-") ++ decimal v.toNat ++
    if v = 0 ∨ e = 0 then [] else text "e-" ++ decimal e.toNat

theorem exact_plainReals : plainReals.Exact where
  shortReal := by
    intro n n' h
    have hdigit : ∀ x y : ℕ, x < 10 → y < 10 → UInt8.ofNat (48 + x) = UInt8.ofNat (48 + y) →
        x = y := by
      intro x y hx hy heq
      have hnat := congrArg UInt8.toNat heq
      rw [UInt8.toNat_ofNat_of_lt' (by rw [UInt8.size]; omega),
        UInt8.toNat_ofNat_of_lt' (by rw [UInt8.size]; omega)] at hnat
      omega
    obtain ⟨hwhole, hdigits⟩ := List.append_inj' h rfl
    simp only [List.cons.injEq, and_true] at hdigits
    have hhigh := hdigit _ _ (by omega) (by omega) hdigits.1
    have hlow := hdigit _ _ (by omega) (by omega) hdigits.2
    have hq := decimal_injective (List.append_cancel_right hwhole)
    exact UInt16.toNat_inj.1 (by omega)
  float := by
    intro s v v' h
    simp only [plainReals, or_true, if_true, List.append_nil] at h
    have hv := decimal_injective (List.append_cancel_left h)
    exact UInt32.toNat_inj.1 (by omega)
  tenth := by
    intro s v hv h
    have hone : plainReals.float s v 1 = plainReals.float s v 0 ++ (text "e-" ++ decimal 1) := by
      simp [plainReals, hv]
    rw [hone, List.self_eq_append_right, List.append_eq_nil_iff] at h
    exact absurd h.1 (by decide)
  zero := fun s e => by simp [plainReals]

/-- A datagram of a topic of one byte, with what is behind its topic field. -/
def datagramOnA (rest : Bytes) : Bytes :=
  97 :: List.replicate 49 0 ++ rest

/-- The number 12.34. -/
theorem shownAlone_iff_shortReal :
    ShownAlone plainReals (getSendableNews ((datagramOnA [1, 4, 210]).take buflen) default).data :=
  (shownAlone_iff plainReals exact_plainReals (datagramOnA [1, 4, 210]) default).2 (by decide)

/-- A datagram whose data type is 4 is shown with the data type and the value of the one before. -/
theorem not_shownAlone_unknown :
    ¬ ShownAlone plainReals (getSendableNews (datagramOnA [4]) default).data := by
  rw [shownAlone_iff_lineOf (by decide)]
  rintro ⟨-, line, h⟩
  have hdec := decisive_of_lineOf exact_plainReals (F := 97 :: List.replicate 49 0) (v := []) rfl
    fun rest news hrest => h rest news (hrest.trans (Nat.le_add_left _ _))
  exact absurd hdec.1 (by decide)

end NewsServer
