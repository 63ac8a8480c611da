import NewsServer.Client
import NewsServer.Server

/-!
# The topic of a datagram and the topic of a command

The client's command for a topic makes the server use that topic as the key of its map. A datagram
on the topic has the same key, unless the topic fills its field: then no NUL ends it, and the key
goes on with the type byte and what follows, except where the type byte is the NUL.
-/

namespace NewsServer

open Memory

/-- A datagram on a topic: the topic in its field, the type byte, the payload. -/
def datagramOn (topic : Bytes) (type : UInt8) (payload : Bytes) : Bytes :=
  topic ++ List.replicate (topicLen - topic.length) 0 ++ type :: payload

/-- `subscribe T sf` -/
def subscribeLine (topic : Bytes) (sf : UInt8) : Bytes :=
  subscribeText ++ 32 :: (topic ++ 32 :: [sf])

/-- `unsubscribe T` -/
def unsubscribeLine (topic : Bytes) : Bytes :=
  unsubscribeText ++ 32 :: topic

/-- A topic name. -/
structure TopicName (topic : Bytes) : Prop where
  pos : 1 ≤ topic.length
  le : topic.length ≤ topicLen
  nul : 0 ∉ topic
  blank : ∀ b ∈ topic, b ∉ blanks

theorem TopicName.ne_nil {topic : Bytes} (h : TopicName topic) : topic ≠ [] :=
  List.ne_nil_of_length_pos h.pos

theorem TopicName.cstr_eq {topic : Bytes} (h : TopicName topic) : cstr topic = topic :=
  cstr_of_notMem h.nul

theorem TopicName.size_le {topic : Bytes} (h : TopicName topic) :
    ¬ topic.length + 1 > cliPacketSize := by
  have hle := h.le
  simp only [cliPacketSize, cliPacketDataSize, topicLen] at hle ⊢
  omega

theorem TopicName.key_eq {topic : Bytes} (h : TopicName topic) : cstr (topic ++ [0]) = topic :=
  cstr_append_nul h.nul []

section Command

variable {topic : Bytes} (h : TopicName topic) (type : UInt8) (old rest : Bytes)
include h

theorem parse_subscribe {sf : UInt8} (hsf : sf = 48 ∨ sf = 49) :
    parseSubscriptionCmd type old (subscribeLine topic sf ++ 0 :: rest) maxCommandSize =
      some (0, if sf = 49 then typeSubSf else typeSub, strncpy topicLen topic) := by
  have hle := h.le
  have hnul : 0 ∉ subscribeLine topic sf := by
    have : (0 : UInt8) ∉ subscribeText := by decide
    have hs : (0 : UInt8) ≠ sf := by rcases hsf with rfl | rfl <;> decide
    simp [subscribeLine, this, h.nul, hs]
  have hlen : (subscribeLine topic sf).length ≤ maxCommandSize := by
    simp only [subscribeLine, subscribeText, List.length_append, List.length_cons, List.length_nil,
      maxCommandSize, topicLen] at hle ⊢
    omega
  have hword : strtok blanks (subscribeLine topic sf) = some (subscribeText, topic ++ 32 :: [sf]) :=
    strtok_token (by simp [subscribeText]) (by simp [subscribeText, blanks]) (by simp [blanks])
  have htopic : strtok blanks (topic ++ 32 :: [sf]) = some (topic, [sf]) :=
    strtok_token h.ne_nil h.blank (by decide)
  have hflag : strtok blanks [sf] = some ([sf], []) :=
    strtok_last (by simp) (by rcases hsf with rfl | rfl <;> simp [blanks])
  have htype : commandType subscribeText = some typeSub := by decide +kernel
  simp only [parseSubscriptionCmd, cstr_strncpy, cstr_append_nul hnul, List.take_of_length_le hlen,
    hword, htype, htopic, hflag, List.headD_cons]
  rfl

theorem parse_unsubscribe :
    parseSubscriptionCmd type old (unsubscribeLine topic ++ 0 :: rest) maxCommandSize =
      some (0, typeUnsub, strncpy topicLen topic) := by
  have hle := h.le
  have hnul : 0 ∉ unsubscribeLine topic := by
    have : (0 : UInt8) ∉ unsubscribeText := by decide
    simp [unsubscribeLine, this, h.nul]
  have hlen : (unsubscribeLine topic).length ≤ maxCommandSize := by
    simp only [unsubscribeLine, unsubscribeText, subscribeText, List.length_append,
      List.length_cons, List.length_nil, maxCommandSize, topicLen] at hle ⊢
    omega
  have hword : strtok blanks (unsubscribeLine topic) = some (unsubscribeText, topic) :=
    strtok_token (by simp [unsubscribeText]) (by simp [unsubscribeText, subscribeText, blanks])
      (by simp [blanks])
  have htopic : strtok blanks topic = some (topic, []) := strtok_last h.ne_nil h.blank
  have htype : commandType unsubscribeText = some typeUnsub := by decide +kernel
  simp only [parseSubscriptionCmd, cstr_strncpy, cstr_append_nul hnul, List.take_of_length_le hlen,
    hword, htype, htopic, ↓reduceIte]

/-- The frame of a command is its type and its topic, without the rest of the field. -/
theorem take_generateTcpSubPacket (buf : Bytes) :
    (generateTcpSubPacket type (strncpy topicLen topic) buf).1.take
      (generateTcpSubPacket type (strncpy topicLen topic) buf).2 = type :: topic := by
  have hcstr : cstr (strncpy topicLen (strncpy topicLen topic)) = topic := by
    rw [cstr_strncpy, cstr_strncpy, List.take_take, min_self, h.cstr_eq,
      List.take_of_length_le h.le]
  have hfield : strncpy topicLen (strncpy topicLen topic) =
      topic ++ List.replicate (topicLen - topic.length) 0 := by
    conv_lhs => rw [strncpy]
    rw [cstr_strncpy, h.cstr_eq, List.take_of_length_le h.le, List.take_of_length_le h.le]
  simp only [generateTcpSubPacket, strnlen, hcstr, min_eq_right h.le, overwrite, List.take_zero,
    List.nil_append]
  rw [hfield, Nat.add_comm, List.cons_append, List.take_succ_cons, List.append_assoc,
    List.take_left]

theorem commandFrame_subscribe {sf : UInt8} (hsf : sf = 48 ∨ sf = 49) :
    commandFrame type old (subscribeLine topic sf ++ 0 :: rest) =
      some ((if sf = 49 then typeSubSf else typeSub) :: topic) := by
  simp only [commandFrame, parse_subscribe h type old rest hsf]
  rw [if_neg (by simp), take_generateTcpSubPacket h]

theorem commandFrame_unsubscribe :
    commandFrame type old (unsubscribeLine topic ++ 0 :: rest) = some (typeUnsub :: topic) := by
  simp only [commandFrame, parse_unsubscribe h type old rest]
  rw [if_neg (by simp), take_generateTcpSubPacket h]

omit type old rest in
theorem process_subscribe (sf : UInt8) {tables : Tables} {sockfd : ℤ} {id : Bytes}
    (hid : tables.idsMap[sockfd]? = some id) :
    processTcpClientPacket tables sockfd ((if sf = 49 then typeSubSf else typeSub) :: topic)
        (topic.length + 1) =
      .ok (if sf = 49 then typeSubSf else typeSub, { tables with
        topicMap := tables.topicMap.insert topic
          ((tables.topicMap.getD topic ∅).insert id (if sf = 49 then 1 else 0)) }) := by
  simp only [processTcpClientPacket, h.size_le, ↓reduceIte, List.take_succ_cons, List.take_length,
    List.cons_append, List.headD_cons, List.drop_succ_cons, List.drop_zero, h.key_eq, hid]
  split_ifs <;> simp_all [typeSub, typeSubSf, typeAuth]

omit type old rest in
theorem process_unsubscribe {tables : Tables} {sockfd : ℤ} {id : Bytes}
    (hid : tables.idsMap[sockfd]? = some id) :
    processTcpClientPacket tables sockfd (typeUnsub :: topic) (topic.length + 1) =
      .ok (typeUnsub, { tables with
        topicMap := tables.topicMap.insert topic ((tables.topicMap.getD topic ∅).erase id) }) := by
  simp only [processTcpClientPacket, h.size_le, ↓reduceIte, List.take_succ_cons, List.take_length,
    List.cons_append, List.headD_cons, List.drop_succ_cons, List.drop_zero, h.key_eq, hid]
  simp [typeUnsub, typeSub, typeSubSf, typeAuth]

end Command

theorem getNewsTopic_datagram (topic : Bytes) (type : UInt8) (payload : Bytes) (saddr : SockaddrIn)
    (beyond : Bytes) :
    getNewsTopic (getSendableNews (datagramOn topic type payload) saddr).data beyond =
      cstr (datagramOn topic type payload ++ beyond) := by
  have hlen : (wordBytes saddr.sinAddr ++ halfBytes (htons saddr.sinPort)).length = 4 + 2 := by
    rw [List.length_append, length_wordBytes, length_halfBytes]
  rw [getNewsTopic, getSendableNews, List.drop_left' hlen]

theorem cstr_datagram_iff {topic : Bytes} (h : TopicName topic) (type : UInt8)
    (payload beyond : Bytes) :
    cstr (datagramOn topic type payload ++ beyond) = topic ↔
      topic.length < topicLen ∨ type = 0 := by
  have hle := h.le
  rcases hk : topicLen - topic.length with _ | k
  · have hfull :
        datagramOn topic type payload ++ beyond = topic ++ type :: (payload ++ beyond) := by
      simp [datagramOn, hk]
    rw [hfull]
    by_cases h0 : type = 0
    · subst h0
      simp [cstr_append_nul h.nul]
    · rw [cstr_append_of_notMem h.nul]
      have hcons : cstr (type :: (payload ++ beyond)) = type :: cstr (payload ++ beyond) := by
        simp [cstr, h0]
      rw [hcons, List.append_right_eq_self]
      constructor
      · intro hnil
        exact absurd hnil (by simp)
      · rintro (hlt | hz)
        · omega
        · exact absurd hz h0
  · have hpad : datagramOn topic type payload ++ beyond =
        topic ++ 0 :: (List.replicate k 0 ++ type :: payload ++ beyond) := by
      simp [datagramOn, hk, List.replicate_succ]
    rw [hpad, cstr_append_nul h.nul]
    exact ⟨fun _ => .inl (by omega), fun _ => rfl⟩

/-- The datagram's key is the topic, and the topic is the key under which the server changes the
subscription of whoever sends the client's command for it. -/
def KeysAgree (topic : Bytes) (type : UInt8) (payload : Bytes) (saddr : SockaddrIn)
    (beyond : Bytes) : Prop :=
  getNewsTopic (getSendableNews (datagramOn topic type payload) saddr).data beyond = topic ∧
  (∀ sf : UInt8, sf = 48 ∨ sf = 49 → ∀ (oldType : UInt8) (old rest : Bytes),
    ∃ frame, commandFrame oldType old (subscribeLine topic sf ++ 0 :: rest) = some frame ∧
      ∀ (tables : Tables) (sockfd : ℤ) (id : Bytes), tables.idsMap[sockfd]? = some id →
        processTcpClientPacket tables sockfd frame frame.length =
          .ok (if sf = 49 then typeSubSf else typeSub, { tables with
            topicMap := tables.topicMap.insert topic
              ((tables.topicMap.getD topic ∅).insert id (if sf = 49 then 1 else 0)) })) ∧
  (∀ (oldType : UInt8) (old rest : Bytes),
    ∃ frame, commandFrame oldType old (unsubscribeLine topic ++ 0 :: rest) = some frame ∧
      ∀ (tables : Tables) (sockfd : ℤ) (id : Bytes), tables.idsMap[sockfd]? = some id →
        processTcpClientPacket tables sockfd frame frame.length =
          .ok (typeUnsub, { tables with
            topicMap := tables.topicMap.insert topic
              ((tables.topicMap.getD topic ∅).erase id) }))

/-- The keys agree exactly where the topic leaves room in its field, or the type byte is the NUL. -/
theorem keysAgree_iff {topic : Bytes} (h : TopicName topic) (type : UInt8) (payload : Bytes)
    (saddr : SockaddrIn) (beyond : Bytes) :
    KeysAgree topic type payload saddr beyond ↔ topic.length < topicLen ∨ type = 0 := by
  rw [KeysAgree, getNewsTopic_datagram, cstr_datagram_iff h]
  constructor
  · exact And.left
  · intro hroom
    refine ⟨hroom, fun sf hsf oldType old rest => ?_, fun oldType old rest => ?_⟩
    · exact ⟨_, commandFrame_subscribe h oldType old rest hsf, fun tables sockfd id hid =>
        process_subscribe h sf hid⟩
    · exact ⟨_, commandFrame_unsubscribe h oldType old rest, fun tables sockfd id hid =>
        process_unsubscribe h hid⟩

theorem keysAgree_iff_short :
    KeysAgree [97] 3 [104, 105] ⟨0, 0⟩ [] ↔ ([97] : Bytes).length < topicLen ∨ (3 : UInt8) = 0 :=
  keysAgree_iff ⟨by decide, by decide, by decide, by simp [blanks]⟩ 3 [104, 105] ⟨0, 0⟩ []

/-- A topic of 50 letters and a string: the server looks for the topic with the type byte and the
string behind it. -/
theorem not_keysAgree_full : ¬ KeysAgree (List.replicate 50 97) 3 [104, 105, 0] ⟨0, 0⟩ [] := by
  rintro ⟨h, -⟩
  exact absurd h (by decide +kernel)

end NewsServer
