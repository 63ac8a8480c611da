import NewsServer.Proofs.TopicAgreement

/-!
# The grammar of the commands

`parse_subscription_cmd` looks at the tokens of a line one after the other (`parse_eq`). It takes
the first by what it starts with, the third by its first byte, and looks at no length and at nothing
behind the last token it needs, so it accepts more than the commands.
-/

namespace NewsServer

open Memory

/-- The command that the tokens of a line are: its type and its topic. -/
def command? : List Bytes → Option (UInt8 × Bytes)
  | [word, topic] =>
    if word = unsubscribeText ∧ topic.length ≤ topicLen then some (typeUnsub, topic) else none
  | [word, topic, sf] =>
    if word = subscribeText ∧ topic.length ≤ topicLen ∧ (sf = [48] ∨ sf = [49]) then
      some (if sf = [49] then typeSubSf else typeSub, topic)
    else none
  | _ => none

/-- The line is parsed as the command it is, whose frame has that type and that topic, or else is
unknown. -/
def ParsedAsCommand (line : Bytes) : Prop :=
  ∀ (type : UInt8) (topic rest : Bytes),
    match command? (tokens blanks line) with
    | some (t, T) => ∃ field,
      parseSubscriptionCmd type topic (line ++ 0 :: rest) maxCommandSize = some (0, t, field) ∧
        ∀ buf, (generateTcpSubPacket t field buf).1.take (generateTcpSubPacket t field buf).2 =
          t :: T
    | none => ∃ t field, parseSubscriptionCmd type topic (line ++ 0 :: rest) maxCommandSize =
      some (unknownCommand, t, field)

/-- There is a token; and if the first begins like a command and all the tokens it needs are there,
they are that command. -/
def Unambiguous (toks : List Bytes) : Prop :=
  match toks with
  | [] => False
  | word :: args =>
    (word.take 9 = subscribeText → 2 ≤ args.length → ∃ topic sf, word = subscribeText ∧
      args = [topic, sf] ∧ topic.length ≤ topicLen ∧ (sf = [48] ∨ sf = [49])) ∧
    (word.take 11 = unsubscribeText → 1 ≤ args.length → ∃ topic, word = unsubscribeText ∧
      args = [topic] ∧ topic.length ≤ topicLen)

/-- `parse_subscription_cmd` on the tokens of the line. -/
def parseTokens (type : UInt8) (topic : Bytes) : List Bytes → Option (ℤ × UInt8 × Bytes)
  | [] => none
  | word :: args =>
    match commandType word with
    | none => some (unknownCommand, type, topic)
    | some type =>
      match args with
      | [] => some (unknownCommand, type, topic)
      | p :: args =>
        let topic := strncpy topicLen p
        if type = typeUnsub then
          some (0, type, topic)
        else
          match args with
          | [] => some (unknownCommand, type, topic)
          | p :: _ => some (0, if p.headD 0 = 49 then typeSubSf else type, topic)

section Parse

variable {line : Bytes}

theorem parse_eq (hnul : 0 ∉ line) (hlen : line.length ≤ maxCommandSize) (type : UInt8)
    (topic rest : Bytes) :
    parseSubscriptionCmd type topic (line ++ 0 :: rest) maxCommandSize =
      parseTokens type topic (tokens blanks line) := by
  rw [parseSubscriptionCmd, cstr_strncpy, cstr_append_nul hnul, List.take_of_length_le hlen,
    tokens_eq]
  rcases strtok blanks line with _ | ⟨word, more⟩
  · rfl
  dsimp only [parseTokens]
  rcases commandType word with _ | t
  · rfl
  dsimp only
  rw [tokens_eq blanks more]
  rcases strtok blanks more with _ | ⟨p, more'⟩
  · rfl
  dsimp only
  rw [tokens_eq blanks more']
  rcases strtok blanks more' with _ | ⟨p', more''⟩
  · rfl
  · rfl

theorem commandType_eq {word : Bytes} (h : 0 ∉ word) : commandType word =
    if word.take 9 = subscribeText then some typeSub
    else if word.take 11 = unsubscribeText then some typeUnsub else none := by
  have hsub : cstr subscribeText = subscribeText := cstr_of_notMem (by decide)
  have hunsub : cstr unsubscribeText = unsubscribeText := cstr_of_notMem (by decide)
  simp only [commandType, strncmpEq, cstr_of_notMem h, hsub, hunsub, decide_eq_true_eq]
  rfl

end Parse

section Commands

variable {toks args : List Bytes} {word : Bytes}

theorem command?_eq_some {t : UInt8} {T : Bytes} (h : command? toks = some (t, T)) :
    T.length ≤ topicLen ∧ (toks = [unsubscribeText, T] ∧ t = typeUnsub ∨
      ∃ sf, toks = [subscribeText, T, sf] ∧ (sf = [48] ∨ sf = [49]) ∧
        t = if sf = [49] then typeSubSf else typeSub) := by
  unfold command? at h
  split at h
  · split_ifs at h with hc
    obtain ⟨rfl, rfl⟩ := Prod.mk.inj (Option.some.inj h)
    exact ⟨hc.2, .inl ⟨by rw [hc.1], rfl⟩⟩
  · rename_i word topic sf
    split_ifs at h with hc hsf
    · obtain ⟨rfl, rfl⟩ := Prod.mk.inj (Option.some.inj h)
      exact ⟨hc.2.1, .inr ⟨sf, by rw [hc.1], hc.2.2, (if_pos hsf).symm⟩⟩
    · obtain ⟨rfl, rfl⟩ := Prod.mk.inj (Option.some.inj h)
      exact ⟨hc.2.1, .inr ⟨sf, by rw [hc.1], hc.2.2, (if_neg hsf).symm⟩⟩
  · simp at h

/-- The tokens are taken for a command by the start of the first and the number of the others. -/
theorem parseTokens_unknown_iff (h : 0 ∉ word) (type : UInt8) (topic : Bytes) :
    (∃ t field, parseTokens type topic (word :: args) = some (unknownCommand, t, field)) ↔
      ¬ (word.take 9 = subscribeText ∧ 2 ≤ args.length) ∧
        ¬ (word.take 11 = unsubscribeText ∧ 1 ≤ args.length) := by
  have hone : ∀ {t t' : UInt8} {f f' : Bytes},
      (some ((0 : ℤ), t, f) : Option _) ≠ some (unknownCommand, t', f') := by
    intro t t' f f'
    simp [unknownCommand]
  rw [parseTokens, commandType_eq h]
  by_cases hsub : word.take 9 = subscribeText
  · have hunsub : word.take 11 ≠ unsubscribeText := by
      intro h'
      have h9 := congrArg (List.take 9) h'
      rw [List.take_take, show min 9 11 = 9 from rfl, hsub] at h9
      exact absurd h9 (by decide)
    rw [if_pos hsub]
    rcases args with _ | ⟨p, _ | ⟨p', args⟩⟩
    · exact iff_of_true ⟨_, _, rfl⟩ (by simp)
    · exact iff_of_true ⟨_, _, rfl⟩ (by simp [hunsub])
    · refine iff_of_false ?_ (by simp [hsub])
      rintro ⟨t, field, h⟩
      exact hone h
  by_cases hunsub : word.take 11 = unsubscribeText
  · rw [if_neg hsub, if_pos hunsub]
    rcases args with _ | ⟨p, args⟩
    · exact iff_of_true ⟨_, _, rfl⟩ (by simp)
    · refine iff_of_false ?_ (by simp [hunsub])
      rintro ⟨t, field, h⟩
      exact hone h
  · rw [if_neg hsub, if_neg hunsub]
    exact iff_of_true ⟨_, _, rfl⟩ ⟨fun h => hsub h.1, fun h => hunsub h.1⟩

/-- Tokens that are no command are unambiguous if they are not taken for one. -/
theorem unambiguous_iff_of_none (h : command? (word :: args) = none) :
    Unambiguous (word :: args) ↔ ¬ (word.take 9 = subscribeText ∧ 2 ≤ args.length) ∧
      ¬ (word.take 11 = unsubscribeText ∧ 1 ≤ args.length) := by
  constructor
  · rintro ⟨hsub, hunsub⟩
    refine ⟨fun hs => ?_, fun hu => ?_⟩
    · obtain ⟨topic, sf, rfl, rfl, htopic, hsf⟩ := hsub hs.1 hs.2
      rw [command?, if_pos ⟨rfl, htopic, hsf⟩] at h
      simp at h
    · obtain ⟨topic, rfl, rfl, htopic⟩ := hunsub hu.1 hu.2
      rw [command?, if_pos ⟨rfl, htopic⟩] at h
      simp at h
  · rintro ⟨hsub, hunsub⟩
    exact ⟨fun h9 hlen => absurd ⟨h9, hlen⟩ hsub, fun h11 hlen => absurd ⟨h11, hlen⟩ hunsub⟩

theorem unambiguous_of_some {t : UInt8} {T : Bytes} (h : command? toks = some (t, T)) :
    Unambiguous toks := by
  obtain ⟨hT, ⟨rfl, -⟩ | ⟨sf, rfl, hsf, -⟩⟩ := command?_eq_some h
  · exact ⟨fun h9 => absurd h9 (by decide), fun _ _ => ⟨T, rfl, rfl, hT⟩⟩
  · exact ⟨fun _ _ => ⟨T, sf, rfl, rfl, hT, hsf⟩, fun h11 => absurd h11 (by decide)⟩

theorem parseTokens_of_some {t : UInt8} {T : Bytes} (h : command? toks = some (t, T))
    (type : UInt8) (topic : Bytes) :
    parseTokens type topic toks = some (0, t, strncpy topicLen T) := by
  obtain ⟨-, ⟨rfl, rfl⟩ | ⟨sf, rfl, hsf, rfl⟩⟩ := command?_eq_some h
  · rw [parseTokens, commandType_eq (by decide)]
    rfl
  · rw [parseTokens, commandType_eq (by decide)]
    rcases hsf with rfl | rfl
    · rfl
    · rfl

end Commands

/-- A line is parsed as the command it is, or as none, exactly if its tokens are unambiguous. -/
theorem parsedAsCommand_iff {line : Bytes} (hnul : 0 ∉ line)
    (hlen : line.length ≤ maxCommandSize - 2) :
    ParsedAsCommand line ↔ Unambiguous (tokens blanks line) := by
  have htok : ∀ tok ∈ tokens blanks line, 0 ∉ tok :=
    fun tok htok h0 => hnul ((mem_tokens htok).2 0 h0).1
  unfold ParsedAsCommand
  simp only [parse_eq hnul (hlen.trans (Nat.sub_le _ _))]
  rcases hc : command? (tokens blanks line) with _ | ⟨t, T⟩
  · dsimp only
    rcases htoks : tokens blanks line with _ | ⟨word, args⟩
    · refine iff_of_false (fun h => ?_) id
      obtain ⟨t, field, hnone⟩ := h 0 [] []
      simp [parseTokens] at hnone
    · rw [htoks] at hc htok
      have hword := htok word List.mem_cons_self
      simp only [parseTokens_unknown_iff hword, unambiguous_iff_of_none hc, forall_const]
  · refine iff_of_true (fun type topic rest => ?_) (unambiguous_of_some hc)
    obtain ⟨hle, htoks⟩ := command?_eq_some hc
    have hT : T ∈ tokens blanks line := by
      rcases htoks with ⟨htoks, -⟩ | ⟨sf, htoks, -⟩
      · simp [htoks]
      · simp [htoks]
    have hname : TopicName T := by
      obtain ⟨hne, hbytes⟩ := mem_tokens hT
      exact ⟨List.length_pos_of_ne_nil hne, hle, htok T hT, fun b hb => (hbytes b hb).2⟩
    exact ⟨_, parseTokens_of_some hc type topic, take_generateTcpSubPacket hname t⟩

/-- `unsubscribe ab`, with blanks before and behind it. -/
theorem parsedAsCommand_iff_blanks :
    ParsedAsCommand (32 :: 32 :: (unsubscribeText ++ [32, 97, 98, 10])) :=
  (parsedAsCommand_iff (by decide) (by decide)).2
    ⟨fun h => absurd h (by decide), fun _ _ => ⟨[97, 98], by decide, by decide, by decide⟩⟩

/-- `subscribe ab 2` is taken for `subscribe ab 0`, and a line of spaces has no token at all. -/
theorem not_parsedAsCommand_two :
    ¬ ParsedAsCommand (subscribeText ++ [32, 97, 98, 32, 50]) ∧ ¬ ParsedAsCommand [32, 32] := by
  constructor
  · intro h
    have hparse : parseSubscriptionCmd 0 [] (subscribeText ++ [32, 97, 98, 32, 50] ++ 0 :: [])
        maxCommandSize = some (0, typeSub, strncpy topicLen [97, 98]) := by
      decide +kernel
    obtain ⟨t, field, hnone⟩ := h 0 [] []
    rw [hparse] at hnone
    simp [unknownCommand] at hnone
  · intro h
    have hparse : parseSubscriptionCmd 0 [] ([32, 32] ++ 0 :: []) maxCommandSize = none := by
      decide +kernel
    obtain ⟨t, field, hnone⟩ := h 0 [] []
    rw [hparse] at hnone
    simp at hnone

end NewsServer
