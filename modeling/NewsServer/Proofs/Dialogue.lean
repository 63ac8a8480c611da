import NewsServer.Proofs.ClientLoop
import NewsServer.Proofs.ConsoleLines
import NewsServer.Proofs.Grammar
import NewsServer.Proofs.Operator

/-!
# What a subscriber makes of its commands

Beside the news, a subscriber sends frames and prints texts. Where every line it is given is
unambiguous, these are its `AUTH` and then, for each line in order, the frame of the command and the
confirmation, or `Invalid command.` (`dialogue_eq`).
-/

namespace NewsServer

open Memory
open Server (stdinFileno exitText)

/-- What a subscriber sends, and the texts it prints. -/
def Shown.ofCommand : Shown → Bool
  | .call (.sent _ _) => true
  | .out _ => true
  | .err _ => true
  | _ => false

/-- What it shows of a line. -/
def lineShown (sockfd : ℤ) (line : Bytes) : List Shown :=
  match command? (tokens blanks line) with
  | some (type, topic) =>
    .call (.sent sockfd (wire (type :: topic))) :: Client.commandAnswer type
  | none => if line = [] then [] else [.err (text "Invalid command.\n")]

section Line

variable {c c' : Client} {line : Option Bytes} {evs : List Shown}

theorem exists_cstr_append {buf : Bytes} (h : 0 ∈ buf) :
    ∃ rest, buf = cstr buf ++ 0 :: rest := by
  obtain ⟨s, rest, rfl, hs⟩ := List.eq_append_cons_of_mem h
  exact ⟨rest, by rw [cstr_append_nul hs]⟩

theorem length_cstr_readLine_le (buffer : Bytes) (line : Option Bytes) :
    (cstr (Client.readLine buffer line)).length ≤ maxCommandSize - 2 := by
  rcases line with _ | line
  · rw [Console.cstr_readLine_none]
    exact Nat.zero_le _
  · have htake : Client.readLine buffer (some line) =
        Client.readLine buffer (some (line.take (maxCommandSize - 2))) := by
      rw [Client.readLine, Client.readLine, List.take_take, min_self]
    have hlen := List.length_take_le (maxCommandSize - 2) line
    rw [htake, Console.cstr_readLine buffer hlen]
    exact (List.takeWhile_sublist _).length_le.trans hlen

theorem topicName_of_command? {s topic : Bytes} {type : UInt8} (hnul : 0 ∉ s)
    (h : command? (tokens blanks s) = some (type, topic)) : TopicName topic := by
  obtain ⟨hle, htoks⟩ := command?_eq_some h
  have hmem : topic ∈ tokens blanks s := by
    rcases htoks with ⟨htoks, -⟩ | ⟨sf, htoks, -⟩
    · simp [htoks]
    · simp [htoks]
  obtain ⟨hne, hbytes⟩ := mem_tokens hmem
  exact ⟨List.length_pos_of_ne_nil hne, hle, fun h0 => hnul (hbytes 0 h0).1,
    fun b hb => (hbytes b hb).2⟩

/-- What is no command, and not taken for one, is unknown. -/
theorem parseTokens_of_none {toks : List Bytes} (htok : ∀ tok ∈ toks, 0 ∉ tok)
    (hun : Unambiguous toks) (hc : command? toks = none) (type : UInt8) (topic : Bytes) :
    ∃ t field, parseTokens type topic toks = some (unknownCommand, t, field) := by
  rcases toks with _ | ⟨word, args⟩
  · exact absurd hun id
  · rw [unambiguous_iff_of_none hc] at hun
    exact (parseTokens_unknown_iff (htok word List.mem_cons_self) type topic).2 hun

theorem send_command {m : MultiSocket} {fd n : ℤ} {type : UInt8} {topic : Bytes} {evs : List Event}
    (htopic : TopicName topic) (hn : ¬ n < 0) (h : m.send fd (type :: topic) = .ok (n, evs)) :
    evs = [.sent fd (wire (type :: topic))] := by
  by_cases hmem : fd ∈ m.tcpSockets
  · have hle := htopic.le
    rw [send_of_mem hmem (by
      rw [List.length_cons, tcpBufferSize]
      rw [topicLen] at hle
      omega)] at h
    exact (Prod.mk.inj (Except.ok.inj h)).2.symm
  · rw [send_of_notMem hmem] at h
    obtain ⟨rfl, -⟩ := Prod.mk.inj (Except.ok.inj h)
    exact absurd (by decide) hn

theorem notMem_of_command {buffer s : Bytes} (h : Console.command buffer line = some s) :
    0 ∉ s := by
  unfold Console.command at h
  dsimp only at h
  split_ifs at h
  rw [← Option.some.inj h]
  exact notMem_cstr _

theorem handleStdin_of_none (h : Console.command c.buffer line = none) :
    c.handleStdin line = .error .undefined := by
  unfold Console.command at h
  unfold Client.handleStdin
  dsimp only at h ⊢
  split_ifs at h with hlen
  exact if_pos hlen

theorem handleStdin_of_command {s : Bytes} (h : Console.command c.buffer line = some s) :
    ∃ buffer, c.handleStdin line =
      if s = [] then .ok ({ c with buffer }, [])
      else if exitText <+: s then .error .exit
      else match parseTokens c.type c.topic (tokens blanks s) with
        | none => .error .undefined
        | some (status, type, topic) =>
          if status ≠ 0 then
            .ok ({ c with buffer, type, topic }, [.err (text "Invalid command.\n")])
          else
            match c.multi.send c.sockfdTcp ((generateTcpSubPacket type topic buffer).1.take
              (generateTcpSubPacket type topic buffer).2) with
            | .error e => .error (.stop e)
            | .ok (n, evs) =>
              if n < 0 then
                .error (.die .send)
              else
                .ok ({ c with
                  buffer := (generateTcpSubPacket type topic buffer).1
                  type
                  topic
                  pc := .next }, evs.map .call ++ Client.commandAnswer type) := by
  have hshort := length_cstr_readLine_le c.buffer line
  unfold Console.command at h
  unfold Client.handleStdin
  dsimp only at h ⊢
  generalize Client.readLine c.buffer line = buffer at h hshort ⊢
  split_ifs at h with hlen
  obtain rfl := Option.some.inj h
  have hstrip := Console.cstr_overwrite_last buffer
  have hzero : (0 : UInt8) ∈ overwrite buffer ((cstr buffer).length - 1) [0] := by
    simp [overwrite]
  obtain ⟨rest, hrest⟩ := exists_cstr_append hzero
  generalize overwrite buffer ((cstr buffer).length - 1) [0] = command at hstrip hrest ⊢
  have hslen : (cstr command).length ≤ maxCommandSize := by
    rw [hstrip, List.length_dropLast]
    exact (Nat.sub_le _ _).trans (hshort.trans (Nat.sub_le _ _))
  have hparse := parse_eq (notMem_cstr command) hslen c.type c.topic rest
  rw [← hrest] at hparse
  have hexit : strncmpEq command exitText 4 = true ↔ exitText <+: cstr command := by
    rw [strncmpEq_exitText]
    nth_rewrite 1 [hrest]
    exact prefix_append_nul (by decide) rest
  refine ⟨command, ?_⟩
  rw [if_neg hlen, hparse]
  exact if_congr List.length_eq_zero_iff rfl (if_congr hexit rfl rfl)

/-- The handling of a line that goes on shows what the string in the buffer calls for. -/
theorem handleStdin_shown (h : c.handleStdin line = .ok (c', evs)) :
    ∃ s, Console.command c.buffer line = some s ∧
      (s = [] ∨ Unambiguous (tokens blanks s) → evs = lineShown c.sockfdTcp s) := by
  rcases hs : Console.command c.buffer line with _ | s
  · rw [handleStdin_of_none hs] at h
    simp at h
  refine ⟨s, rfl, fun hline => ?_⟩
  obtain ⟨buffer, heq⟩ := handleStdin_of_command hs
  rw [heq] at h
  by_cases hempty : s = []
  · rw [if_pos hempty] at h
    obtain ⟨-, rfl⟩ := Prod.mk.inj (Except.ok.inj h)
    rw [hempty]
    rfl
  rw [if_neg hempty] at h
  have hun := hline.resolve_left hempty
  split_ifs at h with hexit
  unfold lineShown
  have hnul : ∀ tok ∈ tokens blanks s, 0 ∉ tok := fun tok htok h0 =>
    notMem_of_command hs ((mem_tokens htok).2 0 h0).1
  rcases hc : command? (tokens blanks s) with _ | ⟨type, topic⟩
  · obtain ⟨t, field, hp⟩ := parseTokens_of_none hnul hun hc c.type c.topic
    rw [hp] at h
    dsimp only at h ⊢
    rw [if_pos (by decide)] at h
    rw [if_neg hempty]
    exact (Prod.mk.inj (Except.ok.inj h)).2.symm
  · have htopic := topicName_of_command? (notMem_of_command hs) hc
    rw [parseTokens_of_some hc] at h
    dsimp only at h ⊢
    rw [if_neg (by simp), take_generateTcpSubPacket htopic] at h
    rcases hs : c.multi.send c.sockfdTcp (type :: topic) with e | ⟨n, calls⟩ <;> rw [hs] at h
    · simp at h
    dsimp only at h
    by_cases hn : n < 0
    · rw [if_pos hn] at h
      simp at h
    · rw [if_neg hn] at h
      obtain ⟨-, rfl⟩ := Prod.mk.inj (Except.ok.inj h)
      rw [send_command htopic hn hs]
      rfl

end Line

/-- The string that a step gets in the stdin branch, if it is there. -/
def Client.typing (c : Client) (k : ClientKernel) : Option Bytes :=
  if c.pc = .body stdinFileno then Console.command c.buffer k.line else none

section Step

variable {R : RealText} {c c' : Client} {k : ClientKernel} {evs : List Shown}

theorem ofCommand_lineShown (sockfd : ℤ) (s : Bytes) :
    ∀ e ∈ lineShown sockfd s, e.ofCommand = true := by
  unfold lineShown
  rcases command? (tokens blanks s) with _ | ⟨type, topic⟩
  · dsimp only
    split_ifs <;> simp [Shown.ofCommand]
  · refine List.forall_mem_cons.2 ⟨rfl, fun e he => ?_⟩
    unfold Client.commandAnswer at he
    split_ifs at he
    · rw [List.mem_singleton.1 he]
      rfl
    · rw [List.mem_singleton.1 he]
      rfl
    · simp at he

theorem Turn.ofCommand (h : Turn R c k c' evs)
    (hline : ∀ s ∈ c.typing k, s = [] ∨ Unambiguous (tokens blanks s)) :
    evs.filter Shown.ofCommand = (c.typing k).toList.flatMap (lineShown c.sockfdTcp) := by
  cases h with
  | round hpc hq =>
    have hne : c.pc ≠ .body stdinFileno := by rcases hpc with hpc | hpc <;> simp [hpc]
    obtain ⟨fds, he, -⟩ := MultiSocket.passed_selectRound c.multi k.pass
    rw [Client.typing, if_neg hne]
    simp [Client.round, he, Shown.ofCommand]
  | reply hpc =>
    rw [Client.typing, if_neg (by simp [hpc])]
    rfl
  | poll hpc =>
    have hne : c.pc ≠ .body stdinFileno := by rcases hpc with hpc | ⟨hpc, -⟩ <;> simp [hpc]
    rw [Client.typing, if_neg hne]
    rfl
  | line hpc h =>
    obtain ⟨s, hs, hshown⟩ := handleStdin_shown h
    rw [Client.typing, if_pos hpc, hs] at hline ⊢
    rw [hshown (hline s rfl), List.filter_eq_self.2 (ofCommand_lineShown _ s)]
    simp
  | news hpc hfd hclosed h =>
    have hne : c.pc ≠ .body stdinFileno := by
      rw [hpc]
      exact fun heq => hfd (ClientPc.body.inj heq)
    rw [Client.typing, if_neg hne]
    unfold Client.handleNews at h
    rcases hr : c.multi.recv with ⟨size, out, copied, multi⟩
    rw [hr] at h
    dsimp only at h
    split_ifs at h
    rcases hp : (parseSubscriberNews R _ _ c.news).1 with _ | news <;> rw [hp] at h
    · simp at h
    · obtain ⟨-, rfl⟩ := Prod.mk.inj (Except.ok.inj h)
      rfl

theorem Turn.sockfdTcp (h : Turn R c k c' evs) : c'.sockfdTcp = c.sockfdTcp := by
  cases h with
  | round => rfl
  | reply _ _ h => exact (authenticate_frame h).2.1
  | poll => rfl
  | line _ h => exact (handleStdin_frame h).2.1
  | news _ _ _ h => exact (handleNews_multi h).2.1

end Step

namespace Terminal

/-- The strings that the stdin branch of a run has got. -/
def typed (tr : List (Terminal × ClientKernel)) : List Bytes :=
  tr.filterMap fun q => q.1.client.typing q.2

variable {R : RealText} {t₀ t : Terminal}

/-- In every run of a subscriber whose lines are unambiguous, what it sends, and what it prints
beside the news, is its `AUTH`, and then for each line in order what the line calls for. -/
theorem dialogue_eq {id : Bytes} {sockfd : ℤ} {u : Uninit} {vars : Locals}
    {tr : List (Terminal × ClientKernel)}
    (h0 : Client.start id sockfd u vars = .ok (t₀.client, t₀.shown)) (h : Run R t₀ tr t)
    (hlines : ∀ s ∈ typed tr, s = [] ∨ Unambiguous (tokens blanks s)) :
    t.shown.filter Shown.ofCommand =
      .call (.sent sockfd (wire (authPacket id))) :: (typed tr).flatMap (lineShown sockfd) := by
  have hinv : t.client.sockfdTcp = sockfd ∧ t.shown.filter Shown.ofCommand =
      .call (.sent sockfd (wire (authPacket id))) :: (typed tr).flatMap (lineShown sockfd) := by
    induction h with
    | start =>
      rw [eq_connected_of_start h0]
      exact ⟨rfl, rfl⟩
    | @step tr t t' k h hn ih =>
      have hconcat : typed (tr ++ [(t, k)]) = typed tr ++ (t.client.typing k).toList := by
        rw [typed, List.filterMap_append]
        rfl
      rw [hconcat, List.forall_mem_append] at hlines
      obtain ⟨hfd, hshown⟩ := ih hlines.1
      obtain ⟨evs, hturn, happ⟩ := turn_of_next hn
      have hnew := hturn.ofCommand fun s hs => hlines.2 s (Option.mem_toList.2 hs)
      rw [hfd] at hnew
      refine ⟨hturn.sockfdTcp.trans hfd, ?_⟩
      rw [hconcat, happ, List.filter_append, hshown, hnew, List.cons_append, List.flatMap_append]
  exact hinv.2

/-- The server confirms the `AUTH`, and two lines are typed. -/
def dialogueInputs : List ClientKernel :=
  [.chunk 5 (framing.enc [typeAuth]), .quiet, .quiet,
    { ClientKernel.quiet with pass := ⟨{0}, fun _ => none, 0⟩ }, .quiet,
    { ClientKernel.quiet with line := some [120, 10] },
    { ClientKernel.quiet with line := some (subscribeText ++ [32, 97, 32, 49, 10]) }]

set_option maxRecDepth 10000 in
theorem dialogue_eq_two : ∃ tr t, Run noReals (.connected [65] 5 default zeroLocals) tr t ∧
    tr.map Prod.snd = dialogueInputs ∧ t.shown.filter Shown.ofCommand =
      [.call (.sent 5 (wire (authPacket [65]))), .err (text "Invalid command.\n"),
        .call (.sent 5 (wire (typeSubSf :: [97]))), .out (text "Subscribed to topic.\n")] := by
  have hrec : ∃ x ∈ Runs.exec (Runs.record (next noReals))
      ([], .connected [65] 5 default zeroLocals) dialogueInputs,
      typed x.1 = [[120], subscribeText ++ [32, 97, 32, 49]] := by
    decide +kernel
  obtain ⟨tr, t, hr, htr, htyped⟩ := Runs.exists_run_of_record
    (P := fun (tr : List (Terminal × ClientKernel)) (_ : Terminal) =>
      typed tr = [[120], subscribeText ++ [32, 97, 32, 49]]) hrec
  refine ⟨tr, t, hr, htr, ?_⟩
  have hlines : ∀ s ∈ typed tr, s = [] ∨ Unambiguous (tokens blanks s) := by
    rw [htyped, List.forall_mem_cons, List.forall_mem_singleton]
    refine ⟨.inr ⟨fun h9 => absurd h9 (by decide), fun h11 => absurd h11 (by decide)⟩, .inr ?_⟩
    exact ⟨fun _ _ => ⟨[97], [49], by decide, by decide, by decide, by decide⟩,
      fun h11 => absurd h11 (by decide)⟩
  rw [dialogue_eq (Client.start_eq (by decide) (by decide) default zeroLocals) hr hlines, htyped]
  decide +kernel

end Terminal

end NewsServer
