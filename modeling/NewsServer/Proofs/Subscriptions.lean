import NewsServer.Lib.Registers
import NewsServer.Proofs.FrameBounds

/-!
# The subscription table

A subscription is a register, written by the commands of the connections that are bound to its id:
`topic_map` holds what the last of them has written, and nothing else writes it
(`topicMap_eq_lastCommand`).
-/

namespace NewsServer

open Memory

/-- What a command does to a subscription. -/
inductive Change
  | sub
  | subSf
  | unsub
  deriving DecidableEq, Repr

/-- The entry in `topic_map` that a command leaves. -/
def Change.entry : Change → Option UInt8
  | .sub => some 0
  | .subSf => some 1
  | .unsub => none

/-- The command of a frame's type. -/
def change? (type : UInt8) : Option Change :=
  if type = typeSub then some .sub
  else if type = typeSubSf then some .subSf
  else if type = typeUnsub then some .unsub
  else none

/-- The topic and the id whose subscription a frame that comes in on `fd` changes, and the
change. -/
def commandOf (ids : IdMap) (fd : ℤ) (buf : Bytes) : Option ((Bytes × Bytes) × Change) :=
  ids[fd]?.bind fun id => (change? (frameType buf)).map fun c => ((frameField buf, id), c)

/-- The command that the next step handles. -/
def Server.command? (s : Server) : Option ((Bytes × Bytes) × Change) :=
  match s.at? with
  | some (fd, .recv) => s.incoming.bind (commandOf s.tables.idsMap fd)
  | _ => none

section Process

theorem commandOf_of_change {ids : IdMap} {fd : ℤ} {buf id : Bytes} {c : Change}
    (hid : ids[fd]? = some id) (hc : change? (frameType buf) = some c) :
    commandOf ids fd buf = some ((frameField buf, id), c) := by
  simp [commandOf, hid, hc]

theorem commandOf_of_not_change {ids : IdMap} {fd : ℤ} {buf : Bytes}
    (h : ids[fd]? = none ∨ change? (frameType buf) = none) : commandOf ids fd buf = none := by
  rcases h with h | h
  · simp [commandOf, h]
  · rcases hid : ids[fd]? <;> simp [commandOf, hid, h]

/-- Writing one id's entry of a topic changes nothing but that subscription. -/
theorem flagOf_insert_entry {topics : TopicMap} {topic name : Bytes} {entry : Option UInt8}
    {ids : Std.TreeMap Bytes UInt8}
    (hids : ∀ y, ids[y]? = if name = y then entry else flagOf topics topic y) (x y : Bytes) :
    flagOf (topics.insert topic ids) x y =
      if (topic, name) = (x, y) then entry else flagOf topics x y := by
  rw [flagOf_insert, hids]
  simp only [Prod.mk.injEq]
  by_cases hx : topic = x
  · subst hx
    simp
  · simp [hx]

theorem command_flagOf (t : Tables) (fd : ℤ) (buf topic id : Bytes) :
    flagOf (command t fd (frameType buf) (frameField buf)).2.topicMap topic id =
      match commandOf t.idsMap fd buf with
      | some (key, c) => if key = (topic, id) then c.entry else flagOf t.topicMap topic id
      | none => flagOf t.topicMap topic id := by
  unfold command
  by_cases hauth : frameType buf = typeAuth
  · have hnone : commandOf t.idsMap fd buf = none :=
      commandOf_of_not_change (.inr (by rw [hauth]; decide))
    rw [hnone, if_pos hauth]
    split_ifs <;> rfl
  rw [if_neg hauth]
  by_cases hsub : frameType buf = typeSub ∨ frameType buf = typeSubSf
  · rw [if_pos hsub]
    rcases hid : t.idsMap[fd]? with _ | name
    · rw [commandOf_of_not_change (.inl hid)]
    · have hchange : change? (frameType buf) =
          some (if frameType buf = typeSub then .sub else .subSf) := by
        rcases hsub with hsub | hsub <;> rw [hsub] <;> rfl
      rw [commandOf_of_change hid hchange]
      refine flagOf_insert_entry (fun y => ?_) topic id
      rw [Std.TreeMap.getElem?_insert]
      simp only [Std.compare_eq_iff_eq]
      split_ifs <;> rfl
  rw [if_neg hsub]
  by_cases hunsub : frameType buf = typeUnsub
  · rw [if_pos hunsub]
    rcases hid : t.idsMap[fd]? with _ | name
    · rw [commandOf_of_not_change (.inl hid)]
    · have hchange : change? (frameType buf) = some .unsub := by
        rw [hunsub]
        rfl
      rw [commandOf_of_change hid hchange]
      refine flagOf_insert_entry (fun y => ?_) topic id
      rw [Std.TreeMap.getElem?_erase]
      simp only [Std.compare_eq_iff_eq]
      split_ifs <;> rfl
  · rw [if_neg hunsub]
    have hnone : change? (frameType buf) = none := by
      obtain ⟨h1, h2⟩ := not_or.1 hsub
      simp [change?, h1, h2, hunsub]
    rw [commandOf_of_not_change (.inr hnone)]

end Process

section Step

variable {s s' : Server} {k : Kernel} {fd : ℤ} {evs : List Event}

theorem handleTcpAppRecv_flagOf (h : s.handleTcpAppRecv fd = .ok (s', evs)) (topic id : Bytes) :
    flagOf s'.tables.topicMap topic id =
      match s.incoming.bind (commandOf s.tables.idsMap fd) with
      | some (key, c) => if key = (topic, id) then c.entry else flagOf s.tables.topicMap topic id
      | none => flagOf s.tables.topicMap topic id := by
  rcases handleTcpAppRecv_tables h with ⟨hin, htables⟩ | ⟨buf, hin, htables⟩
  · rw [hin, htables]
    rfl
  · rw [hin, htables]
    exact command_flagOf s.tables fd buf topic id

/-- A step changes the subscription its command names, and no other. -/
theorem step_flagOf (hcurr : ∀ fd, s.pc = .body fd → s.multi.currSockfd = fd)
    (h : s.step k = .ok (s', evs)) (topic id : Bytes) :
    flagOf s'.tables.topicMap topic id =
      match s.command? with
      | some (key, c) => if key = (topic, id) then c.entry else flagOf s.tables.topicMap topic id
      | none => flagOf s.tables.topicMap topic id := by
  by_cases hat : ∃ fd, s.At fd .recv
  · obtain ⟨fd, hat⟩ := hat
    have hcommand : s.command? = s.incoming.bind (commandOf s.tables.idsMap fd) := by
      rw [Server.command?, Server.at_iff.1 hat]
    rw [step_of_recv hat] at h
    rcases hr : s.handleTcpAppRecv fd with e | ⟨s₁, evs₁⟩ <;> rw [hr] at h
    · simp at h
    obtain ⟨rfl, -⟩ := Prod.mk.inj (Except.ok.inj h)
    rw [hcommand]
    exact handleTcpAppRecv_flagOf hr topic id
  · have hnone : s.command? = none := by
      unfold Server.command?
      split
      · rename_i fd hfd
        exact absurd ⟨fd, Server.at_iff.2 hfd⟩ hat
      · rfl
    rw [hnone]
    by_contra hne
    obtain ⟨fd, hfd, -, -⟩ := (step_does hcurr h).flagOf_ne hne
    exact hat ⟨fd, hfd⟩

end Step

namespace World

/-- The last command for a topic that was handled on a connection bound to the id. -/
def lastCommand (tr : List (World × Kernel)) (topic id : Bytes) : Option Change :=
  Registers.lastWrite (topic, id) (tr.filterMap fun q => q.1.server.command?)

/-- In every run a client is in the map of a topic exactly if the last command for the topic, on a
connection that was bound to its id, was a `SUB` or a `SUB_SF`, and it has the flag 1 exactly if
that was a `SUB_SF`. Steps that handle no command leave every subscription as it is. -/
theorem topicMap_eq_lastCommand {udp tcp : ℤ} {buffer : Bytes} {tr : List (World × Kernel)}
    {w : World} (h : Run udp tcp buffer tr w) :
    (∀ topic id, flagOf w.server.tables.topicMap topic id =
        (lastCommand tr topic id).bind Change.entry) ∧
      ∀ k w', next w k = some w' → w.server.command? = none → ∀ topic id,
        flagOf w'.server.tables.topicMap topic id = flagOf w.server.tables.topicMap topic id := by
  have hstep : ∀ (v : World) k v', v.Consistent → next v k = some v' → ∀ topic id,
      flagOf v'.server.tables.topicMap topic id =
        match v.server.command? with
        | some (key, c) =>
          if key = (topic, id) then c.entry else flagOf v.server.tables.topicMap topic id
        | none => flagOf v.server.tables.topicMap topic id := by
    intro v k v' hv hn topic id
    obtain ⟨evs, hs, -⟩ := step_of_next hn
    exact step_flagOf hv.curr hs topic id
  constructor
  · intro topic id
    refine Registers.Run.read_eq (I := Consistent)
      (fun v key => flagOf v.server.tables.topicMap key.1 key.2) (fun v _ => v.server.command?)
      (fun c => c.bind Change.entry) (consistent_start udp tcp buffer)
      (fun _ _ _ hv hn => hv.next hn) ?_ ?_ ?_ h (topic, id)
    · intro key
      simp [flagOf, start, Server.start]
    · intro v k v' hv hn hnone key
      have := hstep v k v' hv hn key.1 key.2
      rwa [hnone] at this
    · intro v k v' c hv hn hsome key
      have := hstep v k v' hv hn key.1 key.2
      rwa [hsome] at this
  · intro k w' hn hnone topic id
    have := hstep w k w' (Run.consistent h) hn topic id
    rwa [hnone] at this

/-- `A` logs in on 5, and subscribes to `t` to be stored for. -/
def subscribeSfInputs : List Kernel :=
  loginInputs 5 65 ++ [.quiet, .ready {5} [(5, [0, 0, 0, 2, 3, 116])], .quiet, .quiet]

set_option maxRecDepth 10000 in
theorem topicMap_eq_lastCommand_sf : ∃ tr w, Run 3 4 [] tr w ∧
    tr.map Prod.snd = subscribeSfInputs ∧
    flagOf w.server.tables.topicMap [116] [65] = some 1 ∧
    (lastCommand tr [116] [65]).bind Change.entry = some 1 := by
  have hsub : ∃ w ∈ Runs.exec next (start 3 4 []) subscribeSfInputs,
      flagOf w.server.tables.topicMap [116] [65] = some 1 := by
    decide +kernel
  obtain ⟨tr, w, hr, htr, hflag⟩ := Runs.exists_run_of_exec hsub
  exact ⟨tr, w, hr, htr, hflag, ((topicMap_eq_lastCommand hr).1 [116] [65]).symm.trans hflag⟩

end World

end NewsServer
