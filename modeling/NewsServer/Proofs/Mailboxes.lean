import NewsServer.Lib.Broker
import NewsServer.Proofs.StoreForward
import NewsServer.Proofs.Subscriptions

/-!
# The server is a broker

To a client a run of the server is a run of a broker's member: its logins, the ends of connections
it is bound to, its commands, and the datagrams, whatever the other clients do (`member_eq`). So the
rules of a broker hold of the news a client is sent.
-/

namespace NewsServer

open Memory
open Broker (Act Member)

/-- The news that went out to `id`, at once or out of its queue. -/
def deliveredTo (id : Bytes) (evs : List Event) : List SharedPacket :=
  evs.filterMap fun
    | .forwarded id' _ packet => if id' = id then some packet else none
    | .replayed id' _ packet => if id' = id then some packet else none
    | _ => none

@[simp] theorem deliveredTo_append (id : Bytes) (evs evs' : List Event) :
    deliveredTo id (evs ++ evs') = deliveredTo id evs ++ deliveredTo id evs' :=
  List.filterMap_append

theorem deliveredTo_closed (id : Bytes) (fds : List ℤ) : deliveredTo id (fds.map .closed) = [] := by
  rw [deliveredTo, List.filterMap_map]
  simp

/-- What a command is to the client it is of. -/
def Change.act (topic : Bytes) : Change → Act Bytes SharedPacket
  | .sub => .subscribe topic false
  | .subSf => .subscribe topic true
  | .unsub => .unsubscribe topic

/-- What a frame that comes in on `fd` is to the client `id`. -/
def frameAct (ids : IdMap) (fd : ℤ) (id buf : Bytes) : Option (Act Bytes SharedPacket) :=
  if frameType buf = typeAuth then
    if frameField buf = id then some .login else none
  else
    match commandOf ids fd buf with
    | some (key, c) => if key.2 = id then some (c.act key.1) else none
    | none => none

namespace World

/-- What a step is to the client `id`. -/
def act (id : Bytes) (w : World) (k : Kernel) : Option (Act Bytes SharedPacket) :=
  match w.server.at? with
  | some (_, .udp) => some (.publish k.topic k.news)
  | some (fd, .closed) => if w.server.tables.idsMap.getD fd [] = id then some .logout else none
  | some (fd, .recv) => w.server.incoming.bind (frameAct w.server.tables.idsMap fd id)
  | _ => none

/-- What a run is to the client `id`. -/
def acts (id : Bytes) (tr : List (World × Kernel)) : List (Act Bytes SharedPacket) :=
  tr.filterMap fun q => act id q.1 q.2

/-- The client `id` as a member of a broker. -/
def member (w : World) (id : Bytes) : Member Bytes SharedPacket where
  online := (userOf w.server.tables.clients id).isSome
  flag topic := (flagOf w.server.tables.topicMap topic id).map (· != 0)
  box := w.queue id
  got := deliveredTo id w.trace

end World

section News

variable {multi : MultiSocket} {packet : SharedPacket} {entries : List (Bytes × UInt8)}
  {clients clients' : ClientMap} {evs : List Event}

/-- What the walk over the entries of a topic does for one client, `flag` being its entry. -/
theorem FannedOut.reached (h : FannedOut multi packet entries clients clients' evs) (x : Bytes) :
    ∀ flag : Option UInt8, (entries.map Prod.fst).Nodup →
      (∀ sf, (x, sf) ∈ entries ↔ flag = some sf) →
        (deliveredTo x evs = if (userOf clients x).isSome ∧ flag.isSome then [packet] else []) ∧
          storedFor x evs =
            if userOf clients x = none ∧ ∃ sf ∈ flag, sf ≠ 0 then [packet] else [] := by
  -- the entry of the client is the first one, or among the others
  have hcases : ∀ {id : Bytes} {sf : UInt8} {rest : List (Bytes × UInt8)} {flag : Option UInt8},
      (((id, sf) :: rest).map Prod.fst).Nodup → (∀ sf', (x, sf') ∈ (id, sf) :: rest ↔
        flag = some sf') → (rest.map Prod.fst).Nodup ∧
        (id = x ∧ flag = some sf ∧ (∀ sf', (x, sf') ∈ rest ↔ none = some sf') ∨
          id ≠ x ∧ ∀ sf', (x, sf') ∈ rest ↔ flag = some sf') := by
    intro id sf rest flag hnd hflag
    obtain ⟨hid, hnd⟩ := List.nodup_cons.1 hnd
    refine ⟨hnd, ?_⟩
    by_cases hx : id = x
    · subst hx
      refine .inl ⟨rfl, (hflag sf).1 List.mem_cons_self, fun sf' => iff_of_false (fun hm => ?_) ?_⟩
      · exact hid (List.mem_map.2 ⟨_, hm, rfl⟩)
      · simp
    · refine .inr ⟨hx, fun sf' => (Iff.symm ?_).trans (hflag sf')⟩
      simp [Ne.symm hx]
  induction h with
  | nil =>
    intro flag _ hflag
    have hnone : flag = none := by
      rcases flag with _ | sf
      · rfl
      · exact absurd ((hflag sf).2 rfl) List.not_mem_nil
    simp [hnone, deliveredTo, storedFor]
  | skip hfree hu _ _ ih =>
    intro flag hnd hflag
    obtain ⟨hnd, ⟨rfl, rfl, hrest⟩ | ⟨hx, hrest⟩⟩ := hcases hnd hflag
    · obtain ⟨hd, hs⟩ := ih _ hnd hrest
      simp [hd, hs, hfree]
    · obtain ⟨hd, hs⟩ := ih _ hnd hrest
      rw [hd, hs, hu]
      exact ⟨rfl, rfl⟩
  | store hfree hsf hu _ _ ih =>
    intro flag hnd hflag
    obtain ⟨hnd, ⟨rfl, rfl, hrest⟩ | ⟨hx, hrest⟩⟩ := hcases hnd hflag
    · obtain ⟨hd, hs⟩ := ih _ hnd hrest
      simp only [deliveredTo, storedFor] at hd hs
      simp [deliveredTo, storedFor, hd, hs, hfree, hsf]
    · obtain ⟨hd, hs⟩ := ih _ hnd hrest
      rw [hu] at hd hs
      simp only [deliveredTo, storedFor] at hd hs ⊢
      simp only [List.filterMap_cons, if_neg hx]
      exact ⟨hd, hs⟩
  | forward huser hmem hu _ _ ih =>
    intro flag hnd hflag
    obtain ⟨hnd, ⟨rfl, rfl, hrest⟩ | ⟨hx, hrest⟩⟩ := hcases hnd hflag
    · obtain ⟨hd, hs⟩ := ih _ hnd hrest
      simp only [deliveredTo, storedFor] at hd hs
      simp [deliveredTo, storedFor, hd, hs, huser]
    · obtain ⟨hd, hs⟩ := ih _ hnd hrest
      rw [hu] at hd hs
      simp only [deliveredTo, storedFor] at hd hs ⊢
      simp only [List.filterMap_cons, if_neg hx]
      exact ⟨hd, hs⟩

/-- No news goes out for a frame but what an `AUTH` that is accepted sends. -/
theorem Answered.deliveredTo_eq {m m' : MultiSocket} {t : Tables} {fd : ℤ} {buf : Bytes}
    {type : UInt8} {past : List Event} (h : Answered m t fd buf type m' evs)
    (hpast : past = [] ∨ past = [.pastPacket]) (id : Bytes) :
    deliveredTo id (.frame fd buf type :: past ++ evs) =
      replayedTo id (.frame fd buf type :: past ++ evs) := by
  have hevs : deliveredTo id evs = replayedTo id evs := by
    cases h with
    | confirmed =>
      refine List.filterMap_congr fun e he => ?_
      rcases List.mem_cons.1 he with rfl | he
      · rfl
      simp only [replays, List.mem_flatMap, List.mem_cons, List.not_mem_nil, or_false] at he
      obtain ⟨packet, -, rfl | rfl⟩ := he <;> rfl
    | declined => rfl
    | silent => rfl
  rw [deliveredTo_append, replayedTo_append, hevs]
  rcases hpast with rfl | rfl <;> rfl

end News

namespace World

section Step

variable {w w' : World} {k : Kernel} {evs : List Event}

theorem online_eq_false {id : Bytes} :
    (w.member id).online = false ↔ userOf w.server.tables.clients id = none := by
  simp [member]

theorem act_of_at {fd : ℤ} {b : Branch} (hat : w.server.At fd b) (id : Bytes) : act id w k =
    match b with
    | .udp => some (.publish k.topic k.news)
    | .closed => if w.server.tables.idsMap.getD fd [] = id then some .logout else none
    | .recv => w.server.incoming.bind (frameAct w.server.tables.idsMap fd id)
    | _ => none := by
  rw [act, Server.at_iff.1 hat]
  cases b <;> rfl

theorem act_of_pc (hpc : w.server.pc = .top ∨ w.server.pc = .selecting) (id : Bytes) :
    act id w k = none := by
  rw [act, Server.at?]
  rcases hpc with hpc | hpc <;> rw [hpc]

theorem Change.act_flag (m : Member Bytes SharedPacket) (topic x : Bytes) (c : Change) :
    (m.act (c.act topic)).flag x =
      if topic = x then c.entry.map (· != 0) else m.flag x := by
  cases c <;>
    simp only [Change.act, Member.act, Function.update_apply, eq_comm (a := topic)] <;> rfl

/-- What a frame is to a client changes what the command in it does. -/
theorem frameAct_flag (m : Member Bytes SharedPacket) (ids : IdMap) (fd : ℤ) (id buf x : Bytes) :
    (m.acts (frameAct ids fd id buf).toList).flag x =
      match commandOf ids fd buf with
      | some (key, c) => if key = (x, id) then c.entry.map (· != 0) else m.flag x
      | none => m.flag x := by
  unfold frameAct
  by_cases hauth : frameType buf = typeAuth
  · rw [if_pos hauth, commandOf_of_not_change (.inr (by rw [hauth]; decide))]
    split_ifs
    · exact congrFun m.login_flag x
    · rfl
  · rw [if_neg hauth]
    rcases commandOf ids fd buf with _ | ⟨⟨topic, name⟩, c⟩
    · rfl
    · dsimp only
      by_cases hname : name = id
      · rw [if_pos hname, Option.toList_some, Member.acts_cons, Member.acts_nil, Change.act_flag]
        simp [hname]
      · rw [if_neg hname, if_neg fun h => hname (Prod.mk.inj h).2]
        rfl

theorem member_flag (h : w.Consistent) (hn : next w k = some w') (id : Bytes) :
    (w'.member id).flag = ((w.member id).acts (act id w k).toList).flag := by
  funext topic
  obtain ⟨evs, hs, -⟩ := step_of_next hn
  have hflag := step_flagOf h.curr hs topic id
  have hkeep : w.server.command? = none →
      (w'.member id).flag topic = (w.member id).flag topic := by
    intro hnone
    rw [hnone] at hflag
    exact congrArg (Option.map (· != 0)) hflag
  rw [act]
  unfold Server.command? at hflag hkeep
  generalize w.server.at? = x at hflag hkeep ⊢
  rcases x with _ | ⟨fd, b⟩
  · exact hkeep rfl
  cases b with
  | stdin => exact hkeep rfl
  | udp =>
    rw [hkeep rfl]
    exact (congrFun (Member.publish_flag (w.member id) k.topic k.news) topic).symm
  | accept => exact hkeep rfl
  | closed =>
    rw [hkeep rfl]
    dsimp only
    split_ifs <;> rfl
  | recv =>
    dsimp only at hflag hkeep ⊢
    generalize w.server.incoming = y at hflag hkeep ⊢
    rcases y with _ | buf
    · exact hkeep rfl
    rw [Option.bind_some] at hflag ⊢
    rw [frameAct_flag]
    rcases hc : commandOf w.server.tables.idsMap fd buf with _ | ⟨key, c⟩ <;> rw [hc] at hflag
    · exact congrArg (Option.map (· != 0)) hflag
    · dsimp only at hflag ⊢
      refine (congrArg (Option.map (· != 0)) hflag).trans ?_
      split_ifs <;> rfl

/-- Who is connected, what is stored and what goes out is as a broker has it. -/
theorem member_does {s' : Server} (hd : Does w.server k s' evs) (id : Bytes) :
    (userOf s'.tables.clients id).isSome =
        ((w.member id).acts (act id w k).toList).online ∧
      storedFor id evs = ((act id w k).map (w.member id).keeps).getD [] ∧
      deliveredTo id evs = ((act id w k).map (w.member id).delivers).getD [] := by
  cases hd with
  | poll hpc =>
    rw [act_of_pc (hpc.imp_right And.left)]
    exact ⟨rfl, rfl, rfl⟩
  | select hpc =>
    obtain ⟨fds, he, -⟩ := MultiSocket.passed_selectRound w.server.multi k.pass
    rw [act_of_pc (.inr hpc), he, storedFor_closed, deliveredTo_closed]
    exact ⟨rfl, rfl, rfl⟩
  | stdin hat =>
    rw [act_of_at hat]
    exact ⟨rfl, rfl, rfl⟩
  | @news fd buffer clients evs hat hfan =>
    obtain ⟨hd, hs⟩ := hfan.reached id (flagOf w.server.tables.topicMap k.topic id)
      (nodup_toList _) fun sf => Std.TreeMap.mem_toList_iff_getElem?_eq_some
    rw [act_of_at hat]
    refine ⟨?_, hs.trans ?_, hd.trans ?_⟩
    · dsimp only
      rw [hfan.user]
      exact (Member.publish_online (w.member id) k.topic k.news).symm
    · refine if_congr (and_congr online_eq_false.symm ?_) rfl rfl
      simp [member]
    · refine if_congr (and_congr Iff.rfl ?_) rfl rfl
      simp [member]
  | accept hat =>
    rw [act_of_at hat]
    exact ⟨rfl, rfl, rfl⟩
  | @closed fd hat =>
    rw [act_of_at hat]
    dsimp only
    simp only [Server.handleClosed, userOf_insert]
    by_cases hid : w.server.tables.idsMap.getD fd [] = id
    · rw [if_pos hid, if_pos hid]
      exact ⟨rfl, rfl, rfl⟩
    · rw [if_neg hid, if_neg hid]
      exact ⟨rfl, rfl, rfl⟩
  | idle hat hin =>
    rw [act_of_at hat, hin]
    exact ⟨rfl, rfl, rfl⟩
  | @frame fd buf type tables multi past evs hat hin hsize hmem hp hans hpast =>
    rw [act_of_at hat, hin, hans.deliveredTo_eq hpast, hans.storedFor_eq hpast,
      hans.replayedTo_eq hpast]
    dsimp only
    rw [Option.bind_some, frameAct]
    by_cases hauth : frameType buf = typeAuth
    · rw [if_pos hauth]
      by_cases hid : frameField buf = id
      · subst hid
        rw [if_pos rfl]
        rcases hu : userOf w.server.tables.clients (frameField buf) with _ | fd'
        · obtain rfl := hp.of_free hauth hu
          obtain ⟨-, -, hl⟩ := hp.of_auth rfl
          have hoff : (w.member (frameField buf)).online = false := online_eq_false.2 hu
          rw [hl.user, if_pos rfl, if_pos ⟨rfl, rfl⟩, hl.queue]
          refine ⟨(Member.login_online _).symm, rfl, ?_⟩
          simp only [Option.map_some, Option.getD_some, Member.delivers, hoff]
          rfl
        · have hon : (w.member (frameField buf)).online = true := by simp [member, hu]
          have htype : type ≠ typeAuth := by
            rw [hp.of_used hauth (by simp [hu])]
            decide
          rw [(hp.sameLogins htype).user, hu, if_neg fun h => htype h.1]
          refine ⟨(Member.login_online _).symm, rfl, ?_⟩
          simp only [Option.map_some, Option.getD_some, Member.delivers, hon]
          rfl
      · rw [if_neg hid, if_neg fun h => hid h.2]
        refine ⟨?_, rfl, rfl⟩
        by_cases htype : type = typeAuth
        · obtain ⟨-, -, hl⟩ := hp.of_auth htype
          rw [hl.user, if_neg hid]
          rfl
        · rw [(hp.sameLogins htype).user]
          rfl
    · have htype : type ≠ typeAuth := fun h => hauth (hp.of_auth h).1
      rw [if_neg hauth, if_neg fun h => htype h.1, (hp.sameLogins htype).user]
      rcases commandOf w.server.tables.idsMap fd buf with _ | ⟨⟨topic, name⟩, c⟩
      · exact ⟨rfl, rfl, rfl⟩
      dsimp only
      by_cases hname : name = id
      · rw [if_pos hname]
        cases c <;> exact ⟨rfl, rfl, rfl⟩
      · rw [if_neg hname]
        exact ⟨rfl, rfl, rfl⟩

/-- A step is to each client one act of a broker's member, at most. -/
theorem member_next (h : w.Consistent) (hn : next w k = some w') (id : Bytes) :
    w'.member id = (w.member id).acts (act id w k).toList := by
  obtain ⟨hd, ht, -⟩ := h.does hn
  obtain ⟨hon, hkeeps, hdelivers⟩ := member_does hd id
  have hbox : (w'.member id).box = w.queue id ++ storedFor id (w.events k) := queue_next h hn id
  have hgot : (w'.member id).got = (w.member id).got ++ deliveredTo id (w.events k) := by
    simp only [member, ht, deliveredTo_append]
  refine Member.ext hon (member_flag h hn id) ?_ ?_
  · rw [hbox, hkeeps]
    rcases act id w k with _ | a
    · exact List.append_nil _
    · exact ((w.member id).act_box a).symm
  · rw [hgot, hdelivers]
    rcases act id w k with _ | a
    · exact List.append_nil _
    · exact ((w.member id).act_got a).symm

end Step

section Run

variable {udp tcp : ℤ} {buffer : Bytes} {tr₀ tr : List (World × Kernel)} {v w : World}

/-- What a run makes of a client is what its acts make of it. -/
theorem member_of_run (hv : v.Consistent) (h : Runs.Run next v tr w) (id : Bytes) :
    w.member id = (v.member id).acts (acts id tr) :=
  Broker.Run.eq_acts (fun u => u.member id) (act id) hv (fun _ _ _ hu hn => hu.next hn)
    (fun _ _ _ hu hn => member_next hu hn id) h

theorem member_start (udp tcp : ℤ) (buffer : Bytes) (id : Bytes) :
    (start udp tcp buffer).member id = .new := by
  refine Member.ext ?_ ?_ ?_ rfl
  · simp [member, start, Server.start, userOf, default, Member.new]
  · funext topic
    simp [member, start, Server.start, flagOf, Member.new]
  · simp [member, World.queue, start, Server.start, queueOf, default, Member.new]

theorem Run.member (h : Run udp tcp buffer tr w) (id : Bytes) :
    w.member id = Member.new.acts (acts id tr) := by
  rw [member_of_run (consistent_start udp tcp buffer) h, member_start]

/-- In every run each client is a member of a broker: it is connected, subscribed and has packets
stored, and news has gone out to it, exactly as the acts of the run that are its own make it, with
what is published. -/
theorem serves_as_broker (h : Run udp tcp buffer tr w) (id : Bytes) :
    (userOf w.server.tables.clients id).isSome = (Member.new.acts (acts id tr)).online ∧
      (∀ topic, (flagOf w.server.tables.topicMap topic id).map (· != 0) =
        (Member.new.acts (acts id tr)).flag topic) ∧
      w.queue id = (Member.new.acts (acts id tr)).box ∧
      deliveredTo id w.trace = (Member.new.acts (acts id tr)).got := by
  rw [← Run.member h id]
  exact ⟨rfl, fun _ => rfl, rfl, rfl⟩

set_option maxRecDepth 10000 in
/-- `A` misses a packet, and logs in twice. -/
theorem serves_as_broker_return : ∃ tr w, Run 3 4 [] tr w ∧
    tr.map Prod.snd = missInputs ++ returnInputs ∧ (deliveredTo [65] w.trace).length = 2 ∧
      deliveredTo [65] w.trace = (Member.new.acts (acts [65] tr)).got := by
  have htwice : ∃ w ∈ Runs.exec next (start 3 4 []) (missInputs ++ returnInputs),
      (deliveredTo [65] w.trace).length = 2 := by
    decide +kernel
  obtain ⟨tr, w, hr, htr, hgot⟩ := Runs.exists_run_of_exec htwice
  exact ⟨tr, w, hr, htr, hgot, (serves_as_broker hr [65]).2.2.2⟩

/-! ## What reaches a client -/

theorem exists_of_acts {id : Bytes} {a : Act Bytes SharedPacket}
    {pre post : List (Act Bytes SharedPacket)} (h : acts id tr = pre ++ a :: post) :
    ∃ tr₁ q tr₂, tr = tr₁ ++ q :: tr₂ ∧ acts id tr₁ = pre ∧ act id q.1 q.2 = some a ∧
      acts id tr₂ = post := by
  obtain ⟨l₁, l₂, rfl, hpre, h₂⟩ := List.filterMap_eq_append_iff.1 h
  obtain ⟨m₁, q, m₂, rfl, hnone, hq, hpost⟩ := List.filterMap_eq_cons_iff.1 h₂
  refine ⟨l₁ ++ m₁, q, m₂, (List.append_assoc ..).symm, ?_, hq, hpost⟩
  rw [acts, List.filterMap_append, hpre, List.filterMap_eq_nil_iff.2 hnone, List.append_nil]

theorem frameAct_eq {ids : IdMap} {fd : ℤ} {id buf : Bytes} {a : Act Bytes SharedPacket}
    (h : frameAct ids fd id buf = some a) :
    a = .login ∧ frameType buf = typeAuth ∧ frameField buf = id ∨
      a ≠ .login ∧ a ≠ .logout ∧ ∀ topic packet, a ≠ .publish topic packet := by
  unfold frameAct at h
  split_ifs at h with hauth hid
  · exact .inl ⟨(Option.some.inj h).symm, hauth, hid⟩
  · right
    rcases hc : commandOf ids fd buf with _ | ⟨key, c⟩ <;> rw [hc] at h
    · simp at h
    · dsimp only at h
      split_ifs at h
      obtain rfl := Option.some.inj h
      cases c <;> simp [Change.act]

theorem act_cases {k : Kernel} {id : Bytes} {a : Act Bytes SharedPacket}
    (h : act id v k = some a) :
    (∃ fd, v.server.At fd .udp) ∧ a = .publish k.topic k.news ∨
      (∃ fd, v.server.At fd .closed ∧ v.server.tables.idsMap.getD fd [] = id) ∧ a = .logout ∨
      ∃ fd, v.server.At fd .recv ∧ ∃ buf ∈ v.server.incoming,
        frameAct v.server.tables.idsMap fd id buf = some a := by
  rcases hat : v.server.at? with _ | ⟨fd, b⟩
  · rw [act, hat] at h
    simp at h
  have hat := Server.at_iff.2 hat
  rw [act_of_at hat] at h
  cases b with
  | stdin => simp at h
  | udp => exact .inl ⟨⟨fd, hat⟩, (Option.some.inj h).symm⟩
  | accept => simp at h
  | closed =>
    dsimp only at h
    split_ifs at h with hid
    exact .inr (.inl ⟨⟨fd, hat, hid⟩, (Option.some.inj h).symm⟩)
  | recv => exact .inr (.inr ⟨fd, hat, Option.bind_eq_some_iff.1 h⟩)

theorem act_eq_publish {k : Kernel} {id topic : Bytes} {packet : SharedPacket}
    (h : act id v k = some (.publish topic packet)) :
    (∃ fd, v.server.At fd .udp) ∧ topic = k.topic ∧ packet = k.news := by
  rcases act_cases h with ⟨hat, ha⟩ | ⟨-, ha⟩ | ⟨fd, -, buf, -, ha⟩
  · simp only [Act.publish.injEq] at ha
    exact ⟨hat, ha⟩
  · simp at ha
  · rcases frameAct_eq ha with ⟨ha, -⟩ | ⟨-, -, hno⟩
    · simp at ha
    · exact absurd rfl (hno topic packet)

theorem size_of_next {k : Kernel} (hv : v.Consistent) (hn : next v k = some w) {fd : ℤ}
    {buf : Bytes} (hat : v.server.At fd .recv) (hin : v.server.incoming = some buf) :
    buf.length ≤ cliPacketSize := by
  have hd := (hv.does hn).1
  generalize w.server = s', v.events k = evs at hd
  cases hd with
  | frame hat' hin' hsize =>
    rw [hin, Option.some.injEq] at hin'
    rwa [hin']
  | idle _ hin' => simp [hin] at hin'
  | poll hpc => exact absurd hat (Server.not_at_of_pc (hpc.imp_right And.left) fd _)
  | select hpc => exact absurd hat (Server.not_at_of_pc (.inr hpc) fd _)
  | stdin hat' => exact absurd hat (hat'.not (by decide) fd)
  | news hat' => exact absurd hat (hat'.not (by decide) fd)
  | accept hat' => exact absurd hat (hat'.not (by decide) fd)
  | closed hat' => exact absurd hat (hat'.not (by decide) fd)

theorem acceptsAuth_iff {k : Kernel} (hv : v.Consistent) (hn : next v k = some w) {id : Bytes} :
    v.AcceptsAuth id ↔ act id v k = some .login ∧ (v.member id).online = false := by
  rw [online_eq_false]
  constructor
  · rintro ⟨fd, hat, buf, hin, -, hauth, rfl, hfree⟩
    refine ⟨?_, hfree⟩
    rw [act_of_at hat]
    dsimp only
    rw [show v.server.incoming = some buf from hin, Option.bind_some, frameAct, if_pos hauth,
      if_pos rfl]
  · rintro ⟨hact, hfree⟩
    rcases act_cases hact with ⟨-, ha⟩ | ⟨-, ha⟩ | ⟨fd, hat, buf, hin, ha⟩
    · simp at ha
    · simp at ha
    · rcases frameAct_eq ha with ⟨-, hauth, hid⟩ | ⟨hno, -⟩
      · exact ⟨fd, hat, buf, hin, size_of_next hv hn hat hin, hauth, hid, hfree⟩
      · exact absurd rfl hno

theorem Run.flag (h : Run udp tcp buffer tr w) : ∀ topic id sf,
    flagOf w.server.tables.topicMap topic id = some sf → sf = 0 ∨ sf = 1 := by
  have hinv := Runs.Run.always (P := fun u : World => u.Consistent ∧ ∀ topic id sf,
    flagOf u.server.tables.topicMap topic id = some sf → sf = 0 ∨ sf = 1)
    ⟨consistent_start udp tcp buffer, by simp [flagOf, start, Server.start]⟩ ?_ h
  · exact hinv.2
  · rintro u k u' ⟨hu, hflag⟩ hn
    refine ⟨hu.next hn, fun topic id sf hsf => ?_⟩
    obtain ⟨evs, hs, -⟩ := step_of_next hn
    rw [step_flagOf hu.curr hs] at hsf
    rcases hc : u.server.command? with _ | ⟨key, c⟩ <;> rw [hc] at hsf
    · exact hflag topic id sf hsf
    · dsimp only at hsf
      split_ifs at hsf
      · cases c with
        | sub => exact .inl (Option.some.inj hsf).symm
        | subSf => exact .inr (Option.some.inj hsf).symm
        | unsub => simp [Change.entry] at hsf
      · exact hflag topic id sf hsf

/-- In every run, what has gone out to a client is news of a datagram of the run, on a topic whose
map had the client in it then: and the client was connected, or it was not, with the flag 1, and an
`AUTH` of its id was accepted after that. -/
theorem delivered_subscribed (h : Run udp tcp buffer tr w) {id : Bytes} {packet : SharedPacket}
    (hp : packet ∈ deliveredTo id w.trace) : ∃ tr₁ v k tr₂, tr = tr₁ ++ (v, k) :: tr₂ ∧
      packet = k.news ∧ ((∃ fd, v.server.At fd .udp) ∧
          (userOf v.server.tables.clients id).isSome ∧
          (flagOf v.server.tables.topicMap k.topic id).isSome ∨
        v.Misses id k ∧ ∃ q ∈ tr₂, q.1.AcceptsAuth id) := by
  have hgot : packet ∈ (w.member id).got := hp
  rw [Run.member h id] at hgot
  obtain ⟨pre, topic, post, hacts, hcase⟩ := Member.exists_publish hgot
  obtain ⟨tr₁, ⟨v, k⟩, tr₂, rfl, rfl, hact, rfl⟩ := exists_of_acts hacts
  obtain ⟨hat, rfl, rfl⟩ := act_eq_publish hact
  have hrun := h.of_append
  rw [← Run.member hrun id] at hcase
  refine ⟨tr₁, v, k, tr₂, rfl, rfl, ?_⟩
  rcases hcase with ⟨hon, hflag⟩ | ⟨hoff, hflag, mid, rest, hpost, hlogin⟩
  · exact .inl ⟨hat, hon, by simpa [member] using hflag⟩
  · obtain ⟨sf, hsf, hne⟩ := Option.map_eq_some_iff.1 hflag
    obtain rfl : sf = 1 := by
      rcases Run.flag hrun _ _ _ hsf with rfl | rfl
      · simp at hne
      · rfl
    refine .inr ⟨⟨hat, hsf, online_eq_false.1 hoff⟩, ?_⟩
    obtain ⟨m₁, q, m₂, rfl, rfl, hact', -⟩ := exists_of_acts hpost
    rw [← List.cons_append, ← List.append_assoc] at h
    obtain ⟨u, hn⟩ := h.exists_next q (by simp)
    have hrun' := h.of_append
    have hmember' : q.1.member id =
        Member.new.acts (acts id tr₁ ++ .publish k.topic k.news :: acts id m₁) := by
      rw [Run.member hrun' id, acts, List.filterMap_append, List.filterMap_cons, hact]
      rfl
    refine ⟨q, by simp, (acceptsAuth_iff (Run.consistent hrun') hn).2 ⟨hact', ?_⟩⟩
    rw [hmember']
    exact hlogin

set_option maxRecDepth 10000 in
/-- The packet that `A` has missed has gone out. -/
theorem delivered_subscribed_return : ∃ tr w packet, Run 3 4 [] tr w ∧
    tr.map Prod.snd = missInputs ++ returnInputs ∧ packet ∈ deliveredTo [65] w.trace ∧
      ∃ tr₁ v k tr₂, tr = tr₁ ++ (v, k) :: tr₂ ∧
        packet = k.news ∧ ((∃ fd, v.server.At fd .udp) ∧
            (userOf v.server.tables.clients [65]).isSome ∧
            (flagOf v.server.tables.topicMap k.topic [65]).isSome ∨
          v.Misses [65] k ∧ ∃ q ∈ tr₂, q.1.AcceptsAuth [65]) := by
  have htwice : ∃ w ∈ Runs.exec next (start 3 4 []) (missInputs ++ returnInputs),
      ∃ packet ∈ (deliveredTo [65] w.trace).head?, True := by
    decide +kernel
  obtain ⟨tr, w, hr, htr, packet, hhead, -⟩ := Runs.exists_run_of_exec htwice
  have hp := List.mem_of_mem_head? hhead
  exact ⟨tr, w, packet, hr, htr, hp, delivered_subscribed hr hp⟩

/-- The news of the datagrams of a run on topics whose map had the client in it then. -/
def newsFor (id : Bytes) (tr : List (World × Kernel)) : List SharedPacket :=
  tr.filterMap fun q =>
    if (∃ fd, q.1.server.At fd .udp) ∧ (flagOf q.1.server.tables.topicMap q.2.topic id).isSome then
      some q.2.news
    else none

/-- The step handles the end of a connection that is bound to the client. -/
def Leaves (w : World) (id : Bytes) : Prop :=
  ∃ fd, w.server.At fd .closed ∧ w.server.tables.idsMap.getD fd [] = id

instance (w : World) (id : Bytes) : Decidable (w.Leaves id) :=
  inferInstanceAs (Decidable (∃ fd, w.server.At fd .closed ∧ _))

theorem act_eq_none {k : Kernel} {id : Bytes} (h : act id v k = none) (fd : ℤ) :
    ¬ v.server.At fd .udp := by
  intro hat
  rw [act_of_at hat] at h
  simp at h

/-- What a step publishes for a client. -/
theorem heard_act (v : World) (k : Kernel) (id : Bytes) :
    (v.member id).heard (act id v k).toList = newsFor id [(v, k)] := by
  have hnews : newsFor id [(v, k)] = if (∃ fd, v.server.At fd .udp) ∧
      (flagOf v.server.tables.topicMap k.topic id).isSome then [k.news] else [] := by
    rw [newsFor, List.filterMap_cons, List.filterMap_nil]
    split_ifs <;> rfl
  rw [hnews]
  rcases hact : act id v k with _ | a
  · rw [if_neg fun h => h.1.elim (act_eq_none hact)]
    rfl
  have hone : (v.member id).heard (some a).toList = (v.member id).hears a :=
    List.append_nil _
  rw [hone]
  rcases act_cases hact with ⟨hat, rfl⟩ | ⟨⟨fd, hat, -⟩, rfl⟩ | ⟨fd, hat, buf, -, ha⟩
  · exact if_congr (by simp [hat, member]) rfl rfl
  · exact (if_neg fun h => h.1.elim (hat.not (by decide))).symm
  · rw [if_neg fun h => h.1.elim (hat.not (by decide))]
    rcases frameAct_eq ha with ⟨rfl, -⟩ | ⟨-, -, hno⟩
    · rfl
    · cases a with
      | publish topic packet => exact absurd rfl (hno topic packet)
      | _ => rfl

theorem acts_concat (id : Bytes) (tr : List (World × Kernel)) (v : World) (k : Kernel) :
    acts id (tr ++ [(v, k)]) = acts id tr ++ (act id v k).toList := by
  rw [acts, List.filterMap_append]
  exact congrArg (acts id tr ++ ·) (List.filterMap_cons ..)

theorem heard_acts (hv : v.Consistent) (h : Runs.Run next v tr w) (id : Bytes) :
    (v.member id).heard (acts id tr) = newsFor id tr := by
  induction h with
  | start => rfl
  | @step tr s s' i hr hn ih =>
    rw [acts_concat, Member.heard_append, ih, ← member_of_run hv hr, heard_act, newsFor, newsFor,
      ← List.filterMap_append]
    rfl

theorem logins_acts (hv : v.Consistent) (h : Runs.Run next v tr w) (id : Bytes) :
    (v.member id).logins (acts id tr) = tr.countP fun q => q.1.AcceptsAuth id := by
  induction h with
  | start => rfl
  | @step tr s s' i hr hn ih =>
    have hs : s.Consistent := hr.always hv fun _ _ _ hu hn => hu.next hn
    have hone : (s.member id).logins (act id s i).toList = if s.AcceptsAuth id then 1 else 0 := by
      rw [if_congr (acceptsAuth_iff hs hn) rfl rfl]
      rcases act id s i with _ | a
      · rfl
      · cases a <;> rcases ho : (s.member id).online with _ | _ <;>
          simp [Member.logins, Member.comes, ho]
    rw [acts_concat, Member.logins_append, ih, ← member_of_run hv hr, hone, List.countP_append,
      List.countP_singleton]
    simp

/-- In every run, as long as a client stays connected, the news of every datagram on a topic whose
map has it goes out to it, once, in the order of the datagrams, and no other news does; nothing is
stored for it. -/
theorem live_in_order (h₀ : Run udp tcp buffer tr₀ v) (h : Runs.Run next v tr w) {id : Bytes}
    (hon : (userOf v.server.tables.clients id).isSome) (hstay : ∀ q ∈ tr, ¬ q.1.Leaves id) :
    deliveredTo id w.trace = deliveredTo id v.trace ++ newsFor id tr ∧ w.queue id = v.queue id := by
  have hv := Run.consistent h₀
  have hout : .logout ∉ acts id tr := by
    intro hmem
    obtain ⟨q, hq, hact⟩ := List.mem_filterMap.1 hmem
    rcases act_cases hact with ⟨-, ha⟩ | ⟨hat, -⟩ | ⟨fd, -, buf, -, ha⟩
    · simp at ha
    · exact hstay q hq hat
    · rcases frameAct_eq ha with ⟨ha, -⟩ | ⟨-, hno, -⟩
      · simp at ha
      · exact hno rfl
  obtain ⟨hgot, hbox⟩ := Member.got_of_settled (m := v.member id) hon hout
  rw [← member_of_run hv h, heard_acts hv h] at hgot
  rw [← member_of_run hv h] at hbox
  exact ⟨hgot, hbox⟩

/-- A datagram on `t` comes in. -/
def liveInputs : List Kernel :=
  [.quiet, .ready {3} [], .quiet, { Kernel.quiet with datagram := 116 :: List.replicate 50 0 }]

set_option maxRecDepth 10000 in
/-- `A` is connected, and subscribed to `t`. -/
theorem live_in_order_sf : ∃ tr₀ v tr w, Run 3 4 [] tr₀ v ∧ Runs.Run next v tr w ∧
    tr₀.map Prod.snd = subscribeSfInputs ∧ tr.map Prod.snd = liveInputs ∧
      (newsFor [65] tr).length = 1 ∧
      deliveredTo [65] w.trace = deliveredTo [65] v.trace ++ newsFor [65] tr ∧
        w.queue [65] = v.queue [65] := by
  have hsub : ∃ v ∈ Runs.exec next (start 3 4 []) subscribeSfInputs,
      (userOf v.server.tables.clients [65]).isSome ∧
        ∃ x ∈ Runs.exec (Runs.record next) ([], v) liveInputs,
          (∀ q ∈ x.1, ¬ q.1.Leaves [65]) ∧ (newsFor [65] x.1).length = 1 := by
    decide +kernel
  obtain ⟨tr₀, v, h₀, htr₀, hon, hrec⟩ := Runs.exists_run_of_exec hsub
  obtain ⟨tr, w, hr, htr, hstay, hlen⟩ := Runs.exists_run_of_record
    (P := fun tr _ => (∀ q ∈ tr, ¬ q.1.Leaves [65]) ∧ (newsFor [65] tr).length = 1) hrec
  exact ⟨tr₀, v, tr, w, h₀, hr, htr₀, htr, hlen, live_in_order h₀ hr hon hstay⟩

/-- In every run, what is stored for a client goes out to it at every `AUTH` of its id that is
accepted: a packet that no further datagram gives goes out once for each of these, for each time it
is stored. -/
theorem redelivered (h₀ : Run udp tcp buffer tr₀ v) (h : Runs.Run next v tr w) (id : Bytes)
    {packet : SharedPacket}
    (hfresh : ∀ q ∈ tr, (∃ fd, q.1.server.At fd .udp) → q.2.news ≠ packet) :
    (deliveredTo id w.trace).count packet = (deliveredTo id v.trace).count packet +
      (tr.countP fun q => q.1.AcceptsAuth id) * (v.queue id).count packet := by
  have hv := Run.consistent h₀
  have hno : ∀ topic, .publish topic packet ∉ acts id tr := by
    intro topic hmem
    obtain ⟨q, hq, hact⟩ := List.mem_filterMap.1 hmem
    obtain ⟨hat, -, hp⟩ := act_eq_publish hact
    exact hfresh q hq hat hp.symm
  have hcount := Member.count_got (m := v.member id) hno
  rw [← member_of_run hv h, logins_acts hv h] at hcount
  exact hcount

set_option maxRecDepth 10000 in
/-- `A`, who has missed a packet, logs in twice. -/
theorem redelivered_return : ∃ tr₀ v tr w, Run 3 4 [] tr₀ v ∧ Runs.Run next v tr w ∧
    tr₀.map Prod.snd = missInputs ∧ tr.map Prod.snd = returnInputs ∧
      ∃ packet ∈ v.queue [65], (tr.countP fun q => q.1.AcceptsAuth [65]) = 2 ∧
        (deliveredTo [65] w.trace).count packet = (deliveredTo [65] v.trace).count packet +
          (tr.countP fun q => q.1.AcceptsAuth [65]) * (v.queue [65]).count packet := by
  have hmiss : ∃ v ∈ Runs.exec next (start 3 4 []) missInputs,
      (∃ packet ∈ (v.queue [65]).head?, True) ∧
        ∃ x ∈ Runs.exec (Runs.record next) ([], v) returnInputs,
          (∀ q ∈ x.1, ¬ ∃ fd, q.1.server.At fd .udp) ∧
            (x.1.countP fun q => q.1.AcceptsAuth [65]) = 2 := by
    decide +kernel
  obtain ⟨tr₀, v, h₀, htr₀, ⟨packet, hhead, -⟩, hrec⟩ := Runs.exists_run_of_exec hmiss
  obtain ⟨tr, w, hr, htr, hno, hcount⟩ := Runs.exists_run_of_record
    (P := fun (tr : List (World × Kernel)) _ => (∀ q ∈ tr, ¬ ∃ fd, q.1.server.At fd .udp) ∧
      (tr.countP fun q => q.1.AcceptsAuth [65]) = 2) hrec
  refine ⟨tr₀, v, tr, w, h₀, hr, htr₀, htr, packet, List.mem_of_mem_head? hhead, hcount, ?_⟩
  exact redelivered h₀ hr [65] fun q hq hat => absurd hat (hno q hq)

end Run

end World

end NewsServer
