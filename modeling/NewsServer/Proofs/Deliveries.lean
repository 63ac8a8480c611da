import NewsServer.Proofs.Downlink
import NewsServer.Proofs.Identity
import NewsServer.Proofs.Mailboxes

/-!
# Exactly what is for a subscriber

As long as nothing is kept for a descriptor when `accept` gives it, the news that is sent on the
connection of a subscriber is what is stored for its id when its `AUTH` is accepted, and then the
datagrams on topics it is subscribed to at the time, each once (`newsSent_next`). So this is what it
prints, whatever else is connected to the server (`prints_deliveries`).
-/

namespace NewsServer

open Memory
open Sessions Registry

/-- The walk sends to a connection what it has for the client that is connected on it. -/
theorem FannedOut.filterMap_newsOn {multi : MultiSocket} {packet : SharedPacket}
    {entries : List (Bytes × UInt8)} {clients clients' : ClientMap} {evs : List Event}
    (h : FannedOut multi packet entries clients clients' evs) {r : Registry ℤ Bytes} {id : Bytes}
    {c : ℕ} (hsole : ∀ x, (∃ fd ∈ userOf clients x, r.on fd = some c) → x = id) :
    evs.filterMap (tells Event.newsOn c r) =
      if ∃ fd ∈ userOf clients id, r.on fd = some c then deliveredTo id evs else [] := by
  have hlive : ∀ x fd p, .replayed x fd p ∉ evs := by
    intro x fd p he
    have := mem_replayedTo he
    simp [h.replayedTo] at this
  split_ifs with hon
  · obtain ⟨fd, huser, hon⟩ := hon
    refine List.filterMap_congr fun e he => ?_
    cases e with
    | forwarded x fd' p =>
      obtain ⟨hx, -⟩ := h.forwarded he
      by_cases hid : x = id
      · subst hid
        obtain rfl := Option.mem_unique huser hx
        simp [tells, Event.newsOn, hon]
      · have hoff : r.on fd' ≠ some c := fun ho => hid (hsole x ⟨fd', hx, ho⟩)
        simp [tells, Event.newsOn, hoff, hid]
    | replayed x fd' p => exact absurd he (hlive x fd' p)
    | _ => rfl
  · rw [List.filterMap_eq_nil_iff]
    intro e he
    cases e with
    | forwarded x fd' p =>
      obtain ⟨hx, -⟩ := h.forwarded he
      have hoff : r.on fd' ≠ some c := by
        intro ho
        obtain rfl := hsole x ⟨fd', hx, ho⟩
        exact hon ⟨fd', hx, ho⟩
      simp [tells, Event.newsOn, hoff]
    | replayed x fd' p => exact absurd he (hlive x fd' p)
    | _ => rfl

theorem forall_userOf_ne {clients : ClientMap} {fd : ℤ} :
    (∀ id ∈ clients.keys, userOf clients id ≠ some fd) ↔ ∀ id, userOf clients id ≠ some fd := by
  refine ⟨fun h id huser => ?_, fun h id _ => h id⟩
  refine h id ?_ huser
  rw [Std.TreeMap.mem_keys]
  by_contra hnot
  simp [userOf, Std.TreeMap.getD_eq_fallback hnot] at huser

/-! ## What is for a client -/

namespace World

instance (w : World) (k : Kernel) : Decidable (w.AcceptsClean k) :=
  decidable_of_iff (∀ fd, w.server.At fd .accept → w.server.tables.idsMap[k.newsockfd]? = none ∧
      ∀ id ∈ w.server.tables.clients.keys, userOf w.server.tables.clients id ≠ some k.newsockfd) <|
    forall₂_congr fun _ _ => and_congr_right' forall_userOf_ne

/-- The client is connected on the connection. -/
def Holds (w : World) (id : Bytes) (c : ℕ) : Prop :=
  ∃ fd ∈ userOf w.server.tables.clients id, w.conn fd = some c

instance (w : World) (id : Bytes) (c : ℕ) : Decidable (w.Holds id c) :=
  inferInstanceAs (Decidable (∃ fd ∈ userOf w.server.tables.clients id, _))

/-- The step accepts an `AUTH` of the client on the connection. -/
def Admits (w : World) (id : Bytes) (c : ℕ) : Prop :=
  ∃ fd, w.server.At fd .recv ∧ w.conn fd = some c ∧ w.AcceptsAuth id

instance (w : World) (id : Bytes) (c : ℕ) : Decidable (w.Admits id c) :=
  inferInstanceAs (Decidable (∃ fd, w.server.At fd .recv ∧ _))

/-- The news that the step has for the client on the connection. -/
def newsOf (w : World) (k : Kernel) (id : Bytes) (c : ℕ) : List SharedPacket :=
  if (∃ fd, w.server.At fd .udp) ∧ w.Holds id c ∧
      (flagOf w.server.tables.topicMap k.topic id).isSome then
    [k.news]
  else if w.Admits id c then w.queue id
  else []

/-- The server has accepted an `AUTH` of the client on the connection. -/
def Introduced (w : World) (c : ℕ) (id : Bytes) : Prop :=
  ∃ buf, (buf, typeAuth) ∈ w.answers c ∧ frameType buf = typeAuth ∧ frameField buf = id

section Step

variable {w w' : World} {k : Kernel} {id : Bytes} {c : ℕ}

theorem newsOf_eq_nil (hudp : ∀ fd, ¬ w.server.At fd .udp) (hadmits : ¬ w.Admits id c) :
    w.newsOf k id c = [] := by
  rw [newsOf, if_neg fun h => h.1.elim hudp, if_neg hadmits]

theorem newsOf_of_not_recv (hudp : ∀ fd, ¬ w.server.At fd .udp)
    (hrecv : ∀ fd, ¬ w.server.At fd .recv) : w.newsOf k id c = [] :=
  newsOf_eq_nil hudp fun h => h.elim fun fd hfd => hrecv fd hfd.1

/-- A step sends to a connection what it has for the one client of the connection. -/
theorem newsSent_next (h : w.Consistent) (hn : next w k = some w')
    (hsole : ∀ x, w.Holds x c ∨ w.Admits x c → x = id) :
    w'.newsSent c = w.newsSent c ++ w.newsOf k id c := by
  obtain ⟨hd, ht, -⟩ := h.does hn
  rw [newsSent, newsSent, ht, gather_append, ← registry_eq]
  refine congrArg _ ?_
  generalize w.events k = evs at hd
  generalize w'.server = s' at hd
  cases hd with
  | poll hpc =>
    have hno := Server.not_at_of_pc (hpc.imp_right And.left)
    exact (newsOf_of_not_recv (fun fd => hno fd _) fun fd => hno fd _).symm
  | select hpc =>
    have hno := Server.not_at_of_pc (.inr hpc)
    obtain ⟨fds, he, -⟩ := MultiSocket.passed_selectRound w.server.multi k.pass
    rw [he, newsOf_of_not_recv (fun fd => hno fd _) fun fd => hno fd _]
    exact gather_eq_nil (by simp [Event.newsOn])
  | stdin hat =>
    exact (newsOf_of_not_recv (hat.not (by decide)) (hat.not (by decide))).symm
  | @news fd buffer clients evs hat hfan =>
    have hnews : ∀ e ∈ Event.news k.topic k.news :: evs, e.OfNews :=
      List.forall_mem_cons.2 ⟨trivial, hfan.ofNews⟩
    obtain ⟨hdelivered, -⟩ := hfan.reached id (flagOf w.server.tables.topicMap k.topic id)
      (nodup_toList _) fun sf => Std.TreeMap.mem_toList_iff_getElem?_eq_some
    have hadmits : ¬ w.Admits id c := fun hx =>
      hx.elim fun fd' hfd' => hat.not (by decide) fd' hfd'.1
    have htells : (Event.news k.topic k.news :: evs).filterMap (tells Event.newsOn c w.registry) =
        if w.Holds id c then deliveredTo id evs else [] := by
      rw [List.filterMap_cons]
      exact hfan.filterMap_newsOn fun x hx => hsole x (.inl hx)
    rw [gather_of_on fun e he r => by rw [note_of_ofNews (hnews e he)], htells, hdelivered, newsOf,
      if_neg hadmits]
    by_cases hholds : w.Holds id c
    · have hon : (userOf w.server.tables.clients id).isSome := by
        obtain ⟨fd', huser, -⟩ := hholds
        exact Option.isSome_iff_exists.2 ⟨fd', huser⟩
      have hudp : ∃ fd, w.server.At fd .udp := ⟨fd, hat⟩
      rw [if_pos hholds]
      exact if_congr (by simp [hon, hholds, hudp]) rfl rfl
    · rw [if_neg hholds, if_neg fun hx => hholds hx.2.1]
  | accept hat =>
    rw [newsOf_of_not_recv (hat.not (by decide)) (hat.not (by decide))]
    exact gather_eq_nil (by simp [Event.newsOn])
  | closed hat =>
    rw [newsOf_of_not_recv (hat.not (by decide)) (hat.not (by decide))]
    exact gather_eq_nil (by simp [Event.newsOn])
  | idle hat hin =>
    refine (newsOf_eq_nil (hat.not (by decide)) ?_).symm
    rintro ⟨-, -, -, fd', -, buf, hbuf, -⟩
    simp [hin] at hbuf
  | @frame fd buf type tables multi past evs hat hin hsize hmem hp hans hpast =>
    have hudp : ∀ fd, ¬ w.server.At fd .udp := hat.not (by decide)
    rw [gather_newsOn_frame hans hpast]
    -- the `AUTH` of the connection's client is the only one that can be accepted on it
    have hadmits : w.Admits id c ↔ w.registry.on fd = some c ∧ type = typeAuth := by
      constructor
      · rintro ⟨fd', hat', hon, fd'', hat'', buf', hbuf', -, hauth, rfl, hfree⟩
        obtain ⟨rfl, -⟩ := hat.eq hat'
        rw [Option.mem_def, hin, Option.some.injEq] at hbuf'
        subst hbuf'
        exact ⟨hon, hp.of_free hauth hfree⟩
      · rintro ⟨hon, htype⟩
        obtain ⟨hauth, hfree, -⟩ := hp.of_auth htype
        have hx : w.Admits (frameField buf) c :=
          ⟨fd, hat, hon, fd, hat, buf, hin, hsize, hauth, rfl, hfree⟩
        rwa [hsole _ (.inr hx)] at hx
    by_cases hx : w.Admits id c
    · obtain ⟨hon, htype⟩ := hadmits.1 hx
      obtain ⟨hauth, hfree, hl⟩ := hp.of_auth htype
      have hid : frameField buf = id :=
        hsole _ (.inr ⟨fd, hat, hon, fd, hat, buf, hin, hsize, hauth, rfl, hfree⟩)
      rw [if_pos hon, if_pos htype, newsOf, if_neg fun h => h.1.elim hudp, if_pos hx, hl.queue, hid]
      rfl
    · rw [newsOf_eq_nil hudp hx]
      split_ifs with hon htype
      · exact absurd (hadmits.2 ⟨hon, htype⟩) hx
      · rfl
      · rfl

theorem Admits.introduced (ha : w.Admits id c) (h : w.Consistent) (hn : next w k = some w') :
    w'.Introduced c id := by
  obtain ⟨fd, hat, hon, fd', hat', buf, hin, -, hauth, rfl, hfree⟩ := ha
  obtain ⟨rfl, -⟩ := hat.eq hat'
  obtain ⟨frames, sent, hspoken, hanswers, -⟩ := spoken_of_next h hn c
  cases hspoken with
  | news _ hidle => simp [hidle fd hat hon] at hin
  | @frame fd' buf' type _ hin' _ _ hp =>
    rw [Option.mem_def, hin', Option.some.injEq] at hin
    subst hin
    obtain rfl := hp.of_free hauth hfree
    exact ⟨buf', by simp [hanswers], hauth, rfl⟩

theorem Introduced.next (hi : w.Introduced c id) (h : w.Consistent)
    (hn : World.next w k = some w') : w'.Introduced c id := by
  obtain ⟨buf, hmem, hauth, hid⟩ := hi
  obtain ⟨frames, sent, -, hanswers, -⟩ := spoken_of_next h hn c
  exact ⟨buf, by simp [hanswers, hmem], hauth, hid⟩

end Step

/-- What a connection is logged in as is what was accepted on it. -/
theorem Run.introduced {udp tcp : ℤ} {buffer : Bytes} {tr : List (World × Kernel)} {w : World}
    (h : Run udp tcp buffer tr w) : ∀ c id, w.Authed c id → w.Introduced c id := by
  have hinv := Runs.Run.always (P := fun v : World => v.Consistent ∧
    ∀ c id, v.Authed c id → v.Introduced c id)
    ⟨consistent_start udp tcp buffer, fun _ _ hl => by
      simp [Authed, registry, NewsServer.registry, start, Registry.empty] at hl⟩ ?_ h
  · exact hinv.2
  · rintro v k v' ⟨hv, hl⟩ hn
    refine ⟨hv.next hn, fun d id hd => ?_⟩
    have hold : v.Authed d id → v'.Introduced d id := fun ha => (hl d id ha).next hv hn
    have heff := hv.effect hn
    rw [Authed] at hd hold
    generalize v'.registry = r' at heff hd
    cases heff with
    | @login fd buf c hat hin hsize hauth hon hfree =>
      simp only [Registry.login, List.mem_append, List.mem_singleton, Prod.mk.injEq] at hd
      rcases hd with hd | ⟨rfl, rfl⟩
      · exact hold hd
      · rw [hv.user] at hfree
        exact Admits.introduced ⟨fd, hat, hon, fd, hat, buf, hin, hsize, hauth, rfl, hfree⟩ hv hn
    | @pass fds =>
      rw [logins_foldl_drop] at hd
      exact hold hd
    | same => exact hold hd
    | accept => exact hold hd
    | release => exact hold hd
    | refuse => exact hold hd

end World

/-! ## What is for a subscriber -/

/-- Only its own `AUTH` is accepted on the connection of a subscriber. -/
theorem Peer.Linked.eq_of_introduced {w : World} {p : Peer} {frames : List Bytes}
    (h : p.Linked w frames) {c : ℕ} (hc : p.conn = some c) {id : Bytes}
    (hi : w.Introduced c id) : id = cstr p.id := by
  obtain ⟨buf, hmem, hauth, rfl⟩ := hi
  have hframe : buf ∈ authPacket p.id :: frames :=
    (h.handled hc).subset (List.mem_map.2 ⟨_, hmem, rfl⟩)
  rcases List.mem_cons.1 hframe with rfl | hframe
  · exact Peer.frameField_authPacket h.idLength
  · rcases (h.commands buf hframe).type with htype | htype | htype <;> rw [hauth] at htype <;>
      exact absurd htype (by decide)

namespace Net

/-- If the step accepts a connection, nothing is kept for the descriptor it gets. -/
def AcceptsClean (n : Net) : Move → Prop
  | .server k _ => n.world.AcceptsClean k
  | _ => True

instance (n : Net) : ∀ m, Decidable (n.AcceptsClean m)
  | .server k _ => inferInstanceAs (Decidable (n.world.AcceptsClean k))
  | .start .. => .isTrue trivial
  | .peer .. => .isTrue trivial

/-- The news that a step has for the subscriber `i`. -/
def delivery (n : Net) (i : ℕ) : Move → List SharedPacket
  | .server k _ => (n.peers[i]?.bind fun p =>
      p.conn.map fun c => n.world.newsOf k (cstr p.id) c).getD []
  | _ => []

/-- The news that a run has for the subscriber `i`. -/
def deliveries (i : ℕ) (tr : List (Net × Move)) : List SharedPacket :=
  tr.flatMap fun q => q.1.delivery i q.2

section Runs

variable {R : RealText} {udp tcp : ℤ} {buffer : Bytes} {tr : List (Net × Move)} {n n' : Net}
  {m : Move}

theorem deliveries_concat (i : ℕ) (tr : List (Net × Move)) (q : Net × Move) :
    deliveries i (tr ++ [q]) = deliveries i tr ++ q.1.delivery i q.2 := by
  simp [deliveries]

/-- The connections of a run in which `accept` gives no descriptor that something is kept for. -/
theorem Run.genuine (h : Run R udp tcp buffer tr n)
    (hclean : ∀ q ∈ tr, q.1.AcceptsClean q.2) : n.world.registry.Genuine := by
  induction h with
  | start => exact Registry.genuine_empty
  | @step tr n n' m h hn ih =>
    rw [List.forall_mem_append, List.forall_mem_singleton] at hclean
    obtain ⟨wtr, hrun⟩ := (Run.uplinks h).world
    cases turn_of_next hn with
    | start => exact ih hclean.1
    | server _ _ hnext =>
      exact (World.genuine_next_iff (World.Run.consistent hrun) (ih hclean.1) hnext).2 hclean.2
    | peer => exact ih hclean.1

theorem introduced_of_holds {wtr : List (World × Kernel)} {w : World}
    (hrun : World.Run udp tcp buffer wtr w) (hg : w.registry.Genuine) {id : Bytes} {c : ℕ}
    (hh : w.Holds id c) : w.Introduced c id := by
  obtain ⟨fd, huser, hon⟩ := hh
  refine World.Run.introduced hrun c id (hg fd id c (.inr ?_) hon)
  rw [(World.Run.consistent hrun).user]
  exact huser

/-- So no news comes early in it. -/
theorem Run.not_earlyNews (h : Run R udp tcp buffer tr n)
    (hclean : ∀ q ∈ tr, q.1.AcceptsClean q.2) : ∀ q ∈ tr, ¬ q.1.EarlyNews q.2 := by
  induction h with
  | start => simp
  | @step tr n n' m h hn ih =>
    rw [List.forall_mem_append, List.forall_mem_singleton] at hclean ⊢
    refine ⟨ih hclean.1, fun hearly => ?_⟩
    obtain ⟨wtr, hrun⟩ := (Run.uplinks h).world
    cases m with
    | server k j =>
      obtain ⟨p, -, c, -, hnil, -, id, fd, -, huser, hon⟩ := hearly
      obtain ⟨buf, hmem, -⟩ :=
        introduced_of_holds hrun (Run.genuine h hclean.1) (⟨fd, huser, hon⟩ : n.world.Holds id c)
      simp [hnil] at hmem
    | start => exact hearly
    | peer => exact hearly

/-- A step of the server sends a subscriber what it has for it. -/
theorem news_hear {k : Kernel} {j : Option ℕ} {w' : World} {i : ℕ} {p : Peer}
    (hw : n.world.Consistent) (hn : World.next n.world k = some w') (hi : n.peers[i]? = some p)
    (hsole : ∀ c, p.conn = some c → ∀ x, n.world.Holds x c ∨ n.world.Admits x c → x = cstr p.id) :
    (p.hear n.world k).news w' = p.news n.world ++ n.delivery i (.server k j) := by
  rcases hc : p.conn with _ | c
  · rw [Peer.news_of_none hc, Peer.news_of_none (p := p.hear n.world k) hc, delivery, hi,
      Option.bind_some, hc]
    rfl
  · rw [Peer.news_of_conn hc, Peer.news_of_conn (p := p.hear n.world k) hc, delivery, hi,
      Option.bind_some, hc]
    exact World.newsSent_next hw hn (hsole c hc)

/-- What is sent on the connection of a subscriber is what the run has for it. -/
theorem Run.news_eq (h : Run R udp tcp buffer tr n) (hclean : ∀ q ∈ tr, q.1.AcceptsClean q.2) :
    (∀ i p, n.peers[i]? = some p → p.news n.world = deliveries i tr) ∧
      ∀ i ≥ n.peers.length, deliveries i tr = [] := by
  induction h with
  | start => exact ⟨fun i p hi => by simp [start] at hi, fun i _ => rfl⟩
  | @step tr n n' m h hn ih =>
    rw [List.forall_mem_append, List.forall_mem_singleton] at hclean
    obtain ⟨hnews, hnone⟩ := ih hclean.1
    have hup := Run.uplinks h
    have hup' := hup.next hn
    obtain ⟨wtr, hrun⟩ := hup.world
    have hw := World.Run.consistent hrun
    cases turn_of_next hn with
    | start =>
      refine ⟨fun i p hi => ?_, fun i hi => ?_⟩ <;>
        rw [deliveries_concat, show n.delivery i _ = [] from rfl, List.append_nil]
      · rcases lt_or_ge i n.peers.length with hlt | hge
        · rw [List.getElem?_append_left hlt] at hi
          exact hnews i p hi
        · rw [List.getElem?_append_right hge, List.getElem?_singleton] at hi
          split_ifs at hi
          obtain rfl := Option.some.inj hi
          exact (hnone i hge).symm
      · rw [List.length_append] at hi
        exact hnone i (Nat.le_of_add_right_le hi)
    | @server k j w _ haccepts hnext =>
      refine ⟨fun i p' hi => ?_, fun i hi => ?_⟩ <;> rw [deliveries_concat]
      · obtain ⟨frames, hc'⟩ := hup'.peers i p' hi
        obtain ⟨p, hp, hcases⟩ := getElem?_accept hi
        obtain ⟨frames₀, hc₀⟩ := hup.peers i p hp
        rw [← hnews i p hp]
        rcases hcases with rfl | ⟨rfl, rfl⟩
        · refine news_hear hw hnext hp fun c hc x hx => ?_
          rcases hx with hx | hx
          · exact hc₀.linked.eq_of_introduced hc
              (introduced_of_holds hrun (Run.genuine h hclean.1) hx)
          · exact hc'.linked.eq_of_introduced hc (hx.introduced hw hnext)
        · obtain ⟨-, q, hq, hconn⟩ := haccepts i rfl
          rw [Option.mem_def, hp, Option.some.injEq] at hq
          subst hq
          have hsent : w.newsSent n.world.registry.count = [] := by
            rw [World.newsSent_of_next hw hnext fun fd hon => lt_irrefl _ (hw.sound.lt hon),
              World.Run.newsSent_eq_nil hrun _ le_rfl]
          rw [Peer.news_of_none hconn, delivery, hp, Option.bind_some, hconn]
          exact hsent
      · rw [show (⟨w, n.accept k j⟩ : Net).peers = n.accept k j from rfl, length_accept] at hi
        rw [hnone i hi, delivery, List.getElem?_eq_none hi]
        rfl
    | @peer j k p hj hend hdown =>
      refine ⟨fun i q hi => ?_, fun i hi => ?_⟩ <;>
        rw [deliveries_concat, show n.delivery i _ = [] from rfl, List.append_nil]
      · by_cases hij : i = j
        · subst hij
          rw [List.getElem?_set_self (List.getElem?_eq_some_iff.1 hj).1] at hi
          obtain rfl := Option.some.inj hi
          have hconn : (p.step R k).conn = p.conn := by
            rcases hs : p.terminal.client.step R k with e | ⟨c', evs⟩
            · rw [Peer.step_of_error hs]
            · rw [Peer.step_of_ok hs]
          rw [Peer.news, hconn]
          exact hnews i p hj
        · rw [List.getElem?_set_ne (Ne.symm hij)] at hi
          exact hnews i q hi
      · rw [List.length_set] at hi
        exact hnone i hi

end Runs

/-- `A` has subscribed to `a`, and leaves. The packet comes in, and `A` logs in again, and another
one comes in; then `A` reads what it was sent. -/
def awayInputs : List Move :=
  commandInputs ++
    [.peer 0 .quiet, .peer 0 { ClientKernel.quiet with pass := ⟨{0}, fun _ => none, 0⟩ },
      .peer 0 .quiet, .peer 0 { ClientKernel.quiet with line := some (Server.exitText ++ [10]) },
      .server .quiet none, .server (.ready {5} [(5, [])]) none, .server .quiet none,
      .server .quiet none, .server .quiet none, .server (.ready {3} []) none, .server .quiet none,
      .server oneDatagram none,
      .start [65] 3 default zeroLocals, .server .quiet none, .server (.ready {4} []) none,
      .server .quiet none, .server (.connect 5) (some 1), .server .quiet none,
      .server (.ready {5} [(5, wire (authPacket [65]))]) none, .server .quiet none,
      .server .quiet none, .server .quiet none, .server (.ready {3} []) none, .server .quiet none,
      .server oneDatagram none,
      .peer 1 (.chunk 3 (wire (authPacket [65]) ++ wire Terminal.oneFrame ++
        wire Terminal.oneFrame)),
      .peer 1 .quiet, .peer 1 .quiet, .peer 1 .quiet, .peer 1 .quiet, .peer 1 .quiet,
      .peer 1 .quiet]

end Net

end NewsServer
