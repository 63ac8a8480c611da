import NewsServer.Proofs.RoundTrip
import NewsServer.Proofs.ServerLoop
import NewsServer.Proofs.StoreForward

/-!
# What a connection is answered

The frames of each connection that were handled, and what was sent to it, by the number the
connection has in the registry. Until the first frame of a connection is handled, what has come in
on it is in its decoder, and nothing is sent to it but news that is meant for its descriptor
(`Untouched.next`). An `AUTH` that comes first is answered first (`settled_of_processed`).
-/

namespace NewsServer

open Memory
open Sessions Registry

/-- A frame that was handled, and what came of it. -/
def Event.handled : Event → Option (ℤ × Bytes × UInt8)
  | .frame fd buf type => some (fd, buf, type)
  | _ => none

/-- What was sent. -/
def Event.wire : Event → Option (ℤ × Bytes)
  | .sent fd bytes => some (fd, bytes)
  | _ => none

namespace World

/-- The frames of a connection that were handled, and what `process_tcp_client_packet` returned for
each. -/
def answers (w : World) (c : ℕ) : List (Bytes × UInt8) :=
  gather note Event.handled c .empty w.trace

/-- What was sent to a connection. -/
def sends (w : World) (c : ℕ) : List Bytes :=
  gather note Event.wire c .empty w.trace

/-- The descriptor of a connection, if it is open. -/
def fdOf (w : World) (c : ℕ) : Option ℤ :=
  w.server.multi.tcpSockets.keys.find? fun fd => w.conn fd = some c

/-- What `::recv` gives on a descriptor during a step, if the step reads it. -/
def reads (w : World) (k : Kernel) (fd : ℤ) : Option (Option Bytes) :=
  if (w.server.pc = .selecting ∧ w.server.multi.sockQueue = []) ∧ w.server.multi.Visits k.pass fd
  then some ((k.pass.got fd).map (·.take tcpBufferSize))
  else none

/-- The step sends news to the connection. -/
def Forwards (w : World) (k : Kernel) (c : ℕ) : Prop :=
  (∃ fd, w.server.At fd .udp) ∧ ∃ id fd, (flagOf w.server.tables.topicMap k.topic id).isSome ∧
    userOf w.server.tables.clients id = some fd ∧ w.conn fd = some c

end World

/-- The bytes of what `::recv` gave, if it was called. -/
def readBytes (got : Option (Option Bytes)) : Bytes :=
  (got.getD none).getD []

theorem FannedOut.sent {multi : MultiSocket} {packet : SharedPacket}
    {entries : List (Bytes × UInt8)} {clients clients' : ClientMap} {evs : List Event}
    (h : FannedOut multi packet entries clients clients' evs) {fd : ℤ} {b : Bytes}
    (he : .sent fd b ∈ evs) : ∃ id ∈ entries.map Prod.fst,
      userOf clients id = some fd ∧ b = wire packet.data := by
  induction h with
  | nil => simp at he
  | @skip id _ _ _ _ _ _ hu _ _ ih =>
    obtain ⟨x, hx, huser, hb⟩ := ih he
    exact ⟨x, List.mem_cons_of_mem _ hx, hu x ▸ huser, hb⟩
  | @store id _ _ _ _ _ _ _ _ hu _ _ ih =>
    obtain ⟨x, hx, huser, hb⟩ := ih (by simpa using he)
    exact ⟨x, List.mem_cons_of_mem _ hx, hu x ▸ huser, hb⟩
  | @forward id _ _ _ _ _ _ _ huser _ hu _ _ ih =>
    simp only [List.mem_cons, Event.sent.injEq, reduceCtorEq, false_or] at he
    rcases he with ⟨rfl, rfl⟩ | he
    · exact ⟨id, List.mem_cons_self, huser, rfl⟩
    · obtain ⟨x, hx, huser, hb⟩ := ih he
      exact ⟨x, List.mem_cons_of_mem _ hx, hu x ▸ huser, hb⟩

theorem note_frame_on (r : Registry ℤ Bytes) (fd : ℤ) (buf : Bytes) (type : UInt8) :
    (note r (.frame fd buf type)).on = r.on := by
  simp only [note]
  split
  · split_ifs <;> rfl
  · rfl

/-- What is sent for a frame. -/
def replyTo (t : Tables) (buf : Bytes) (type : UInt8) : List Bytes :=
  if type = typeAuth then wire buf :: (queueOf t.clients (frameField buf)).map (wire ·.data)
  else if type = typeAuthDuplicate then [wire [typeAuthDuplicate]]
  else []

namespace World

variable {w w' : World} {k : Kernel} {c : ℕ}

/-- What a step tells of a connection: the frames it handles, and what is sent. -/
inductive Spoken (w : World) (k : Kernel) (w' : World) (c : ℕ) :
    List (Bytes × UInt8) → List Bytes → Prop
  | news {sent : List Bytes} (h : ∀ b ∈ sent, w.Forwards k c ∧ b = wire k.news.data)
      (hidle : ∀ fd, w.server.At fd .recv → w.conn fd = some c → w.server.incoming = none) :
      Spoken w k w' c [] sent
  | frame {fd : ℤ} {buf : Bytes} {type : UInt8} (hat : w.server.At fd .recv)
      (hin : w.server.incoming = some buf) (hsize : buf.length ≤ cliPacketSize)
      (hon : w.conn fd = some c)
      (hp : Processed w.server.tables fd buf type w'.server.tables) :
      Spoken w k w' c [(buf, type)] (replyTo w'.server.tables buf type)

theorem registry_eq (w : World) : w.registry = w.trace.foldl note .empty := rfl

theorem tells_frame (r : Registry ℤ Bytes) (fd : ℤ) (buf : Bytes) (type : UInt8) :
    tells Event.handled c r (.frame fd buf type) =
      if r.on fd = some c then some (buf, type) else none := rfl

theorem tells_sent (r : Registry ℤ Bytes) (fd : ℤ) (b : Bytes) :
    tells Event.wire c r (.sent fd b) = if r.on fd = some c then some b else none := rfl

theorem filterMap_replays (r : Registry ℤ Bytes) (id : Bytes) (fd : ℤ) (queue : List SharedPacket) :
    (replays id fd queue).filterMap (tells Event.wire c r) =
      if r.on fd = some c then queue.map (wire ·.data) else [] := by
  rw [replays, List.filterMap_flatMap]
  by_cases hon : r.on fd = some c
  · rw [if_pos hon, List.map_eq_flatMap]
    refine List.flatMap_congr fun packet _ => ?_
    simp [tells, Event.wire, hon]
  · rw [if_neg hon, List.flatMap_eq_nil_iff]
    intro packet _
    simp [tells, Event.wire, hon]

theorem gather_frame {m m' : MultiSocket} {t : Tables} {fd : ℤ} {buf : Bytes} {type : UInt8}
    {past evs : List Event} {r : Registry ℤ Bytes}
    (hans : Answered m t fd buf type m' evs) (hpast : past = [] ∨ past = [.pastPacket]) :
    gather note Event.handled c r (.frame fd buf type :: past ++ evs) =
        (if r.on fd = some c then [(buf, type)] else []) ∧
      gather note Event.wire c r (.frame fd buf type :: past ++ evs) =
        if r.on fd = some c then replyTo t buf type else [] := by
  have hrest : ∀ e ∈ past ++ evs, e.handled = none := by
    rw [List.forall_mem_append]
    refine ⟨by rcases hpast with rfl | rfl <;> simp [Event.handled], ?_⟩
    cases hans with
    | confirmed =>
      refine List.forall_mem_cons.2 ⟨rfl, fun e he => ?_⟩
      have := ofNews_of_mem_replays he
      cases e <;> first | rfl | exact absurd this id
    | declined => simp [Event.handled]
    | silent => simp
  have hpast' : ∀ es, gather note Event.wire c (note r (.frame fd buf type)) (past ++ es) =
      gather note Event.wire c (note r (.frame fd buf type)) es := by
    intro es
    rcases hpast with rfl | rfl <;> rfl
  constructor
  · rw [List.cons_append, gather, gather_eq_nil hrest, tells_frame, List.append_nil]
    split_ifs <;> rfl
  · rw [List.cons_append, gather, show tells Event.wire c r (.frame fd buf type) = none from rfl,
      Option.toList_none, List.nil_append, hpast']
    have hon := note_frame_on r fd buf type
    generalize note r (.frame fd buf type) = r' at hon
    cases hans with
    | confirmed =>
      have hkeep : ∀ e ∈ .sent fd (wire buf) ::
          replays (frameField buf) fd (queueOf t.clients (frameField buf)),
          ∀ r : Registry ℤ Bytes, (note r e).on = r.on := by
        refine List.forall_mem_cons.2 ⟨fun r => rfl, fun e he r => ?_⟩
        rw [note_of_ofNews (ofNews_of_mem_replays he)]
      rw [gather_of_on hkeep, List.filterMap_cons, filterMap_replays, tells_sent, hon, replyTo,
        if_pos rfl]
      split_ifs <;> rfl
    | declined =>
      have hreply : replyTo t buf typeAuthDuplicate = [wire [typeAuthDuplicate]] := rfl
      rw [gather, gather_eq_nil (by simp [Event.wire]), tells_sent, hon, hreply]
      split_ifs <;> rfl
    | silent hne =>
      rw [gather, replyTo, if_neg hne.1, if_neg hne.2]
      split_ifs <;> rfl

/-- A step tells of a connection what `Spoken` allows. -/
theorem spoken_of_next (h : w.Consistent) (hn : next w k = some w') (c : ℕ) :
    ∃ frames sent, Spoken w k w' c frames sent ∧ w'.answers c = w.answers c ++ frames ∧
      w'.sends c = w.sends c ++ sent := by
  obtain ⟨hd, ht, -⟩ := h.does hn
  have happ : ∀ {α : Type} (f : Event → Option (ℤ × α)), gather note f c .empty w'.trace =
      gather note f c .empty w.trace ++ gather note f c w.registry (w.events k) := by
    intro α f
    rw [ht, gather_append, ← registry_eq]
  refine ⟨gather note Event.handled c w.registry (w.events k),
    gather note Event.wire c w.registry (w.events k), ?_, happ _, happ _⟩
  generalize w.events k = evs at hd
  have hnil : (∀ fd, ¬ w.server.At fd .recv) → (∀ e ∈ evs, e.handled = none) →
      (∀ e ∈ evs, e.wire = none) → Spoken w k w' c (gather note Event.handled c w.registry evs)
        (gather note Event.wire c w.registry evs) := by
    intro hno h₁ h₂
    rw [gather_eq_nil h₁, gather_eq_nil h₂]
    exact .news (by simp) fun fd hat => absurd hat (hno fd)
  generalize hw : w'.server = s' at hd
  cases hd with
  | poll hpc =>
    have hno := Server.not_at_of_pc (hpc.imp_right And.left)
    exact hnil (fun fd => hno fd _) (by simp) (by simp)
  | select hpc =>
    have hno := Server.not_at_of_pc (.inr hpc)
    obtain ⟨fds, he, -⟩ := MultiSocket.passed_selectRound w.server.multi k.pass
    rw [he] at hnil ⊢
    exact hnil (fun fd => hno fd _) (by simp [Event.handled]) (by simp [Event.wire])
  | stdin hat => exact hnil (hat.not (by decide)) (by simp) (by simp)
  | @news fd buffer clients evs hat hfan =>
    have hnews : ∀ e ∈ Event.news k.topic k.news :: evs, e.OfNews :=
      List.forall_mem_cons.2 ⟨trivial, hfan.ofNews⟩
    have hhandled : ∀ e ∈ Event.news k.topic k.news :: evs, e.handled = none := by
      intro e he
      have := hnews e he
      cases e <;> first | rfl | exact absurd this id
    rw [gather_eq_nil hhandled,
      gather_of_on fun e he r => by rw [note_of_ofNews (hnews e he)]]
    refine .news (fun b hb => ?_) fun x hx => absurd hx (hat.not (by decide) x)
    obtain ⟨e, he, htells⟩ := List.mem_filterMap.1 hb
    cases e with
    | sent fd' b' =>
      rw [tells_sent, Option.ite_none_right_eq_some, Option.some.injEq] at htells
      obtain ⟨hon, rfl⟩ := htells
      obtain ⟨id, hid, huser, rfl⟩ := hfan.sent (by simpa using he)
      refine ⟨⟨⟨fd, hat⟩, id, fd', ?_, huser, hon⟩, rfl⟩
      obtain ⟨⟨id', sf⟩, hentry, rfl⟩ := List.mem_map.1 hid
      rw [flagOf, Std.TreeMap.mem_toList_iff_getElem?_eq_some.1 hentry]
      rfl
    | _ => simp [tells, Event.wire] at htells
  | accept hat =>
    exact hnil (hat.not (by decide)) (by simp [Event.handled]) (by simp [Event.wire])
  | closed hat =>
    exact hnil (hat.not (by decide)) (by simp [Event.handled]) (by simp [Event.wire])
  | idle hat hin => exact .news (by simp [gather]) fun _ _ _ => hin
  | @frame fd buf type tables multi past evs hat hin hsize hmem hp hans hpast =>
    obtain ⟨hframes, hsent⟩ := gather_frame (c := c) (r := w.registry) hans hpast
    rw [hframes, hsent]
    by_cases hon : w.registry.on fd = some c
    · rw [if_pos hon, if_pos hon]
      have htables : tables = w'.server.tables := by rw [hw]
      rw [htables] at hp ⊢
      exact .frame hat hin hsize hon hp
    · rw [if_neg hon, if_neg hon]
      refine .news (by simp) fun x hx hc => ?_
      obtain ⟨rfl, -⟩ := hat.eq hx
      exact absurd hc hon

theorem fdOf_eq_some (h : w.Consistent) {fd : ℤ} : w.fdOf c = some fd ↔ w.conn fd = some c := by
  constructor
  · intro hfd
    simpa using List.find?_some hfd
  · intro hon
    have hmem : fd ∈ w.server.multi.tcpSockets.keys := by
      rw [Std.TreeMap.mem_keys, ← h.on]
      rw [conn] at hon
      rw [hon]
      rfl
    obtain ⟨x, hx⟩ := Option.isSome_iff_exists.1
      (List.find?_isSome (p := fun fd => decide (w.conn fd = some c)) |>.2 ⟨fd, hmem, by simpa⟩)
    have hxc : w.conn x = some c := by simpa using List.find?_some hx
    rw [fdOf, hx, h.sound.inj hon hxc]

theorem fdOf_eq_none (h : w.Consistent) : w.fdOf c = none ↔ ∀ fd, w.conn fd ≠ some c := by
  constructor
  · intro hnone fd hon
    rw [(fdOf_eq_some h).2 hon] at hnone
    simp at hnone
  · intro hall
    rcases hfd : w.fdOf c with _ | fd
    · rfl
    · exact absurd ((fdOf_eq_some h).1 hfd) (hall fd)

/-- A connection keeps its descriptor until it is closed, and a new one has a new number. -/
theorem conn_next (h : w.Consistent) (hn : next w k = some w') :
    w.registry.count ≤ w'.registry.count ∧
      ∀ fd, c < w.registry.count → w'.conn fd = some c → w.conn fd = some c := by
  have heff := h.effect hn
  unfold conn
  generalize w'.registry = r' at heff
  cases heff with
  | same => exact ⟨le_rfl, fun _ _ => id⟩
  | @pass fds =>
    refine ⟨(count_foldl_drop fds w.registry).ge, fun fd _ hon => ?_⟩
    rw [on_foldl_drop] at hon
    split_ifs at hon
    exact hon
  | accept =>
    refine ⟨Nat.le_succ _, fun fd hc hon => ?_⟩
    simp only [Registry.accept, Function.update_apply] at hon
    split_ifs at hon
    · obtain rfl := Option.some.inj hon
      exact absurd hc (lt_irrefl _)
    · exact hon
  | release => exact ⟨le_rfl, fun _ _ => id⟩
  | login => exact ⟨le_rfl, fun _ _ => id⟩
  | refuse => exact ⟨le_rfl, fun _ _ hon => (on_of_on_drop hon).2⟩

theorem conn_of_accept (h : w.Consistent) (hn : next w k = some w')
    (hat : ∃ fd, w.server.At fd .accept) : w'.registry.count = w.registry.count + 1 ∧
      ∀ fd, w'.conn fd = some w.registry.count → fd = k.newsockfd := by
  obtain ⟨fd₀, hat⟩ := hat
  have heff := h.effect hn
  unfold conn
  generalize w'.registry = r' at heff
  cases heff with
  | same _ hno => exact absurd hat (hno fd₀)
  | pass hpc => exact absurd hat (Server.not_at_of_pc (.inr hpc) fd₀ _)
  | accept =>
    refine ⟨rfl, fun fd hon => ?_⟩
    simp only [Registry.accept, Function.update_apply] at hon
    split_ifs at hon with hfd
    · exact hfd
    · exact absurd (h.sound.lt hon) (lt_irrefl _)
  | release hat' => exact absurd hat (hat'.not (by decide) fd₀)
  | login hat' => exact absurd hat (hat'.not (by decide) fd₀)
  | refuse hat' => exact absurd hat (hat'.not (by decide) fd₀)

/-- Nothing is told of connections there have not been. -/
def Numbered (w : World) : Prop :=
  ∀ c, w.registry.count ≤ c → w.answers c = [] ∧ w.sends c = []

theorem Spoken.eq_nil {frames : List (Bytes × UInt8)} {sent : List Bytes}
    (hs : Spoken w k w' c frames sent) (hc : ∀ fd, w.conn fd ≠ some c) :
    frames = [] ∧ sent = [] := by
  cases hs with
  | news hall =>
    refine ⟨rfl, List.eq_nil_iff_forall_not_mem.2 fun b hb => ?_⟩
    obtain ⟨⟨-, id, fd, -, -, hon⟩, -⟩ := hall b hb
    exact hc fd hon
  | frame _ _ _ hon => exact absurd hon (hc _)

theorem Numbered.next (h : w.Consistent) (hnum : w.Numbered) (hn : World.next w k = some w') :
    w'.Numbered := by
  intro c hc
  have hle := (conn_next (c := c) h hn).1
  obtain ⟨frames, sent, hs, hframes, hsent⟩ := spoken_of_next h hn c
  obtain ⟨rfl, rfl⟩ := hs.eq_nil fun fd hon => by
    have := h.sound.lt hon
    omega
  obtain ⟨h₁, h₂⟩ := hnum c (hle.trans hc)
  rw [hframes, hsent, h₁, h₂]
  exact ⟨rfl, rfl⟩

/-! ## What the server has received -/

theorem exists_packets_of_incoming (hm : w.server.multi.Sound) {buf : Bytes}
    (hin : w.server.incoming = some buf) : ∃ (sock : BufferedTcpSocket) (rest : List Bytes),
      w.server.multi.tcpSockets[w.server.multi.currSockfd]? = some sock ∧
        sock.packets = buf :: rest := by
  unfold Server.incoming at hin
  rcases hs : w.server.multi.tcpSockets[w.server.multi.currSockfd]? with _ | sock
  · simp [MultiSocket.recv_of_none hs] at hin
  rcases hr : sock.packetReady with _ | _
  · simp [MultiSocket.recv_of_not_ready hs hr] at hin
  obtain ⟨p, rest, hp⟩ := BufferedTcpSocket.exists_packets_of_ready hr
  obtain ⟨sock', hrecv, -, -⟩ := hm.recv_eq hs hp
  rw [hrecv] at hin
  dsimp only at hin
  split_ifs at hin
  have htake := @take_overwrite (List.replicate buflen 0) p 0 (Nat.zero_le _)
  rw [Nat.zero_add, List.take_zero, List.nil_append] at htake
  rw [htake] at hin
  obtain rfl := Option.some.inj hin
  exact ⟨sock, rest, rfl, hp⟩

theorem recv_tcpSockets_ne {m : MultiSocket} {x : ℤ} (hx : m.currSockfd ≠ x) :
    m.recv.2.2.2.tcpSockets[x]? = m.tcpSockets[x]? := by
  rcases hs : m.tcpSockets[m.currSockfd]? with _ | sock
  · rw [MultiSocket.recv_of_none hs]
  rcases hr : sock.packetReady with _ | _
  · rw [MultiSocket.recv_of_not_ready hs hr]
  · simp [MultiSocket.recv, hs, hr, Std.TreeMap.getElem?_insert, hx]

/-- A frame changes no socket but that of its connection. -/
theorem tcpSockets_of_recv (h : w.Consistent) (hn : next w k = some w') {fd x : ℤ}
    (hat : w.server.At fd .recv) (hx : x ≠ fd) :
    w'.server.multi.tcpSockets[x]? = w.server.multi.tcpSockets[x]? := by
  have hcurr : w.server.multi.currSockfd ≠ x := by
    rw [h.curr fd hat.1]
    exact hx.symm
  obtain ⟨as, hmoved, -⟩ := exec_of_next hn
  rcases hmoved.of_at hat with ⟨-, hb⟩ | ⟨hb, -⟩ | ⟨-, hm | hm⟩
  · exact absurd rfl hb
  · simp at hb
  · rw [hm]
    exact recv_tcpSockets_ne hcurr
  · rw [hm]
    simp only [MultiSocket.close, Std.TreeMap.getElem?_erase, Std.compare_eq_iff_eq, hx.symm,
      ↓reduceIte]
    exact recv_tcpSockets_ne hcurr

theorem socket_of_accept (hn : next w k = some w') (hat : ∃ fd, w.server.At fd .accept) :
    w'.server.multi.tcpSockets[k.newsockfd]? = some (.new k.newsockfd k.uninit) := by
  obtain ⟨fd, hat⟩ := hat
  obtain ⟨as, hmoved, -⟩ := exec_of_next hn
  rcases hmoved.of_at hat with ⟨hb, -⟩ | ⟨-, hm⟩ | ⟨hb, -⟩
  · exact absurd rfl hb
  · simp [hm, MultiSocket.opened]
  · simp at hb

/-- A socket that stays open after a step is as it was, or has read a chunk, or has given a frame.
-/
theorem socket_of_next (h : w.Consistent) (hn : next w k = some w') {fd : ℤ}
    (hin : fd ∈ w.server.multi.tcpSockets) {sock : BufferedTcpSocket}
    (hs : w'.server.multi.tcpSockets[fd]? = some sock) :
    (w.reads k fd = none ∧ w.server.multi.tcpSockets[fd]? = some sock) ∨
      (∃ sock₀, w.server.multi.tcpSockets[fd]? = some sock₀ ∧ w.server.multi.sockQueue = [] ∧
        w.reads k fd = some ((k.pass.got fd).map (·.take tcpBufferSize)) ∧
        ¬ MultiSocket.Closes sock₀ (k.pass.got fd) ∧ sock = (sock₀.recv (k.pass.got fd)).2.2) ∨
      w.server.At fd .recv ∧ w.server.incoming.isSome := by
  have hnone : w.server.pc ≠ .selecting → w.reads k fd = none := fun hpc =>
    if_neg fun hr => hpc hr.1.1
  have hbody : ∀ {x b}, w.server.At x b → w.reads k fd = none := fun hat =>
    hnone (by rw [hat.1]; simp)
  obtain ⟨hd, -, -, hopen⟩ := h.does hn
  generalize hw : w'.server = s' at hd hs
  generalize w.events k = evs at hd
  cases hd with
  | poll hpc =>
    dsimp only at hs
    rw [MultiSocket.getNextFd_tcpSockets] at hs
    refine .inl ⟨if_neg fun hr => ?_, hs⟩
    rcases hpc with hpc | ⟨-, hq⟩
    · rw [hr.1.1] at hpc
      simp at hpc
    · exact hq hr.1.2
  | select hpc hq =>
    dsimp only at hs
    by_cases hv : w.server.multi.Visits k.pass fd
    · right
      left
      have hs₀ := getElem?_pos w.server.multi.tcpSockets fd hin
      rw [(MultiSocket.selectRound_of_visits hv hs₀).1] at hs
      split_ifs at hs with hc
      exact ⟨_, hs₀, hq, if_pos ⟨⟨hpc, hq⟩, hv⟩, hc, (Option.some.inj hs).symm⟩
    · rw [(MultiSocket.selectRound_of_not_visits hv).1] at hs
      exact .inl ⟨if_neg fun hr => hv hr.2, hs⟩
  | stdin hat => exact .inl ⟨hbody hat, hs⟩
  | news hat => exact .inl ⟨hbody hat, hs⟩
  | accept hat =>
    have hne : k.newsockfd ≠ fd := by
      rintro rfl
      exact hopen (.inr (.inr (.inr hin)))
    simp only [Std.TreeMap.getElem?_insert, Std.compare_eq_iff_eq, hne, ↓reduceIte] at hs
    exact .inl ⟨hbody hat, hs⟩
  | closed hat => exact .inl ⟨hbody hat, hs⟩
  | idle hat => exact .inl ⟨hbody hat, hs⟩
  | @frame fd' _ _ _ _ _ _ hat hbuf =>
    by_cases hfd : fd = fd'
    · subst hfd
      exact .inr (.inr ⟨hat, by rw [hbuf]; rfl⟩)
    · rw [← hw] at hs
      rw [tcpSockets_of_recv h hn hat hfd] at hs
      exact .inl ⟨hbody hat, hs⟩

/-- What came first on the connection, and what the server made of it. -/
def Answered (w : World) (c : ℕ) (buf : Bytes) (type : UInt8) : Prop :=
  (w.answers c).head? = some (buf, type)

/-- No frame of the connection was handled and nothing was sent to it, and what was received of it
is in its decoder. -/
structure Untouched (w : World) (c : ℕ) (heard : Bytes) : Prop where
  answers : w.answers c = []
  sends : w.sends c = []
  decoder : ∀ (fd : ℤ) (sock : BufferedTcpSocket), w.conn fd = some c →
    w.server.multi.tcpSockets[fd]? = some sock →
      sock.packets = (framing.cut heard).1 ∧ sock.pending = (framing.cut heard).2

/-- The first frame of the connection was answered, before anything else was sent to it. -/
def Settled (w : World) (c : ℕ) (auth : Bytes) : Prop :=
  ∃ type reply, (type = typeAuth ∧ reply = auth ∨
      type = typeAuthDuplicate ∧ reply = [typeAuthDuplicate]) ∧
    w.Answered c auth type ∧ (w.sends c).head? = some (wire reply)

theorem Answered.next (h : w.Consistent) (hn : World.next w k = some w') {buf : Bytes}
    {type : UInt8} (ha : w.Answered c buf type) : w'.Answered c buf type := by
  obtain ⟨frames, -, -, hframes, -⟩ := spoken_of_next h hn c
  rw [Answered, hframes, List.head?_append, show (w.answers c).head? = _ from ha]
  rfl

theorem Settled.next (h : w.Consistent) (hn : World.next w k = some w') {auth : Bytes}
    (hs : w.Settled c auth) : w'.Settled c auth := by
  obtain ⟨type, reply, hcases, ha, hr⟩ := hs
  obtain ⟨-, sent, -, -, hsent⟩ := spoken_of_next h hn c
  refine ⟨type, reply, hcases, ha.next h hn, ?_⟩
  rw [hsent, List.head?_append, hr]
  rfl

theorem Untouched.next (h : w.Consistent) (hm : w.server.multi.Sound)
    (hn : World.next w k = some w') (hc : c < w.registry.count) (hnews : ¬ w.Forwards k c)
    {heard : Bytes} (hu : w.Untouched c heard) :
    w'.Untouched c (heard ++ readBytes ((w.fdOf c).bind fun fd => w.reads k fd)) ∨
      ∃ fd buf type rest, w.conn fd = some c ∧ (framing.cut heard).1 = buf :: rest ∧
        w'.answers c = [(buf, type)] ∧ w'.sends c = replyTo w'.server.tables buf type ∧
        buf.length ≤ cliPacketSize ∧
        NewsServer.Processed w.server.tables fd buf type w'.server.tables := by
  obtain ⟨frames, sent, hspoken, hframes, hsent⟩ := spoken_of_next h hn c
  rw [hu.answers, List.nil_append] at hframes
  rw [hu.sends, List.nil_append] at hsent
  have hsock : ∀ fd, w.conn fd = some c → ∃ sock : BufferedTcpSocket,
      w.server.multi.tcpSockets[fd]? = some sock := fun fd hon =>
    ⟨_, getElem?_pos _ _ ((h.on fd).1 (by rw [show w.registry.on fd = _ from hon]; rfl))⟩
  cases hspoken with
  | news hall hidle =>
    left
    have hnil : sent = [] :=
      List.eq_nil_iff_forall_not_mem.2 fun b hb => hnews (hall b hb).1
    refine ⟨hframes, hsent.trans hnil, fun fd sock hon' hs' => ?_⟩
    have hon := (conn_next h hn).2 fd hc hon'
    have hin := (h.on fd).1 (by rw [show w.registry.on fd = _ from hon]; rfl)
    rw [(fdOf_eq_some h).2 hon, Option.bind_some]
    rcases socket_of_next h hn hin hs' with
      ⟨hr, hs⟩ | ⟨sock₀, hs₀, hq, hr, hopen, rfl⟩ | ⟨hat, hsome⟩
    · rw [hr]
      simpa [readBytes] using hu.decoder fd sock hon hs
    · obtain ⟨hcut, hpend⟩ := hu.decoder fd sock₀ hon hs₀
      obtain ⟨bytes, hg, -, -, hpk, hpd⟩ := BufferedTcpSocket.recv_open (hm.wf _ _ hs₀) hopen
      rw [hm.packets_eq_nil hq hs₀] at hcut hpk
      rw [hr, hpk, hpd, hg, framing.cut_append heard, ← hcut, ← hpend]
      exact ⟨rfl, rfl⟩
    · rw [hidle fd hat hon] at hsome
      simp at hsome
  | @frame fd buf type hat hin hsize hon hp =>
    obtain ⟨sock, rest, hs, hpk⟩ := exists_packets_of_incoming hm hin
    rw [h.curr fd hat.1] at hs
    refine .inr ⟨fd, buf, type, rest, hon, ?_, hframes, hsent, hsize, hp⟩
    rw [← (hu.decoder fd sock hon hs).1, hpk]

/-- The handling of the first frame, if it is an `AUTH`, settles the connection. -/
theorem settled_of_processed {t : Tables} {fd : ℤ} {auth : Bytes} {type : UInt8}
    (hauth : frameType auth = typeAuth)
    (hp : NewsServer.Processed t fd auth type w.server.tables)
    (hframes : w.answers c = [(auth, type)])
    (hsent : w.sends c = replyTo w.server.tables auth type) : w.Settled c auth := by
  have hanswered : w.Answered c auth type := by
    rw [Answered, hframes]
    rfl
  cases hp with
  | accepted =>
    refine ⟨typeAuth, auth, .inl ⟨rfl, rfl⟩, hanswered, ?_⟩
    rw [hsent, replyTo, if_pos rfl]
    rfl
  | declined =>
    refine ⟨typeAuthDuplicate, _, .inr ⟨rfl, rfl⟩, hanswered, ?_⟩
    rw [hsent]
    rfl
  | echoed htype =>
    rw [hauth] at htype
    exact absurd htype (by decide)
  | other _ hframe => exact absurd hauth hframe.1

/-- When the server accepts an `AUTH` that comes first, its id is connected on the socket of the
connection. -/
theorem userOf_of_answered (h : w.Consistent) (hn : next w k = some w') {buf : Bytes}
    (hnot : ¬ w.Answered c buf typeAuth) (ha : w'.Answered c buf typeAuth) :
    ∃ fd, w'.conn fd = some c ∧ userOf w'.server.tables.clients (frameField buf) = some fd := by
  obtain ⟨frames, sent, hspoken, hframes, -⟩ := spoken_of_next h hn c
  rw [Answered, hframes, List.head?_append] at ha
  rw [Answered] at hnot
  rcases hhead : (w.answers c).head? with _ | x
  swap
  · rw [hhead] at ha hnot
    exact absurd ha hnot
  rw [hhead] at ha
  cases hspoken with
  | news => simp at ha
  | @frame fd buf' type hat hin hsize hon hp =>
    simp only [List.head?_cons, Option.none_or, Option.some.injEq, Prod.mk.injEq] at ha
    obtain ⟨rfl, rfl⟩ := ha
    obtain ⟨hauth, hfree, hl⟩ := hp.of_auth rfl
    refine ⟨fd, ?_, (hl.user _).trans (if_pos rfl)⟩
    have heff := h.effect hn
    unfold conn at hon ⊢
    generalize w'.registry = r' at heff
    cases heff with
    | same => exact hon
    | pass hpc => exact absurd hat (Server.not_at_of_pc (.inr hpc) fd _)
    | accept hat' => exact absurd hat (hat'.not (by decide) fd)
    | release hat' => exact absurd hat (hat'.not (by decide) fd)
    | login => exact hon
    | refuse _ hin' htype =>
      rw [hin, Option.some.injEq] at hin'
      subst hin'
      rcases htype with ⟨-, hused⟩ | hdup
      · rw [h.user, hfree] at hused
        simp at hused
      · rw [hauth] at hdup
        exact absurd hdup (by decide)

theorem wire_eq_enc {p : Bytes} (h : p.length ≤ 4092) : wire p = framing.enc p := by
  have hsend : BufferedTcpSocket.send p = .ok (wire p) := by
    rw [BufferedTcpSocket.send, if_neg (by rw [tcpBufferSize]; omega)]
    rfl
  rw [BufferedTcpSocket.send_eq_enc h] at hsend
  exact (Except.ok.inj hsend).symm

/-- The bytes are frames, none of them empty, that a decoder takes. -/
def Framed (sent : List Bytes) : Prop :=
  ∃ qs : List Bytes, (∀ q ∈ qs, q ≠ [] ∧ q.length ≤ framing.limit) ∧ sent = qs.map framing.enc

theorem framed_wire {ps : List Bytes} (h : ∀ p ∈ ps, p ≠ [] ∧ p.length ≤ 4092) :
    Framed (ps.map wire) := by
  refine ⟨ps, fun p hp => ⟨(h p hp).1, (h p hp).2.trans (by decide)⟩, ?_⟩
  exact List.map_congr_left fun p hp => wire_eq_enc (h p hp).2

theorem Framed.append {sent sent' : List Bytes} (h : Framed sent) (h' : Framed sent') :
    Framed (sent ++ sent') := by
  obtain ⟨qs, hqs, rfl⟩ := h
  obtain ⟨qs', hqs', rfl⟩ := h'
  exact ⟨qs ++ qs', List.forall_mem_append.2 ⟨hqs, hqs'⟩, List.map_append.symm⟩

theorem data_news (k : Kernel) : k.news.data ≠ [] ∧ k.news.data.length ≤ 4092 := by
  have hsize := size_news k
  rw [k.news.fits]
  refine ⟨List.ne_nil_of_length_pos ?_, by rw [buflen] at hsize; omega⟩
  rw [k.news.fits]
  simp only [Kernel.news, getSendableNews]
  omega

theorem framed_replyTo {buf : Bytes} {type : UInt8} (hsize : buf.length ≤ cliPacketSize)
    (hauth : type = typeAuth → frameType buf = typeAuth)
    (hqueue : ∀ p ∈ w.queue (frameField buf), ∃ k : Kernel, p = k.news) :
    Framed (replyTo w.server.tables buf type) := by
  unfold replyTo
  split_ifs with h
  · have hmap : wire buf :: (queueOf w.server.tables.clients (frameField buf)).map (wire ·.data) =
        (buf :: (w.queue (frameField buf)).map SharedPacket.data).map wire := by
      rw [List.map_cons, List.map_map]
      rfl
    rw [hmap]
    refine framed_wire (List.forall_mem_cons.2 ⟨⟨?_, ?_⟩, fun p hp => ?_⟩)
    · rintro rfl
      exact absurd (hauth h) (by decide)
    · rw [cliPacketSize, cliPacketDataSize] at hsize
      omega
    · obtain ⟨packet, hpacket, rfl⟩ := List.mem_map.1 hp
      obtain ⟨k, rfl⟩ := hqueue packet hpacket
      exact data_news k
  · have hone : ∀ p ∈ [[typeAuthDuplicate]], p ≠ [] ∧ p.length ≤ 4092 := by simp
    exact framed_wire hone
  · exact ⟨[], by simp, rfl⟩

/-- In every run what is sent to a connection is frames. -/
theorem Run.framed {udp tcp : ℤ} {buffer : Bytes} {tr : List (World × Kernel)} {w : World}
    (h : Run udp tcp buffer tr w) (c : ℕ) : Framed (w.sends c) := by
  induction h with
  | start => exact ⟨[], by simp, rfl⟩
  | @step tr v v' k h hn ih =>
    obtain ⟨frames, sent, hspoken, -, hsent⟩ := spoken_of_next (Run.consistent h) hn c
    rw [hsent]
    refine ih.append ?_
    cases hspoken with
    | news hall =>
      rw [List.eq_replicate_of_mem fun b hb => (hall b hb).2, ← List.map_replicate]
      refine framed_wire fun p hp => ?_
      rw [List.eq_of_mem_replicate hp]
      exact data_news k
    | frame hat hin hsize hon hp =>
      exact framed_replyTo hsize (fun h => (hp.of_auth h).1) (Run.exists_news (h.step hn) _)

end World

end NewsServer
