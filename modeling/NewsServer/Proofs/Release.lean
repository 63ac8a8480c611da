import NewsServer.Proofs.Connections

/-!
# Giving identities back

What the maps keep for a descriptor is what its open connection logged in as, or there is a
`SOCK_CLOSE` that will remove it. Two things break this: a `SOCK_CLOSE` that `get_next_fd` skips,
and a connection that logs in under a second id, or that the server itself closes while it is logged
in. Without them an id is free once its connection is closed and the queue is empty (`released`),
and a client is connected on a socket that is there, unless its `SOCK_CLOSE` waits behind the
datagram (`registered`).
-/

namespace NewsServer

open Sessions

namespace World

/-- `get_next_fd` skips no `SOCK_CLOSE` of a descriptor that is in `ids_map`. -/
def KeepsCloses (w : World) : Prop :=
  w.server.pc = .top ∨ w.server.pc = .selecting → ∀ hold ∈ w.server.multi.discards,
    hold.type = sockClose → w.server.tables.idsMap[hold.fd]? = none

/-- The frame is one that makes the server close the connection: an `AUTH` of an id in use, or of
the type the server answers that with. -/
def Refuses (w : World) (buf : Bytes) : Prop :=
  frameType buf = typeAuth ∧ (userOf w.server.tables.clients (frameField buf)).isSome ∨
    frameType buf = typeAuthDuplicate

/-- An `AUTH` that is accepted comes on a descriptor on which no client is connected, and a frame
that makes the server close the connection on one that is not in `ids_map`, or whose `SOCK_CLOSE` is
queued. -/
def LogsInOnce (w : World) : Prop :=
  ∀ fd, w.server.At fd .recv → ∀ buf ∈ w.server.incoming,
    (frameType buf = typeAuth → userOf w.server.tables.clients (frameField buf) = none →
      ∀ id, userOf w.server.tables.clients id ≠ some fd) ∧
    (w.Refuses buf →
      w.server.tables.idsMap[fd]? = none ∨ ⟨fd, sockClose⟩ ∈ w.server.multi.sockQueue)

instance (w : World) : Decidable w.KeepsCloses :=
  inferInstanceAs (Decidable (_ → _))

instance (w : World) (buf : Bytes) : Decidable (w.Refuses buf) :=
  inferInstanceAs (Decidable (_ ∨ _))

instance (w : World) (fd : ℤ) : Decidable (∀ id, userOf w.server.tables.clients id ≠ some fd) :=
  decidable_of_iff _ forall_userOf_ne_iff.symm

instance (w : World) : Decidable w.LogsInOnce :=
  inferInstanceAs (Decidable (∀ fd, w.server.At fd .recv → _))

/-- What the maps keep is of an open connection, or will be removed. -/
def Tracked (w : World) : Prop :=
  w.registry.Linked ∧ w.registry.Tracked w.server.Closing

section Step

variable {w w' : World} {k : Kernel}

theorem linked_next (h : w.Consistent) (hl : w.registry.Linked) (hc : w.LogsInOnce)
    (hn : next w k = some w') : w'.registry.Linked := by
  have heff := h.effect hn
  generalize w'.registry = r' at heff
  cases heff with
  | same => exact hl
  | @pass fds =>
    obtain ⟨hb, hu⟩ := foldl_drop_fixed fds w.registry
    intro fd id hid
    rw [hu] at hid
    rw [hb]
    exact hl fd id hid
  | accept => exact hl
  | release => exact hl.release _ _
  | @login fd buf c hat hin _ hauth _ hfree =>
    refine hl.login (fun id => ?_) c _
    rw [h.user] at hfree ⊢
    exact (hc fd hat buf hin).1 hauth hfree id
  | refuse => exact hl

theorem tracked_next (h : w.Consistent) (ht : w.registry.Tracked w.server.Closing)
    (hk : w.KeepsCloses) (hc : w.LogsInOnce) (hn : next w k = some w') :
    w'.registry.Tracked w'.server.Closing := by
  obtain ⟨hd, -, -⟩ := h.does hn
  have hkeep : ∀ fd, (w.registry.bound fd).isSome → w.server.Closing fd →
      ¬ w.server.At fd .closed → w'.server.Closing fd := by
    intro fd hb hclosing hat
    refine hd.closing (h.bound_pos fd hb) (fun hpc hskip => ?_) hclosing hat
    rw [h.bound, hk hpc _ hskip rfl] at hb
    simp at hb
  have heff := h.effect hn
  generalize w'.registry = r' at heff
  cases heff with
  | same hclosed => exact ht.of_imp fun fd hb hf => hkeep fd hb hf (hclosed fd)
  | pass hpc hclose =>
    have hno := Server.not_at_of_pc (.inr hpc)
    have ht' := ht.of_imp fun fd hb hf => hkeep fd hb hf (hno fd _)
    exact List.foldlRecOn (motive := fun r : Registry ℤ Bytes => r.Tracked w'.server.Closing) _
      Registry.drop ht' fun _ h fd hfd => h.drop fun _ => .inl (hclose fd hfd)
  | accept hat hfresh =>
    exact (ht.of_imp fun fd hb hf => hkeep fd hb hf (hat.not (by decide) fd)).accept hfresh
  | @release fd hat =>
    refine ht.release [] fd fun x hx hb hf => hkeep x hb hf fun hat' => hx ?_
    exact (hat'.eq hat).1
  | login hat hin _ _ hon =>
    exact (ht.of_imp fun fd hb hf => hkeep fd hb hf (hat.not (by decide) fd)).login hon _
  | @refuse fd buf hat hin htype =>
    refine (ht.of_imp fun fd hb hf => hkeep fd hb hf (hat.not (by decide) fd)).drop fun hb => ?_
    rw [h.user] at htype
    rcases (hc fd hat buf hin).2 htype with hnone | hq
    · rw [h.bound, hnone] at hb
      simp at hb
    · exact hkeep fd hb (.inl hq) (hat.not (by decide) fd)

end Step

theorem Run.tracked {udp tcp : ℤ} {buffer : Bytes} {tr : List (World × Kernel)} {w : World}
    (h : Run udp tcp buffer tr w) (hC : ∀ q ∈ tr, q.1.KeepsCloses ∧ q.1.LogsInOnce) :
    ∀ v ∈ Runs.states tr w, v.Consistent ∧ v.Tracked :=
  Runs.Run.invariant_states (P := fun v => v.Consistent ∧ v.Tracked)
    (C := fun v _ => v.KeepsCloses ∧ v.LogsInOnce)
    ⟨consistent_start udp tcp buffer, Registry.linked_empty, Registry.tracked_empty⟩
    (fun _ _ _ hv hc hn => ⟨hv.1.next hn, linked_next hv.1 hv.2.1 hc.2 hn,
      tracked_next hv.1 hv.2.2 hc.1 hc.2 hn⟩) h hC

/-- The queue of events is empty, and none is being handled. -/
def Drained (w : World) : Prop :=
  w.server.multi.sockQueue = [] ∧ ∀ fd, w.server.pc ≠ .body fd

/-- The connection whose `AUTH` of `id` was accepted last. -/
def owner (w : World) (id : Bytes) : Option ℕ :=
  w.registry.owner id

/-- Nothing is kept of connections that are closed. -/
structure Released (w : World) : Prop where
  ids : ∀ fd, fd ∉ w.server.multi.tcpSockets → w.server.tables.idsMap[fd]? = none
  bound : ∀ fd id c, w.server.tables.idsMap[fd]? = some id → w.conn fd = some c → w.Authed c id
  users : ∀ id fd, userOf w.server.tables.clients id = some fd →
    ∃ c, w.conn fd = some c ∧ w.owner id = some c
  again : ∀ id, (∀ fd c, w.conn fd = some c → w.owner id ≠ some c) → ∀ fd buf,
    buf.length ≤ cliPacketSize → frameType buf = typeAuth → frameField buf = id →
      ∃ t, processTcpClientPacket w.server.tables fd buf buf.length = .ok (typeAuth, t)

theorem released_of_tracked {w : World} (h : w.Consistent) (ht : w.Tracked) (hd : w.Drained) :
    w.Released := by
  have hnone : ∀ fd, ¬ w.server.Closing fd := by
    rintro fd (hq | ⟨hpc, -⟩)
    · simp [hd.1] at hq
    · exact hd.2 fd hpc
  obtain ⟨hids, hbound, husers⟩ := ht.2.settled ht.1 hnone
  have husers' : ∀ id fd, userOf w.server.tables.clients id = some fd →
      ∃ c, w.conn fd = some c ∧ w.owner id = some c := by
    intro id fd hu
    exact husers fd id ((h.user id).trans hu)
  refine ⟨fun fd hfd => ?_, fun fd id c hb hon => ?_, husers', ?_⟩
  · rw [← h.bound]
    exact hids fd (h.on_eq_none hfd)
  · exact hbound fd id c ((h.bound fd).trans hb) hon
  · intro id hid fd buf hsize hauth hfield
    subst hfield
    obtain ⟨type, t, hp⟩ := process_total w.server.tables fd buf hsize
    have hproc := process_ok hp
    rw [List.take_length] at hproc
    have hfree : userOf w.server.tables.clients (frameField buf) = none := by
      rw [Option.eq_none_iff_forall_not_mem]
      intro x hx
      obtain ⟨c, hon, ho⟩ := husers' _ x hx
      exact hid x c hon ho
    rw [hproc.of_free hauth hfree] at hp
    exact ⟨t, hp⟩

/-- In every run whose steps skip no `SOCK_CLOSE` of a descriptor in `ids_map` (`KeepsCloses`),
accept no `AUTH` on a descriptor on which a client is connected, and refuse no frame, by its id or
by its type, on one that is in `ids_map` with no `SOCK_CLOSE` queued (`LogsInOnce`), nothing is kept
of a closed connection once the queue is empty, and its ids can log in again. -/
theorem released {udp tcp : ℤ} {buffer : Bytes} {tr : List (World × Kernel)} {w : World}
    (h : Run udp tcp buffer tr w) (hC : ∀ q ∈ tr, q.1.KeepsCloses ∧ q.1.LogsInOnce) :
    ∀ v ∈ Runs.states tr w, v.Drained → v.Released := by
  intro v hv hd
  obtain ⟨hcons, ht⟩ := Run.tracked h hC v hv
  exact released_of_tracked hcons ht hd

/-- A connection on 5 logs in as `A`, and its peer closes it. -/
def leaveInputs : List Kernel :=
  loginInputs 5 65 ++ [.quiet, .ready {5} [(5, [])], .quiet, .quiet]

set_option maxRecDepth 10000 in
/-- Nothing is left of it. -/
theorem released_leave : ∃ tr w, Run 3 4 [] tr w ∧ tr.map Prod.snd = leaveInputs ∧
    w.Authed 0 [65] ∧ w.Drained ∧ w.Released := by
  have hdone : ∃ w ∈ Runs.exec next (start 3 4 []) leaveInputs, (0, [65]) ∈ w.registry.logins ∧
      w.server.multi.sockQueue = [] ∧ w.server.pc = .top := by
    decide +kernel
  obtain ⟨tr, w, hr, htr, hC, hauthed, hq, hpc⟩ := Runs.exists_run_of_meets
    (C := fun v _ => v.KeepsCloses ∧ v.LogsInOnce) hdone (by decide +kernel)
  have hd : w.Drained := ⟨hq, by simp [hpc]⟩
  exact ⟨tr, w, hr, htr, hauthed, hd, released hr hC w (Runs.mem_states_self tr w) hd⟩

/-- A connection on 5 logs in as `A`, and again. -/
def againInputs : List Kernel :=
  loginInputs 5 65 ++ [.quiet, .ready {5} [(5, [0, 0, 0, 2, 1, 65])], .quiet, .quiet, .quiet]

set_option maxRecDepth 10000 in
/-- The server has closed it, and `A` stays connected on 5. -/
theorem not_released_again : ∃ tr w, Run 3 4 [] tr w ∧ tr.map Prod.snd = againInputs ∧
    w.Drained ∧ ¬ w.Released := by
  have hleft : ∃ w ∈ Runs.exec next (start 3 4 []) againInputs, w.server.multi.sockQueue = [] ∧
      w.server.pc = .selecting ∧ 5 ∉ w.server.multi.tcpSockets ∧
        w.server.tables.idsMap[(5 : ℤ)]? = some [65] := by
    decide +kernel
  obtain ⟨tr, w, hr, htr, hq, hpc, hmem, hid⟩ := Runs.exists_run_of_exec hleft
  refine ⟨tr, w, hr, htr, ⟨hq, by simp [hpc]⟩, fun h => ?_⟩
  have := h.ids 5 hmem
  rw [hid] at this
  simp at this

/-- If the step handles a datagram, no `SOCK_CLOSE` is queued for a closed socket on which a
subscriber of its topic is connected. -/
def NewsAfterCloses (w : World) (k : Kernel) : Prop :=
  ∀ fd, w.server.At fd .udp → ∀ entry ∈ (w.server.tables.topicMap.getD k.topic ∅).toList,
    ∀ f ∈ userOf w.server.tables.clients entry.1, f ∉ w.server.multi.tcpSockets →
      ⟨f, sockClose⟩ ∉ w.server.multi.sockQueue

instance (w : World) (k : Kernel) : Decidable (w.NewsAfterCloses k) :=
  inferInstanceAs (Decidable (∀ fd, w.server.At fd .udp → _))

/-- The clients that the step sends news to have their sockets in `tcp_sockets`, and so does the
connection whose frame it answers. -/
structure Registered (w : World) (k : Kernel) : Prop where
  news : ∀ fd, w.server.At fd .udp →
    ∀ entry ∈ (w.server.tables.topicMap.getD k.topic ∅).toList,
      ∀ f, userOf w.server.tables.clients entry.1 = some f → f ∈ w.server.multi.tcpSockets
  answer : ∀ fd buf, w.server.At fd .recv → w.server.incoming = some buf →
    fd ∈ w.server.multi.tcpSockets

theorem registered_of_tracked {w : World} (h : w.Consistent) (ht : w.Tracked) {k : Kernel}
    (hk : w.NewsAfterCloses k) : w.Registered k := by
  constructor
  · intro fd hat entry he f hu
    by_contra hf
    have hb := ht.1 f entry.1 ((h.user _).trans hu)
    rcases ht.2 f entry.1 hb with (hq | hat') | ⟨c, hon, -⟩
    · exact hk fd hat entry he f hu hf hq
    · exact hat.not (by decide) f hat'
    · exact hf ((h.on f).1 (by rw [hon]; rfl))
  · intro fd buf hat hin
    have hr := received_recv w.server.multi
    have hcurr := h.curr fd hat.1
    unfold Server.incoming at hin
    generalize w.server.multi.recv = r at hr hin
    cases hr with
    | unbuffered => simp at hin
    | notReady => simp at hin
    | written hmem => exact hcurr ▸ hmem

/-- In every run whose steps all meet `KeepsCloses` and `LogsInOnce`, a step that handles no
datagram before the `SOCK_CLOSE` of one of its receivers sends on sockets that are there, and does
not end the server with "send to sub". -/
theorem registered {udp tcp : ℤ} {buffer : Bytes} {tr : List (World × Kernel)} {w : World}
    (h : Run udp tcp buffer tr w) (hC : ∀ q ∈ tr, q.1.KeepsCloses ∧ q.1.LogsInOnce) :
    ∀ v ∈ Runs.states tr w, ∀ k, v.NewsAfterCloses k →
      v.Registered k ∧ v.server.step k ≠ .error (.die .sendToSub) := by
  intro v hv k hk
  obtain ⟨hcons, ht⟩ := Run.tracked h hC v hv
  have hreg := registered_of_tracked hcons ht hk
  exact ⟨hreg, step_ne_sendToSub hcons.curr hreg.news⟩

/-- A connection on 5 logs in as `A` and subscribes to `t`. -/
def subscribeInputs : List Kernel :=
  loginInputs 5 65 ++ [.quiet, .ready {5} [(5, [0, 0, 0, 2, 2, 116])], .quiet, .quiet, .quiet]

/-- A datagram on `t` comes in. -/
def newsInput : Kernel :=
  { Kernel.quiet with datagram := 116 :: List.replicate 50 0 }

set_option maxRecDepth 10000 in
/-- The datagram goes to 5. -/
theorem registered_news : ∃ tr w, Run 3 4 [] tr w ∧
    tr.map Prod.snd = subscribeInputs ++ [.ready {3} [], .quiet] ∧
      w.server.At 3 .udp ∧ userOf w.server.tables.clients [65] = some 5 ∧
        w.Registered newsInput ∧ w.server.step newsInput ≠ .error (.die .sendToSub) := by
  have hready : ∃ w ∈ Runs.exec next (start 3 4 []) (subscribeInputs ++ [.ready {3} [], .quiet]),
      w.server.at? = some (3, .udp) ∧ userOf w.server.tables.clients [65] = some 5 ∧
        w.NewsAfterCloses newsInput := by
    decide +kernel
  obtain ⟨tr, w, hr, htr, hC, hat, huser, hk⟩ := Runs.exists_run_of_meets
    (C := fun v _ => v.KeepsCloses ∧ v.LogsInOnce) hready (by decide +kernel)
  obtain ⟨hreg, hstep⟩ := registered hr hC w (Runs.mem_states_self tr w) newsInput hk
  exact ⟨tr, w, hr, htr, Server.at_iff.2 hat, huser, hreg, hstep⟩

set_option maxRecDepth 10000 in
/-- The peer of 5 closes it in the pass that finds the datagram, which comes first. -/
theorem sendToSub_closed : ∃ tr w, Run 3 4 [] tr w ∧
    tr.map Prod.snd = subscribeInputs ++ [.ready {3, 5} [(5, [])], .quiet] ∧
      w.server.At 3 .udp ∧ userOf w.server.tables.clients [65] = some 5 ∧
        5 ∉ w.server.multi.tcpSockets ∧ w.server.step newsInput = .error (.die .sendToSub) := by
  have hends : ∃ w ∈ Runs.exec next (start 3 4 []) (subscribeInputs ++
      [.ready {3, 5} [(5, [])], .quiet]), w.server.at? = some (3, .udp) ∧
        userOf w.server.tables.clients [65] = some 5 ∧ 5 ∉ w.server.multi.tcpSockets ∧
          (match w.server.step newsInput with
            | .error e => some e
            | .ok _ => none) = some (.die .sendToSub) := by
    decide +kernel
  obtain ⟨tr, w, hr, htr, hat, huser, hmem, hdie⟩ := Runs.exists_run_of_exec hends
  refine ⟨tr, w, hr, htr, Server.at_iff.2 hat, huser, hmem, ?_⟩
  rcases hs : w.server.step newsInput with e | r <;> simp only [hs] at hdie
  · rw [Option.some.inj hdie]
  · simp at hdie

end World

end NewsServer
