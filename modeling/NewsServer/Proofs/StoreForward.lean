import NewsServer.Proofs.Connections

/-!
# Store and forward

The queue of a client holds every packet that was ever stored for it (`Run.queue`): the handler of
an `AUTH` that is accepted sends a copy of the queue, and the queue itself is never emptied. So
nothing that a client has missed is lost, and it comes in order (`missed_replayed`), but what has
been sent once is sent again at the next `AUTH` (`atMostOnce_iff`).
-/

namespace NewsServer

/-- What is stored can be sent. -/
def Sendable (s : Server) : Prop :=
  ∀ id, ∀ packet ∈ queueOf s.tables.clients id, packet.size + 4 ≤ tcpBufferSize

namespace World

/-- The step accepts an `AUTH` of `id`. -/
def AcceptsAuth (w : World) (id : Bytes) : Prop :=
  ∃ fd, w.server.At fd .recv ∧ ∃ buf ∈ w.server.incoming, buf.length ≤ cliPacketSize ∧
    frameType buf = typeAuth ∧ frameField buf = id ∧ userOf w.server.tables.clients id = none

instance (w : World) (id : Bytes) : Decidable (w.AcceptsAuth id) :=
  inferInstanceAs (Decidable (∃ fd, w.server.At fd .recv ∧ _))

/-- The packets in `subs_queue` of `id`. -/
def queue (w : World) (id : Bytes) : List SharedPacket :=
  queueOf w.server.tables.clients id

section Step

variable {w w' : World} {k : Kernel} {id : Bytes}

theorem trace_next (h : w.Consistent) (hn : next w k = some w') (id : Bytes) :
    storedFor id w'.trace = storedFor id w.trace ++ storedFor id (w.events k) ∧
      replayedTo id w'.trace = replayedTo id w.trace ++ replayedTo id (w.events k) := by
  obtain ⟨-, ht, -⟩ := h.does hn
  rw [ht]
  exact ⟨storedFor_append .., replayedTo_append ..⟩

theorem queue_next (h : w.Consistent) (hn : next w k = some w') (id : Bytes) :
    w'.queue id = w.queue id ++ storedFor id (w.events k) :=
  (h.does hn).1.queue id

theorem replayedTo_next (h : w.Consistent) (hn : next w k = some w') (id : Bytes) :
    replayedTo id (w.events k) = [] ∨
      w.AcceptsAuth id ∧ replayedTo id (w.events k) = w.queue id := by
  rcases (h.does hn).1.replayedTo id with he | ⟨fd, hat, buf, hin, hsize, hauth, hid, hfree, he⟩
  · exact .inl he
  · exact .inr ⟨⟨fd, hat, buf, hin, hsize, hauth, hid, hfree⟩, he⟩

end Step

theorem Run.queue {udp tcp : ℤ} {buffer : Bytes} {tr : List (World × Kernel)} {w : World}
    (h : Run udp tcp buffer tr w) (id : Bytes) : w.queue id = storedFor id w.trace := by
  have hinv := Runs.Run.always
    (P := fun v : World => v.Consistent ∧ v.queue id = storedFor id v.trace)
    ⟨consistent_start udp tcp buffer, by
      simp [World.queue, queueOf, start, Server.start, storedFor, default]⟩
    (fun v k v' hv hn => ⟨hv.1.next hn, by
      rw [queue_next hv.1 hn, (trace_next hv.1 hn id).1, hv.2]⟩) h
  exact hinv.2

/-! ## Nothing twice -/

/-- No packet was sent to a client from its queue more often than it was put there. -/
def AtMostOnce (w : World) : Prop :=
  ∀ id, (replayedTo id w.trace).Subperm (storedFor id w.trace)

/-- If the step accepts an `AUTH`, it leaves the queue of the id empty. -/
def EmptiesQueue (w : World) (k : Kernel) : Prop :=
  ∀ id, w.AcceptsAuth id → ∀ w', next w k = some w' → w'.queue id = []

/-- If the step accepts an `AUTH`, nothing is in the queue of the id. -/
def FindsEmpty (w : World) : Prop :=
  ∀ id, w.AcceptsAuth id → w.queue id = []

/-- If the step accepts an `AUTH`, nothing is in the queue of the id, or nothing was sent from it
before. -/
def FindsUnsent (w : World) : Prop :=
  ∀ id, w.AcceptsAuth id → w.queue id = [] ∨ replayedTo id w.trace = []

/-- Only the id of the frame at hand matters. -/
theorem findsUnsent_iff {w : World} : w.FindsUnsent ↔ ∀ buf ∈ w.server.incoming,
    w.AcceptsAuth (frameField buf) →
      w.queue (frameField buf) = [] ∨ replayedTo (frameField buf) w.trace = [] := by
  constructor
  · exact fun h buf _ ha => h _ ha
  · rintro h id ⟨fd, hat, buf, hin, hsize, hauth, rfl, hfree⟩
    exact h buf hin ⟨fd, hat, buf, hin, hsize, hauth, rfl, hfree⟩

instance (w : World) : Decidable w.FindsUnsent :=
  decidable_of_iff _ findsUnsent_iff.symm

section Step

variable {w w' : World} {k : Kernel}

theorem events_of_acceptsAuth (h : w.Consistent) (hn : next w k = some w') {id : Bytes}
    (ha : w.AcceptsAuth id) :
    storedFor id (w.events k) = [] ∧ replayedTo id (w.events k) = w.queue id := by
  obtain ⟨fd, hat, buf, hin, -, hauth, rfl, hfree⟩ := ha
  obtain ⟨hs, hr⟩ := (h.does hn).1.accepted hat hin hauth hfree
  exact ⟨hs _, hr⟩

theorem atMostOnce_next_iff (h : w.Consistent) (hq : ∀ id, w.queue id = storedFor id w.trace)
    (ho : w.AtMostOnce) (hn : next w k = some w') : w'.AtMostOnce ↔ w.FindsUnsent := by
  constructor
  · intro ho' id ha
    obtain ⟨hs, hr⟩ := events_of_acceptsAuth h hn ha
    obtain ⟨hts, htr⟩ := trace_next h hn id
    have hlen := (ho' id).length_le
    rw [hts, htr, hs, hr, hq, List.append_nil, List.length_append] at hlen
    right
    exact List.length_eq_zero_iff.1 (by omega)
  · intro hc id
    obtain ⟨hts, htr⟩ := trace_next h hn id
    rw [hts, htr]
    have hsub : (storedFor id w.trace).Subperm
        (storedFor id w.trace ++ storedFor id (w.events k)) :=
      (List.sublist_append_left _ _).subperm
    rcases replayedTo_next h hn id with he | ⟨ha, he⟩
    · rw [he, List.append_nil]
      exact (ho id).trans hsub
    · rw [he, hq]
      rcases hc id ha with hnil | hnil
      · have hstored : storedFor id w.trace = [] := (hq id).symm.trans hnil
        have happ : replayedTo id w.trace ++ storedFor id w.trace = replayedTo id w.trace := by
          rw [hstored, List.append_nil]
        rw [happ]
        exact (ho id).trans hsub
      · rw [hnil, List.nil_append]
        exact hsub

end Step

/-- In every run nothing stored is sent twice, and the queue is empty after every `AUTH` that is
accepted, exactly if the queue is empty before every one; and nothing is sent twice exactly if for
every one the queue is empty before, or nothing was sent from it. -/
theorem atMostOnce_iff {udp tcp : ℤ} {buffer : Bytes} {tr : List (World × Kernel)} {w : World}
    (h : Run udp tcp buffer tr w) :
    (((∀ v ∈ Runs.states tr w, v.AtMostOnce) ∧ ∀ q ∈ tr, q.1.EmptiesQueue q.2) ↔
        ∀ q ∈ tr, q.1.FindsEmpty) ∧
      ((∀ v ∈ Runs.states tr w, v.AtMostOnce) ↔ ∀ q ∈ tr, q.1.FindsUnsent) := by
  have honce := Runs.Run.states_iff
    (I := fun v : World => v.Consistent ∧ ∀ id, v.queue id = storedFor id v.trace)
    (P := AtMostOnce) (C := fun v _ => v.FindsUnsent)
    ⟨consistent_start udp tcp buffer, fun id => Run.queue .start id⟩
    (fun v k v' hv hn => ⟨hv.1.next hn, fun id => by
      rw [queue_next hv.1 hn, (trace_next hv.1 hn id).1, hv.2]⟩)
    (fun id => by simp [start, storedFor, replayedTo])
    (fun _ _ _ hv ho hc hn => (atMostOnce_next_iff hv.1 hv.2 ho hn).2 hc)
    (fun _ _ _ hv ho hn ho' => (atMostOnce_next_iff hv.1 hv.2 ho hn).1 ho') h
  have hqueue : ∀ q ∈ tr, ∀ id, q.1.AcceptsAuth id → ∀ w', next q.1 q.2 = some w' →
      w'.queue id = q.1.queue id := by
    intro q hq id ha w' hn
    have hcons := Run.consistent_states h q.1 (Runs.mem_states_of_mem hq w)
    rw [queue_next hcons hn, (events_of_acceptsAuth hcons hn ha).1, List.append_nil]
  refine ⟨⟨?_, ?_⟩, honce⟩
  · rintro ⟨-, hempties⟩ q hq id ha
    obtain ⟨w', hn⟩ := h.exists_next q hq
    rw [← hqueue q hq id ha w' hn]
    exact hempties q hq id ha w' hn
  · intro hempty
    refine ⟨honce.2 fun q hq id ha => .inl (hempty q hq id ha), fun q hq id ha w' hn => ?_⟩
    rw [hqueue q hq id ha w' hn]
    exact hempty q hq id ha

/-- `A` logs in on 5, subscribes to `t` to be stored for, and leaves. A datagram on `t` comes in. -/
def missInputs : List Kernel :=
  loginInputs 5 65 ++ [.quiet, .ready {5} [(5, [0, 0, 0, 2, 3, 116])], .quiet, .quiet, .quiet,
    .ready {5} [(5, [])], .quiet, .quiet, .quiet, .ready {3} [], .quiet,
    { Kernel.quiet with datagram := 116 :: List.replicate 50 0 }]

set_option maxRecDepth 10000 in
/-- `A` returns on 6 and gets the packet, once. It is still in the queue. -/
theorem atMostOnce_iff_missed : ∃ tr w, Run 3 4 [] tr w ∧
    tr.map Prod.snd = missInputs ++ loginInputs 6 65 ∧
    (storedFor [65] w.trace).length = 1 ∧ (replayedTo [65] w.trace).length = 1 ∧
    (∀ v ∈ Runs.states tr w, v.AtMostOnce) ∧ ¬ ∀ q ∈ tr, q.1.EmptiesQueue q.2 := by
  have hrec : ∃ x ∈ Runs.exec (Runs.record next) ([], start 3 4 [])
      (missInputs ++ loginInputs 6 65),
      (storedFor [65] x.2.trace).length = 1 ∧ (replayedTo [65] x.2.trace).length = 1 ∧
        (∀ q ∈ x.1, q.1.FindsUnsent) ∧
        ∃ q ∈ x.1, q.1.AcceptsAuth [65] ∧ (q.1.queue [65]).length = 1 := by
    decide +kernel
  obtain ⟨tr, w, hr, htr, hstored, hreplayed, hunsent, q, hq, ha, hlen⟩ :=
    Runs.exists_run_of_record (P := fun (tr : List (World × Kernel)) (w : World) =>
      (storedFor [65] w.trace).length = 1 ∧ (replayedTo [65] w.trace).length = 1 ∧
        (∀ q ∈ tr, q.1.FindsUnsent) ∧
        ∃ q ∈ tr, q.1.AcceptsAuth [65] ∧ (q.1.queue [65]).length = 1) hrec
  obtain ⟨hwhole, honce⟩ := atMostOnce_iff hr
  have hstates := honce.2 hunsent
  refine ⟨tr, w, hr, htr, hstored, hreplayed, hstates, fun hempties => ?_⟩
  have hempty := hwhole.1 ⟨hstates, hempties⟩ q hq [65] ha
  rw [hempty] at hlen
  simp at hlen

/-- `A` logs in on 6, leaves, and logs in on 7. -/
def returnInputs : List Kernel :=
  loginInputs 6 65 ++ [.quiet, .ready {6} [(6, [])], .quiet, .quiet] ++ loginInputs 7 65

set_option maxRecDepth 10000 in
/-- The packet is sent to `A` each time. -/
theorem not_atMostOnce_return : ∃ tr w, Run 3 4 [] tr w ∧
    tr.map Prod.snd = missInputs ++ returnInputs ∧ ¬ w.AtMostOnce := by
  have htwice : ∃ w ∈ Runs.exec next (start 3 4 []) (missInputs ++ returnInputs),
      (storedFor [65] w.trace).length = 1 ∧ (replayedTo [65] w.trace).length = 2 := by
    decide +kernel
  obtain ⟨tr, w, hrun, htr, hs, hr⟩ := Runs.exists_run_of_exec htwice
  refine ⟨tr, w, hrun, htr, fun h => ?_⟩
  have := (h [65]).length_le
  omega

/-! ## Nothing lost -/

/-- The step handles a datagram on a topic that `id`, who is not connected, is subscribed to with
`sf` 1. -/
def Misses (w : World) (id : Bytes) (k : Kernel) : Prop :=
  (∃ fd, w.server.At fd .udp) ∧ flagOf w.server.tables.topicMap k.topic id = some 1 ∧
    userOf w.server.tables.clients id = none

instance (w : World) (id : Bytes) (k : Kernel) : Decidable (w.Misses id k) :=
  inferInstanceAs (Decidable (_ ∧ _ ∧ _))

/-- The packets `id` has missed in a run since its last `AUTH` that was accepted. -/
def missed (id : Bytes) (tr : List (World × Kernel)) : List SharedPacket :=
  tr.foldl (fun missed q =>
    if q.1.AcceptsAuth id then []
    else if q.1.Misses id q.2 then missed ++ [q.2.news] else missed) []

theorem size_news (k : Kernel) : k.news.size ≤ buflen + 6 := by
  have := List.length_take_le buflen k.datagram
  simp only [Kernel.news, getSendableNews]
  omega

theorem Run.missed {udp tcp : ℤ} {buffer : Bytes} {tr : List (World × Kernel)} {w : World}
    (h : Run udp tcp buffer tr w) (id : Bytes) : (missed id tr).Sublist (w.queue id) := by
  induction h with
  | start => exact List.nil_sublist _
  | @step tr v v' k h hn ih =>
    have hcons := Run.consistent h
    rw [World.missed, List.foldl_append, ← World.missed, queue_next hcons hn]
    simp only [List.foldl_cons, List.foldl_nil]
    split_ifs with ha hm
    · exact List.nil_sublist _
    · obtain ⟨⟨fd, hat⟩, hflag, hfree⟩ := hm
      rw [(hcons.does hn).1.missed hat hflag hfree]
      exact ih.append (List.Sublist.refl _)
    · exact ih.trans (List.sublist_append_left _ _)

theorem Run.exists_news {udp tcp : ℤ} {buffer : Bytes} {tr : List (World × Kernel)} {w : World}
    (h : Run udp tcp buffer tr w) (id : Bytes) : ∀ p ∈ w.queue id, ∃ k : Kernel, p = k.news := by
  induction h with
  | start => simp [World.queue, queueOf, start, Server.start, default]
  | @step tr v v' k h hn ih =>
    have hcons := Run.consistent h
    rw [queue_next hcons hn]
    intro p hp
    rcases List.mem_append.1 hp with hp | hp
    · exact ih p hp
    · exact ⟨k, (hcons.does hn).1.eq_of_mem_storedFor hp⟩

theorem Run.size_le {udp tcp : ℤ} {buffer : Bytes} {tr : List (World × Kernel)} {w : World}
    (h : Run udp tcp buffer tr w) (id : Bytes) : ∀ p ∈ w.queue id, p.size ≤ buflen + 6 := by
  intro p hp
  obtain ⟨k, rfl⟩ := Run.exists_news h id p hp
  exact size_news k

theorem Run.sendable {udp tcp : ℤ} {buffer : Bytes} {tr : List (World × Kernel)} {w : World}
    (h : Run udp tcp buffer tr w) : Sendable w.server := by
  intro id p hp
  have := Run.size_le h id p hp
  simp only [buflen, tcpBufferSize] at this ⊢
  omega

/-- In every run the step that accepts an `AUTH` of a client goes on: it sends the `AUTH` back and
then, on the same socket, the packets of the client's queue, among which are, in order, all that the
client has missed since its last `AUTH`. -/
theorem missed_replayed {udp tcp : ℤ} {buffer : Bytes} {tr : List (World × Kernel)} {w : World}
    (h : Run udp tcp buffer tr w) {fd : ℤ} {buf : Bytes} (hat : w.server.At fd .recv)
    (hin : w.server.incoming = some buf) (hsize : buf.length ≤ cliPacketSize)
    (hauth : frameType buf = typeAuth)
    (hfree : userOf w.server.tables.clients (frameField buf) = none) (k : Kernel) :
    ∃ s' past queue, (past = [] ∨ past = [.pastPacket]) ∧
      w.server.step k = .ok (s', .frame fd buf typeAuth :: past ++
        .sent fd (wire buf) :: replays (frameField buf) fd queue) ∧
      (missed (frameField buf) tr).Sublist queue := by
  obtain ⟨s', past, hpast, hstep⟩ := step_of_free hat ((Run.consistent h).curr fd hat.1) hin hsize
    hauth hfree (Run.sendable h _) k
  exact ⟨s', past, _, hpast, hstep, Run.missed h _⟩

set_option maxRecDepth 10000 in
/-- `A`, who has missed a packet, is about to log in on 6. -/
theorem missed_replayed_return : ∃ tr w s' past queue, Run 3 4 [] tr w ∧
    tr.map Prod.snd = missInputs ++ (loginInputs 6 65).dropLast ∧ (w.queue [65]).length = 1 ∧
      w.server.step .quiet = .ok (s', .frame 6 [1, 65] typeAuth :: past ++
        .sent 6 (wire [1, 65]) :: replays [65] 6 queue) ∧ (missed [65] tr).Sublist queue := by
  have hready : ∃ w ∈ Runs.exec next (start 3 4 []) (missInputs ++ (loginInputs 6 65).dropLast),
      w.server.at? = some (6, .recv) ∧ w.server.incoming = some [1, 65] ∧
        userOf w.server.tables.clients [65] = none ∧ (w.queue [65]).length = 1 := by
    decide +kernel
  obtain ⟨tr, w, hr, htr, hat, hin, hfree, hlen⟩ := Runs.exists_run_of_exec hready
  obtain ⟨s', past, queue, -, hstep, hsub⟩ := missed_replayed hr (Server.at_iff.2 hat) hin
    (by decide) (by decide) hfree .quiet
  exact ⟨tr, w, s', past, queue, hr, htr, hlen, hstep, hsub⟩

end World

end NewsServer
