import NewsServer.Proofs.FrameBounds

/-!
# A `select` that has returned

`select` goes on until something is queued, but `get_next_fd` skips what is queued behind a
`SOCK_TCP` entry of a socket with nothing to give. A pass queues such an entry for its first
descriptor if `fd_type` happens to hold `SOCK_TCP` when it begins. Where no packet is ready then,
`get_next_fd` has no descriptor (`returnedSelect_iff`), and the server takes `-1` for one.
-/

namespace NewsServer

namespace MultiSocket

/-- The round of `select` that queues something. -/
def filling : MultiSocket → List Pass → Option (MultiSocket × Pass)
  | _, [] => none
  | m, p :: ps =>
    if (m.selectRound p).1.sockQueue = [] then (m.selectRound p).1.filling ps else some (m, p)

/-- `fd_type` holds `SOCK_TCP` when the round begins, the first descriptor it reads is left open
with no packet ready, and no descriptor it reads has one. -/
def Blank (m : MultiSocket) (p : Pass) : Prop :=
  p.fdType = sockTcp ∧
    (∃ fd, m.Visits p fd ∧ m.Unfinished p fd ∧ ∀ x, m.Visits p x → fd ≤ x) ∧
    ∀ (fd : ℤ) (sock : BufferedTcpSocket), m.Visits p fd → m.tcpSockets[fd]? = some sock →
      Closes sock (p.got fd) ∨ (sock.recv (p.got fd)).2.2.packetReady = false

section Round

variable {m : MultiSocket} {p : Pass}

/-- The first entry a pass queues is of the first descriptor it reads. -/
theorem head_entries (selected : Finset ℤ) : ∀ (fds : List ℤ) (t : ℤ) {e : RecvHolder}
    {rest : List RecvHolder}, fds.Pairwise (· < ·) →
    entries m p selected fds t = e :: rest →
      e.type = (m.visit p e.fd t).1 ∧ ∀ x ∈ fds, x ∈ selected → e.fd ≤ x
  | [], t, e, rest, _, h => by simp [entries] at h
  | fd :: fds, t, e, rest, hlt, h => by
    obtain ⟨hfd, hlt⟩ := List.pairwise_cons.1 hlt
    by_cases hsel : fd ∈ selected
    · simp only [entries, hsel, ↓reduceIte, List.cons.injEq] at h
      obtain ⟨rfl, -⟩ := h
      refine ⟨rfl, fun x hx _ => ?_⟩
      rcases List.mem_cons.1 hx with rfl | hx
      · exact le_rfl
      · exact (hfd x hx).le
    · simp only [entries, hsel, ↓reduceIte] at h
      obtain ⟨htype, hmin⟩ := head_entries selected fds t hlt h
      refine ⟨htype, fun x hx hx' => ?_⟩
      rcases List.mem_cons.1 hx with rfl | hx
      · exact absurd hx' hsel
      · exact hmin x hx hx'

theorem pairwise_descriptors (fdmax : ℤ) : (descriptors fdmax).Pairwise (· < ·) := by
  rw [descriptors, List.pairwise_map]
  exact List.pairwise_lt_range.imp fun h => by simpa using h

/-- A call of `get_next_fd` has no descriptor exactly if the queue starts with a `SOCK_TCP` entry
and all of it is stale. -/
theorem getNextFd_nonneg_iff {e : RecvHolder} {rest : List RecvHolder}
    (hq : m.sockQueue = e :: rest) (hpos : ∀ x ∈ e :: rest, 0 ≤ x.fd) :
    0 ≤ m.getNextFd.1 ↔ ¬ (e.type = sockTcp ∧ ∀ x ∈ e :: rest, m.stale x = true) := by
  by_cases ht : e.type = sockTcp
  · rcases hd : (e :: rest).dropWhile m.stale with _ | ⟨x, r⟩
    · have hall := List.dropWhile_eq_nil_iff.1 hd
      simp [getNextFd, hq, ht, hd]
      simpa using hall
    · obtain ⟨hx, hfresh, hfd, -, -⟩ := getNextFd_of_fresh hq ht hd
      rw [hfd]
      refine iff_of_true (hpos x hx) fun h => ?_
      rw [h.2 x hx] at hfresh
      simp at hfresh
  · rw [(getNextFd_of_ne_tcp hq ht).1]
    exact iff_of_true (hpos e List.mem_cons_self) fun h => ht h.1

/-- Where there is no descriptor, nothing is left in the queue. -/
theorem sockQueue_of_getNextFd_neg (hpos : ∀ e ∈ m.sockQueue, 0 ≤ e.fd)
    (h : m.getNextFd.1 < 0) : m.getNextFd.2.sockQueue = [] := by
  rcases hq : m.sockQueue with _ | ⟨e, rest⟩
  · simp [getNextFd, hq]
  rw [hq] at hpos
  have hnone := (getNextFd_nonneg_iff hq hpos).not.1 (not_le.2 h)
  obtain ⟨ht, hall⟩ := not_not.1 hnone
  rw [getNextFd_sockQueue_of_tcp hq ht]
  exact List.dropWhile_eq_nil_iff.2 hall

/-- After a round an entry is stale where its descriptor has no socket, or one with nothing ready.
-/
theorem stale_selectRound_iff {fd : ℤ} (hv : m.Visits p fd) (t : ℤ) :
    (m.selectRound p).1.stale ⟨fd, t⟩ = true ↔ ∀ sock : BufferedTcpSocket,
      m.tcpSockets[fd]? = some sock →
        Closes sock (p.got fd) ∨ (sock.recv (p.got fd)).2.2.packetReady = false := by
  rcases hs : m.tcpSockets[fd]? with _ | sock
  · simp [stale, selectRound_of_none p hs]
  · have hround := (selectRound_of_visits hv hs).1
    by_cases hc : Closes sock (p.got fd)
    · rw [if_pos hc] at hround
      simp [stale, hround, hc]
    · rw [if_neg hc] at hround
      simp [stale, hround, hc]

/-- A round that queues something leaves `get_next_fd` a descriptor exactly if it is not blank. -/
theorem selectRound_nonneg_iff (hq : m.sockQueue = [])
    (hfill : (m.selectRound p).1.sockQueue ≠ []) :
    0 ≤ (m.selectRound p).1.getNextFd.1 ↔ ¬ m.Blank p := by
  have hqueue := selectRound_sockQueue m p
  rw [hq, List.nil_append] at hqueue
  obtain ⟨e, rest, he⟩ := List.exists_cons_of_ne_nil hfill
  rw [he] at hqueue
  have hvisits : ∀ x ∈ e :: rest, m.Visits p x.fd := by
    intro x hx
    rw [hqueue] at hx
    obtain ⟨hmem, hsel, -⟩ := mem_of_mem_entries m p _ _ _ x hx
    exact ⟨hsel, mem_descriptors.1 hmem⟩
  have hentry : ∀ fd, m.Visits p fd → ∃ type, ⟨fd, type⟩ ∈ e :: rest := by
    intro fd hv
    rw [hqueue]
    exact exists_entry m p _ hv.1 _ _ (mem_descriptors.2 hv.2)
  obtain ⟨htype, hmin⟩ := head_entries _ _ _ (pairwise_descriptors _) hqueue.symm
  have hfirst : ∀ x, m.Visits p x → e.fd ≤ x := fun x hv =>
    hmin x (mem_descriptors.2 hv.2) hv.1
  have hstale : (∀ x ∈ e :: rest, (m.selectRound p).1.stale x = true) ↔
      ∀ (fd : ℤ) (sock : BufferedTcpSocket), m.Visits p fd → m.tcpSockets[fd]? = some sock →
        Closes sock (p.got fd) ∨ (sock.recv (p.got fd)).2.2.packetReady = false := by
    constructor
    · intro h fd sock hv hs
      obtain ⟨type, hx⟩ := hentry fd hv
      exact (stale_selectRound_iff hv type).1 (h _ hx) sock hs
    · intro h x hx
      exact (stale_selectRound_iff (hvisits x hx) x.type).2 fun sock hs =>
        h x.fd sock (hvisits x hx) hs
  rw [getNextFd_nonneg_iff he fun x hx => (hvisits x hx).2.1, hstale, Blank]
  refine not_congr ⟨?_, ?_⟩
  · rintro ⟨htcp, hnone⟩
    have hv := hvisits e List.mem_cons_self
    rw [htype] at htcp
    rcases hs : m.tcpSockets[e.fd]? with _ | sock
    · rw [visit_of_none hs] at htcp
      dsimp only at htcp
      split_ifs at htcp <;> simp [sockConnect, sockUdp, fdUnbuffered, sockTcp] at htcp
    · by_cases hc : Closes sock (p.got e.fd)
      · rw [visit_of_closes hs hc] at htcp
        simp [sockClose, sockTcp] at htcp
      · have hr := (hnone e.fd sock hv hs).resolve_left hc
        rw [visit_of_open hs hc, hr] at htcp
        exact ⟨htcp, ⟨e.fd, hv, ⟨sock, hs, hc, hr⟩, hfirst⟩, hnone⟩
  · rintro ⟨htcp, ⟨fd, hv, ⟨sock, hs, hc, hr⟩, hfd⟩, hnone⟩
    obtain rfl : fd = e.fd := le_antisymm (hfd _ (hvisits e List.mem_cons_self)) (hfirst fd hv)
    rw [htype, visit_of_open hs hc, hr]
    exact ⟨htcp, hnone⟩

/-- `select` returns with what its last round has queued. -/
theorem select_eq_some : ∀ {m : MultiSocket} {ps : List Pass} {m' : MultiSocket},
    m.sockQueue = [] → m.select ps = some m' → ∃ m₁ p, m.filling ps = some (m₁, p) ∧
      m₁.sockQueue = [] ∧ m' = (m₁.selectRound p).1 ∧ m'.sockQueue ≠ []
  | m, [], m', hq, h => by simp [select, hq] at h
  | m, p :: ps, m', hq, h => by
    rw [select, if_pos hq] at h
    by_cases hr : (m.selectRound p).1.sockQueue = []
    · rw [filling, if_pos hr]
      exact select_eq_some hr h
    · refine ⟨m, p, by rw [filling, if_neg hr], hq, ?_⟩
      have hret : (m.selectRound p).1.select ps = some (m.selectRound p).1 := by
        cases ps <;> simp [select, hr]
      rw [hret, Option.some.injEq] at h
      exact ⟨h.symm, h ▸ hr⟩

/-- From every state with an empty queue, a `select` that returns has an event exactly if its last
round is not blank. -/
theorem select_nonneg_iff {ps : List Pass} {m' : MultiSocket} (hq : m.sockQueue = [])
    (h : m.select ps = some m') :
    0 ≤ m'.getNextFd.1 ↔ ∀ r ∈ m.filling ps, ¬ r.1.Blank r.2 := by
  obtain ⟨m₁, p, hfill, hq₁, rfl, hne⟩ := select_eq_some hq h
  rw [selectRound_nonneg_iff hq₁ hne, hfill]
  simp

end Round

end MultiSocket

namespace World

open MultiSocket (selectRound_nonneg_iff selectRound_sockQueue mem_of_mem_entries mem_descriptors
  recv_sockQueue getNextFd_sockQueue_subset sockQueue_of_getNextFd_neg select_nonneg_iff)

/-- If the step is a round of `select`, it is not blank. -/
def NotBlank (w : World) (k : Kernel) : Prop :=
  w.server.pc = .selecting → w.server.multi.sockQueue = [] → ¬ w.server.multi.Blank k.pass

/-- The descriptor at hand is one, and if `select` has returned, there is one. -/
structure HasEvent (w : World) : Prop where
  body : ∀ fd, w.server.pc = .body fd → 0 ≤ fd
  selecting : w.server.pc = .selecting →
    w.server.multi.sockQueue = [] ∨ 0 ≤ w.server.multi.getNextFd.1
  queue : ∀ e ∈ w.server.multi.sockQueue, 0 ≤ e.fd

section Step

variable {w w' : World} {k : Kernel}

theorem HasEvent.next_queue (h : w.HasEvent) (hn : next w k = some w') :
    ∀ e ∈ w'.server.multi.sockQueue, 0 ≤ e.fd := by
  obtain ⟨as, hm, -⟩ := exec_of_next hn
  generalize w'.server.multi = m at hm
  cases hm with
  | poll => exact fun e he => h.queue e (getNextFd_sockQueue_subset _ he)
  | select _ hq =>
    rw [selectRound_sockQueue, hq, List.nil_append]
    intro e he
    obtain ⟨hmem, -, -⟩ := mem_of_mem_entries _ _ _ _ _ e he
    exact (mem_descriptors.1 hmem).1
  | stay => exact h.queue
  | accept => exact h.queue
  | recv =>
    rw [recv_sockQueue]
    exact h.queue
  | refuse =>
    simp only [MultiSocket.close]
    rw [recv_sockQueue]
    exact h.queue

theorem hasEvent_of_top (hpc : w.server.pc = .top)
    (hqueue : ∀ e ∈ w.server.multi.sockQueue, 0 ≤ e.fd) : w.HasEvent := by
  refine ⟨fun x hx => ?_, fun hx => ?_, hqueue⟩
  · simp [hpc] at hx
  · simp [hpc] at hx

theorem HasEvent.next (h : w.HasEvent) (hk : w.NotBlank k) (hn : World.next w k = some w') :
    w'.HasEvent := by
  have hqueue := h.next_queue hn
  obtain ⟨evs, hs, -⟩ := step_of_next hn
  rcases w' with ⟨s', trace⟩
  cases Server.turn_of_step hs with
  | poll =>
    refine ⟨fun fd hfd => ?_, fun hsel => .inl ?_, hqueue⟩
    · dsimp only at hfd
      split_ifs at hfd with hneg
      exact Pc.body.inj hfd ▸ not_lt.1 hneg
    · dsimp only at hsel ⊢
      split_ifs at hsel with hneg
      exact sockQueue_of_getNextFd_neg h.queue hneg
  | first hpc hq =>
    refine ⟨fun fd hfd => ?_, fun hsel => ?_, hqueue⟩
    · exact Pc.body.inj hfd ▸ (h.selecting hpc).resolve_left hq
    · simp at hsel
  | select hpc hq =>
    refine ⟨fun fd hfd => ?_, fun _ => ?_, hqueue⟩
    · simp [hpc] at hfd
    · by_cases hfill : (w.server.multi.selectRound k.pass).1.sockQueue = []
      · exact .inl hfill
      · exact .inr ((selectRound_nonneg_iff hq hfill).2 (hk hpc hq))
  | stdin => exact hasEvent_of_top rfl hqueue
  | news => exact hasEvent_of_top rfl hqueue
  | accept => exact hasEvent_of_top rfl hqueue
  | closed => exact hasEvent_of_top rfl hqueue
  | recv => exact hasEvent_of_top rfl hqueue

end Step

theorem hasEvent_start (udp tcp : ℤ) (buffer : Bytes) : (start udp tcp buffer).HasEvent where
  body _ h := by simp [start, Server.start] at h
  selecting h := by simp [start, Server.start] at h
  queue e he := by
    simp [start, Server.start, MultiSocket.new, MultiSocket.addFd,
      MultiSocket.enableTcpConnections, MultiSocket.enableUdp] at he

/-- From every state of a `MultiSocket` with an empty queue, a `select` that returns leaves
`get_next_fd` a descriptor exactly if the round it returned from was not blank; and in every run of
the server with no blank round, no step handles `-1`. -/
theorem returnedSelect_iff (udp tcp : ℤ) (buffer : Bytes) :
    (∀ (m : MultiSocket) (ps : List Pass) (m' : MultiSocket), m.sockQueue = [] →
        m.select ps = some m' → (0 ≤ m'.getNextFd.1 ↔ ∀ r ∈ m.filling ps, ¬ r.1.Blank r.2)) ∧
      ∀ (tr : List (World × Kernel)) (w : World),
        Run udp tcp buffer tr w → (∀ q ∈ tr, q.1.NotBlank q.2) →
          ∀ v ∈ Runs.states tr w, ∀ b, ¬ v.server.At (-1) b := by
  refine ⟨fun m ps m' hq h => select_nonneg_iff hq h, fun tr w h hC v hv b hat => ?_⟩
  have hev := Runs.Run.invariant_states (hasEvent_start udp tcp buffer)
    (fun _ _ _ hw hk hn => HasEvent.next hw hk hn) h hC v hv
  have := hev.body _ hat.1
  omega

/-- A round that reports 6, whose peer has closed. -/
def closePass : Pass := ⟨{6}, fun _ => some [], 0⟩

set_option maxRecDepth 10000 in
/-- `fd_type` never starts as `SOCK_TCP`. -/
theorem returnedSelect_iff_zero :
    (∃ m', MultiSocket.twoConnections.select [closePass] = some m' ∧ 0 ≤ m'.getNextFd.1) ∧
      ∃ tr w, Run 3 4 [] tr w ∧ tr.map Prod.snd = loginInputs 5 65 ∧
        ∀ v ∈ Runs.states tr w, ∀ b, ¬ v.server.At (-1) b := by
  obtain ⟨hselect, hserver⟩ := returnedSelect_iff 3 4 []
  constructor
  · obtain ⟨m', hm, hpass⟩ : ∃ m', MultiSocket.twoConnections.select [closePass] = some m' ∧
        MultiSocket.twoConnections.filling [closePass] =
          some (MultiSocket.twoConnections, closePass) := by
      have hfill :
          (MultiSocket.twoConnections.selectRound closePass).1.sockQueue ≠ [] := by
        decide +kernel
      have hempty : MultiSocket.twoConnections.sockQueue = [] := rfl
      simp [MultiSocket.select, MultiSocket.filling, hempty, hfill]
    refine ⟨m', hm, (hselect _ _ _ rfl hm).2 fun r hr hblank => ?_⟩
    rw [hpass, Option.mem_some_iff] at hr
    rw [← hr] at hblank
    exact absurd hblank.1 (by decide)
  · have hexec : ∃ w ∈ Runs.exec next (start 3 4 []) (loginInputs 5 65), True := by
      decide +kernel
    have hpass : ∀ k ∈ loginInputs 5 65, k.pass.fdType ≠ sockTcp := by decide
    obtain ⟨tr, w, hr, htr, -⟩ := Runs.exists_run_of_exec hexec
    refine ⟨tr, w, hr, htr, hserver tr w hr fun q hq _ _ hblank => ?_⟩
    exact hpass q.2 (htr ▸ List.mem_map_of_mem hq) hblank.1

/-- A step that handles `-1` takes the result of `recv`, `-1`, for a length. -/
theorem step_of_minus_one {udp tcp : ℤ} {buffer : Bytes} {tr : List (World × Kernel)} {w : World}
    (h : Run udp tcp buffer tr w) (hat : w.server.At (-1) .recv) (k : Kernel) :
    w.server.step k = .error (.die .tcpPacketTooBig) := by
  have hcons := Run.consistent h
  have hcurr := hcons.curr (-1) hat.1
  have hnone : w.server.multi.tcpSockets[w.server.multi.currSockfd]? = none := by
    rw [hcurr]
    exact getElem?_neg _ _ fun hmem => absurd (hcons.pos (-1) hmem) (by decide)
  have hrecv := MultiSocket.recv_of_none hnone
  have hbig : cliPacketSize < 2 ^ 64 - 1 := by decide
  rw [step_of_recv hat]
  simp only [Server.handleTcpAppRecv, Server.received, hrecv, process_big _ _ _ hbig]
  simp

/-- A connection is accepted on 5, and one byte of a header comes in while `fd_type` starts as
`SOCK_TCP`. -/
def blankInputs : List Kernel :=
  [.quiet, .ready {4} [], .quiet, .connect 5, .quiet,
    { Kernel.quiet with pass := ⟨{5}, fun _ => some [0], sockTcp⟩ }, .quiet]

set_option maxRecDepth 10000 in
/-- `select` has returned, and there is no descriptor; the server ends. -/
theorem not_returnedSelect_blank :
    (∃ m', MultiSocket.twoConnections.select [⟨{5}, fun _ => some [0], sockTcp⟩] = some m' ∧
        m'.getNextFd.1 = -1) ∧
      ∃ tr w, Run 3 4 [] tr w ∧ tr.map Prod.snd = blankInputs ∧ w.server.At (-1) .recv ∧
        w.server.step .quiet = .error (.die .tcpPacketTooBig) := by
  constructor
  · have hselect : ∃ m' ∈ MultiSocket.twoConnections.select [⟨{5}, fun _ => some [0], sockTcp⟩],
        m'.getNextFd.1 = -1 := by
      decide +kernel
    exact hselect
  · have hat : ∃ w ∈ Runs.exec next (start 3 4 []) blankInputs,
        w.server.at? = some (-1, .recv) := by
      decide +kernel
    obtain ⟨tr, w, hr, htr, hat⟩ := Runs.exists_run_of_exec hat
    have hat := Server.at_iff.2 hat
    exact ⟨tr, w, hr, htr, hat, step_of_minus_one hr hat _⟩

end World

end NewsServer
