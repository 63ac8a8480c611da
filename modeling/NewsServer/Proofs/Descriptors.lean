import NewsServer.Lib.Handles
import NewsServer.Proofs.WatchSet
import NewsServer.Proofs.ServerLoop
import NewsServer.Proofs.Connections

/-!
# The descriptors the server uses

The calls a run makes with descriptors: what `::select` watches, `fgets`, `::recv`, `recvfrom`,
`::send`, `getpeername`, `::accept`, `setsockopt` and `::close`. Each is made with a descriptor that
is open then, and when `main` has ended only standard input is left open (`calls_run`). That an
entry which got the type of a datagram by mistake is read from an open descriptor too rests on the
queue: it holds no descriptor twice, so an `AUTH` that is declined closes none that is queued with
another type.
-/

namespace NewsServer

open Handles (Call call calls)

/-- The calls that an event is: `setsockopt` follows `::accept`, and `getpeername` is called for an
`AUTH` that is accepted. -/
def Event.calls : Event → List (Call ℤ)
  | .accepted fd => [.opens fd, .uses fd]
  | .closed fd => [.closes fd]
  | .sent fd _ => [.uses fd]
  | .frame fd _ type => if type = typeAuth then [.uses fd] else []
  | _ => []

/-- The calls of the loop of a pass: `::recv`, and `::close` where it closes the socket. -/
def MultiSocket.passCalls (p : Pass) (selected : Finset ℤ) :
    List ℤ → ℤ → MultiSocket → List (Call ℤ)
  | [], _, _ => []
  | fd :: fds, fdType, m =>
    if fd ∈ selected then
      let (fdType', m', evs) := m.visit p fd fdType
      (if fd ∈ m.tcpSockets then [.uses fd] else []) ++ evs.flatMap Event.calls ++
        passCalls p selected fds fdType'
          { m' with sockQueue := m'.sockQueue ++ [⟨fd, fdType'⟩] }
    else
      passCalls p selected fds fdType m

/-- The calls of a round of `select`. Of the descriptors in `read_fds`, `::select` is told of those
up to `fdmax`. -/
def MultiSocket.roundCalls (m : MultiSocket) (p : Pass) : List (Call ℤ) :=
  ((descriptors m.fdmax).filter (· ∈ m.readFds)).map .uses ++
    passCalls p (m.readFds ∩ p.ready) (descriptors m.fdmax) p.fdType m

/-- The call with which a branch of the loop begins. -/
def Server.branchCalls (s : Server) (fd : ℤ) : List (Call ℤ) :=
  match s.branch fd with
  | .stdin => [.uses fd]
  | .udp => [.uses fd]
  | .accept => [.uses s.multi.sockfdTcp]
  | .closed => []
  | .recv => []

/-- The calls of a step that shows `evs`. -/
def Server.calls (s : Server) (k : Kernel) (evs : List Event) : List (Call ℤ) :=
  match s.pc with
  | .top => []
  | .selecting => if s.multi.sockQueue = [] then s.multi.roundCalls k.pass else []
  | .body fd => s.branchCalls fd ++ evs.flatMap Event.calls

def World.calls (w : World) (k : Kernel) : List (Call ℤ) :=
  w.server.calls k (w.events k)

/-- The descriptors that are open, those of `base` among them. -/
def MultiSocket.openFds (base : Finset ℤ) (m : MultiSocket) : Finset ℤ :=
  base ∪ m.tcpSockets.keys.toFinset

section Open

variable {base : Finset ℤ} {m m' : MultiSocket} {fd : ℤ}

theorem MultiSocket.mem_openFds : fd ∈ m.openFds base ↔ fd ∈ base ∨ fd ∈ m.tcpSockets := by
  rw [openFds, Finset.mem_union, List.mem_toFinset, Std.TreeMap.mem_keys]

theorem MultiSocket.openFds_congr (h : ∀ fd, fd ∈ m'.tcpSockets ↔ fd ∈ m.tcpSockets) :
    m'.openFds base = m.openFds base := by
  ext fd
  rw [mem_openFds, mem_openFds, h]

theorem MultiSocket.openFds_insert (h : ∀ x, x ∈ m'.tcpSockets ↔ x = fd ∨ x ∈ m.tcpSockets) :
    m'.openFds base = insert fd (m.openFds base) := by
  ext x
  rw [mem_openFds, h, Finset.mem_insert, mem_openFds, or_left_comm]

theorem MultiSocket.openFds_erase (hbase : fd ∉ base)
    (h : ∀ x, x ∈ m'.tcpSockets ↔ x ≠ fd ∧ x ∈ m.tcpSockets) :
    m'.openFds base = (m.openFds base).erase fd := by
  ext x
  rw [mem_openFds, h, Finset.mem_erase, mem_openFds]
  by_cases hx : x = fd
  · subst hx
    simp [hbase]
  · simp [hx]

theorem MultiSocket.mem_close {x : ℤ} :
    x ∈ (m.close fd).tcpSockets ↔ x ≠ fd ∧ x ∈ m.tcpSockets := by
  rw [close, Std.TreeMap.mem_erase, ne_eq, Std.compare_eq_iff_eq, eq_comm]

end Open

section Pass

variable {base : Finset ℤ}

theorem mem_of_mem_visit {p : Pass} {fd t x : ℤ} {m : MultiSocket}
    (h : x ∈ (m.visit p fd t).2.1.tcpSockets) : x ∈ m.tcpSockets := by
  by_cases hx : x = fd
  · subst hx
    rcases hs : m.tcpSockets[x]? with _ | sock
    · rwa [MultiSocket.visit_of_none hs] at h
    · rw [Std.TreeMap.mem_iff_isSome_getElem?, hs]
      rfl
  · rw [Std.TreeMap.mem_iff_isSome_getElem?] at h ⊢
    rwa [MultiSocket.visit_frame p t m hx] at h

section Visit

variable {p : Pass} {fd t : ℤ} {m : MultiSocket} {sock : BufferedTcpSocket}

theorem openFds_visit_of_closes (hs : m.tcpSockets[fd]? = some sock)
    (hc : MultiSocket.Closes sock (p.got fd)) (hbase : fd ∉ base) :
    (m.visit p fd t).2.1.openFds base = (m.openFds base).erase fd := by
  refine MultiSocket.openFds_erase hbase fun x => ?_
  rw [MultiSocket.visit_of_closes hs hc]
  simp only [Std.TreeMap.mem_erase, Std.TreeMap.mem_insert, Std.compare_eq_iff_eq, ne_eq,
    eq_comm (a := fd)]
  tauto

theorem openFds_visit_of_open (hs : m.tcpSockets[fd]? = some sock)
    (hc : ¬ MultiSocket.Closes sock (p.got fd)) :
    (m.visit p fd t).2.1.openFds base = m.openFds base := by
  refine MultiSocket.openFds_congr fun x => ?_
  rw [MultiSocket.visit_of_open hs hc, Std.TreeMap.mem_insert, Std.compare_eq_iff_eq]
  refine ⟨fun h => h.elim (fun h => ?_) id, .inr⟩
  rw [← h, Std.TreeMap.mem_iff_isSome_getElem?, hs]
  rfl

end Visit

/-- A visit takes from what is watched what it takes from what is open. -/
theorem exists_taken_visit (p : Pass) (fd t : ℤ) {m : MultiSocket}
    (hbase : ∀ x ∈ m.tcpSockets, x ∉ base) : ∃ taken : Finset ℤ,
      (m.visit p fd t).2.1.readFds = m.readFds \ taken ∧
        (m.visit p fd t).2.1.openFds base = m.openFds base \ taken := by
  rcases hs : m.tcpSockets[fd]? with _ | sock
  · rw [MultiSocket.visit_of_none hs]
    exact ⟨∅, Finset.sdiff_empty.symm, Finset.sdiff_empty.symm⟩
  have hmem : fd ∈ m.tcpSockets := by
    rw [Std.TreeMap.mem_iff_isSome_getElem?, hs]
    rfl
  by_cases hc : MultiSocket.Closes sock (p.got fd)
  · refine ⟨{fd}, ?_, ?_⟩
    · rw [MultiSocket.visit_of_closes hs hc]
      exact Finset.erase_eq _ _
    · rw [openFds_visit_of_closes hs hc (hbase fd hmem)]
      exact Finset.erase_eq _ _
  · refine ⟨∅, ?_, ?_⟩
    · rw [MultiSocket.visit_of_open hs hc]
      exact Finset.sdiff_empty.symm
    · rw [openFds_visit_of_open hs hc]
      exact Finset.sdiff_empty.symm

/-- What a round takes from what is watched and from what is open. It opens nothing. -/
theorem exists_taken_round (m : MultiSocket) (hbase : ∀ x ∈ m.tcpSockets, x ∉ base) (p : Pass) :
    ((m.selectRound p).1.sockfdUdp = m.sockfdUdp ∧ (m.selectRound p).1.sockfdTcp = m.sockfdTcp) ∧
      (∀ x ∈ (m.selectRound p).1.tcpSockets, x ∈ m.tcpSockets) ∧
      ∃ taken : Finset ℤ, (m.selectRound p).1.readFds = m.readFds \ taken ∧
        (m.selectRound p).1.openFds base = m.openFds base \ taken := by
  refine MultiSocket.passLoop_invariant p (m.readFds ∩ p.ready)
    (P := fun m' _ => (m'.sockfdUdp = m.sockfdUdp ∧ m'.sockfdTcp = m.sockfdTcp) ∧
      (∀ x ∈ m'.tcpSockets, x ∈ m.tcpSockets) ∧
      ∃ taken : Finset ℤ, m'.readFds = m.readFds \ taken ∧
        m'.openFds base = m.openFds base \ taken) (fun fd t m' evs hm => ?_)
    (MultiSocket.descriptors m.fdmax) p.fdType m [] ⟨⟨rfl, rfl⟩, fun _ hx => hx, ∅,
      Finset.sdiff_empty.symm, Finset.sdiff_empty.symm⟩
  obtain ⟨⟨hudp, htcp⟩, hsub, taken, hread, hopen⟩ := hm
  obtain ⟨htcp', hudp', -⟩ := MultiSocket.visit_fixed p fd t m'
  obtain ⟨taken', hread', hopen'⟩ := exists_taken_visit p fd t fun x hx => hbase x (hsub x hx)
  refine ⟨⟨hudp'.trans hudp, htcp'.trans htcp⟩, fun x hx => hsub x (mem_of_mem_visit hx),
    taken ⊔ taken', ?_, ?_⟩
  · rw [← sdiff_sdiff_left, ← hread]
    exact hread'
  · rw [← sdiff_sdiff_left, ← hopen]
    exact (MultiSocket.openFds_congr fun _ => .rfl).trans hopen'

theorem calls_visit (p : Pass) (fd t : ℤ) {m : MultiSocket}
    (hbase : ∀ x ∈ m.tcpSockets, x ∉ base) :
    calls (m.openFds base) ((if fd ∈ m.tcpSockets then [.uses fd] else []) ++
      (m.visit p fd t).2.2.flatMap Event.calls) = some ((m.visit p fd t).2.1.openFds base) := by
  rcases hs : m.tcpSockets[fd]? with _ | sock
  · have hnot : fd ∉ m.tcpSockets := by
      rw [Std.TreeMap.mem_iff_isSome_getElem?, hs]
      simp
    rw [MultiSocket.visit_of_none hs, if_neg hnot]
    rfl
  have hmem : fd ∈ m.tcpSockets := by
    rw [Std.TreeMap.mem_iff_isSome_getElem?, hs]
    rfl
  have hopen : fd ∈ m.openFds base := MultiSocket.mem_openFds.2 (.inr hmem)
  rw [if_pos hmem, List.singleton_append, Handles.calls_cons, Handles.call_uses hopen,
    Option.bind_some]
  by_cases hc : MultiSocket.Closes sock (p.got fd)
  · rw [openFds_visit_of_closes hs hc (hbase fd hmem), MultiSocket.visit_of_closes hs hc,
      List.flatMap_cons, List.flatMap_nil, List.append_nil, Event.calls,
      Handles.calls_singleton, Handles.call_closes hopen]
  · rw [openFds_visit_of_open hs hc, MultiSocket.visit_of_open hs hc]
    rfl

/-- The loop of a pass reads sockets that are open, and closes each once. -/
theorem calls_passCalls (p : Pass) (selected : Finset ℤ) :
    ∀ (fds : List ℤ) (t : ℤ) (m : MultiSocket), (∀ x ∈ m.tcpSockets, x ∉ base) →
      calls (m.openFds base) (MultiSocket.passCalls p selected fds t m) =
        some ((MultiSocket.passLoop p selected fds t m).1.openFds base)
  | [], _, _, _ => rfl
  | fd :: fds, t, m, hbase => by
    rw [MultiSocket.passCalls, MultiSocket.passLoop]
    by_cases hsel : fd ∈ selected
    · rw [if_pos hsel, if_pos hsel]
      dsimp only
      rw [Handles.calls_trans (calls_visit p fd t hbase)]
      have hrest := calls_passCalls p selected fds (m.visit p fd t).1
        { (m.visit p fd t).2.1 with
          sockQueue := (m.visit p fd t).2.1.sockQueue ++ [⟨fd, (m.visit p fd t).1⟩] }
        fun x hx => hbase x (mem_of_mem_visit hx)
      exact hrest
    · rw [if_neg hsel, if_neg hsel]
      exact calls_passCalls p selected fds t m hbase

theorem calls_roundCalls {m : MultiSocket} (hreads : m.readFds ⊆ m.openFds base)
    (hbase : ∀ fd ∈ m.tcpSockets, fd ∉ base) (p : Pass) :
    calls (m.openFds base) (m.roundCalls p) = some ((m.selectRound p).1.openFds base) := by
  have huses : ∀ fd ∈ (MultiSocket.descriptors m.fdmax).filter (· ∈ m.readFds),
      fd ∈ m.openFds base := by
    intro fd hfd
    exact hreads (of_decide_eq_true (List.mem_filter.1 hfd).2)
  rw [MultiSocket.roundCalls, Handles.calls_trans (Handles.calls_uses huses)]
  exact calls_passCalls p _ _ _ m hbase

/-- The sockets can be closed, and then the rest is open. -/
theorem calls_keys {m : MultiSocket} (hbase : ∀ fd ∈ m.tcpSockets, fd ∉ base) :
    calls (m.openFds base) ((m.tcpSockets.keys.map Event.closed).flatMap Event.calls) =
      some base := by
  have hmap : (m.tcpSockets.keys.map Event.closed).flatMap Event.calls =
      m.tcpSockets.keys.map .closes := by
    rw [List.flatMap_map]
    exact List.flatMap_pure_eq_map _ _
  have hdisjoint : Disjoint base m.tcpSockets.keys.toFinset := by
    refine Finset.disjoint_right.2 fun fd hfd => hbase fd ?_
    rwa [List.mem_toFinset, Std.TreeMap.mem_keys] at hfd
  rw [hmap, Handles.calls_closes Std.TreeMap.nodup_keys fun fd hfd =>
    MultiSocket.mem_openFds.2 (.inr (Std.TreeMap.mem_keys.1 hfd)), MultiSocket.openFds,
    Finset.union_sdiff_right, Finset.sdiff_eq_self_of_disjoint hdisjoint]

end Pass

/-- The descriptors the server has from the start. -/
def ownFds (udp tcp : ℤ) : Finset ℤ :=
  {Server.stdinFileno, udp, tcp}

/-- What is watched is what is open, and `read_fds` has a bit for each connection. The queue holds
no descriptor twice, and what it holds with the type of a datagram is open. -/
structure Tidy (udp tcp : ℤ) (s : Server) : Prop where
  udp_eq : s.multi.sockfdUdp = udp
  tcp_eq : s.multi.sockfdTcp = tcp
  reads : s.multi.readFds = s.multi.openFds (ownFds udp tcp)
  apart : ∀ fd ∈ s.multi.tcpSockets, fd ∉ ownFds udp tcp
  bits : ∀ fd ∈ s.multi.tcpSockets, HasBit fd
  nodup : (s.multi.sockQueue.map RecvHolder.fd).Nodup
  queued : ∀ e ∈ s.multi.sockQueue, e.type = sockUdp → e.fd ∈ s.multi.openFds (ownFds udp tcp)
  handed : ∀ fd, s.pc = .body fd → s.multi.isUdp → fd ∈ s.multi.openFds (ownFds udp tcp)
  left : ∀ fd, s.pc = .body fd → ∀ e ∈ s.multi.sockQueue, e.fd = fd →
    e.type = s.multi.currentFdType

section Step

variable {base : Finset ℤ} {udp tcp : ℤ} {s s' : Server} {k : Kernel} {evs : List Event}

theorem Tidy.isOpen_iff (h : Tidy udp tcp s) (fd : ℤ) :
    s.IsOpen fd ↔ fd ∈ s.multi.openFds (ownFds udp tcp) := by
  rw [MultiSocket.mem_openFds, ownFds, Finset.mem_insert, Finset.mem_insert,
    Finset.mem_singleton, Server.IsOpen, h.udp_eq, h.tcp_eq]
  tauto

theorem Tidy.hasBit (h : Tidy udp tcp s) (hudp : 0 < udp ∧ udp < fdSetsize)
    (htcp : 0 < tcp ∧ tcp < fdSetsize) : ∀ fd ∈ s.multi.readFds, HasBit fd := by
  intro fd hfd
  rw [h.reads, MultiSocket.mem_openFds] at hfd
  rcases hfd with hfd | hfd
  · simp only [ownFds, Finset.mem_insert, Finset.mem_singleton] at hfd
    rcases hfd with rfl | rfl | rfl
    · decide
    · exact ⟨hudp.1.le, hudp.2⟩
    · exact ⟨htcp.1.le, htcp.2⟩
  · exact h.bits fd hfd

theorem getNextFd_sublist (m : MultiSocket) :
    m.getNextFd.2.sockQueue.Sublist m.sockQueue := by
  rcases hq : m.sockQueue with _ | ⟨hold, rest⟩
  · simp [MultiSocket.getNextFd, hq]
  by_cases ht : hold.type = sockTcp
  · rw [MultiSocket.getNextFd_sockQueue_of_tcp hq ht]
    exact List.dropWhile_sublist _
  · rw [(MultiSocket.getNextFd_of_ne_tcp hq ht).2.1]
    exact List.sublist_cons_self _ _

theorem exists_udp_of_getNextFd {m : MultiSocket} (h : m.getNextFd.2.isUdp) :
    ∃ e ∈ m.sockQueue, m.getNextFd.1 = e.fd ∧ e.type = sockUdp := by
  have htype : m.getNextFd.2.currentFdType = sockUdp := of_decide_eq_true h
  rcases hq : m.sockQueue with _ | ⟨hold, rest⟩
  · simp [MultiSocket.getNextFd, hq, sockNull, sockUdp] at htype
  by_cases ht : hold.type = sockTcp
  · rcases hd : (hold :: rest).dropWhile m.stale with _ | ⟨x, r⟩
    · simp [MultiSocket.getNextFd, hq, ht, hd, sockNull, sockUdp] at htype
    · obtain ⟨hx, -, hfd, hxtype, -⟩ := MultiSocket.getNextFd_of_fresh hq ht hd
      exact ⟨x, hx, hfd, hxtype.symm.trans htype⟩
  · obtain ⟨hfd, -, hhold⟩ := MultiSocket.getNextFd_of_ne_tcp hq ht
    exact ⟨hold, List.mem_cons_self, hfd, hhold.symm.trans htype⟩

theorem type_eq_of_getNextFd {m : MultiSocket} (hnd : (m.sockQueue.map RecvHolder.fd).Nodup)
    {e : RecvHolder} (he : e ∈ m.getNextFd.2.sockQueue) (hfd : e.fd = m.getNextFd.1) :
    e.type = m.getNextFd.2.currentFdType := by
  rcases m.getNextFd_cases with ⟨-, hnil⟩ | ⟨x, hx, hxfd, -, htype, -⟩
  · rw [hnil] at he
    simp at he
  · have heq := List.inj_on_of_nodup_map hnd (m.getNextFd_sockQueue_subset he) hx
      (hfd.trans hxfd)
    rw [heq, htype]

theorem nodup_entries (m : MultiSocket) (p : Pass) (selected : Finset ℤ) :
    ∀ (fds : List ℤ) (t : ℤ), fds.Nodup →
      ((MultiSocket.entries m p selected fds t).map RecvHolder.fd).Nodup
  | [], _, _ => List.nodup_nil
  | fd :: fds, t, hnd => by
    obtain ⟨hfd, hnd⟩ := List.nodup_cons.1 hnd
    unfold MultiSocket.entries
    split_ifs
    · refine List.nodup_cons.2 ⟨fun hmem => ?_, nodup_entries m p selected fds _ hnd⟩
      obtain ⟨e, he, rfl⟩ := List.mem_map.1 hmem
      exact hfd (MultiSocket.mem_of_mem_entries m p selected fds _ e he).1
    · exact nodup_entries m p selected fds t hnd

theorem Tidy.getNextFd (h : Tidy udp tcp s) {pc : Pc}
    (hpc : ∀ fd, pc = .body fd → fd = s.multi.getNextFd.1) :
    Tidy udp tcp { s with multi := s.multi.getNextFd.2, pc } := by
  have hsock := MultiSocket.getNextFd_tcpSockets s.multi
  have hopen : s.multi.getNextFd.2.openFds (ownFds udp tcp) = s.multi.openFds (ownFds udp tcp) := by
    rw [MultiSocket.openFds, MultiSocket.openFds, hsock]
  refine ⟨?_, ?_, ?_, ?_, ?_, ?_, fun e he ht => ?_, fun fd hfd hudp => ?_,
    fun fd hfd e he heq => ?_⟩
  · dsimp only
    rw [MultiSocket.getNextFd_frame]
    exact h.udp_eq
  · dsimp only
    rw [MultiSocket.getNextFd_frame]
    exact h.tcp_eq
  · dsimp only
    rw [hopen, MultiSocket.getNextFd_readFds]
    exact h.reads
  · dsimp only
    rw [hsock]
    exact h.apart
  · dsimp only
    rw [hsock]
    exact h.bits
  · exact h.nodup.sublist ((getNextFd_sublist s.multi).map _)
  · dsimp only
    rw [hopen]
    exact h.queued e (s.multi.getNextFd_sockQueue_subset he) ht
  · obtain ⟨e, he, hefd, htype⟩ := exists_udp_of_getNextFd hudp
    dsimp only
    rw [hopen, hpc fd hfd, hefd]
    exact h.queued e he htype
  · exact type_eq_of_getNextFd h.nodup he (heq.trans (hpc fd hfd))

/-- What a pass watches and has open, and what it queues. -/
theorem Tidy.selectRound (h : Tidy udp tcp s) (hpc : s.pc = .selecting)
    (hq : s.multi.sockQueue = []) (p : Pass) :
    Tidy udp tcp { s with multi := (s.multi.selectRound p).1 } := by
  obtain ⟨⟨hudp, htcp⟩, hsub, taken, hread, hopen⟩ := exists_taken_round s.multi h.apart p
  have hqueue := MultiSocket.selectRound_sockQueue s.multi p
  rw [hq, List.nil_append] at hqueue
  refine ⟨hudp.trans h.udp_eq, htcp.trans h.tcp_eq, ?_, fun x hx => h.apart x (hsub x hx),
    fun x hx => h.bits x (hsub x hx), ?_, fun e he ht => ?_, fun fd hfd => ?_, fun fd hfd => ?_⟩
  · exact hread.trans ((congrArg (· \ taken) h.reads).trans hopen.symm)
  · dsimp only
    rw [hqueue]
    exact nodup_entries _ _ _ _ _ (MultiSocket.nodup_descriptors _)
  · dsimp only at he ⊢
    rw [hqueue] at he
    obtain ⟨hmem, hsel, t, htype⟩ := MultiSocket.mem_of_mem_entries _ _ _ _ _ e he
    have hopen : e.fd ∈ s.multi.openFds (ownFds udp tcp) := h.reads ▸ (Finset.mem_inter.1 hsel).1
    rw [MultiSocket.mem_openFds] at hopen ⊢
    refine hopen.imp_right fun hsock => ?_
    obtain ⟨sock, hs⟩ := Option.isSome_iff_exists.1
      (Std.TreeMap.mem_iff_isSome_getElem?.1 hsock)
    have hv : s.multi.Visits p e.fd := ⟨hsel, MultiSocket.mem_descriptors.1 hmem⟩
    have hafter := (MultiSocket.selectRound_of_visits hv hs).1
    rw [Std.TreeMap.mem_iff_isSome_getElem?, hafter]
    split_ifs with hc
    · rw [MultiSocket.visit_of_closes hs hc, ht] at htype
      have hne : sockUdp ≠ sockClose := by decide
      exact absurd htype hne
    · rfl
  · exact absurd (hpc.symm.trans hfd) (by simp)
  · exact absurd (hpc.symm.trans hfd) (by simp)

/-- A step that handles an entry leaves the queue, and closes no descriptor that is queued with the
type of a datagram. -/
theorem Tidy.of_top (h : Tidy udp tcp s) (hpc : s'.pc = .top)
    (hfixed : s'.multi.sockfdUdp = s.multi.sockfdUdp ∧ s'.multi.sockfdTcp = s.multi.sockfdTcp)
    (hreads : s'.multi.readFds = s'.multi.openFds (ownFds udp tcp))
    (hapart : ∀ fd ∈ s'.multi.tcpSockets, fd ∉ ownFds udp tcp)
    (hbits : ∀ fd ∈ s'.multi.tcpSockets, HasBit fd)
    (hq : s'.multi.sockQueue = s.multi.sockQueue)
    (hqueued : ∀ e ∈ s.multi.sockQueue, e.type = sockUdp →
      e.fd ∈ s'.multi.openFds (ownFds udp tcp)) :
    Tidy udp tcp s' := by
  refine ⟨hfixed.1.trans h.udp_eq, hfixed.2.trans h.tcp_eq, hreads, hapart, hbits, ?_, ?_,
    fun fd hfd => ?_, fun fd hfd => ?_⟩
  · rw [hq]
    exact h.nodup
  · rw [hq]
    exact hqueued
  · exact absurd (hpc.symm.trans hfd) (by simp)
  · exact absurd (hpc.symm.trans hfd) (by simp)

/-- A connection that is accepted on a descriptor with a bit is watched. -/
theorem Tidy.opened (h : Tidy udp tcp s) {fd : ℤ} (u : Uninit) (hk : ¬ s.IsOpen fd)
    (hbit : HasBit fd) : Tidy udp tcp { s with multi := s.multi.opened fd u, pc := .top } := by
  rw [h.isOpen_iff, MultiSocket.mem_openFds, not_or] at hk
  have hmem : ∀ x, x ∈ (s.multi.opened fd u).tcpSockets ↔ x = fd ∨ x ∈ s.multi.tcpSockets := by
    intro x
    rw [MultiSocket.opened, Std.TreeMap.mem_insert, Std.compare_eq_iff_eq, eq_comm]
  have hopen : (s.multi.opened fd u).openFds (ownFds udp tcp) =
      insert fd (s.multi.openFds (ownFds udp tcp)) :=
    MultiSocket.openFds_insert hmem
  refine h.of_top rfl ⟨rfl, rfl⟩ ?_ (fun x hx => ?_) (fun x hx => ?_) rfl fun e he ht => ?_
  · exact (congrArg (insert fd) h.reads).trans hopen.symm
  · rcases (hmem x).1 hx with rfl | hx
    · exact hk.1
    · exact h.apart x hx
  · rcases (hmem x).1 hx with rfl | hx
    · exact hbit
    · exact h.bits x hx
  · exact hopen.symm ▸ Finset.mem_insert_of_mem (h.queued e he ht)

theorem Tidy.step (h : Tidy udp tcp s) (hcurr : ∀ fd, s.pc = .body fd → s.multi.currSockfd = fd)
    (hk : ¬ s.IsOpen k.newsockfd) (hs : s.step k = .ok (s', evs)) : Tidy udp tcp s' := by
  have hstay : ∀ {s₁ : Server}, s₁.multi = s.multi → s₁.pc = .top → Tidy udp tcp s₁ := by
    intro s₁ hm hpc
    refine h.of_top hpc ?_ ?_ ?_ ?_ ?_ ?_ <;> rw [hm]
    · exact ⟨rfl, rfl⟩
    · exact h.reads
    · exact h.apart
    · exact h.bits
    · exact h.queued
  have hrecv : s.multi.recv.2.2.2.openFds (ownFds udp tcp) = s.multi.openFds (ownFds udp tcp) :=
    MultiSocket.openFds_congr (Watch.mem_tcpSockets_recv s.multi)
  have hframe := Watch.recv_frame s.multi
  cases Server.turn_of_step hs with
  | poll =>
    refine h.getNextFd fun fd hfd => ?_
    split_ifs at hfd
    exact (Pc.body.inj hfd).symm
  | first => exact h.getNextFd fun fd hfd => (Pc.body.inj hfd).symm
  | select hpc hq => exact h.selectRound hpc hq _
  | stdin => exact hstay rfl rfl
  | news _ hnews =>
    have hm := handleUdp_multi hnews
    exact hstay hm rfl
  | closed => exact hstay rfl rfl
  | accept hat haccept =>
    unfold MultiSocket.accept at haccept
    split_ifs at haccept with hneg hlarge
    obtain ⟨rfl, -⟩ := Prod.mk.inj (Except.ok.inj haccept)
    exact h.opened k.uninit hk ⟨not_lt.1 hneg, not_le.1 hlarge⟩
  | @recv fd s₁ _ hat hhandle =>
    have hd := handled s fd
    rw [hhandle] at hd
    cases hd with
    | idle => exact hstay rfl rfl
    | @frame buffer size type tables multi past evs hin hmem hsame hp ha hpast =>
      rw [hcurr fd hat.1] at hmem
      have hreads : s.multi.recv.2.2.2.readFds = s.multi.recv.2.2.2.openFds (ownFds udp tcp) := by
        rw [hrecv, ← h.reads, hframe]
      have hapart : ∀ x ∈ s.multi.recv.2.2.2.tcpSockets, x ∉ ownFds udp tcp := fun x hx =>
        h.apart x ((hsame.mem x).1 hx)
      have hbits : ∀ x ∈ s.multi.recv.2.2.2.tcpSockets, HasBit x := fun x hx =>
        h.bits x ((hsame.mem x).1 hx)
      rcases answer_multi ha with rfl | rfl
      · refine h.of_top rfl ⟨hsame.udp, hsame.tcp⟩ hreads hapart hbits hsame.queue fun e he ht => ?_
        exact hrecv.symm ▸ h.queued e he ht
      · have herase : (s.multi.recv.2.2.2.close fd).openFds (ownFds udp tcp) =
            (s.multi.recv.2.2.2.openFds (ownFds udp tcp)).erase fd :=
          MultiSocket.openFds_erase (h.apart fd hmem) fun x => MultiSocket.mem_close
        refine h.of_top rfl ⟨hsame.udp, hsame.tcp⟩ ?_ (fun x hx => ?_) (fun x hx => ?_)
          hsame.queue fun e he ht => ?_
        · exact (congrArg (Finset.erase · fd) hreads).trans herase.symm
        · exact hapart x (MultiSocket.mem_close.1 hx).2
        · exact hbits x (MultiSocket.mem_close.1 hx).2
        · -- the entry of the descriptor at hand is no datagram
          have hne : e.fd ≠ fd := by
            intro heq
            have htype := (h.left fd hat.1 e he heq).symm.trans ht
            have hbranch := hat.2
            unfold Server.branch at hbranch
            split_ifs at hbranch with hstd hudp
            exact hudp (decide_eq_true htype)
          exact herase.symm ▸ Finset.mem_erase.2 ⟨hne, hrecv.symm ▸ h.queued e he ht⟩

theorem calls_of_at {fd : ℤ} {b : Branch} (hat : s.At fd b) (evs : List Event) :
    s.calls k evs = s.branchCalls fd ++ evs.flatMap Event.calls := by
  rw [Server.calls, hat.1]

theorem FannedOut.uses {multi : MultiSocket} {packet : SharedPacket}
    {entries : List (Bytes × UInt8)} {clients clients' : ClientMap}
    (h : FannedOut multi packet entries clients clients' evs) :
    ∀ c ∈ evs.flatMap Event.calls, ∃ fd ∈ multi.openFds base, c = .uses fd := by
  induction h with
  | nil => simp
  | skip _ _ _ _ ih => exact ih
  | store _ _ _ _ _ ih => exact ih
  | @forward _ _ fd _ _ _ _ _ _ hmem _ _ _ ih =>
    intro c hc
    rcases List.mem_cons.1 hc with rfl | hc
    · exact ⟨fd, MultiSocket.mem_openFds.2 (.inr hmem), rfl⟩
    · exact ih c hc

theorem uses_replays (id : Bytes) (fd : ℤ) (queue : List SharedPacket) :
    ∀ c ∈ (replays id fd queue).flatMap Event.calls, c = .uses fd := by
  intro c hc
  obtain ⟨e, he, hce⟩ := List.mem_flatMap.1 hc
  obtain ⟨packet, -, he⟩ := List.mem_flatMap.1 he
  simp only [List.mem_cons, List.not_mem_nil, or_false] at he
  rcases he with rfl | rfl
  · exact List.mem_singleton.1 hce
  · simp [Event.calls] at hce

/-- A frame is answered on a socket that is open. An answer that declines closes it at the end. -/
theorem Answered.calls {m m' : MultiSocket} {t : Tables} {fd : ℤ} {buf : Bytes} {type : UInt8}
    {past : List Event} (h : Answered m t fd buf type m' evs)
    (hpast : past = [] ∨ past = [.pastPacket]) (hmem : fd ∈ m.tcpSockets) (hbase : fd ∉ base) :
    Handles.calls (m.openFds base) ((.frame fd buf type :: past ++ evs).flatMap Event.calls) =
      some (m'.openFds base) := by
  have hopen : fd ∈ m.openFds base := MultiSocket.mem_openFds.2 (.inr hmem)
  have hskip : (.frame fd buf type :: past ++ evs).flatMap Event.calls =
      (if type = typeAuth then [.uses fd] else []) ++ evs.flatMap Event.calls := by
    rcases hpast with rfl | rfl <;> rfl
  rw [hskip]
  cases h with
  | confirmed hm =>
    rw [MultiSocket.openFds_congr hm.mem]
    refine Handles.calls_of_uses fun c hc => ⟨fd, hopen, ?_⟩
    rw [if_pos rfl, List.flatMap_cons, List.mem_append, List.mem_append] at hc
    rcases hc with hc | hc | hc
    · exact List.mem_singleton.1 hc
    · exact List.mem_singleton.1 hc
    · exact uses_replays _ _ _ c hc
  | @declined m₁ hm =>
    have herase : (m₁.close fd).openFds base = (m.openFds base).erase fd :=
      MultiSocket.openFds_erase hbase fun x => by rw [MultiSocket.mem_close, hm.mem]
    rw [if_neg (by decide), List.nil_append, herase]
    refine (Handles.calls_cons _ _ _).trans ?_
    rw [Handles.call_uses hopen, Option.bind_some]
    exact (Handles.calls_singleton _ _).trans (Handles.call_closes hopen)
  | silent hne hm =>
    rw [MultiSocket.openFds_congr hm.mem, if_neg hne.1]
    rfl

/-- No call of a step fails, and after them what is open is what the server has open. -/
theorem Tidy.calls (h : Tidy udp tcp s) (hk : ¬ s.IsOpen k.newsockfd) (hd : Does s k s' evs) :
    Handles.calls (s.multi.openFds (ownFds udp tcp)) (s.calls k evs) =
      some (s'.multi.openFds (ownFds udp tcp)) := by
  have hmem : ∀ {x}, x ∈ ownFds udp tcp → x ∈ s.multi.openFds (ownFds udp tcp) := fun hx =>
    MultiSocket.mem_openFds.2 (.inl hx)
  cases hd with
  | poll hpc =>
    have hnil : s.calls k [] = [] := by
      unfold Server.calls
      rcases hpc with hpc | ⟨hpc, hq⟩
      · rw [hpc]
      · rw [hpc]
        exact if_neg hq
    dsimp only
    rw [hnil, MultiSocket.openFds, MultiSocket.openFds, MultiSocket.getNextFd_tcpSockets]
    rfl
  | select hpc hq =>
    have hround : s.calls k (s.multi.selectRound k.pass).2 = s.multi.roundCalls k.pass := by
      unfold Server.calls
      rw [hpc]
      exact if_pos hq
    rw [hround]
    exact calls_roundCalls h.reads.subset h.apart k.pass
  | @stdin fd hat =>
    have hfd : fd = Server.stdinFileno := Server.branch_eq_stdin.1 hat.2
    rw [calls_of_at hat, Server.branchCalls, hat.2]
    refine (Handles.calls_singleton _ _).trans (Handles.call_uses (hmem ?_))
    rw [hfd]
    exact Finset.mem_insert_self _ _
  | @news fd buffer clients evs hat hfan =>
    have hudp : s.multi.isUdp := by
      have hbranch := hat.2
      unfold Server.branch at hbranch
      split_ifs at hbranch with hstd hudp
      exact hudp
    rw [calls_of_at hat, Server.branchCalls, hat.2]
    refine Handles.calls_of_uses fun c hc => ?_
    rcases List.mem_cons.1 hc with rfl | hc
    · exact ⟨fd, h.handed fd hat.1 hudp, rfl⟩
    · exact hfan.uses c hc
  | accept hat =>
    have htcp : s.multi.sockfdTcp ∈ ownFds udp tcp := by
      rw [h.tcp_eq]
      simp [ownFds]
    rw [h.isOpen_iff] at hk
    rw [calls_of_at hat, Server.branchCalls, hat.2]
    dsimp only
    rw [List.singleton_append, Handles.calls_cons, Handles.call_uses (hmem htcp), Option.bind_some,
      List.flatMap_cons, List.flatMap_nil, List.append_nil, Event.calls, Handles.calls_cons,
      Handles.call_opens hk, Option.bind_some, Handles.calls_singleton,
      Handles.call_uses (Finset.mem_insert_self _ _)]
    refine congrArg some (MultiSocket.openFds_insert fun x => ?_).symm
    rw [Std.TreeMap.mem_insert, Std.compare_eq_iff_eq, eq_comm]
  | closed hat =>
    rw [calls_of_at hat, Server.branchCalls, hat.2]
    rfl
  | idle hat =>
    rw [calls_of_at hat, Server.branchCalls, hat.2]
    rfl
  | frame hat hin hsize hsock hp hans hpast =>
    rw [calls_of_at hat, Server.branchCalls, hat.2]
    exact hans.calls hpast hsock (h.apart _ hsock)

end Step

namespace World

/-- The calls that a run makes. -/
def runCalls (tr : List (World × Kernel)) : List (Call ℤ) :=
  tr.flatMap fun q => q.1.calls q.2

section Run

variable {udp tcp : ℤ} {buffer : Bytes} {tr : List (World × Kernel)} {w : World}

theorem openFds_start :
    (start udp tcp buffer).server.multi.openFds (ownFds udp tcp) = ownFds udp tcp :=
  Finset.union_empty _

theorem tidy_start : Tidy udp tcp (start udp tcp buffer).server := by
  have hnone : ∀ fd, fd ∉ (start udp tcp buffer).server.multi.tcpSockets := by
    simp [start, Server.start, MultiSocket.new, MultiSocket.enableUdp,
      MultiSocket.enableTcpConnections, MultiSocket.addFd]
  refine ⟨rfl, rfl, ?_, fun fd hfd => absurd hfd (hnone fd), fun fd hfd => absurd hfd (hnone fd),
    List.nodup_nil, fun e he => ?_, fun fd hfd => ?_, fun fd hfd => ?_⟩
  · rw [openFds_start]
    exact congrArg (insert _) (Finset.pair_comm tcp udp)
  · exact absurd he List.not_mem_nil
  · simp [start, Server.start] at hfd
  · simp [start, Server.start] at hfd

theorem Run.tidy (h : Run udp tcp buffer tr w) : Tidy udp tcp w.server ∧
    Handles.calls (ownFds udp tcp) (runCalls tr) =
      some (w.server.multi.openFds (ownFds udp tcp)) := by
  induction h with
  | start => exact ⟨tidy_start, congrArg some openFds_start.symm⟩
  | @step tr v w k hrun hn ih =>
    obtain ⟨htidy, hcalls⟩ := ih
    have hv := Run.consistent hrun
    obtain ⟨hd, -, -, hk⟩ := hv.does hn
    obtain ⟨evs, hs, -⟩ := step_of_next hn
    have hruns : runCalls (tr ++ [(v, k)]) = runCalls tr ++ v.calls k := by
      simp [runCalls]
    refine ⟨htidy.step hv.curr hk hs, ?_⟩
    rw [hruns, Handles.calls_trans hcalls]
    exact htidy.calls hk hd

theorem calls_finish {s : Server} (h : Tidy udp tcp s) (hudp : 0 < udp) (htcp : 0 < tcp)
    (hne : udp ≠ tcp) : Handles.calls (s.multi.openFds (ownFds udp tcp))
      (s.finish.2.flatMap Event.calls) = some {Server.stdinFileno} := by
  have hge : s.multi.sockfdUdp ≥ 0 ∧ s.multi.sockfdTcp ≥ 0 := by
    rw [h.udp_eq, h.tcp_eq]
    omega
  have hcloses : s.finish.2 =
      s.multi.tcpSockets.keys.map .closed ++ [.closed tcp, .closed udp] := by
    rw [Server.finish, MultiSocket.closeAll, if_pos hge.1, if_pos hge.2, h.udp_eq, h.tcp_eq,
      List.append_assoc]
    rfl
  rw [hcloses, List.flatMap_append, Handles.calls_trans (calls_keys h.apart)]
  have hnd : [tcp, udp].Nodup := by simp [hne.symm]
  refine (Handles.calls_closes hnd fun fd hfd => ?_).trans (congrArg some ?_)
  · simp only [List.mem_cons, List.not_mem_nil, or_false] at hfd
    rcases hfd with rfl | rfl <;> simp [ownFds]
  · ext fd
    simp only [ownFds, Server.stdinFileno, Finset.mem_sdiff, Finset.mem_insert,
      Finset.mem_singleton, List.mem_toFinset, List.mem_cons, List.not_mem_nil, or_false]
    omega

/-- In every run, each call with a descriptor is made while the descriptor is open, and what is
watched is what is open, each descriptor with a bit in `read_fds`. Once `main` has closed its
`MultiSocket`, only standard input is open, and each connection has been closed as often as it was
accepted. -/
theorem calls_run (h : Run udp tcp buffer tr w) (hudp : 0 < udp ∧ udp < fdSetsize)
    (htcp : 0 < tcp ∧ tcp < fdSetsize) (hne : udp ≠ tcp) :
    Handles.calls (ownFds udp tcp) (runCalls tr) = some w.server.multi.readFds ∧
      (∀ fd, fd ∈ w.server.multi.readFds ↔ w.server.IsOpen fd) ∧
      (∀ fd ∈ w.server.multi.readFds, HasBit fd) ∧
      Handles.calls (ownFds udp tcp) (runCalls tr ++ w.server.finish.2.flatMap Event.calls) =
        some {Server.stdinFileno} ∧
      ∀ fd, fd ≠ udp → fd ≠ tcp →
        (runCalls tr ++ w.server.finish.2.flatMap Event.calls).count (.opens fd) =
          (runCalls tr ++ w.server.finish.2.flatMap Event.calls).count (.closes fd) := by
  obtain ⟨htidy, hcalls⟩ := Run.tidy h
  have hend : Handles.calls (ownFds udp tcp)
      (runCalls tr ++ w.server.finish.2.flatMap Event.calls) = some {Server.stdinFileno} := by
    rw [Handles.calls_trans hcalls, calls_finish htidy hudp.1 htcp.1 hne]
  refine ⟨by rw [hcalls, htidy.reads], fun fd => by rw [htidy.isOpen_iff, htidy.reads],
    htidy.hasBit hudp htcp, hend, fun fd hfdUdp hfdTcp => ?_⟩
  have hcount := Handles.count_eq hend fd
  simp only [ownFds, Finset.mem_insert, Finset.mem_singleton, hfdUdp, hfdTcp, or_false] at hcount
  omega

end Run

/-- A client logs in, another one with its id is declined, and the first one closes. -/
def declinedInputs : List Kernel :=
  loginInputs 5 65 ++ loginInputs 6 65 ++ [.quiet, .ready {5} [(5, [])], .quiet, .quiet]

set_option maxRecDepth 10000 in
theorem calls_run_declined : ∃ tr w, Run 3 4 [] tr w ∧
    tr.map Prod.snd = declinedInputs ∧
    (runCalls tr ++ w.server.finish.2.flatMap Event.calls).count (.opens 6) = 1 ∧
    (runCalls tr ++ w.server.finish.2.flatMap Event.calls).count (.closes 6) = 1 ∧
    Handles.calls (ownFds 3 4) (runCalls tr ++ w.server.finish.2.flatMap Event.calls) =
      some {Server.stdinFileno} := by
  have hrec : ∃ x ∈ Runs.exec (Runs.record next) ([], start 3 4 []) declinedInputs,
      (runCalls x.1 ++ x.2.server.finish.2.flatMap Event.calls).count (.opens 6) = 1 := by
    decide +kernel
  obtain ⟨tr, w, hr, htr, hopens⟩ := Runs.exists_run_of_record
    (P := fun (tr : List (World × Kernel)) (w : World) =>
      (runCalls tr ++ w.server.finish.2.flatMap Event.calls).count (.opens 6) = 1) hrec
  obtain ⟨-, -, -, hend, hcount⟩ := calls_run hr (by decide) (by decide) (by decide)
  have hcloses := hcount 6 (by decide) (by decide)
  exact ⟨tr, w, hr, htr, hopens, hcloses.symm.trans hopens, hend⟩

end World

end NewsServer
