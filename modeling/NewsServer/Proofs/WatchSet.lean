import NewsServer.Lib.Runs
import NewsServer.Proofs.EventLoop
import NewsServer.Proofs.Steps

/-!
# The descriptors that are watched

`read_fds`, `fdmax` and `tcp_sockets` are kept apart. The operations that open a socket change all
three that are concerned, a close and a pass that closes drop a descriptor from both sets, but
`add_fd` leaves `fdmax` as it is: it keeps the watch set in order only if a descriptor as large is
watched or was. And no operation asks whether `read_fds` has a bit for its descriptor. With those
two things the watch set is in order, and without them it is not (`watched_iff`).
-/

namespace NewsServer

/-- An operation of a `MultiSocket`, with what the kernel answers: `reopened` is not one of its own,
the program itself is given `fd`. -/
inductive Operation
  | enableUdp (sockfd : ℤ)
  | enableTcpConnections (sockfd : ℤ)
  | connect (sockfd : ℤ) (u : Uninit)
  | addFd (fd : ℤ)
  | accept (newsockfd : ℤ) (u : Uninit)
  | close (sockfd : ℤ)
  | select (p : Pass)
  | getNextFd
  | recv
  | reopened (fd : ℤ)

/-- The descriptors that events close. -/
def closedBy (evs : List Event) : Finset ℤ :=
  (evs.filterMap fun
    | .closed fd => some fd
    | _ => none).toFinset

/-- A `MultiSocket`, the descriptors it has closed and nobody has opened again, and whether an
operation has gone past `read_fds`. From then on what the object holds is not known. -/
structure Watch where
  multi : MultiSocket
  closed : Finset ℤ
  past : Bool

namespace Watch

def start : Watch where
  multi := .new
  closed := ∅
  past := false

/-- What is watched after an operation that uses the bit of `fd`: `y`, if there is one. -/
def within (x : Watch) (fd : ℤ) (y : Watch) : Watch :=
  if HasBit fd then y else { x with past := true }

/-- What is watched after an operation that does not end in a `DIE`: `enable_tcp_connections` tests
`sockfd_udp` where it opens `sockfd_tcp`. A `select` with events waiting makes no round. -/
def next (x : Watch) : Operation → Option Watch
  | .enableUdp sockfd =>
    if sockfd < 0 then none
    else some (x.within sockfd
      { x with multi := x.multi.enableUdp sockfd, closed := x.closed.erase sockfd })
  | .enableTcpConnections sockfd =>
    if x.multi.sockfdUdp < 0 ∨ sockfd < 0 then none
    else some (x.within sockfd
      { x with multi := x.multi.enableTcpConnections sockfd, closed := x.closed.erase sockfd })
  | .connect sockfd u =>
    if sockfd < 0 then none
    else some (x.within sockfd
      { x with multi := x.multi.connect sockfd u, closed := x.closed.erase sockfd })
  | .addFd fd => some (x.within fd { x with multi := x.multi.addFd fd })
  | .accept newsockfd u =>
    match x.multi.accept newsockfd u with
    | .error e => if e = .pastFdSet then some { x with past := true } else none
    | .ok (multi, _) => some { x with multi, closed := x.closed.erase newsockfd }
  | .close sockfd =>
    some (x.within sockfd
      { x with multi := x.multi.close sockfd, closed := insert sockfd x.closed })
  | .select p =>
    if x.multi.sockQueue = [] then
      some { x with
        multi := (x.multi.selectRound p).1
        closed := x.closed ∪ closedBy (x.multi.selectRound p).2 }
    else
      some x
  | .getNextFd => some { x with multi := x.multi.getNextFd.2 }
  | .recv => some { x with multi := x.multi.recv.2.2.2 }
  | .reopened fd => some { x with closed := x.closed.erase fd }

/-- The watch set is in order: it holds what was put into it, `::select` is told of every descriptor
in it, the connections are in it, and what is closed is in neither. -/
structure Watched (x : Watch) : Prop where
  inside : x.past = false
  bound : ∀ fd ∈ x.multi.readFds, fd ≤ x.multi.fdmax
  sockets : ∀ fd ∈ x.multi.tcpSockets, fd ∈ x.multi.readFds
  closed : ∀ fd ∈ x.closed, fd ∉ x.multi.readFds ∧ fd ∉ x.multi.tcpSockets

/-- `read_fds` has a bit for the operation's descriptor, and one that is added is not larger than
`fdmax` and not closed. -/
def Registers (x : Watch) : Operation → Prop
  | .enableUdp fd | .enableTcpConnections fd | .connect fd _ | .accept fd _ | .close fd => HasBit fd
  | .addFd fd => HasBit fd ∧ fd ≤ x.multi.fdmax ∧ fd ∉ x.closed
  | .select _ | .getNextFd | .recv | .reopened _ => True

theorem watched_start : start.Watched := by
  constructor <;> simp [start, MultiSocket.new]

section Step

variable {x x' y : Watch} {fd : ℤ}

/-- Where there is no bit for the descriptor, nothing is in order any more. -/
theorem within_watched_iff : (x.within fd y).Watched ↔ HasBit fd ∧ y.Watched := by
  unfold within
  split_ifs with hbit
  · simp [hbit]
  · exact iff_of_false (fun h => by simpa using h.inside) fun h => hbit h.1

/-- A new descriptor is put in order by what the operations that open one do. -/
theorem Watched.opened {m : MultiSocket} (h : x.Watched)
    (hread : m.readFds = insert fd x.multi.readFds) (hmax : m.fdmax = maxInt x.multi.fdmax fd)
    (hsock : ∀ y, y ∈ m.tcpSockets → y ∈ x.multi.tcpSockets ∨ y = fd) :
    Watched { x with multi := m, closed := x.closed.erase fd } := by
  have hle : x.multi.fdmax ≤ m.fdmax ∧ fd ≤ m.fdmax := by
    rw [hmax, maxInt]
    split_ifs <;> omega
  refine ⟨h.inside, fun y hy => ?_, fun y hy => ?_, fun y hy => ?_⟩
  · dsimp only at hy ⊢
    rw [hread, Finset.mem_insert] at hy
    rcases hy with rfl | hy
    · exact hle.2
    · exact (h.bound y hy).trans hle.1
  · dsimp only at hy ⊢
    rw [hread, Finset.mem_insert]
    rcases hsock y hy with hy | rfl
    · exact .inr (h.sockets y hy)
    · exact .inl rfl
  · obtain ⟨hne, hy⟩ := Finset.mem_erase.1 hy
    obtain ⟨hread', hsock'⟩ := h.closed y hy
    dsimp only
    rw [hread, Finset.mem_insert]
    exact ⟨fun h => h.elim hne hread', fun h => (hsock y h).elim hsock' hne⟩

theorem Watched.close (h : x.Watched) (fd : ℤ) :
    Watched { x with multi := x.multi.close fd, closed := insert fd x.closed } := by
  refine ⟨h.inside, fun y hy => h.bound y (Finset.mem_of_mem_erase hy), fun y hy => ?_,
    fun y hy => ?_⟩
  · simp only [MultiSocket.close, Std.TreeMap.mem_erase, Std.compare_eq_iff_eq, ne_eq] at hy
    exact Finset.mem_erase.2 ⟨fun h => hy.1 h.symm, h.sockets y hy.2⟩
  · simp only [MultiSocket.close, Std.TreeMap.mem_erase, Finset.mem_erase]
    rcases Finset.mem_insert.1 hy with rfl | hy
    · exact ⟨fun h => h.1 rfl, fun h => by simp at h⟩
    · exact ⟨fun hr => (h.closed y hy).1 hr.2, fun hs => (h.closed y hy).2 hs.2⟩

theorem closedBy_append (evs evs' : List Event) :
    closedBy (evs ++ evs') = closedBy evs ∪ closedBy evs' := by
  rw [closedBy, closedBy, closedBy, List.filterMap_append, List.toFinset_append]

theorem Watched.visit (h : x.Watched) (p : Pass) (fd t : ℤ) (queue : List RecvHolder) :
    Watched { x with
      multi := { (x.multi.visit p fd t).2.1 with sockQueue := queue }
      closed := x.closed ∪ closedBy (x.multi.visit p fd t).2.2 } := by
  rcases hs : x.multi.tcpSockets[fd]? with _ | sock
  · rw [MultiSocket.visit_of_none hs]
    have hnil : x.closed ∪ closedBy [] = x.closed := Finset.union_empty _
    rw [hnil]
    exact ⟨h.inside, h.bound, h.sockets, h.closed⟩
  have hmem : fd ∈ x.multi.tcpSockets := by
    rw [Std.TreeMap.mem_iff_isSome_getElem?, hs]
    rfl
  have hsame : ∀ y, y ∈ x.multi.tcpSockets.insert fd (sock.recv (p.got fd)).2.2 →
      y ∈ x.multi.tcpSockets := by
    intro y hy
    rw [Std.TreeMap.mem_insert, Std.compare_eq_iff_eq] at hy
    exact hy.elim (fun hy => hy ▸ hmem) id
  by_cases hc : MultiSocket.Closes sock (p.got fd)
  · rw [MultiSocket.visit_of_closes hs hc]
    have hclosed : x.closed ∪ closedBy [.closed fd] = insert fd x.closed := by
      rw [Finset.union_comm]
      rfl
    rw [hclosed]
    have hclose := h.close fd
    refine ⟨hclose.inside, hclose.bound, fun y hy => ?_, fun y hy => ?_⟩
    · refine hclose.sockets y ?_
      dsimp only [MultiSocket.close] at hy ⊢
      rw [Std.TreeMap.mem_erase] at hy ⊢
      exact ⟨hy.1, hsame y hy.2⟩
    · obtain ⟨hread, hsock⟩ := hclose.closed y hy
      refine ⟨hread, fun hy' => hsock ?_⟩
      dsimp only [MultiSocket.close] at hy' ⊢
      rw [Std.TreeMap.mem_erase] at hy' ⊢
      exact ⟨hy'.1, hsame y hy'.2⟩
  · rw [MultiSocket.visit_of_open hs hc]
    have hnil : x.closed ∪ closedBy [] = x.closed := Finset.union_empty _
    rw [hnil]
    refine ⟨h.inside, h.bound, fun y hy => h.sockets y (hsame y hy), fun y hy => ?_⟩
    exact ⟨(h.closed y hy).1, fun hy' => (h.closed y hy).2 (hsame y hy')⟩

theorem Watched.selectRound (h : x.Watched) (p : Pass) :
    Watched { x with
      multi := (x.multi.selectRound p).1
      closed := x.closed ∪ closedBy (x.multi.selectRound p).2 } := by
  refine MultiSocket.passLoop_invariant p (x.multi.readFds ∩ p.ready)
    (P := fun m evs => Watched { x with multi := m, closed := x.closed ∪ closedBy evs })
    (fun fd t m evs hm => ?_) _ p.fdType x.multi [] ?_
  · rw [closedBy_append, ← Finset.union_assoc]
    exact hm.visit p fd t _
  · have hnil : x.closed ∪ closedBy [] = x.closed := Finset.union_empty _
    rw [hnil]
    exact h

theorem recv_frame (m : MultiSocket) :
    m.recv.2.2.2 = { m with tcpSockets := m.recv.2.2.2.tcpSockets } := by
  unfold MultiSocket.recv
  split
  · rfl
  · split <;> rfl

theorem mem_tcpSockets_recv (m : MultiSocket) (fd : ℤ) :
    fd ∈ m.recv.2.2.2.tcpSockets ↔ fd ∈ m.tcpSockets := by
  have hr := received_recv m
  rcases hrecv : m.recv with ⟨size, out, copied, m'⟩
  rw [hrecv] at hr
  cases hr with
  | unbuffered => rfl
  | notReady => rfl
  | written _ hm => exact hm.mem fd

theorem Watched.addFd_iff (h : x.Watched) (fd : ℤ) :
    Watched { x with multi := x.multi.addFd fd } ↔ fd ≤ x.multi.fdmax ∧ fd ∉ x.closed := by
  constructor
  · intro h'
    refine ⟨h'.bound fd (Finset.mem_insert_self _ _), fun hfd => ?_⟩
    exact (h'.closed fd hfd).1 (Finset.mem_insert_self _ _)
  · rintro ⟨hle, hclosed⟩
    refine ⟨h.inside, fun y hy => ?_, fun y hy => Finset.mem_insert_of_mem (h.sockets y hy),
      fun y hy => ?_⟩
    · rcases Finset.mem_insert.1 hy with rfl | hy
      · exact hle
      · exact h.bound y hy
    · refine ⟨fun hy' => ?_, (h.closed y hy).2⟩
      rcases Finset.mem_insert.1 hy' with rfl | hy'
      · exact hclosed hy
      · exact (h.closed y hy).1 hy'

/-- An operation keeps the watch set in order, exactly if `read_fds` has a bit for its descriptor
and it adds none that is too large or closed. -/
theorem Watched.next_iff {op : Operation} (h : x.Watched) (hn : x.next op = some x') :
    x'.Watched ↔ x.Registers op := by
  cases op with
  | enableUdp sockfd =>
    simp only [next] at hn
    split_ifs at hn
    obtain rfl := Option.some.inj hn
    rw [within_watched_iff]
    exact and_iff_left (h.opened rfl rfl fun y hy => .inl hy)
  | enableTcpConnections sockfd =>
    simp only [next] at hn
    split_ifs at hn
    obtain rfl := Option.some.inj hn
    rw [within_watched_iff]
    exact and_iff_left (h.opened rfl rfl fun y hy => .inl hy)
  | connect sockfd u =>
    simp only [next] at hn
    split_ifs at hn
    obtain rfl := Option.some.inj hn
    rw [within_watched_iff]
    refine and_iff_left (h.opened rfl rfl fun y hy => ?_)
    simp only [MultiSocket.connect, Std.TreeMap.mem_insert, Std.compare_eq_iff_eq] at hy
    exact hy.elim (fun h => .inr h.symm) .inl
  | addFd fd =>
    obtain rfl := Option.some.inj hn
    rw [within_watched_iff, h.addFd_iff]
    rfl
  | accept newsockfd u =>
    simp only [next, MultiSocket.accept] at hn
    by_cases hneg : newsockfd < 0
    · simp [hneg] at hn
    rw [if_neg hneg] at hn
    by_cases hlarge : newsockfd ≥ fdSetsize
    · simp only [hlarge, if_true, Option.some.injEq] at hn
      subst hn
      exact iff_of_false (fun h' => by simpa using h'.inside) fun hbit => not_lt.2 hlarge hbit.2
    · rw [if_neg hlarge] at hn
      obtain rfl := Option.some.inj hn
      refine iff_of_true (h.opened rfl rfl fun y hy => ?_) ⟨not_lt.1 hneg, not_le.1 hlarge⟩
      simp only [Std.TreeMap.mem_insert, Std.compare_eq_iff_eq] at hy
      exact hy.elim (fun h => .inr h.symm) .inl
  | close sockfd =>
    obtain rfl := Option.some.inj hn
    rw [within_watched_iff]
    exact and_iff_left (h.close sockfd)
  | select p =>
    simp only [next] at hn
    split_ifs at hn
    · obtain rfl := Option.some.inj hn
      exact iff_of_true (h.selectRound p) trivial
    · obtain rfl := Option.some.inj hn
      exact iff_of_true h trivial
  | getNextFd =>
    obtain rfl := Option.some.inj hn
    refine iff_of_true ?_ trivial
    rw [MultiSocket.getNextFd_frame]
    exact ⟨h.inside, h.bound, h.sockets, h.closed⟩
  | recv =>
    obtain rfl := Option.some.inj hn
    refine iff_of_true ?_ trivial
    have hmem := mem_tcpSockets_recv x.multi
    rw [recv_frame]
    exact ⟨h.inside, h.bound, fun y hy => h.sockets y ((hmem y).1 hy), fun y hy =>
      ⟨(h.closed y hy).1, fun hy' => (h.closed y hy).2 ((hmem y).1 hy')⟩⟩
  | reopened fd =>
    obtain rfl := Option.some.inj hn
    exact iff_of_true
      ⟨h.inside, h.bound, h.sockets, fun y hy => h.closed y (Finset.mem_of_mem_erase hy)⟩ trivial

end Step

/-- After every operation the watch set is in order, exactly if `read_fds` has a bit for every
descriptor, and every one that is added is at most `fdmax` and not closed. -/
theorem watched_iff {tr : List (Watch × Operation)} {x : Watch} (h : Runs.Run next start tr x) :
    (∀ v ∈ Runs.states tr x, v.Watched) ↔ ∀ q ∈ tr, q.1.Registers q.2 :=
  h.states_iff (I := fun _ => True) trivial (fun _ _ _ _ _ => trivial) watched_start
    (fun _ _ _ _ hw hr hn => (hw.next_iff hn).2 hr) fun _ _ _ _ hw hn hw' => (hw.next_iff hn).1 hw'

instance (x : Watch) (op : Operation) : Decidable (x.Registers op) :=
  match op with
  | .enableUdp fd | .enableTcpConnections fd | .connect fd _ | .accept fd _ | .close fd =>
    inferInstanceAs (Decidable (HasBit fd))
  | .addFd fd => inferInstanceAs (Decidable (HasBit fd ∧ fd ≤ x.multi.fdmax ∧ fd ∉ x.closed))
  | .select _ | .getNextFd | .recv | .reopened _ => inferInstanceAs (Decidable True)

/-- What the server does before its loop, and a connection that comes and closes: the pass is told
that its bytes have ended. -/
def serverOperations : List Operation :=
  [.enableUdp 3, .enableTcpConnections 4, .addFd 0, .accept 5 default,
    .select ⟨{5}, fun _ => some [], 0⟩]

theorem watched_iff_server : ∃ tr x, Runs.Run next start tr x ∧
    tr.map Prod.snd = serverOperations ∧ 5 ∈ x.closed ∧ ∀ v ∈ Runs.states tr x, v.Watched := by
  have hexec : ∃ x ∈ Runs.exec next start serverOperations, 5 ∈ x.closed := by
    decide +kernel
  have hmeets : Runs.Meets next Registers start serverOperations := by
    decide +kernel
  obtain ⟨tr, x, hr, htr, hC, hclosed⟩ := Runs.exists_run_of_meets hexec hmeets
  exact ⟨tr, x, hr, htr, hclosed, (watched_iff hr).2 hC⟩

/-- A descriptor that is larger than those of the sockets is added, and `::select` is not told of
it. -/
theorem not_watched_large : ∃ tr x, Runs.Run next start tr x ∧
    tr.map Prod.snd = [.enableUdp 3, .addFd 7] ∧ x.past = false ∧ 7 ∈ x.multi.readFds ∧
      x.multi.fdmax = 3 ∧ ¬ x.Watched := by
  have hexec : ∃ x ∈ Runs.exec next start [.enableUdp 3, .addFd 7],
      x.past = false ∧ 7 ∈ x.multi.readFds ∧ x.multi.fdmax = 3 := by
    decide +kernel
  obtain ⟨tr, x, hr, htr, hpast, hmem, hmax⟩ := Runs.exists_run_of_exec hexec
  refine ⟨tr, x, hr, htr, hpast, hmem, hmax, fun h => ?_⟩
  have hle := h.bound 7 hmem
  omega

end Watch

end NewsServer
