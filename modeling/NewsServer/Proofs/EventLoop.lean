import NewsServer.Lib.Runs
import NewsServer.Proofs.SelectPass

/-!
# Loops over a `MultiSocket`

What a program does with its `MultiSocket` is a sequence of actions, of which a round of `select`
comes only when the queue is empty. Whatever the sequence, a socket with a packet ready has a
`SOCK_TCP` entry queued (`Sound.queued`): a pass queues one with the packet, and `get_next_fd` drops
none whose socket has a packet left. So nothing is ready when a round begins.
-/

namespace NewsServer

namespace BufferedTcpSocket

variable {s : BufferedTcpSocket}

theorem wf_recv (h : s.Wf) (got : Option Bytes) : (s.recv got).2.2.Wf := by
  rcases got with _ | bytes
  · exact h
  by_cases hnil : bytes = []
  · subst hnil
    exact wf_reset s
  · rw [recv_of_ne_nil s hnil]
    split_ifs <;> exact wf_read h _

/-- What the decoder holds once it has read a chunk, up to the size of the buffer `::recv` fills. -/
theorem closes_iff (h : s.Wf) (got : Option Bytes) : MultiSocket.Closes s got ↔
    ∀ bytes, got = some bytes → bytes ≠ [] →
      framing.Oversize (framing.cut (s.pending ++ bytes.take tcpBufferSize)).2 := by
  unfold MultiSocket.Closes
  rcases got with _ | bytes
  · simp [recv]
  by_cases hnil : bytes = []
  · subst hnil
    simp [recv]
  have hpos := BufferedTcpSocket.length_take_pos hnil
  have hread := read_spec h (bytes.take tcpBufferSize)
  simp only [Option.some.injEq, forall_eq', hnil, ne_eq, not_false_eq_true, forall_const]
  rw [recv_of_ne_nil s hnil]
  unfold ReadResult at hread
  split_ifs at hread with hbig
  · rw [if_pos hread.1]
    simp [hbig]
  · rw [if_neg (by rw [hread.1]; simp)]
    refine ⟨?_, fun h => absurd h hbig⟩
    rintro (hle | htoo)
    · dsimp only at hle
      omega
    · simp at htoo

/-- A chunk that does not close the socket is cut into frames behind what was pending. -/
theorem recv_open (h : s.Wf) {got : Option Bytes} (hc : ¬ MultiSocket.Closes s got) :
    ∃ bytes, got = some bytes ∧ bytes ≠ [] ∧
      ¬ framing.Oversize (framing.cut (s.pending ++ bytes.take tcpBufferSize)).2 ∧
      (s.recv got).2.2.packets =
        s.packets ++ (framing.cut (s.pending ++ bytes.take tcpBufferSize)).1 ∧
      (s.recv got).2.2.pending = (framing.cut (s.pending ++ bytes.take tcpBufferSize)).2 := by
  rw [closes_iff h] at hc
  push Not at hc
  obtain ⟨bytes, rfl, hne, hbig⟩ := hc
  have hread := read_spec h (bytes.take tcpBufferSize)
  rw [ReadResult, if_neg hbig] at hread
  obtain ⟨hret, -, hpk, hpend⟩ := hread
  refine ⟨bytes, rfl, hne, hbig, ?_⟩
  rw [recv_of_ne_nil s hne, if_neg (by rw [hret]; simp)]
  exact ⟨hpk, hpend⟩

theorem writePacket_of_packets (h : s.Wf) {p : Bytes} {rest : List Bytes}
    (hp : s.packets = p :: rest) : ∃ s', s.writePacket = (p.length, p, s') ∧ s'.Wf ∧
      s'.packets = rest ∧ s'.pending = s.pending := by
  unfold packets at hp
  rcases hq : s.packetQueue with _ | ⟨q, queue⟩ <;> rw [hq] at hp
  · simp at hp
  obtain ⟨rfl, rfl⟩ := List.cons.inj hp
  have hw := writePacket_of_cons h hq
  refine ⟨{ s with packetQueue := queue }, hw, ?_, rfl, rfl⟩
  have := wf_writePacket h
  rwa [hw] at this

theorem packetReady_of_packets {p : Bytes} {rest : List Bytes} (hp : s.packets = p :: rest) :
    s.packetReady = true := by
  rw [← Bool.not_eq_false, packetReady_eq_false, hp]
  simp

theorem exists_packets_of_ready (h : s.packetReady = true) :
    ∃ p rest, s.packets = p :: rest := by
  refine List.exists_cons_of_ne_nil fun hnil => ?_
  rw [packetReady_eq_false.2 hnil] at h
  simp at h

end BufferedTcpSocket

namespace MultiSocket

open BufferedTcpSocket (packetReady_eq_false)

/-- A round of `select` reads the descriptor. -/
def Visits (m : MultiSocket) (p : Pass) (fd : ℤ) : Prop :=
  fd ∈ m.readFds ∩ p.ready ∧ 0 ≤ fd ∧ fd ≤ m.fdmax

instance (m : MultiSocket) (p : Pass) (fd : ℤ) : Decidable (m.Visits p fd) :=
  inferInstanceAs (Decidable (_ ∧ _ ∧ _))

section Round

variable {m : MultiSocket} {p : Pass} {fd : ℤ}

theorem selectRound_of_not_visits (h : ¬ m.Visits p fd) :
    (m.selectRound p).1.tcpSockets[fd]? = m.tcpSockets[fd]? ∧
      .closed fd ∉ (m.selectRound p).2 := by
  refine passLoop_frame p _ _ p.fdType fun hsel hmem => h ?_
  exact ⟨hsel, mem_descriptors.1 hmem⟩

theorem selectRound_of_visits (h : m.Visits p fd) {sock : BufferedTcpSocket}
    (hs : m.tcpSockets[fd]? = some sock) :
    ((m.selectRound p).1.tcpSockets[fd]? =
      if Closes sock (p.got fd) then none else some (sock.recv (p.got fd)).2.2) ∧
      (.closed fd ∈ (m.selectRound p).2 ↔ Closes sock (p.got fd)) := by
  obtain ⟨hsel, h0, hle⟩ := h
  obtain ⟨hsock, hev⟩ := passLoop_at p (m.readFds ∩ p.ready) m hsel 0 _ p.fdType m
    (nodup_descriptors m.fdmax) (mem_descriptors.2 ⟨h0, hle⟩) rfl
  rw [selectRound, thisMethodDoesSomethingImportantWithTheFileDescriptors, hsock, hev]
  by_cases hc : Closes sock (p.got fd)
  · rw [visit_of_closes hs hc, if_pos hc]
    simp [hc]
  · rw [visit_of_open hs hc, if_neg hc]
    simp [hc]

theorem selectRound_of_none (p : Pass) (hs : m.tcpSockets[fd]? = none) :
    (m.selectRound p).1.tcpSockets[fd]? = none := by
  obtain ⟨fds, -, hmem, -, -⟩ := passed_selectRound m p
  have hnot : fd ∉ m.tcpSockets := by
    rw [Std.TreeMap.mem_iff_isSome_getElem?, hs]
    simp
  exact getElem?_neg _ _ fun h => hnot ((hmem fd).1 h).1

theorem selectRound_sockQueue (m : MultiSocket) (p : Pass) : (m.selectRound p).1.sockQueue =
    m.sockQueue ++ entries m p (m.readFds ∩ p.ready) (descriptors m.fdmax) p.fdType := by
  rw [selectRound, thisMethodDoesSomethingImportantWithTheFileDescriptors,
    passLoop_sockQueue p _ _ _ (nodup_descriptors _) (fun _ _ => rfl) rfl rfl]

end Round

/-- `accept` or `connect` has opened a connection on `fd`. -/
def opened (m : MultiSocket) (fd : ℤ) (u : Uninit) : MultiSocket :=
  { m with
    readFds := insert fd m.readFds
    fdmax := maxInt m.fdmax fd
    tcpSockets := m.tcpSockets.insert fd (.new fd u) }

/-- What a loop does with its `MultiSocket`. -/
inductive Action
  | getNextFd
  | select (p : Pass)
  | recv
  | opened (fd : ℤ) (u : Uninit)
  | close (fd : ℤ)
  | addFd (fd : ℤ)

/-- The object after an action. `select` makes a round only while the queue is empty, and a new
connection gets a descriptor that no other has. -/
def act (m : MultiSocket) : Action → Option MultiSocket
  | .getNextFd => some m.getNextFd.2
  | .select p => if m.sockQueue = [] then some (m.selectRound p).1 else none
  | .recv => some m.recv.2.2.2
  | .opened fd u => if 0 ≤ fd ∧ fd ∉ m.tcpSockets then some (m.opened fd u) else none
  | .close fd => some (m.close fd)
  | .addFd fd => some (m.addFd fd)

/-- The decoders are sound, and a socket with a packet ready has a `SOCK_TCP` entry queued. -/
structure Sound (m : MultiSocket) : Prop where
  wf : ∀ (fd : ℤ) (sock : BufferedTcpSocket), m.tcpSockets[fd]? = some sock → sock.Wf
  queued : ∀ (fd : ℤ) (sock : BufferedTcpSocket), m.tcpSockets[fd]? = some sock → sock.packetReady →
    ⟨fd, sockTcp⟩ ∈ m.sockQueue

section Sound

variable {m : MultiSocket}

theorem Sound.packets_eq_nil (h : m.Sound) (hq : m.sockQueue = []) {fd : ℤ}
    {sock : BufferedTcpSocket} (hs : m.tcpSockets[fd]? = some sock) : sock.packets = [] := by
  rw [← packetReady_eq_false, Bool.eq_false_iff]
  intro hr
  have := h.queued fd sock hs hr
  rw [hq] at this
  simp at this

theorem sound_of_noSockets (h : m.tcpSockets = ∅) : m.Sound := by
  constructor <;> simp [h]

theorem stale_eq_false {fd t : ℤ} {sock : BufferedTcpSocket} (hs : m.tcpSockets[fd]? = some sock)
    (hr : sock.packetReady) : m.stale ⟨fd, t⟩ = false := by
  simp [stale, hs, hr]

theorem mem_dropWhile_of_not {α : Type*} {q : α → Bool} {a : α} (ha : q a = false) :
    ∀ {l : List α}, a ∈ l → a ∈ l.dropWhile q
  | [], h => h
  | b :: l, h => by
    rw [List.dropWhile_cons]
    split_ifs with hb
    · refine mem_dropWhile_of_not ha ((List.mem_cons.1 h).resolve_left ?_)
      rintro rfl
      rw [ha] at hb
      simp at hb
    · exact h

/-- `get_next_fd` drops no entry of a socket that has a packet left. -/
theorem mem_getNextFd_of_ready {fd : ℤ} {sock : BufferedTcpSocket}
    (hs : m.tcpSockets[fd]? = some sock) (hr : sock.packetReady)
    (h : ⟨fd, sockTcp⟩ ∈ m.sockQueue) : ⟨fd, sockTcp⟩ ∈ m.getNextFd.2.sockQueue := by
  rcases hq : m.sockQueue with _ | ⟨hold, rest⟩
  · rw [hq] at h
    simp at h
  rw [hq] at h
  by_cases ht : hold.type = sockTcp
  · rw [getNextFd_sockQueue_of_tcp hq ht]
    exact mem_dropWhile_of_not (stale_eq_false hs hr) h
  · rw [(getNextFd_of_ne_tcp hq ht).2.1]
    refine (List.mem_cons.1 h).resolve_left ?_
    rintro rfl
    exact ht rfl

theorem getNextFd_readFds (m : MultiSocket) : m.getNextFd.2.readFds = m.readFds := by
  rw [getNextFd_frame]

theorem getNextFd_fdmax (m : MultiSocket) : m.getNextFd.2.fdmax = m.fdmax := by
  rw [getNextFd_frame]

/-- `get_next_fd` finds nothing and leaves nothing, or hands out an entry of the queue, which is not
stale if it is a `SOCK_TCP`. -/
theorem getNextFd_cases (m : MultiSocket) :
    (m.getNextFd.1 = -1 ∧ m.getNextFd.2.sockQueue = []) ∨
      ∃ e ∈ m.sockQueue, m.getNextFd.1 = e.fd ∧ m.getNextFd.2.currSockfd = e.fd ∧
        m.getNextFd.2.currentFdType = e.type ∧ (e.type = sockTcp → m.stale e = false) := by
  rcases hq : m.sockQueue with _ | ⟨e, rest⟩
  · exact .inl (by simp [MultiSocket.getNextFd, hq])
  by_cases ht : e.type = sockTcp
  · rcases hd : (e :: rest).dropWhile m.stale with _ | ⟨x, r⟩
    · exact .inl (by simp [MultiSocket.getNextFd, hq, ht, hd])
    · obtain ⟨hx, hfresh, hfd, htype, hcurr⟩ := getNextFd_of_fresh hq ht hd
      exact .inr ⟨x, hx, hfd, hcurr, htype, fun _ => hfresh⟩
  · refine .inr ⟨e, List.mem_cons_self, ?_⟩
    simp [MultiSocket.getNextFd, hq, ht]

theorem getNextFd_sockQueue_subset (m : MultiSocket) :
    m.getNextFd.2.sockQueue ⊆ m.sockQueue := by
  intro e he
  rcases hq : m.sockQueue with _ | ⟨hold, rest⟩
  · simp [MultiSocket.getNextFd, hq] at he
  by_cases ht : hold.type = sockTcp
  · rw [getNextFd_sockQueue_of_tcp hq ht] at he
    exact (List.dropWhile_sublist _).subset he
  · rw [(getNextFd_of_ne_tcp hq ht).2.1] at he
    exact List.mem_cons_of_mem _ he

theorem Sound.getNextFd (h : m.Sound) : m.getNextFd.2.Sound := by
  constructor
  · rw [getNextFd_tcpSockets]
    exact h.wf
  · rw [getNextFd_tcpSockets]
    exact fun fd sock hs hr => mem_getNextFd_of_ready hs hr (h.queued fd sock hs hr)

theorem Sound.select (h : m.Sound) (hq : m.sockQueue = []) (p : Pass) :
    (m.selectRound p).1.Sound := by
  have hsockets : ∀ fd sock, (m.selectRound p).1.tcpSockets[fd]? = some sock →
      m.tcpSockets[fd]? = some sock ∧ ¬ m.Visits p fd ∨
        m.Visits p fd ∧ ∃ sock₀, m.tcpSockets[fd]? = some sock₀ ∧ ¬ Closes sock₀ (p.got fd) ∧
          sock = (sock₀.recv (p.got fd)).2.2 := by
    intro fd sock hs
    by_cases hv : m.Visits p fd
    · rcases hs₀ : m.tcpSockets[fd]? with _ | sock₀
      · rw [selectRound_of_none p hs₀] at hs
        simp at hs
      · rw [(selectRound_of_visits hv hs₀).1] at hs
        split_ifs at hs with hc
        exact .inr ⟨hv, sock₀, rfl, hc, (Option.some.inj hs).symm⟩
    · rw [(selectRound_of_not_visits hv).1] at hs
      exact .inl ⟨hs, hv⟩
  constructor
  · intro fd sock hs
    rcases hsockets fd sock hs with ⟨hs₀, -⟩ | ⟨-, sock₀, hs₀, -, rfl⟩
    · exact h.wf fd sock hs₀
    · exact BufferedTcpSocket.wf_recv (h.wf fd sock₀ hs₀) _
  · intro fd sock hs hr
    rcases hsockets fd sock hs with ⟨hs₀, -⟩ | ⟨hv, sock₀, hs₀, hc, rfl⟩
    · have hnil := h.packets_eq_nil hq hs₀
      rw [← packetReady_eq_false, hr] at hnil
      simp at hnil
    · obtain ⟨hsel, h0, hle⟩ := hv
      obtain ⟨type, he⟩ := exists_entry m p _ hsel (descriptors m.fdmax) p.fdType
        (mem_descriptors.2 ⟨h0, hle⟩)
      obtain ⟨-, -, t, ht⟩ := mem_of_mem_entries m p _ _ _ _ he
      rw [visit_of_open hs₀ hc, hr] at ht
      simp only [↓reduceIte] at ht
      subst ht
      rw [selectRound_sockQueue]
      exact List.mem_append_right _ he

theorem Sound.of_sockets (h : m.Sound) {m' : MultiSocket} (hq : m'.sockQueue = m.sockQueue)
    (hs : ∀ (fd : ℤ) (sock : BufferedTcpSocket), m'.tcpSockets[fd]? = some sock → sock.Wf ∧
      (sock.packetReady → ∃ sock₀, m.tcpSockets[fd]? = some sock₀ ∧ sock₀.packetReady)) :
    m'.Sound := by
  refine ⟨fun fd sock hs' => (hs fd sock hs').1, fun fd sock hs' hr => ?_⟩
  obtain ⟨sock₀, hs₀, hr₀⟩ := (hs fd sock hs').2 hr
  rw [hq]
  exact h.queued fd sock₀ hs₀ hr₀

theorem Sound.recv (h : m.Sound) : m.recv.2.2.2.Sound := by
  unfold MultiSocket.recv
  rcases hs : m.tcpSockets[m.currSockfd]? with _ | sock₀
  · exact h
  rcases hr : sock₀.packetReady with _ | _
  · simpa [hr] using h
  simp only [hr, Bool.not_true, Bool.false_eq_true, ↓reduceIte]
  refine h.of_sockets rfl fun fd sock hs' => ?_
  rw [Std.TreeMap.getElem?_insert] at hs'
  split_ifs at hs' with hfd
  · obtain rfl := Std.compare_eq_iff_eq.1 hfd
    obtain rfl := Option.some.inj hs'
    exact ⟨BufferedTcpSocket.wf_writePacket (h.wf _ _ hs), fun _ => ⟨sock₀, hs, hr⟩⟩
  · exact ⟨h.wf fd sock hs', fun hr' => ⟨sock, hs', hr'⟩⟩

theorem recv_of_packets {sock : BufferedTcpSocket} (hw : sock.Wf)
    (hs : m.tcpSockets[m.currSockfd]? = some sock) {p : Bytes} {rest : List Bytes}
    (hp : sock.packets = p :: rest) : ∃ sock' : BufferedTcpSocket,
      m.recv = (p.length, .bufferWritten, p,
        { m with tcpSockets := m.tcpSockets.insert m.currSockfd sock' }) ∧
      sock'.packets = rest ∧ sock'.pending = sock.pending := by
  obtain ⟨sock', hw', -, hrest, hpend⟩ := BufferedTcpSocket.writePacket_of_packets hw hp
  have hr := BufferedTcpSocket.packetReady_of_packets hp
  refine ⟨sock', ?_, hrest, hpend⟩
  simp only [MultiSocket.recv, hs, hr, Bool.not_true, Bool.false_eq_true, ↓reduceIte, hw']

theorem Sound.recv_eq (h : m.Sound) {sock : BufferedTcpSocket}
    (hs : m.tcpSockets[m.currSockfd]? = some sock) {p : Bytes} {rest : List Bytes}
    (hp : sock.packets = p :: rest) : ∃ sock' : BufferedTcpSocket,
      m.recv = (p.length, .bufferWritten, p,
        { m with tcpSockets := m.tcpSockets.insert m.currSockfd sock' }) ∧
      sock'.packets = rest ∧ sock'.pending = sock.pending :=
  recv_of_packets (h.wf _ _ hs) hs hp

theorem Sound.close (h : m.Sound) (fd : ℤ) : (m.close fd).Sound := by
  refine h.of_sockets rfl fun x sock hs => ?_
  simp only [MultiSocket.close, Std.TreeMap.getElem?_erase] at hs
  split_ifs at hs
  exact ⟨h.wf x sock hs, fun hr => ⟨sock, hs, hr⟩⟩

theorem Sound.opened (h : m.Sound) (fd : ℤ) (u : Uninit) : (m.opened fd u).Sound := by
  refine h.of_sockets rfl fun x sock hs => ?_
  simp only [MultiSocket.opened, Std.TreeMap.getElem?_insert] at hs
  split_ifs at hs
  · obtain rfl := Option.some.inj hs
    exact ⟨BufferedTcpSocket.wf_new fd u, fun hr => by
      simp [BufferedTcpSocket.packetReady, BufferedTcpSocket.new] at hr⟩
  · exact ⟨h.wf x sock hs, fun hr => ⟨sock, hs, hr⟩⟩

theorem Sound.act (h : m.Sound) {a : Action} {m' : MultiSocket} (ha : m.act a = some m') :
    m'.Sound := by
  cases a with
  | getNextFd => exact Option.some.inj ha ▸ h.getNextFd
  | select p =>
    simp only [MultiSocket.act, Option.ite_none_right_eq_some, Option.some.injEq] at ha
    obtain ⟨hq, rfl⟩ := ha
    exact h.select hq p
  | recv => exact Option.some.inj ha ▸ h.recv
  | opened fd u =>
    simp only [MultiSocket.act, Option.ite_none_right_eq_some, Option.some.injEq] at ha
    obtain ⟨-, rfl⟩ := ha
    exact h.opened fd u
  | close fd => exact Option.some.inj ha ▸ h.close fd
  | addFd fd => exact Option.some.inj ha ▸ h.of_sockets rfl fun x sock hs =>
      ⟨h.wf x sock hs, fun hr => ⟨sock, hs, hr⟩⟩

theorem Sound.exec (h : m.Sound) {as : List Action} {m' : MultiSocket}
    (ha : Runs.exec MultiSocket.act m as = some m') : m'.Sound := by
  obtain ⟨tr, m'', hr, -, rfl⟩ := Runs.exists_run_of_exec ⟨m', ha, rfl⟩
  exact Runs.Run.always h (fun _ _ _ hm hact => Sound.act hm hact) hr

end Sound

end MultiSocket

end NewsServer
