import NewsServer.Proofs.ServerLoop
import NewsServer.Proofs.Connections

/-!
# The way back to `select`

Between two calls of `::select` the loop takes an entry out of the queue, or a packet out of a
decoder, at every turn, and nothing comes in. So it calls `::select` again after a number of steps
that the queue and the decoders bound (`selects_again`): no peer can keep it from that.
-/

namespace NewsServer

namespace MultiSocket

/-- The packets that are ready on a descriptor. -/
def readyOn (m : MultiSocket) (fd : ℤ) : ℕ :=
  (m.tcpSockets[fd]?.map fun sock => sock.packets.length).getD 0

/-- The packets that are ready. -/
def readyPackets (m : MultiSocket) : ℕ :=
  ∑ fd ∈ m.tcpSockets.keys.toFinset, m.readyOn fd

/-- The entries that are queued, and the packets that are ready. -/
def backlog (m : MultiSocket) : ℕ :=
  m.sockQueue.length + m.readyPackets

section Ready

variable {m m' : MultiSocket} {fd : ℤ}

theorem mem_keys_toFinset : fd ∈ m.tcpSockets.keys.toFinset ↔ fd ∈ m.tcpSockets := by
  rw [List.mem_toFinset, Std.TreeMap.mem_keys]

theorem readyPackets_insert (hmem : fd ∈ m.tcpSockets) (sock : BufferedTcpSocket)
    (hm : m'.tcpSockets = m.tcpSockets.insert fd sock) :
    m'.readyPackets + m.readyOn fd = m.readyPackets + sock.packets.length := by
  have hkeys : m'.tcpSockets.keys.toFinset = m.tcpSockets.keys.toFinset := by
    ext x
    rw [mem_keys_toFinset, mem_keys_toFinset, hm, Std.TreeMap.mem_insert, Std.compare_eq_iff_eq]
    exact ⟨fun h => h.elim (fun h => h ▸ hmem) id, .inr⟩
  have hself : m'.readyOn fd = sock.packets.length := by
    simp [readyOn, hm]
  have hother : ∀ x ∈ m.tcpSockets.keys.toFinset.erase fd, m'.readyOn x = m.readyOn x := by
    intro x hx
    have hne : fd ≠ x := fun h => Finset.ne_of_mem_erase hx h.symm
    simp [readyOn, hm, Std.TreeMap.getElem?_insert, hne]
  have hrest : ∑ x ∈ m.tcpSockets.keys.toFinset.erase fd, m'.readyOn x =
      ∑ x ∈ m.tcpSockets.keys.toFinset.erase fd, m.readyOn x := Finset.sum_congr rfl hother
  have hin := mem_keys_toFinset.2 hmem
  have hsum := Finset.add_sum_erase _ (fun x => m.readyOn x) hin
  have hsum' := Finset.add_sum_erase _ (fun x => m'.readyOn x) hin
  rw [readyPackets, readyPackets, hkeys]
  omega

theorem readyPackets_opened (hnot : fd ∉ m.tcpSockets) (u : Uninit) :
    (m.opened fd u).readyPackets = m.readyPackets := by
  have hkeys : (m.opened fd u).tcpSockets.keys.toFinset =
      insert fd m.tcpSockets.keys.toFinset := by
    ext x
    rw [mem_keys_toFinset, Finset.mem_insert, mem_keys_toFinset, opened, Std.TreeMap.mem_insert,
      Std.compare_eq_iff_eq, eq_comm]
  have hself : (m.opened fd u).readyOn fd = 0 := by
    simp [readyOn, opened, BufferedTcpSocket.packets, BufferedTcpSocket.new]
  have hother : ∀ x ∈ m.tcpSockets.keys.toFinset, (m.opened fd u).readyOn x = m.readyOn x := by
    intro x hx
    have hne : fd ≠ x := by
      rintro rfl
      exact hnot (mem_keys_toFinset.1 hx)
    simp [readyOn, opened, Std.TreeMap.getElem?_insert, hne]
  rw [readyPackets, hkeys, Finset.sum_insert fun h => hnot (mem_keys_toFinset.1 h), hself,
    Nat.zero_add, Finset.sum_congr rfl hother, readyPackets]

theorem readyPackets_close_le (m : MultiSocket) (fd : ℤ) :
    (m.close fd).readyPackets ≤ m.readyPackets := by
  have hsub : (m.close fd).tcpSockets.keys.toFinset ⊆ m.tcpSockets.keys.toFinset := by
    intro x hx
    rw [mem_keys_toFinset, close, Std.TreeMap.mem_erase] at hx
    exact mem_keys_toFinset.2 hx.2
  refine (Finset.sum_le_sum fun x hx => ?_).trans (Finset.sum_le_sum_of_subset hsub)
  rw [mem_keys_toFinset, close, Std.TreeMap.mem_erase, ne_eq, Std.compare_eq_iff_eq] at hx
  refine le_of_eq ?_
  simp [readyOn, close, Std.TreeMap.getElem?_erase, hx.1]

theorem readyPackets_recv (h : m.Sound) : m.recv.2.2.2.readyPackets ≤ m.readyPackets ∧
    (m.stale ⟨m.currSockfd, sockTcp⟩ = false →
      m.recv.2.2.2.readyPackets < m.readyPackets) := by
  rcases hs : m.tcpSockets[m.currSockfd]? with _ | sock
  · rw [recv_of_none hs]
    exact ⟨le_rfl, fun hfresh => by simp [stale, hs] at hfresh⟩
  rcases hr : sock.packetReady with _ | _
  · rw [recv_of_not_ready hs hr]
    exact ⟨le_rfl, fun hfresh => by simp [stale, hs, hr] at hfresh⟩
  obtain ⟨p, rest, hp⟩ := BufferedTcpSocket.exists_packets_of_ready hr
  obtain ⟨sock', hrecv, hrest, -⟩ := h.recv_eq hs hp
  have hmem : m.currSockfd ∈ m.tcpSockets := by
    rw [Std.TreeMap.mem_iff_isSome_getElem?, hs]
    rfl
  have hsockets : m.recv.2.2.2.tcpSockets = m.tcpSockets.insert m.currSockfd sock' := by
    rw [hrecv]
  have hsum := readyPackets_insert hmem sock' hsockets
  have hready : m.readyOn m.currSockfd = rest.length + 1 := by
    simp [readyOn, hs, hp]
  rw [hready, hrest] at hsum
  exact ⟨by omega, fun _ => by omega⟩

end Ready

/-- `get_next_fd` takes an entry out of the queue, or it hands out a packet that is ready. -/
theorem length_getNextFd (m : MultiSocket) :
    m.getNextFd.2.sockQueue.length ≤ m.sockQueue.length ∧
      (m.sockQueue ≠ [] → m.getNextFd.2.currentFdType ≠ sockTcp →
        m.getNextFd.2.sockQueue.length < m.sockQueue.length) := by
  rcases hq : m.sockQueue with _ | ⟨hold, rest⟩
  · simp [getNextFd, hq]
  by_cases ht : hold.type = sockTcp
  · rw [getNextFd_sockQueue_of_tcp hq ht]
    refine ⟨(List.dropWhile_sublist _).length_le, fun _ htype => ?_⟩
    rw [List.dropWhile_cons]
    split_ifs with hstale
    · exact Nat.lt_succ_of_le (List.dropWhile_sublist _).length_le
    · -- the first entry is handed out, and it is a `SOCK_TCP`
      have hd : (hold :: rest).dropWhile m.stale = hold :: rest := by
        rw [List.dropWhile_cons, if_neg hstale]
      exact absurd ((getNextFd_of_fresh hq ht hd).2.2.2.1.trans ht) htype
  · obtain ⟨-, hrest, -⟩ := getNextFd_of_ne_tcp hq ht
    rw [hrest]
    exact ⟨Nat.le_succ _, fun _ _ => Nat.lt_succ_self _⟩

theorem readyPackets_congr {m m' : MultiSocket} (h : m'.tcpSockets = m.tcpSockets) :
    m'.readyPackets = m.readyPackets := by
  unfold readyPackets readyOn
  rw [h]

theorem handed_getNextFd (m : MultiSocket) (h : m.getNextFd.2.currentFdType = sockTcp) :
    m.getNextFd.2.stale ⟨m.getNextFd.2.currSockfd, sockTcp⟩ = false := by
  have hkeep : ∀ fd t, m.getNextFd.2.stale ⟨fd, t⟩ = m.stale ⟨fd, t⟩ := by
    intro fd t
    unfold stale
    rw [getNextFd_tcpSockets]
  rw [hkeep]
  rcases hq : m.sockQueue with _ | ⟨hold, rest⟩
  · simp [getNextFd, hq, sockNull, sockTcp] at h
  by_cases ht : hold.type = sockTcp
  · rcases hd : (hold :: rest).dropWhile m.stale with _ | ⟨x, r⟩
    · simp [getNextFd, hq, ht, hd, sockNull, sockTcp] at h
    · obtain ⟨-, hfresh, -, -, hcurr⟩ := getNextFd_of_fresh hq ht hd
      rw [hcurr]
      exact hfresh
  · rw [(getNextFd_of_ne_tcp hq ht).2.2] at h
    exact absurd h ht

theorem backlog_getNextFd (m : MultiSocket) : m.getNextFd.2.backlog ≤ m.backlog ∧
    (m.sockQueue ≠ [] → m.getNextFd.2.currentFdType ≠ sockTcp →
      m.getNextFd.2.backlog < m.backlog) := by
  obtain ⟨hle, hlt⟩ := m.length_getNextFd
  have hready := readyPackets_congr (getNextFd_tcpSockets m)
  unfold backlog
  exact ⟨by omega, fun hq ht => by have := hlt hq ht; omega⟩

theorem backlog_recv (m : MultiSocket) (h : m.Sound) : m.recv.2.2.2.backlog ≤ m.backlog ∧
    (m.stale ⟨m.currSockfd, sockTcp⟩ = false → m.recv.2.2.2.backlog < m.backlog) := by
  obtain ⟨hle, hlt⟩ := readyPackets_recv h
  unfold backlog
  rw [recv_sockQueue]
  exact ⟨by omega, fun hs => by have := hlt hs; omega⟩

theorem mem_of_fresh {m : MultiSocket} {fd t : ℤ} (h : m.stale ⟨fd, t⟩ = false) :
    fd ∈ m.tcpSockets := by
  rw [Std.TreeMap.mem_iff_isSome_getElem?]
  unfold stale at h
  dsimp only at h
  rcases hs : m.tcpSockets[fd]? with _ | sock
  · simp [hs] at h
  · rfl

/-- The turns to take once `get_next_fd` has been called: an entry it has taken out of the queue is
still to be handled, a packet it has handed out is still counted. -/
def due (m : MultiSocket) (fd : ℤ) : ℕ :=
  if fd < 0 then
    if m.sockQueue = [] then 0 else 1
  else
    if m.currentFdType = sockTcp then 0 else 2

/-- A call of `get_next_fd` lowers the bound. -/
theorem due_getNextFd_lt {m : MultiSocket} (hpos : ∀ fd ∈ m.tcpSockets, 0 < fd) :
    2 * m.getNextFd.2.backlog + m.getNextFd.2.due m.getNextFd.1 < 2 * m.backlog + 1 := by
  obtain ⟨hle, hlt⟩ := backlog_getNextFd m
  have hkey : m.getNextFd.2.currentFdType = sockTcp → 0 < m.getNextFd.1 := by
    intro ht
    have hmem := mem_of_fresh (handed_getNextFd m ht)
    rw [currSockfd_getNextFd, getNextFd_tcpSockets] at hmem
    exact hpos _ hmem
  have hempty : m.sockQueue = [] → m.getNextFd.1 = -1 ∧ m.getNextFd.2.sockQueue = [] := by
    intro hq
    simp [getNextFd, hq]
  unfold due
  by_cases hneg : m.getNextFd.1 < 0
  · rw [if_pos hneg]
    split_ifs with hq'
    · omega
    · have := hlt (fun hq => hq' (hempty hq).2) fun ht => by
        have := hkey ht
        omega
      omega
  · rw [if_neg hneg]
    split_ifs with ht
    · omega
    · have := hlt (fun hq => by have := (hempty hq).1; omega) ht
      omega

end MultiSocket

namespace Server

/-- The step calls `::select`. -/
def Selects (s : Server) : Prop :=
  s.pc = .selecting ∧ s.multi.sockQueue = []

instance (s : Server) : Decidable s.Selects :=
  inferInstanceAs (Decidable (_ ∧ _))

/-- A bound on the steps until the next `::select`. An entry that `get_next_fd` has taken out of the
queue is still to be handled, a packet it has handed out is still counted. -/
def work (s : Server) : ℕ :=
  2 * s.multi.backlog +
    match s.pc with
    | .top => 1
    | .selecting => if s.multi.sockQueue = [] then 0 else 1
    | .body _ => if s.multi.currentFdType = sockTcp then 0 else 2

/-- Where `get_next_fd` has handed out a `SOCK_TCP`, its packet is ready. -/
def Handed (s : Server) : Prop :=
  ∀ fd, s.pc = .body fd → s.multi.currentFdType = sockTcp →
    s.multi.stale ⟨s.multi.currSockfd, sockTcp⟩ = false

section Step

variable {s s' : Server} {k : Kernel} {evs : List Event}

theorem Handed.step (h : s.step k = .ok (s', evs)) : s'.Handed := by
  intro fd hpc htype
  cases turn_of_step h with
  | poll => exact MultiSocket.handed_getNextFd s.multi htype
  | first => exact MultiSocket.handed_getNextFd s.multi htype
  | select hsel => simp [hsel] at hpc
  | _ => simp at hpc

theorem work_of_body {fd : ℤ} (hpc : s.pc = .body fd) :
    s.work = 2 * s.multi.backlog + if s.multi.currentFdType = sockTcp then 0 else 2 := by
  rw [work, hpc]

/-- A `SOCK_TCP` that is handed out is handled as a packet. -/
theorem ne_sockTcp_of_at (hpos : ∀ fd ∈ s.multi.tcpSockets, 0 < fd)
    (hcurr : ∀ fd, s.pc = .body fd → s.multi.currSockfd = fd) (hh : s.Handed) {fd : ℤ} {b : Branch}
    (hat : s.At fd b) (hb : b ≠ .recv) : s.multi.currentFdType ≠ sockTcp := by
  intro ht
  have hmem := MultiSocket.mem_of_fresh (hh fd hat.1 ht)
  rw [hcurr fd hat.1] at hmem
  refine hb (hat.2.symm.trans ?_)
  have hne : fd ≠ stdinFileno := (hpos fd hmem).ne'
  simp [branch, hne, MultiSocket.isUdp, MultiSocket.isTcpConnection, MultiSocket.hasClosed, ht,
    sockTcp, sockUdp, sockConnect, sockClose]

/-- A step that does not call `::select` lowers the bound. -/
theorem work_step (hm : s.multi.Sound) (hpos : ∀ fd ∈ s.multi.tcpSockets, 0 < fd)
    (hcurr : ∀ fd, s.pc = .body fd → s.multi.currSockfd = fd) (hh : s.Handed)
    (hk : k.newsockfd ∉ s.multi.tcpSockets) (hsel : ¬ s.Selects)
    (h : s.step k = .ok (s', evs)) : s'.work < s.work := by
  have hstay : ∀ {fd b}, s.At fd b → b ≠ .recv → s'.pc = .top →
      s'.multi.backlog = s.multi.backlog → s'.work < s.work := by
    intro fd b hat hb hpc hback
    rw [work_of_body hat.1, if_neg (ne_sockTcp_of_at hpos hcurr hh hat hb), work, hpc, hback]
    dsimp only
    omega
  obtain ⟨hle, hlt⟩ := MultiSocket.backlog_getNextFd s.multi
  cases turn_of_step h with
  | poll hpc =>
    have hdue := MultiSocket.due_getNextFd_lt hpos
    unfold MultiSocket.due at hdue
    rw [work, work, hpc]
    dsimp only
    split_ifs at hdue ⊢ <;> omega
  | first hpc hq =>
    rw [work, work, hpc]
    dsimp only
    rw [if_neg hq]
    split_ifs with ht
    · omega
    · have := hlt hq ht
      omega
  | select hpc hq => exact absurd ⟨hpc, hq⟩ hsel
  | stdin hat => exact hstay hat (by decide) rfl rfl
  | news hat h =>
    refine hstay hat (by decide) rfl ?_
    dsimp only
    rw [handleUdp_multi h]
  | @accept fd multi _ hat h =>
    have hmulti : multi = s.multi.opened k.newsockfd k.uninit := by
      unfold MultiSocket.accept at h
      split_ifs at h
      exact (Prod.mk.inj (Except.ok.inj h)).1.symm
    refine hstay hat (by decide) rfl ?_
    dsimp only
    rw [hmulti, MultiSocket.backlog, MultiSocket.readyPackets_opened hk]
    rfl
  | closed hat => exact hstay hat (by decide) rfl rfl
  | @recv fd s₁ _ hat h =>
    obtain ⟨hle', hlt'⟩ := MultiSocket.backlog_recv s.multi hm
    have hback : s₁.multi.backlog ≤ s.multi.recv.2.2.2.backlog := by
      rcases handleTcpAppRecv_multi h with hm' | hm' <;> rw [hm']
      exact Nat.add_le_add_left (MultiSocket.readyPackets_close_le _ _) _
    rw [work_of_body hat.1, work]
    dsimp only
    split_ifs with ht
    · have := hlt' (hh fd hat.1 ht)
      omega
    · omega

end Step

end Server

namespace World

/-- In every run, wherever the server is, at most two steps for each entry that is queued and each
packet that is ready, and two more, go by before it calls `::select` again. -/
theorem selects_again {udp tcp : ℤ} {buffer : Bytes} {tr₀ tr : List (World × Kernel)} {v w : World}
    (h₀ : Run udp tcp buffer tr₀ v) (h : Runs.Run next v tr w)
    (hno : ∀ q ∈ tr, ¬ q.1.server.Selects) :
    tr.length ≤ 2 * v.server.multi.backlog + 2 := by
  have hhanded : ∀ {tr : List (World × Kernel)} {u : World}, Run udp tcp buffer tr u →
      u.server.Handed := by
    intro tr u hu
    refine Runs.Run.always (P := fun u : World => u.server.Handed) (fun fd hpc => ?_)
      (fun u k u' _ hn => ?_) hu
    · simp [start, Server.start] at hpc
    · obtain ⟨evs, hs, -⟩ := step_of_next hn
      exact Server.Handed.step hs
  have hle := h.length_add_le (I := fun u => u.Consistent ∧ u.server.multi.Sound ∧ u.server.Handed)
    (C := fun u _ => ¬ u.server.Selects) (fun u => u.server.work) (fun _ _ => 0)
    ⟨Run.consistent h₀, Run.sound h₀, hhanded h₀⟩ (fun u k u' hu hn => ?_)
    (fun u k u' hu hsel hn => ?_) hno
  · rw [List.map_const', List.sum_replicate, smul_zero, Nat.add_zero] at hle
    refine (Nat.le_of_add_right_le hle).trans (Nat.add_le_add_left ?_ _)
    split
    · omega
    · split_ifs <;> omega
    · split_ifs <;> omega
  · obtain ⟨evs, hs, -⟩ := step_of_next hn
    obtain ⟨as, -, hexec⟩ := exec_of_next hn
    exact ⟨hu.1.next hn, hu.2.1.exec hexec, Server.Handed.step hs⟩
  · obtain ⟨evs, hs, -, -, hopen⟩ := step_of_next hn
    exact Server.work_step hu.2.1 hu.1.pos hu.1.curr hu.2.2
      (fun hmem => hopen (.inr (.inr (.inr hmem)))) hsel hs

set_option maxRecDepth 10000 in
/-- A connection is waiting to be accepted. -/
theorem selects_again_connect : ∃ tr₀ v tr w, Run 3 4 [] tr₀ v ∧ Runs.Run next v tr w ∧
    tr.map Prod.snd = [.quiet, .connect 5, .quiet] ∧ w.server.Selects ∧
      v.server.multi.backlog = 1 ∧ tr.length ≤ 2 * v.server.multi.backlog + 2 := by
  have hready : ∃ v ∈ Runs.exec next (start 3 4 []) [.quiet, .ready {4} []],
      v.server.multi.backlog = 1 ∧
        ∃ x ∈ Runs.exec (Runs.record next) ([], v) [.quiet, .connect 5, .quiet],
          (∀ q ∈ x.1, ¬ q.1.server.Selects) ∧ x.2.server.Selects := by
    decide +kernel
  obtain ⟨tr₀, v, h₀, -, hback, hrec⟩ := Runs.exists_run_of_exec hready
  obtain ⟨tr, w, hr, htr, hno, hsel⟩ := Runs.exists_run_of_record
    (P := fun (tr : List (World × Kernel)) (w : World) =>
      (∀ q ∈ tr, ¬ q.1.server.Selects) ∧ w.server.Selects) hrec
  exact ⟨tr₀, v, tr, w, h₀, hr, htr, hsel, hback, selects_again h₀ hr hno⟩

end World

end NewsServer
