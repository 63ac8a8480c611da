import NewsServer.Proofs.Drain
import NewsServer.Proofs.Hangup
import NewsServer.Proofs.Dialogue

/-!
# The subscriber's way back to `select`

At every turn of the inner loop an entry leaves the queue or a packet leaves the decoder, as in the
server's loop. After a line that is no command the subscriber waits for another line. So it calls
`::select` again after a number of steps that the queue, the decoder and the lines it reads bound
(`waits_again`).
-/

namespace NewsServer

open Server (stdinFileno)

namespace Client

/-- The step calls `::select`. -/
def Selects (c : Client) : Prop :=
  (c.pc = .reply ∨ c.pc = .selecting) ∧ c.multi.sockQueue = []

instance (c : Client) : Decidable c.Selects :=
  inferInstanceAs (Decidable (_ ∧ _))

/-- A bound on the steps until the next `::select`, if nothing is typed. -/
def work (c : Client) : ℕ :=
  2 * c.multi.backlog +
    match c.pc with
    | .reply => if c.multi.sockQueue = [] then 0 else 1
    | .selecting => if c.multi.sockQueue = [] then 0 else 1
    | .next => 1
    | .body _ => if c.multi.currentFdType = sockTcp then 0 else 2

/-- Where `get_next_fd` has handed out a `SOCK_TCP`, its packet is ready. -/
structure Handed (c : Client) : Prop where
  curr : ∀ fd, c.pc = .body fd → c.multi.currSockfd = fd
  fresh : ∀ fd, c.pc = .body fd → c.multi.currentFdType = sockTcp →
    c.multi.stale ⟨c.multi.currSockfd, sockTcp⟩ = false

end Client

section Step

variable {R : RealText} {c c' : Client} {k : ClientKernel} {evs : List Shown}

theorem handed_of_pc (hpc : ∀ fd, c.pc ≠ .body fd) : c.Handed :=
  ⟨fun fd h => absurd h (hpc fd), fun fd h => absurd h (hpc fd)⟩

theorem Turn.handed (h : Turn R c k c' evs) (hh : c.Handed) : c'.Handed := by
  cases h with
  | round hpc =>
    refine handed_of_pc fun fd hbody => ?_
    have hpc' : c.pc = .body fd := hbody
    rcases hpc with hpc | hpc <;> simp [hpc] at hpc'
  | reply _ _ h =>
    refine handed_of_pc fun fd hbody => ?_
    simp [(authenticate_frame h).2.2] at hbody
  | poll =>
    refine ⟨fun fd hbody => ?_, fun fd _ htype => MultiSocket.handed_getNextFd c.multi htype⟩
    simp only [Client.nextFd] at hbody ⊢
    split_ifs at hbody
    rw [currSockfd_getNextFd]
    exact ClientPc.body.inj hbody
  | line hpc h =>
    obtain ⟨hmulti, -, hpc', -⟩ := handleStdin_frame h
    rcases hpc' with hpc' | hpc'
    · refine ⟨fun fd hbody => ?_, fun fd hbody => ?_⟩ <;> rw [hmulti]
      · exact hh.curr fd (hpc'.symm.trans hbody)
      · exact hh.fresh fd (hpc'.symm.trans hbody)
    · exact handed_of_pc fun fd hbody => by simp [hpc'] at hbody
  | news _ _ _ h =>
    exact handed_of_pc fun fd hbody => by simp [(handleNews_multi h).2.2] at hbody

/-- A step that does not call `::select` lowers the bound, but for the line it reads. -/
theorem Turn.work_lt (h : Turn R c k c' evs) (hm : c.multi.Sound)
    (hpos : ∀ fd ∈ c.multi.tcpSockets, 0 < fd) (hh : c.Handed) (hsel : ¬ c.Selects) :
    c'.work < c.work + (c.typing k).toList.length := by
  cases h with
  | round hpc hq => exact absurd ⟨hpc, hq⟩ hsel
  | @reply c' hpc hq h =>
    obtain ⟨hmulti, -, hpc'⟩ := authenticate_frame h
    obtain ⟨sock, hs, hready⟩ := ready_of_authenticate h
    have hfresh : c.multi.getNextFd.2.stale ⟨c.multi.getNextFd.2.currSockfd, sockTcp⟩ = false := by
      simp [MultiSocket.stale, MultiSocket.getNextFd_tcpSockets, hs, hready]
    have hrecv := (MultiSocket.backlog_recv _ hm.getNextFd).2 hfresh
    have hnext := (MultiSocket.backlog_getNextFd c.multi).1
    have hback : c'.multi.backlog = c.multi.getNextFd.2.recv.2.2.2.backlog := by
      rw [hmulti]
      rfl
    rw [Client.work, Client.work, hpc, hpc', hback]
    dsimp only
    rw [if_neg hq]
    split_ifs <;> omega
  | poll hpc =>
    have hdue := MultiSocket.due_getNextFd_lt hpos
    have hwork : c.work = 2 * c.multi.backlog + 1 := by
      rcases hpc with hpc | ⟨hpc, hq⟩
      · rw [Client.work, hpc]
      · rw [Client.work, hpc]
        exact congrArg (2 * c.multi.backlog + ·) (if_neg hq)
    have hnext : c.nextFd.work = 2 * c.multi.getNextFd.2.backlog +
        c.multi.getNextFd.2.due c.multi.getNextFd.1 := by
      simp only [Client.work, Client.nextFd, MultiSocket.due, ← not_lt]
      by_cases hneg : c.multi.getNextFd.1 < 0 <;> simp [hneg]
    rw [hwork, hnext]
    exact Nat.lt_add_right _ hdue
  | line hpc h =>
    obtain ⟨s, hs, -⟩ := handleStdin_shown h
    obtain ⟨hmulti, -, hpc', -⟩ := handleStdin_frame h
    have hone : (c.typing k).toList.length = 1 := by
      rw [Client.typing, if_pos hpc, hs]
      rfl
    -- standard input is no socket
    have htype : c.multi.currentFdType ≠ sockTcp := by
      intro ht
      have hmem := MultiSocket.mem_of_fresh (hh.fresh _ hpc ht)
      rw [hh.curr _ hpc] at hmem
      exact lt_irrefl _ (hpos _ hmem)
    rw [hone]
    rcases hpc' with hpc' | hpc'
    · rw [Client.work, Client.work, hmulti, hpc']
      exact Nat.lt_succ_self _
    · rw [Client.work, Client.work, hmulti, hpc', hpc]
      dsimp only
      rw [if_neg htype]
      omega
  | news hpc hfd _ h =>
    obtain ⟨hmulti, -, hpc'⟩ := handleNews_multi h
    obtain ⟨hle, hlt⟩ := MultiSocket.backlog_recv c.multi hm
    rw [Client.work, Client.work, hmulti, hpc', hpc]
    dsimp only
    split_ifs with ht
    · have := hlt (hh.fresh _ hpc ht)
      omega
    · omega

end Step

namespace Terminal

variable {R : RealText} {t₀ v t : Terminal} {tr₀ tr : List (Terminal × ClientKernel)}

theorem length_typed (tr : List (Terminal × ClientKernel)) :
    (typed tr).length = (tr.map fun q => (q.1.client.typing q.2).toList.length).sum := by
  induction tr with
  | nil => rfl
  | cons q tr ih =>
    rw [typed, List.filterMap_cons, List.map_cons, List.sum_cons, ← ih]
    rcases q.1.client.typing q.2 with _ | s
    · exact (Nat.zero_add _).symm
    · exact Nat.add_comm _ 1

theorem Run.handed (h0 : t₀.Started) (h : Run R t₀ tr t) : t.client.Handed := by
  obtain ⟨id, sockfd, u, vars, -, -, rfl⟩ := h0.eq_connected
  refine Runs.Run.always (P := fun v : Terminal => v.client.Handed)
    (handed_of_pc fun fd hbody => ?_) (fun v k v' hv hn => (turn_shows hn).handed hv) h
  simp [connected] at hbody

/-- In every run of a subscriber, wherever it is, at most two steps for each entry that is queued
and each packet that is ready, one for each line it reads, and two more, go by before it calls
`::select` again. -/
theorem waits_again (h0 : t₀.Started) (h₀ : Run R t₀ tr₀ v) (h : Runs.Run (next R) v tr t)
    (hno : ∀ q ∈ tr, ¬ q.1.client.Selects) :
    tr.length ≤ 2 * v.client.multi.backlog + 2 + (typed tr).length := by
  have hsound := Run.sound h0 h₀
  have hhanded := Run.handed h0 h₀
  obtain ⟨id, sockfd, u, vars, hpos, hstart⟩ := h0
  have hle := h.length_add_le
    (I := fun u => Plugged sockfd u.client ∧ u.client.multi.Sound ∧ u.client.Handed)
    (C := fun u _ => ¬ u.client.Selects) (fun u => u.client.work)
    (fun u k => (u.client.typing k).toList.length)
    ⟨(Run.plugged hstart hpos h₀).1, hsound, hhanded⟩
    (fun u k u' hu hn => ?_) (fun u k u' hu hsel hn => ?_) hno
  · rw [← length_typed] at hle
    have hwork : v.client.work ≤ 2 * v.client.multi.backlog + 2 := by
      refine Nat.add_le_add_left ?_ _
      split
      · split_ifs <;> omega
      · split_ifs <;> omega
      · omega
      · split_ifs <;> omega
    omega
  · have hturn := turn_shows hn
    obtain ⟨as, hexec⟩ := hturn.exec
    exact ⟨(hu.1.step hpos hturn).1, hu.2.1.exec hexec, hturn.handed hu.2.2⟩
  · refine (turn_shows hn).work_lt hu.2.1 (fun fd hfd => ?_) hu.2.2 hsel
    rw [hu.1.only fd hfd]
    exact hpos

set_option maxRecDepth 10000 in
/-- Two lines are typed before the queue is empty. -/
theorem waits_again_typed : ∃ tr₀ v tr t,
    Run noReals (.connected [65] 5 default zeroLocals) tr₀ v ∧ Runs.Run (next noReals) v tr t ∧
      tr.map Prod.snd = dialogueInputs.drop 4 ++ [.quiet] ∧ t.client.Selects ∧
      v.client.multi.backlog = 1 ∧ (typed tr).length = 2 ∧
      tr.length ≤ 2 * v.client.multi.backlog + 2 + (typed tr).length := by
  have hready : ∃ v ∈ Runs.exec (next noReals) (.connected [65] 5 default zeroLocals)
      (dialogueInputs.take 4), v.client.multi.backlog = 1 ∧
        ∃ x ∈ Runs.exec (Runs.record (next noReals)) ([], v) (dialogueInputs.drop 4 ++ [.quiet]),
          (∀ q ∈ x.1, ¬ q.1.client.Selects) ∧ x.2.client.Selects ∧ (typed x.1).length = 2 := by
    decide +kernel
  obtain ⟨tr₀, v, h₀, -, hback, hrec⟩ := Runs.exists_run_of_exec hready
  obtain ⟨tr, t, hr, htr, hno, hsel, htyped⟩ := Runs.exists_run_of_record
    (P := fun (tr : List (Terminal × ClientKernel)) (t : Terminal) =>
      (∀ q ∈ tr, ¬ q.1.client.Selects) ∧ t.client.Selects ∧ (typed tr).length = 2) hrec
  have hstarted : Started (.connected [65] 5 default zeroLocals) :=
    started_connected (by decide) (by decide) (by decide) default zeroLocals
  exact ⟨tr₀, v, tr, t, h₀, hr, htr, hsel, hback, htyped, waits_again hstarted h₀ hr hno⟩

end Terminal

end NewsServer
