import NewsServer.Proofs.Descriptors
import NewsServer.Proofs.Stranded

/-!
# The descriptors the subscriber uses

The calls of a subscriber, from `socket` on. Each is made with a descriptor that is open then: what
`select` has closed is neither watched nor sent to. Where `main` ends behind its loop, its
connection has been closed once, by `select` or by `close` (`hangs_up`).
-/

namespace NewsServer

open Handles (Call)
open Server (stdinFileno)

def Shown.calls : Shown → List (Call ℤ)
  | .call e => e.calls
  | _ => []

/-- The calls of `MultiSocket::connect`: `socket`, `setsockopt` and `::connect`. -/
def connectCalls (sockfd : ℤ) : List (Call ℤ) :=
  [.opens sockfd, .uses sockfd, .uses sockfd]

/-- What a step shows, where it goes on. -/
def Client.shows (R : RealText) (c : Client) (k : ClientKernel) : List Shown :=
  match c.step R k with
  | .error _ => []
  | .ok (_, evs) => evs

/-- The calls of a step that shows `evs`. -/
def Client.calls (c : Client) (k : ClientKernel) (evs : List Shown) : List (Call ℤ) :=
  match c.pc with
  | .reply => if c.multi.sockQueue = [] then c.multi.roundCalls k.pass else []
  | .selecting => if c.multi.sockQueue = [] then c.multi.roundCalls k.pass else []
  | .next => []
  | .body sockfd =>
    (if sockfd = stdinFileno then [.uses sockfd] else []) ++ evs.flatMap Shown.calls

def Terminal.calls (R : RealText) (t : Terminal) (k : ClientKernel) : List (Call ℤ) :=
  t.client.calls k (t.client.shows R k)

/-- The subscriber has no other socket than that of its connection, and watches nothing that is not
open. -/
structure Plugged (sockfd : ℤ) (c : Client) : Prop where
  udp_eq : c.multi.sockfdUdp = -1
  tcp_eq : c.multi.sockfdTcp = -1
  only : ∀ fd ∈ c.multi.tcpSockets, fd = sockfd
  reads : c.multi.readFds ⊆ c.multi.openFds {stdinFileno}

section Step

variable {R : RealText} {sockfd : ℤ} {c c' : Client} {k : ClientKernel} {evs : List Shown}

theorem Plugged.apart (h : Plugged sockfd c) (hpos : 0 < sockfd) :
    ∀ fd ∈ c.multi.tcpSockets, fd ∉ ({stdinFileno} : Finset ℤ) := by
  intro fd hfd hstdin
  rw [h.only fd hfd, Finset.mem_singleton, stdinFileno] at hstdin
  omega

theorem calls_shown (evs : List Event) :
    (evs.map Shown.call).flatMap Shown.calls = evs.flatMap Event.calls :=
  List.flatMap_map ..

theorem calls_commandAnswer (type : UInt8) :
    (Client.commandAnswer type).flatMap Shown.calls = [] := by
  unfold Client.commandAnswer
  split_ifs <;> rfl

theorem uses_of_send {m : MultiSocket} {fd n : ℤ} {buf : Bytes} {sent : List Event}
    (h : m.send fd buf = .ok (n, sent)) :
    ∀ call ∈ sent.flatMap Event.calls, ∃ x ∈ m.tcpSockets, call = .uses x := by
  by_cases hmem : fd ∈ m.tcpSockets
  · by_cases hlen : buf.length + 4 ≤ tcpBufferSize
    · rw [send_of_mem hmem hlen] at h
      obtain ⟨-, rfl⟩ := Prod.mk.inj (Except.ok.inj h)
      intro call hcall
      exact ⟨fd, hmem, List.mem_singleton.1 hcall⟩
    · rw [send_of_mem_of_lt hmem (not_le.1 hlen)] at h
      simp at h
  · rw [send_of_notMem hmem] at h
    obtain ⟨-, rfl⟩ := Prod.mk.inj (Except.ok.inj h)
    simp

theorem uses_of_handleStdin {line : Option Bytes} (h : c.handleStdin line = .ok (c', evs)) :
    ∀ call ∈ evs.flatMap Shown.calls, ∃ x ∈ c.multi.tcpSockets, call = .uses x := by
  unfold Client.handleStdin at h
  dsimp only at h
  split_ifs at h with hlen hempty hexit
  · obtain ⟨-, rfl⟩ := Prod.mk.inj (Except.ok.inj h)
    simp
  rcases hp : parseSubscriptionCmd c.type c.topic _ maxCommandSize with _ | ⟨status, type, topic⟩
    <;> rw [hp] at h
  · simp at h
  dsimp only at h
  split_ifs at h with hstatus
  · obtain ⟨-, rfl⟩ := Prod.mk.inj (Except.ok.inj h)
    simp [Shown.calls]
  rcases hsend : c.multi.send c.sockfdTcp _ with e | ⟨n, sent⟩ <;> rw [hsend] at h
  · simp at h
  dsimp only at h
  split_ifs at h
  obtain ⟨-, rfl⟩ := Prod.mk.inj (Except.ok.inj h)
  rw [List.flatMap_append, calls_shown, calls_commandAnswer, List.append_nil]
  exact uses_of_send hsend

theorem calls_of_handleNews {beyond : Bytes} (h : c.handleNews R beyond = .ok (c', evs)) :
    evs.flatMap Shown.calls = [] := by
  unfold Client.handleNews at h
  rcases c.multi.recv with ⟨size, out, copied, multi⟩
  dsimp only at h
  split_ifs at h
  rcases hp : (parseSubscriberNews R _ _ c.news).1 with _ | news <;> rw [hp] at h
  · simp at h
  · obtain ⟨-, rfl⟩ := Prod.mk.inj (Except.ok.inj h)
    rfl

/-- A step is a round of `select`, or it uses what is open, keeps the sockets and watches nothing
else but standard input. -/
theorem Turn.kept (h : Turn R c k c' evs) :
    c' = (c.round k.pass).1 ∧ c.calls k evs = c.multi.roundCalls k.pass ∨
      ((c'.multi.sockfdUdp = c.multi.sockfdUdp ∧ c'.multi.sockfdTcp = c.multi.sockfdTcp) ∧
        (∀ fd, fd ∈ c'.multi.tcpSockets ↔ fd ∈ c.multi.tcpSockets) ∧
        c'.multi.readFds ⊆ insert stdinFileno c.multi.readFds) ∧
      ∀ call ∈ c.calls k evs, ∃ x ∈ c.multi.openFds {stdinFileno}, call = .uses x := by
  cases h with
  | round hpc hq =>
    refine .inl ⟨rfl, ?_⟩
    unfold Client.calls
    rcases hpc with hpc | hpc <;> rw [hpc] <;> exact if_pos hq
  | reply hpc hq h =>
    have hnil : c.calls k [] = [] := by
      unfold Client.calls
      rw [hpc]
      exact if_neg hq
    have hsock : ∀ fd, fd ∈ c.multi.getNextFd.2.recv.2.2.2.tcpSockets ↔
        fd ∈ c.multi.tcpSockets := fun fd => by
      rw [Watch.mem_tcpSockets_recv, MultiSocket.getNextFd_tcpSockets]
    rw [hnil, (authenticate_frame h).1]
    refine .inr ⟨⟨?_, hsock, ?_⟩, by simp⟩
    · rw [Watch.recv_frame, MultiSocket.getNextFd_frame]
      exact ⟨rfl, rfl⟩
    · rw [Watch.recv_frame, MultiSocket.getNextFd_frame]
      exact subset_rfl
  | poll hpc =>
    have hnil : c.calls k [] = [] := by
      unfold Client.calls
      rcases hpc with hpc | ⟨hpc, hq⟩
      · rw [hpc]
      · rw [hpc]
        exact if_neg hq
    have hmulti : c.nextFd.multi = c.multi.getNextFd.2 := rfl
    rw [hnil, hmulti, MultiSocket.getNextFd_frame]
    exact .inr ⟨⟨⟨rfl, rfl⟩, fun _ => .rfl, Finset.subset_insert _ _⟩, by simp⟩
  | line hpc h =>
    have hcalls : c.calls k evs = .uses stdinFileno :: evs.flatMap Shown.calls := by
      unfold Client.calls
      rw [hpc]
      rfl
    rw [hcalls, (handleStdin_frame h).1]
    refine .inr ⟨⟨⟨rfl, rfl⟩, fun _ => .rfl, Finset.subset_insert _ _⟩, ?_⟩
    refine List.forall_mem_cons.2 ⟨⟨stdinFileno, ?_, rfl⟩, fun call hcall => ?_⟩
    · exact MultiSocket.mem_openFds.2 (.inl (Finset.mem_singleton_self _))
    · obtain ⟨x, hx, rfl⟩ := uses_of_handleStdin h call hcall
      exact ⟨x, MultiSocket.mem_openFds.2 (.inr hx), rfl⟩
  | news hpc hfd _ h =>
    have hnil : c.calls k evs = [] := by
      unfold Client.calls
      rw [hpc]
      dsimp only
      rw [if_neg hfd, calls_of_handleNews h]
      rfl
    rw [hnil, (handleNews_multi h).1]
    refine .inr ⟨⟨?_, Watch.mem_tcpSockets_recv c.multi, ?_⟩, by simp⟩
    · rw [Watch.recv_frame]
      exact ⟨rfl, rfl⟩
    · rw [Watch.recv_frame]
      exact Finset.subset_insert _ _

theorem Plugged.step (h : Plugged sockfd c) (hpos : 0 < sockfd) (ht : Turn R c k c' evs) :
    Plugged sockfd c' ∧ Handles.calls (c.multi.openFds {stdinFileno}) (c.calls k evs) =
      some (c'.multi.openFds {stdinFileno}) := by
  rcases ht.kept with ⟨rfl, hcalls⟩ | ⟨⟨⟨hudp, htcp⟩, hsock, hreads⟩, huses⟩
  · obtain ⟨⟨hudp, htcp⟩, hsub, taken, hread, hopen⟩ :=
      exists_taken_round c.multi (h.apart hpos) k.pass
    refine ⟨⟨hudp.trans h.udp_eq, htcp.trans h.tcp_eq, fun fd hfd => h.only fd (hsub fd hfd), ?_⟩,
      ?_⟩
    · exact hread.symm ▸ hopen.symm ▸ Finset.sdiff_subset_sdiff h.reads subset_rfl
    · rw [hcalls]
      exact calls_roundCalls h.reads (h.apart hpos) k.pass
  · have hopen : c'.multi.openFds {stdinFileno} = c.multi.openFds {stdinFileno} :=
      MultiSocket.openFds_congr hsock
    refine ⟨⟨hudp.trans h.udp_eq, htcp.trans h.tcp_eq, fun fd hfd => h.only fd ((hsock fd).1 hfd),
      ?_⟩, ?_⟩
    · rw [hopen]
      refine hreads.trans (Finset.insert_subset ?_ h.reads)
      exact MultiSocket.mem_openFds.2 (.inl (Finset.mem_singleton_self _))
    · rw [hopen]
      exact Handles.calls_of_uses huses

theorem opens_notMem_visit (p : Pass) (fd t x : ℤ) (m : MultiSocket) :
    .opens x ∉ (m.visit p fd t).2.2.flatMap Event.calls := by
  rcases hs : m.tcpSockets[fd]? with _ | sock
  · rw [MultiSocket.visit_of_none hs]
    exact List.not_mem_nil
  · by_cases hc : MultiSocket.Closes sock (p.got fd)
    · rw [MultiSocket.visit_of_closes hs hc]
      simp [Event.calls]
    · rw [MultiSocket.visit_of_open hs hc]
      exact List.not_mem_nil

theorem opens_notMem_passCalls (p : Pass) (selected : Finset ℤ) (x : ℤ) :
    ∀ (fds : List ℤ) (t : ℤ) (m : MultiSocket),
      .opens x ∉ MultiSocket.passCalls p selected fds t m
  | [], _, _ => List.not_mem_nil
  | fd :: fds, t, m => by
    rw [MultiSocket.passCalls]
    by_cases hsel : fd ∈ selected
    · rw [if_pos hsel, List.mem_append, List.mem_append, not_or, not_or]
      refine ⟨⟨?_, opens_notMem_visit p fd t x m⟩, opens_notMem_passCalls p selected x fds _ _⟩
      split_ifs <;> simp
    · rw [if_neg hsel]
      exact opens_notMem_passCalls p selected x fds t m

/-- Only `connect` opens a socket. -/
theorem Turn.opens_notMem (h : Turn R c k c' evs) (fd : ℤ) : .opens fd ∉ c.calls k evs := by
  rcases h.kept with ⟨-, hcalls⟩ | ⟨-, huses⟩
  · rw [hcalls, MultiSocket.roundCalls, List.mem_append, not_or]
    exact ⟨by simp, opens_notMem_passCalls _ _ fd _ _ _⟩
  · intro hmem
    obtain ⟨x, -, hx⟩ := huses _ hmem
    simp at hx

theorem calls_of_error {e : Ending} (h : c.step R k = .error e) :
    ∀ call ∈ c.calls k (c.shows R k), call = .uses stdinFileno := by
  have hnil : c.shows R k = [] := by rw [Client.shows, h]
  rw [hnil]
  unfold Client.calls
  unfold Client.step at h
  rcases hpc : c.pc with _ | _ | _ | fd <;> rw [hpc] at h <;> dsimp only at h ⊢
  · split_ifs at h ⊢
    simp
  · split_ifs at h
  · simp at h
  · split_ifs with hfd
    · simp [hfd]
    · simp

theorem calls_finish_eq (h : Plugged sockfd c) : c.finish.2.flatMap Shown.calls =
    (c.multi.tcpSockets.keys.map Event.closed).flatMap Event.calls := by
  have hneg : ¬ c.multi.sockfdTcp ≥ 0 ∧ ¬ c.multi.sockfdUdp ≥ 0 := by
    rw [h.tcp_eq, h.udp_eq]
    decide
  rw [Client.finish, calls_shown, MultiSocket.closeAll, if_neg hneg.1, if_neg hneg.2,
    List.append_nil, List.append_nil]

end Step

namespace Terminal

variable {R : RealText} {t₀ t : Terminal} {id : Bytes} {sockfd : ℤ} {u : Uninit} {vars : Locals}
  {tr : List (Terminal × ClientKernel)}

/-- The calls of a run, those of its start included. -/
def runCalls (R : RealText) (sockfd : ℤ) (t₀ : Terminal) (tr : List (Terminal × ClientKernel)) :
    List (Call ℤ) :=
  connectCalls sockfd ++ t₀.shown.flatMap Shown.calls ++ tr.flatMap fun q => q.1.calls R q.2

theorem turn_shows {t' : Terminal} {k : ClientKernel} (hn : next R t k = some t') :
    Turn R t.client k t'.client (t.client.shows R k) := by
  unfold next step at hn
  rcases hs : t.client.step R k with e | ⟨c, evs⟩ <;> rw [hs] at hn
  · simp [Except.toOption] at hn
  · simp only [Except.toOption, Option.some.injEq] at hn
    subst hn
    rw [Client.shows, hs]
    exact turn_of_step hs

theorem Run.plugged (h0 : Client.start id sockfd u vars = .ok (t₀.client, t₀.shown))
    (hpos : 0 < sockfd) (h : Run R t₀ tr t) : Plugged sockfd t.client ∧
      Handles.calls {stdinFileno} (runCalls R sockfd t₀ tr) =
        some (t.client.multi.openFds {stdinFileno}) ∧
      (runCalls R sockfd t₀ tr).count (.opens sockfd) = 1 := by
  induction h with
  | start =>
    have hcalls : runCalls R sockfd t₀ [] = [.opens sockfd, .uses sockfd, .uses sockfd,
        .uses sockfd] := by
      rw [eq_connected_of_start h0]
      rfl
    have hmulti : t₀.client.multi = MultiSocket.new.opened sockfd u := by
      rw [eq_connected_of_start h0]
      rfl
    have hopen : t₀.client.multi.openFds {stdinFileno} = {sockfd, stdinFileno} := by
      rw [hmulti]
      refine MultiSocket.openFds_insert (m := .new) fun x => ?_
      rw [MultiSocket.opened, Std.TreeMap.mem_insert, Std.compare_eq_iff_eq, eq_comm]
    have hnot : sockfd ∉ ({stdinFileno} : Finset ℤ) := by
      rw [Finset.mem_singleton, stdinFileno]
      omega
    refine ⟨⟨by rw [hmulti]; rfl, by rw [hmulti]; rfl, fun fd hfd => ?_, ?_⟩, ?_, ?_⟩
    · rw [hmulti, MultiSocket.opened, Std.TreeMap.mem_insert, Std.compare_eq_iff_eq] at hfd
      rcases hfd with rfl | hfd
      · rfl
      · simp [MultiSocket.new] at hfd
    · rw [hopen, hmulti]
      simp [MultiSocket.opened, MultiSocket.new]
    · rw [hcalls, hopen, Handles.calls_cons, Handles.call_opens hnot, Option.bind_some]
      exact Handles.calls_of_uses (by simp)
    · rw [hcalls]
      simp
  | @step tr v t k hr hn ih =>
    obtain ⟨hplug, hcalls, hcount⟩ := ih
    have hturn := turn_shows hn
    obtain ⟨hplug', hstep⟩ := hplug.step hpos hturn
    have hruns : runCalls R sockfd t₀ (tr ++ [(v, k)]) =
        runCalls R sockfd t₀ tr ++ v.calls R k := by
      simp [runCalls]
    refine ⟨hplug', ?_, ?_⟩
    · rw [hruns, Handles.calls_trans hcalls]
      exact hstep
    · rw [hruns, List.count_append, hcount, calls,
        List.count_eq_zero_of_not_mem (hturn.opens_notMem sockfd)]

/-- In every run of a subscriber, each call with a descriptor is made while the descriptor is open,
and nothing is watched that is not open. Where the subscriber ends behind its loop, at `exit` or at
the end of the connection, only standard input is open once it has closed its `MultiSocket`, and the
connection has been closed once. -/
theorem hangs_up (h0 : Client.start id sockfd u vars = .ok (t₀.client, t₀.shown))
    (hpos : 0 < sockfd) (h : Run R t₀ tr t) :
    Handles.calls {stdinFileno} (runCalls R sockfd t₀ tr) =
        some (t.client.multi.openFds {stdinFileno}) ∧
      t.client.multi.readFds ⊆ t.client.multi.openFds {stdinFileno} ∧
      ∀ k, t.step R k = .error .exit ∨ t.step R k = .error .closed →
        Handles.calls {stdinFileno} (runCalls R sockfd t₀ tr ++ t.calls R k ++
          t.client.finish.2.flatMap Shown.calls) = some {stdinFileno} ∧
        (runCalls R sockfd t₀ tr ++ t.calls R k ++
          t.client.finish.2.flatMap Shown.calls).count (.closes sockfd) = 1 := by
  obtain ⟨hplug, hcalls, hcount⟩ := Run.plugged h0 hpos h
  refine ⟨hcalls, hplug.reads, fun k hend => ?_⟩
  obtain ⟨e, he⟩ : ∃ e, t.client.step R k = .error e := by
    unfold step at hend
    rcases hs : t.client.step R k with e | ⟨c, evs⟩ <;> rw [hs] at hend
    · exact ⟨e, rfl⟩
    · simp at hend
  have hlast : ∀ call ∈ t.calls R k, call = .uses stdinFileno := calls_of_error he
  have hstdin : stdinFileno ∈ t.client.multi.openFds {stdinFileno} :=
    MultiSocket.mem_openFds.2 (.inl (Finset.mem_singleton_self _))
  have hall : Handles.calls {stdinFileno} (runCalls R sockfd t₀ tr ++ t.calls R k ++
      t.client.finish.2.flatMap Shown.calls) = some {stdinFileno} := by
    rw [List.append_assoc, Handles.calls_trans hcalls, Handles.calls_trans
      (Handles.calls_of_uses fun call hcall => ⟨_, hstdin, hlast call hcall⟩),
      calls_finish_eq hplug]
    exact calls_keys (hplug.apart hpos)
  refine ⟨hall, ?_⟩
  have hbalance := Handles.count_eq hall sockfd
  have hopens : (t.calls R k).count (.opens sockfd) = 0 :=
    List.count_eq_zero_of_not_mem fun hmem => by simpa using hlast _ hmem
  have hfinish : (t.client.finish.2.flatMap Shown.calls).count (.opens sockfd) = 0 := by
    rw [calls_finish_eq hplug]
    exact List.count_eq_zero_of_not_mem (by simp [Event.calls])
  rw [List.count_append, List.count_append, hcount, hopens, hfinish] at hbalance
  omega

/-- The server confirms the `AUTH`, and then closes the connection. -/
def closedInputs : List ClientKernel :=
  [.chunk 5 (framing.enc [typeAuth]), .quiet, .quiet, .chunk 5 [], .quiet]

theorem hangs_up_closed : ∃ tr t, Run noReals (.connected [65] 5 default zeroLocals) tr t ∧
    tr.map Prod.snd = closedInputs ∧ t.step noReals .quiet = .error .closed ∧
      (runCalls noReals 5 (.connected [65] 5 default zeroLocals) tr ++ t.calls noReals .quiet ++
        t.client.finish.2.flatMap Shown.calls).count (.closes 5) = 1 := by
  have hexec : ∃ t ∈ Runs.exec (next noReals) (.connected [65] 5 default zeroLocals) closedInputs,
      t.client.pc = .body 5 ∧ t.client.multi.hasClosed = true := by
    decide +kernel
  obtain ⟨tr, t, hr, htr, hpc, hclosed⟩ := Runs.exists_run_of_exec hexec
  have hstep : t.step noReals .quiet = .error .closed := by
    rw [step, Client.step, hpc]
    simp [Client.loopBody, hclosed, stdinFileno]
  have hstart : Client.start [65] 5 default zeroLocals = .ok _ :=
    Client.start_eq (by decide) (by decide) default zeroLocals
  have hends := (hangs_up hstart (by decide) hr).2.2
  exact ⟨tr, t, hr, htr, hstep, (hends .quiet (.inr hstep)).2⟩

end Terminal

end NewsServer
