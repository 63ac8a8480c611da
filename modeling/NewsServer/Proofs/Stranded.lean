import NewsServer.Proofs.ClientLoop
import NewsServer.Proofs.NewsCodec
import NewsServer.Proofs.ReturnedSelect

/-!
# Nothing waits while a loop blocks

When the server or a subscriber blocks in `::select`, every frame that came in has been handed on,
with one exception: `read_current_packet` does not finish a frame of no bytes at its header, but at
the byte that follows (`stranded_iff`). So a loop never blocks over a complete frame exactly if no
connection has such a header behind its frames when `get_next_fd` finds nothing more
(`noneStranded_iff`).
-/

namespace NewsServer

open Memory
open BufferedTcpSocket (next?_pending)

namespace MultiSocket

/-- A socket with a packet ready has a `SOCK_TCP` entry in the queue. -/
def Queued (m : MultiSocket) : Prop :=
  ∀ (fd : ℤ) (sock : BufferedTcpSocket), m.tcpSockets[fd]? = some sock → sock.packetReady →
    ⟨fd, sockTcp⟩ ∈ m.sockQueue

/-- A connection has sent a complete frame that has not been handed on. -/
def Stranded (m : MultiSocket) : Prop :=
  ∃ (fd : ℤ) (sock : BufferedTcpSocket), m.tcpSockets[fd]? = some sock ∧
    (sock.packets ≠ [] ∨ framing.Whole sock.pending)

/-- A connection has sent the header of an empty frame, and nothing behind it. -/
def HeaderOnly (m : MultiSocket) : Prop :=
  ∃ (fd : ℤ) (sock : BufferedTcpSocket), m.tcpSockets[fd]? = some sock ∧
    sock.pending = framing.enc []

instance (m : MultiSocket) : Decidable m.HeaderOnly :=
  decidable_of_iff (∃ e ∈ m.tcpSockets.toList, e.2.pending = framing.enc []) <| by
    simp only [Prod.exists, Std.TreeMap.mem_toList_iff_getElem?_eq_some, HeaderOnly]

/-- `get_next_fd` finds nothing, and leaves nothing. -/
def Drained (m : MultiSocket) : Prop :=
  m.getNextFd.1 < 0 ∧ m.getNextFd.2.sockQueue = []

instance (m : MultiSocket) : Decidable m.Drained :=
  inferInstanceAs (Decidable (_ ∧ _))

section Sockets

variable {m m' : MultiSocket}

/-- All that a socket can hold back is the header of an empty frame. -/
theorem Sound.stranded_iff (h : m.Sound) (hq : m.sockQueue = []) : m.Stranded ↔ m.HeaderOnly := by
  refine exists_congr fun fd => exists_congr fun sock => and_congr_right fun hs => ?_
  rw [framing.whole_iff_of_next? (next?_pending (h.wf fd sock hs))]
  exact or_iff_right (not_not.2 (h.packets_eq_nil hq hs))

theorem headerOnly_congr (h : ∀ fd : ℤ, m'.tcpSockets[fd]? = m.tcpSockets[fd]?) :
    m'.HeaderOnly ↔ m.HeaderOnly := by
  simp only [HeaderOnly, h]

theorem tcpSockets_of_sockQueue_nil {p : Pass} (h : (m.selectRound p).1.sockQueue = []) (fd : ℤ) :
    (m.selectRound p).1.tcpSockets[fd]? = m.tcpSockets[fd]? := by
  refine (selectRound_of_not_visits ?_).1
  rintro ⟨hsel, h0, hle⟩
  obtain ⟨type, he⟩ := exists_entry m p _ hsel (descriptors m.fdmax) p.fdType
    (mem_descriptors.2 ⟨h0, hle⟩)
  have hmem : (⟨fd, type⟩ : RecvHolder) ∈ (m.selectRound p).1.sockQueue := by
    rw [selectRound_sockQueue]
    exact List.mem_append_right _ he
  rw [h] at hmem
  simp at hmem

end Sockets

section Loop

variable {σ ι : Type*} (multi : σ → MultiSocket) (Blocks : σ → Prop)

/-- The queue has an entry for what is ready, and the loop does not block over a complete frame. -/
def NoneStranded (s : σ) : Prop :=
  (multi s).Queued ∧ (Blocks s → ¬ (multi s).Stranded)

/-- A loop that keeps its object sound, and comes to block only where its queue is drained, never
blocks over a complete frame exactly if no header of an empty frame is there when it drains. -/
theorem noneStranded_states_iff (Drained : σ → Prop) {f : σ → ι → Option σ} {s₀ : σ}
    (h0 : (multi s₀).Sound) (hstart : ¬ (multi s₀).HeaderOnly)
    (hsound : ∀ s i s', (multi s).Sound → f s i = some s' → (multi s').Sound)
    (hblocks : ∀ s i s', (multi s).Sound → f s i = some s' → Blocks s' → (Drained s ∨ Blocks s) ∧
      ∀ fd : ℤ, (multi s').tcpSockets[fd]? = (multi s).tcpSockets[fd]?)
    (hdrained : ∀ s i s', f s i = some s' → Drained s → Blocks s' ∧
      ∀ fd : ℤ, (multi s').tcpSockets[fd]? = (multi s).tcpSockets[fd]?)
    (hqueue : ∀ s, Blocks s → (multi s).sockQueue = [])
    {tr : List (σ × ι)} {s : σ} (h : Runs.Run f s₀ tr s) :
    (∀ v ∈ Runs.states tr s, NoneStranded multi Blocks v) ↔
      ∀ q ∈ tr, Drained q.1 → ¬ (multi q.1).HeaderOnly := by
  refine Runs.Run.states_iff (I := fun v => (multi v).Sound)
    (P := NoneStranded multi Blocks) (C := fun v _ => Drained v → ¬ (multi v).HeaderOnly)
    h0 hsound ?_ ?_ ?_ h
  · refine ⟨h0.queued, fun hb => ?_⟩
    rwa [h0.stranded_iff (hqueue _ hb)]
  · intro v i v' hv hP hC hf
    have hv' := hsound v i v' hv hf
    refine ⟨hv'.queued, fun hb => ?_⟩
    obtain ⟨hor, hsame⟩ := hblocks v i v' hv hf hb
    rw [hv'.stranded_iff (hqueue _ hb), headerOnly_congr hsame]
    rcases hor with hd | hb'
    · exact hC hd
    · exact fun hh => hP.2 hb' ((hv.stranded_iff (hqueue _ hb')).2 hh)
  · intro v i v' hv _ hf hP' hd
    obtain ⟨hb, hsame⟩ := hdrained v i v' hf hd
    have hv' := hsound v i v' hv hf
    have := hP'.2 hb
    rwa [hv'.stranded_iff (hqueue _ hb), headerOnly_congr hsame] at this

end Loop

end MultiSocket

open MultiSocket (tcpSockets_of_sockQueue_nil getNextFd_tcpSockets NoneStranded)

namespace Server

/-- The next step calls `::select`. -/
def Blocks (s : Server) : Prop :=
  s.pc = .selecting ∧ s.multi.sockQueue = []

/-- The next step calls `get_next_fd`, which finds nothing. -/
def Drained (s : Server) : Prop :=
  s.pc = .top ∧ s.multi.Drained

variable {s s' : Server} {k : Kernel} {evs : List Event}

theorem blocks_of_step (h : s.step k = .ok (s', evs)) (hb : s'.Blocks) :
    (s.Drained ∨ s.Blocks) ∧ ∀ fd : ℤ, s'.multi.tcpSockets[fd]? = s.multi.tcpSockets[fd]? := by
  obtain ⟨hpc', hq'⟩ := hb
  cases turn_of_step h with
  | poll hpc =>
    dsimp only at hpc' hq' ⊢
    split_ifs at hpc' with hneg
    exact ⟨.inl ⟨hpc, hneg, hq'⟩, fun x => congrArg (·[x]?) (getNextFd_tcpSockets s.multi)⟩
  | select hpc hq => exact ⟨.inr ⟨hpc, hq⟩, tcpSockets_of_sockQueue_nil hq'⟩
  | first => simp at hpc'
  | stdin => simp at hpc'
  | news => simp at hpc'
  | accept => simp at hpc'
  | closed => simp at hpc'
  | recv => simp at hpc'

theorem blocks_of_drained (h : s.step k = .ok (s', evs)) (hd : s.Drained) :
    s'.Blocks ∧ ∀ fd : ℤ, s'.multi.tcpSockets[fd]? = s.multi.tcpSockets[fd]? := by
  obtain ⟨hpc, hneg, hq⟩ := hd
  unfold step at h
  rw [hpc] at h
  obtain ⟨rfl, -⟩ := Prod.mk.inj (Except.ok.inj h)
  exact ⟨⟨if_pos hneg, hq⟩, fun fd => congrArg (·[fd]?) (getNextFd_tcpSockets s.multi)⟩

end Server

namespace Client

/-- The next step calls `::select`. -/
def Blocks (c : Client) : Prop :=
  (c.pc = .reply ∨ c.pc = .selecting) ∧ c.multi.sockQueue = []

instance (c : Client) : Decidable c.Blocks :=
  inferInstanceAs (Decidable (_ ∧ _))

/-- The next step calls `get_next_fd` in the main loop, which finds nothing. -/
def Drained (c : Client) : Prop :=
  (c.pc = .next ∨ c.pc = .selecting ∧ c.multi.sockQueue ≠ []) ∧ c.multi.Drained

variable {R : RealText} {c c' : Client} {k : ClientKernel} {evs : List Shown}

/-- When the loop begins, the entry of the reply is still in the queue. -/
theorem sockQueue_of_authenticate (hm : c.multi.Sound) (h : c.authenticate = .ok c') :
    c'.multi.sockQueue ≠ [] := by
  obtain ⟨sock, hs, hr⟩ := ready_of_authenticate h
  have hmem := MultiSocket.mem_getNextFd_of_ready hs hr (hm.queued _ _ hs hr)
  rw [← MultiSocket.recv_sockQueue] at hmem
  rw [(authenticate_frame h).1]
  exact List.ne_nil_of_mem hmem

theorem blocks_of_turn (hm : c.multi.Sound) (h : Turn R c k c' evs) (hb : c'.Blocks) :
    (c.Drained ∨ c.Blocks) ∧ ∀ fd : ℤ, c'.multi.tcpSockets[fd]? = c.multi.tcpSockets[fd]? := by
  obtain ⟨hpc', hq'⟩ := hb
  cases h with
  | round hpc hq => exact ⟨.inr ⟨hpc, hq⟩, tcpSockets_of_sockQueue_nil hq'⟩
  | reply _ _ h => exact absurd hq' (sockQueue_of_authenticate hm h)
  | poll hpc =>
    refine ⟨.inl ⟨hpc, ?_, hq'⟩, fun x => ?_⟩
    · simp only [nextFd] at hpc'
      split_ifs at hpc' with hneg
      · simp at hpc'
      · exact not_le.1 hneg
    · exact congrArg (·[x]?) (getNextFd_tcpSockets c.multi)
  | line hpc h =>
    obtain ⟨-, -, hpc₁ | hpc₁, -⟩ := handleStdin_frame h <;> simp [hpc₁, hpc] at hpc'
  | news _ _ _ h =>
    obtain ⟨-, -, hpc₁⟩ := handleNews_multi h
    simp [hpc₁] at hpc'

theorem blocks_of_drained (h : Turn R c k c' evs) (hd : c.Drained) :
    c'.Blocks ∧ ∀ fd : ℤ, c'.multi.tcpSockets[fd]? = c.multi.tcpSockets[fd]? := by
  obtain ⟨hpc, hneg, hq⟩ := hd
  have hnot : ∀ fd, c.pc ≠ .body fd := by
    rcases hpc with hpc | ⟨hpc, -⟩ <;> simp [hpc]
  cases h with
  | round hpc' hq' => rcases hpc with hpc | ⟨-, hne⟩ <;> simp_all
  | reply hpc' => rcases hpc with hpc | ⟨hpc, -⟩ <;> simp [hpc] at hpc'
  | poll =>
    refine ⟨⟨.inr ?_, hq⟩, fun x => congrArg (·[x]?) (getNextFd_tcpSockets c.multi)⟩
    simp only [nextFd]
    rw [if_neg (not_le.2 hneg)]
  | line hpc' => exact absurd hpc' (hnot _)
  | news hpc' => exact absurd hpc' (hnot _)

end Client

/-- In every run of the server and of a subscriber, a packet that is ready has its entry; and the
loop never blocks over a complete frame exactly if, whenever `get_next_fd` finds nothing more, no
connection has sent the header of an empty frame and nothing behind it. -/
theorem noneStranded_iff (udp tcp : ℤ) (buffer : Bytes) (R : RealText) :
    (∀ (tr : List (World × Kernel)) (w : World),
      World.Run udp tcp buffer tr w → (∀ v ∈ Runs.states tr w, v.server.multi.Queued) ∧
        ((∀ v ∈ Runs.states tr w, NoneStranded (·.server.multi) (·.server.Blocks) v) ↔
          ∀ q ∈ tr, q.1.server.Drained → ¬ q.1.server.multi.HeaderOnly)) ∧
    ∀ (t₀ : Terminal) (tr : List (Terminal × ClientKernel)) (t : Terminal),
      t₀.Started → Terminal.Run R t₀ tr t → (∀ v ∈ Runs.states tr t, v.client.multi.Queued) ∧
        ((∀ v ∈ Runs.states tr t, NoneStranded (·.client.multi) (·.client.Blocks) v) ↔
          ∀ q ∈ tr, q.1.client.Drained → ¬ q.1.client.multi.HeaderOnly) := by
  constructor
  · intro tr w h
    refine ⟨fun v hv => ?_, ?_⟩
    · obtain ⟨tr', -, hr⟩ := h.of_mem_states v hv
      exact (World.Run.sound hr).queued
    · have hnew : (World.start udp tcp buffer).server.multi.tcpSockets = ∅ := rfl
      refine MultiSocket.noneStranded_states_iff (fun v : World => v.server.multi)
        (fun v => v.server.Blocks) (fun v => v.server.Drained)
        (MultiSocket.sound_of_noSockets hnew) ?_ (fun v k v' hv hn => ?_)
        (fun v k v' _ hn hb => ?_) (fun v k v' hn hd => ?_) (fun v hb => hb.2) h
      · rintro ⟨fd, sock, hs, -⟩
        simp [hnew] at hs
      · obtain ⟨as, -, hexec⟩ := World.exec_of_next hn
        exact MultiSocket.Sound.exec hv hexec
      · obtain ⟨evs, hs, -⟩ := World.step_of_next hn
        exact Server.blocks_of_step hs hb
      · obtain ⟨evs, hs, -⟩ := World.step_of_next hn
        exact Server.blocks_of_drained hs hd
  · intro t₀ tr t h0 h
    refine ⟨fun v hv => ?_, ?_⟩
    · obtain ⟨tr', -, hr⟩ := h.of_mem_states v hv
      exact (Terminal.Run.sound h0 hr).queued
    · refine MultiSocket.noneStranded_states_iff (fun v : Terminal => v.client.multi)
        (fun v => v.client.Blocks) (fun v => v.client.Drained)
        h0.sound ?_ (fun v k v' hv hn => ?_)
        (fun v k v' hv hn hb => ?_) (fun v k v' hn hd => ?_) (fun v hb => hb.2) h
      · obtain ⟨id, sockfd, u, vars, -, -, rfl⟩ := h0.eq_connected
        rintro ⟨fd, sock, hs, hp⟩
        simp only [Terminal.connected, MultiSocket.opened, MultiSocket.new,
          Std.TreeMap.getElem?_insert] at hs
        split_ifs at hs
        · obtain rfl := Option.some.inj hs
          simp [framing, Framing.enc, beBytes, leBytes] at hp
        · simp at hs
      · obtain ⟨evs, hturn, -⟩ := Terminal.turn_of_next hn
        obtain ⟨as, hexec⟩ := hturn.exec
        exact MultiSocket.Sound.exec hv hexec
      · obtain ⟨evs, hturn, -⟩ := Terminal.turn_of_next hn
        exact Client.blocks_of_turn hv hturn hb
      · obtain ⟨evs, hturn, -⟩ := Terminal.turn_of_next hn
        exact Client.blocks_of_drained hturn hd

instance (s : Server) : Decidable s.Blocks :=
  inferInstanceAs (Decidable (_ ∧ _))

instance (s : Server) : Decidable s.Drained :=
  inferInstanceAs (Decidable (_ ∧ _))

instance (c : Client) : Decidable c.Drained :=
  inferInstanceAs (Decidable (_ ∧ _))

/-- What a subscriber's stack holds. -/
def zeroLocals : Locals := ⟨List.replicate buflen 0, 0, [], default⟩

set_option maxRecDepth 10000 in
/-- A server that a client logs in to, and a subscriber whose `AUTH` is accepted. -/
theorem noneStranded_iff_login :
    (∃ tr w, World.Run 3 4 [] tr w ∧ tr.map Prod.snd = loginInputs 5 65 ∧
      ∀ v ∈ Runs.states tr w, NoneStranded (·.server.multi) (·.server.Blocks) v) ∧
    ∃ tr t, Terminal.Run noReals (.connected [65] 5 default zeroLocals) tr t ∧
      tr.map Prod.snd = [.chunk 5 [0, 0, 0, 1, 1], .quiet] ∧
      ∀ v ∈ Runs.states tr t, NoneStranded (·.client.multi) (·.client.Blocks) v := by
  obtain ⟨hserver, hclient⟩ := noneStranded_iff 3 4 [] noReals
  constructor
  · have hexec : ∃ w ∈ Runs.exec World.next (World.start 3 4 []) (loginInputs 5 65), True := by
      decide +kernel
    have hmeets : Runs.Meets World.next
        (fun v _ => v.server.Drained → ¬ v.server.multi.HeaderOnly) (World.start 3 4 [])
        (loginInputs 5 65) := by
      decide +kernel
    obtain ⟨tr, w, hr, htr, hC, -⟩ := Runs.exists_run_of_meets hexec hmeets
    exact ⟨tr, w, hr, htr, (hserver tr w hr).2.2 hC⟩
  · have hexec : ∃ t ∈ Runs.exec (Terminal.next noReals) (.connected [65] 5 default zeroLocals)
        [.chunk 5 [0, 0, 0, 1, 1], .quiet], True := by
      decide +kernel
    have hmeets : Runs.Meets (Terminal.next noReals)
        (fun v _ => v.client.Drained → ¬ v.client.multi.HeaderOnly)
        (.connected [65] 5 default zeroLocals) [.chunk 5 [0, 0, 0, 1, 1], .quiet] := by
      decide +kernel
    obtain ⟨tr, t, hr, htr, hC, -⟩ := Runs.exists_run_of_meets hexec hmeets
    exact ⟨tr, t, hr, htr, (hclient _ tr t (Terminal.started_connected (by decide) (by decide)
      (by decide) default zeroLocals) hr).2.2 hC⟩

/-- A connection is accepted on 5, and sends the header of an empty frame. -/
def headerInputs : List Kernel :=
  [.quiet, .ready {4} [], .quiet, .connect 5, .quiet, .ready {5} [(5, [0, 0, 0, 0])], .quiet,
    .quiet, .quiet]

set_option maxRecDepth 10000 in
/-- The server blocks over the empty frame. -/
theorem not_noneStranded_header : ∃ tr w, World.Run 3 4 [] tr w ∧
    tr.map Prod.snd = headerInputs ∧ w.server.Blocks ∧ w.server.multi.Stranded := by
  have hexec : ∃ w ∈ Runs.exec World.next (World.start 3 4 []) headerInputs,
      w.server.Blocks ∧ w.server.multi.HeaderOnly := by
    decide +kernel
  obtain ⟨tr, w, hr, htr, hb, hh⟩ := Runs.exists_run_of_exec hexec
  exact ⟨tr, w, hr, htr, hb, ((World.Run.sound hr).stranded_iff hb.2).2 hh⟩

end NewsServer
