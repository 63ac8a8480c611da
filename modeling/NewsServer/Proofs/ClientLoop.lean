import NewsServer.Proofs.EventLoop
import NewsServer.Proofs.Handlers
import NewsServer.SubscriberLoop

/-!
# The subscriber's loop over its `MultiSocket`

A step of the subscriber that goes on is one of five (`turn_of_step`). What it does with the
`MultiSocket` is a few actions, so the object is sound in every run.
-/

namespace NewsServer

open Memory
open MultiSocket (Action act)
open Server (stdinFileno)

/-- The steps of a subscriber that goes on, the subscriber after them and what they show. -/
inductive Turn (R : RealText) (c : Client) (k : ClientKernel) : Client → List Shown → Prop
  | round (hpc : c.pc = .reply ∨ c.pc = .selecting) (hq : c.multi.sockQueue = []) :
      Turn R c k (c.round k.pass).1 (c.round k.pass).2
  | reply {c' : Client} (hpc : c.pc = .reply) (hq : c.multi.sockQueue ≠ [])
      (h : c.authenticate = .ok c') : Turn R c k c' []
  | poll (hpc : c.pc = .next ∨ c.pc = .selecting ∧ c.multi.sockQueue ≠ []) :
      Turn R c k c.nextFd []
  | line {c' : Client} {evs : List Shown} (hpc : c.pc = .body stdinFileno)
      (h : c.handleStdin k.line = .ok (c', evs)) : Turn R c k c' evs
  | news {fd : ℤ} {c' : Client} {evs : List Shown} (hpc : c.pc = .body fd)
      (hfd : fd ≠ stdinFileno) (hclosed : c.multi.hasClosed = false)
      (h : c.handleNews R k.beyond = .ok (c', evs)) : Turn R c k c' evs

section Step

variable {R : RealText} {c c' : Client} {k : ClientKernel} {evs : List Shown}

theorem turn_of_step (h : c.step R k = .ok (c', evs)) : Turn R c k c' evs := by
  unfold Client.step at h
  rcases hpc : c.pc with _ | _ | _ | fd <;> rw [hpc] at h <;> dsimp only at h
  · split_ifs at h with hq
    · obtain ⟨rfl, rfl⟩ := Prod.mk.inj (Except.ok.inj h)
      exact .round (.inl hpc) hq
    · rcases ha : c.authenticate with e | c₁ <;> rw [ha] at h
      · simp at h
      obtain ⟨rfl, rfl⟩ := Prod.mk.inj (Except.ok.inj h)
      exact .reply hpc hq ha
  · split_ifs at h with hq
    · obtain ⟨rfl, rfl⟩ := Prod.mk.inj (Except.ok.inj h)
      exact .round (.inr hpc) hq
    · obtain ⟨rfl, rfl⟩ := Prod.mk.inj (Except.ok.inj h)
      exact .poll (.inr ⟨hpc, hq⟩)
  · obtain ⟨rfl, rfl⟩ := Prod.mk.inj (Except.ok.inj h)
    exact .poll (.inl hpc)
  · unfold Client.loopBody at h
    split_ifs at h with hfd hclosed
    · exact .line (hfd ▸ hpc) h
    · exact .news hpc hfd (Bool.eq_false_iff.2 hclosed) h

theorem authenticate_frame (h : c.authenticate = .ok c') :
    c'.multi = c.multi.getNextFd.2.recv.2.2.2.addFd stdinFileno ∧
      c'.sockfdTcp = c.sockfdTcp ∧ c'.pc = .selecting := by
  unfold Client.authenticate at h
  rcases hr : c.multi.getNextFd.2.recv with ⟨size, out, copied, multi⟩
  rw [hr] at h
  dsimp only at h ⊢
  split_ifs at h
  obtain rfl := Except.ok.inj h
  exact ⟨rfl, rfl, rfl⟩

theorem news_notMem_commandAnswer (type : UInt8) (line : Bytes) :
    .news line ∉ Client.commandAnswer type := by
  unfold Client.commandAnswer
  split_ifs <;> simp

/-- Without a packet of the socket at hand the loop does not begin, and it is no duplicate either.
-/
theorem authenticate_of_not_ready (h : ∀ sock : BufferedTcpSocket,
    c.multi.tcpSockets[c.multi.getNextFd.2.currSockfd]? = some sock → sock.packetReady = false) :
    ∃ e, c.authenticate = .error e ∧ e ≠ .duplicate := by
  rw [← MultiSocket.getNextFd_tcpSockets] at h
  unfold Client.authenticate
  rcases hs : c.multi.getNextFd.2.tcpSockets[c.multi.getNextFd.2.currSockfd]? with _ | sock
  · have hneg : toInt (2 ^ 64 - 1) < 0 := by decide
    rw [MultiSocket.recv_of_none hs]
    dsimp only
    rw [if_neg (by simp), if_pos hneg]
    exact ⟨_, rfl, by simp⟩
  · have hinvalid : getTcpPacketType (overwrite c.buffer 0 []) (toInt 0).toNat = typeInvalid := rfl
    rw [MultiSocket.recv_of_not_ready hs (h sock hs)]
    dsimp only
    rw [hinvalid, if_neg (by simp), if_neg (by decide), if_neg (by decide), if_pos (by decide)]
    exact ⟨_, rfl, by simp⟩

/-- A reply that lets the loop begin is a packet of the socket at hand. -/
theorem ready_of_authenticate (h : c.authenticate = .ok c') : ∃ sock : BufferedTcpSocket,
    c.multi.tcpSockets[c.multi.getNextFd.2.currSockfd]? = some sock ∧ sock.packetReady = true := by
  by_contra hno
  obtain ⟨e, he, -⟩ := authenticate_of_not_ready fun sock hs =>
    Bool.eq_false_iff.2 fun hr => hno ⟨sock, hs, hr⟩
  rw [h] at he
  simp at he

theorem toInt_of_lt {n : ℕ} (h : n < 2 ^ 31) : toInt n = n := by
  rw [toInt, BitVec.toInt_ofNat']
  exact Int.bmod_eq_of_le_mul_two (by omega) (by omega)

/-- The first byte of the packet at hand decides how `main` goes on. -/
theorem authenticate_of_packet (hm : c.multi.Sound) {sock : BufferedTcpSocket}
    (hs : c.multi.tcpSockets[c.multi.getNextFd.2.currSockfd]? = some sock) {q : Bytes}
    {rest : List Bytes} (hp : sock.packets = q :: rest) (hne : q ≠ []) (hlen : q.length ≤ buflen) :
    (q.headD 0 = typeAuthDuplicate → c.authenticate = .error .duplicate) ∧
      (q.headD 0 = typeAuth → ∃ c', c.authenticate = .ok c') := by
  rw [← MultiSocket.getNextFd_tcpSockets] at hs
  obtain ⟨sock', hrecv, -, -⟩ := hm.getNextFd.recv_eq hs hp
  obtain ⟨b, q', rfl⟩ := List.exists_cons_of_ne_nil hne
  have hsize := toInt_of_lt (n := (b :: q').length) (by
    rw [buflen] at hlen
    omega)
  have htype : getTcpPacketType (overwrite c.buffer 0 (b :: q')) (b :: q').length = b := by
    rw [getTcpPacketType, if_neg (by simp)]
    rfl
  unfold Client.authenticate
  rw [hrecv]
  dsimp only
  rw [if_neg (not_lt.2 hlen), hsize, if_neg (by omega), Int.toNat_natCast, htype, List.headD_cons]
  constructor
  · intro h
    rw [if_pos h]
  · rintro rfl
    rw [if_neg (by decide), if_neg (by decide)]
    exact ⟨_, rfl⟩

/-- What the handling of a line leaves as it is, where it goes on. -/
theorem handleStdin_spec (c : Client) (line : Option Bytes) :
    match c.handleStdin line with
    | .error e => e ≠ .duplicate
    | .ok (c', evs) => c'.multi = c.multi ∧ c'.sockfdTcp = c.sockfdTcp ∧
        (c'.pc = c.pc ∨ c'.pc = .next) ∧ ∀ text, .news text ∉ evs := by
  unfold Client.handleStdin
  dsimp only
  split_ifs with hlen hempty hexit
  · simp
  · exact ⟨rfl, rfl, .inl rfl, by simp⟩
  · simp
  rcases parseSubscriptionCmd c.type c.topic _ maxCommandSize with _ | ⟨status, type, topic⟩
  · simp
  dsimp only
  by_cases hstatus : status ≠ 0
  · rw [if_pos hstatus]
    exact ⟨rfl, rfl, .inl rfl, by simp⟩
  rw [if_neg hstatus]
  rcases c.multi.send c.sockfdTcp _ with e | ⟨n, calls⟩
  · simp
  dsimp only
  by_cases hn : n < 0
  · rw [if_pos hn]
    simp
  · rw [if_neg hn]
    refine ⟨rfl, rfl, .inr rfl, fun line hmem => ?_⟩
    rcases List.mem_append.1 hmem with hmem | hmem
    · simp at hmem
    · exact news_notMem_commandAnswer type line hmem

theorem handleStdin_frame {line : Option Bytes} (h : c.handleStdin line = .ok (c', evs)) :
    c'.multi = c.multi ∧ c'.sockfdTcp = c.sockfdTcp ∧ (c'.pc = c.pc ∨ c'.pc = .next) ∧
      ∀ text, .news text ∉ evs := by
  have hspec := handleStdin_spec c line
  rwa [h] at hspec

theorem handleStdin_ne_duplicate (line : Option Bytes) :
    c.handleStdin line ≠ .error .duplicate := by
  intro h
  have hspec := handleStdin_spec c line
  rw [h] at hspec
  exact hspec rfl

theorem handleNews_spec (R : RealText) (c : Client) (beyond : Bytes) :
    match c.handleNews R beyond with
    | .error e => e ≠ .duplicate
    | .ok (c', _) => c'.multi = c.multi.recv.2.2.2 ∧ c'.sockfdTcp = c.sockfdTcp ∧
        c'.pc = .next := by
  unfold Client.handleNews
  rcases c.multi.recv with ⟨size, out, copied, multi⟩
  dsimp only
  by_cases hlong : copied.length > buflen
  · rw [if_pos hlong]
    simp
  rw [if_neg hlong]
  rcases (parseSubscriberNews R _ _ c.news).1 with _ | news
  · simp
  · exact ⟨rfl, rfl, rfl⟩

theorem handleNews_multi {beyond : Bytes} (h : c.handleNews R beyond = .ok (c', evs)) :
    c'.multi = c.multi.recv.2.2.2 ∧ c'.sockfdTcp = c.sockfdTcp ∧ c'.pc = .next := by
  have hspec := handleNews_spec R c beyond
  rwa [h] at hspec

theorem handleNews_ne_duplicate (beyond : Bytes) : c.handleNews R beyond ≠ .error .duplicate := by
  intro h
  have hspec := handleNews_spec R c beyond
  rw [h] at hspec
  exact hspec rfl

theorem Turn.of_stdin (h : Turn R c k c' evs) (hpc : c.pc = .body stdinFileno) :
    c.handleStdin k.line = .ok (c', evs) := by
  cases h with
  | round hpc' => rcases hpc' with hpc' | hpc' <;> simp [hpc'] at hpc
  | reply hpc' => simp [hpc'] at hpc
  | poll hpc' => rcases hpc' with hpc' | ⟨hpc', -⟩ <;> simp [hpc'] at hpc
  | line _ h => exact h
  | news hpc' hfd =>
    rw [hpc'] at hpc
    exact absurd (ClientPc.body.inj hpc) hfd

theorem Turn.ne_reply (h : Turn R c k c' evs) (hpc : c.pc ≠ .reply) : c'.pc ≠ .reply := by
  cases h with
  | round => exact hpc
  | reply hreply => exact absurd hreply hpc
  | poll =>
    simp only [Client.nextFd]
    split_ifs <;> simp
  | line _ h =>
    obtain ⟨-, -, hsame | hnext, -⟩ := handleStdin_frame h
    · rwa [hsame]
    · simp [hnext]
  | news _ _ _ h => simp [(handleNews_multi h).2.2]

theorem step_ne_duplicate (hpc : c.pc ≠ .reply) : c.step R k ≠ .error .duplicate := by
  intro h
  unfold Client.step at h
  rcases hc : c.pc with _ | _ | _ | fd <;> rw [hc] at h <;> dsimp only at h
  · exact hpc hc
  · split_ifs at h
  · simp at h
  · unfold Client.loopBody at h
    split_ifs at h
    · exact handleStdin_ne_duplicate k.line h
    · simp at h
    · exact handleNews_ne_duplicate k.beyond h

theorem step_of_authenticate_error (hpc : c.pc = .reply) (hq : c.multi.sockQueue ≠ []) {e : Ending}
    (h : c.authenticate = .error e) : c.step R k = .error e := by
  unfold Client.step
  rw [hpc]
  dsimp only
  rw [if_neg hq, h]

theorem step_of_authenticate_ok (hpc : c.pc = .reply) (hq : c.multi.sockQueue ≠ [])
    (h : c.authenticate = .ok c') : c.step R k = .ok (c', []) := by
  unfold Client.step
  rw [hpc]
  dsimp only
  rw [if_neg hq, h]

/-- The actions of a step take the object where the step takes it. -/
theorem Turn.exec (h : Turn R c k c' evs) :
    ∃ as, Runs.exec act c.multi as = some c'.multi := by
  cases h with
  | round _ hq => exact ⟨[.select k.pass], by simp [Runs.exec, act, hq, Client.round]⟩
  | reply _ _ h =>
    refine ⟨[.getNextFd, .recv, .addFd stdinFileno], ?_⟩
    rw [(authenticate_frame h).1]
    rfl
  | poll => exact ⟨[.getNextFd], rfl⟩
  | line _ h => exact ⟨[], by rw [(handleStdin_frame h).1]; rfl⟩
  | news _ _ _ h => exact ⟨[.recv], by rw [(handleNews_multi h).1]; rfl⟩

end Step

/-- The `AUTH` of a subscriber. -/
def authPacket (id : Bytes) : Bytes :=
  typeAuth :: strncpy clientIdLen id

theorem take_generateTcpAuthPacket {id : Bytes} (h : id.length < clientIdLen) (buf : Bytes) :
    (generateTcpAuthPacket id buf).1.take (generateTcpAuthPacket id buf).2 = authPacket id := by
  have hcstr : (cstr id).length ≤ id.length := (List.takeWhile_sublist _).length_le
  have hlen : (strncpy clientIdLen id).length = clientIdLen := by
    rw [strncpy, List.length_append, List.length_take, List.length_replicate]
    omega
  have htake := @take_overwrite buf (typeAuth :: strncpy clientIdLen id) 0 (Nat.zero_le _)
  rw [List.length_cons, hlen, List.take_zero, List.nil_append, Nat.zero_add, Nat.add_comm] at htake
  exact htake

/-- A subscriber that has connected on `sockfd` and sent its `AUTH`. -/
def Terminal.connected (id : Bytes) (sockfd : ℤ) (u : Uninit) (vars : Locals) : Terminal where
  client := { vars with
    buffer := (generateTcpAuthPacket id vars.buffer).1
    multi := MultiSocket.new.opened sockfd u
    sockfdTcp := sockfd
    pc := .reply }
  shown := [.call (.sent sockfd (wire (authPacket id)))]

theorem Client.start_eq {id : Bytes} {sockfd : ℤ} (h : id.length < clientIdLen)
    (hbit : sockfd < fdSetsize) (u : Uninit) (vars : Locals) : Client.start id sockfd u vars =
      .ok ((Terminal.connected id sockfd u vars).client,
        (Terminal.connected id sockfd u vars).shown) := by
  have hmem : sockfd ∈ (MultiSocket.new.connect sockfd u).tcpSockets := by
    simp [MultiSocket.connect]
  have hlen : (authPacket id).length + 4 ≤ tcpBufferSize := by
    rw [← take_generateTcpAuthPacket h [], List.length_take]
    have : (generateTcpAuthPacket id []).2 = 12 := rfl
    rw [tcpBufferSize]
    omega
  unfold Client.start
  rw [if_neg (not_le.2 h), if_neg (not_le.2 hbit)]
  dsimp only
  rw [take_generateTcpAuthPacket h, send_of_mem hmem hlen]
  dsimp only
  rw [if_neg (by omega)]
  rfl

theorem Client.start_eq_iff {id : Bytes} {sockfd : ℤ} {u : Uninit} {vars : Locals}
    {r : Client × List Shown} : Client.start id sockfd u vars = .ok r ↔
      (id.length < clientIdLen ∧ sockfd < fdSetsize) ∧
        r = ((Terminal.connected id sockfd u vars).client,
          (Terminal.connected id sockfd u vars).shown) := by
  constructor
  · intro h
    have hgoes : id.length < clientIdLen ∧ sockfd < fdSetsize := by
      unfold Client.start at h
      split_ifs at h with hid hbit
      exact ⟨not_le.1 hid, not_le.1 hbit⟩
    rw [Client.start_eq hgoes.1 hgoes.2] at h
    exact ⟨hgoes, (Except.ok.inj h).symm⟩
  · rintro ⟨⟨hid, hbit⟩, rfl⟩
    exact Client.start_eq hid hbit u vars

namespace Terminal

variable {R : RealText} {t t' : Terminal} {k : ClientKernel}

theorem turn_of_next (h : next R t k = some t') :
    ∃ evs, Turn R t.client k t'.client evs ∧ t'.shown = t.shown ++ evs := by
  unfold next step at h
  rcases hs : t.client.step R k with e | ⟨c, evs⟩ <;> simp only [hs] at h
  · simp [Except.toOption] at h
  simp only [Except.toOption, Option.some.injEq] at h
  subst h
  exact ⟨evs, turn_of_step hs, rfl⟩

theorem turn_of_ok (h : t.step R k = .ok t') :
    ∃ evs, Turn R t.client k t'.client evs ∧ t'.shown = t.shown ++ evs := by
  refine turn_of_next ?_
  rw [next, h]
  rfl

theorem started_connected {id : Bytes} (h : id.length < clientIdLen) {sockfd : ℤ}
    (hpos : 0 < sockfd) (hbit : sockfd < fdSetsize) (u : Uninit) (vars : Locals) :
    (connected id sockfd u vars).Started :=
  ⟨id, sockfd, u, vars, hpos, Client.start_eq h hbit u vars⟩

theorem Started.eq_connected (h : t.Started) : ∃ (id : Bytes) (sockfd : ℤ) (u : Uninit)
    (vars : Locals), id.length < clientIdLen ∧ 0 < sockfd ∧ t = connected id sockfd u vars := by
  obtain ⟨id, sockfd, u, vars, hpos, hstart⟩ := h
  obtain ⟨⟨hid, -⟩, hr⟩ := Client.start_eq_iff.1 hstart
  obtain ⟨hc, hshown⟩ := Prod.mk.inj hr
  refine ⟨id, sockfd, u, vars, hid, hpos, ?_⟩
  rw [← show (⟨t.client, t.shown⟩ : Terminal) = t from rfl, hc, hshown]

theorem eq_connected_of_start {id : Bytes} {sockfd : ℤ} {u : Uninit} {vars : Locals}
    (h : Client.start id sockfd u vars = .ok (t.client, t.shown)) :
    t = connected id sockfd u vars := by
  obtain ⟨-, hr⟩ := Client.start_eq_iff.1 h
  obtain ⟨hclient, hshown⟩ := Prod.mk.inj hr
  rw [← show (⟨t.client, t.shown⟩ : Terminal) = t from rfl, hclient, hshown]

theorem Started.sound (h : t.Started) : t.client.multi.Sound := by
  obtain ⟨id, sockfd, u, vars, -, -, rfl⟩ := h.eq_connected
  exact MultiSocket.Sound.opened (MultiSocket.sound_of_noSockets rfl) sockfd u

theorem Run.sound {t₀ : Terminal} {tr : List (Terminal × ClientKernel)} (h0 : t₀.Started)
    (h : Run R t₀ tr t) : t.client.multi.Sound := by
  refine Runs.Run.always (P := fun v : Terminal => v.client.multi.Sound) h0.sound
    (fun v k v' hv hn => ?_) h
  obtain ⟨evs, hturn, -⟩ := turn_of_next hn
  obtain ⟨as, hexec⟩ := hturn.exec
  exact MultiSocket.Sound.exec hv hexec

end Terminal

namespace ClientKernel

/-- Nothing happens. -/
def quiet : ClientKernel where
  pass := ⟨∅, fun _ => none, 0⟩
  line := none
  beyond := []

/-- Bytes come in on `fd`. -/
def chunk (fd : ℤ) (bytes : Bytes) : ClientKernel :=
  { quiet with pass := ⟨{fd}, fun _ => some bytes, 0⟩ }

end ClientKernel

end NewsServer
