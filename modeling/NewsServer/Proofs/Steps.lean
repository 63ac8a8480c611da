import NewsServer.Proofs.Handlers
import NewsServer.Proofs.SelectPass

/-!
# The steps of the loop

A step that goes on is one of eight kinds (`Does`): a call of `get_next_fd`, a round of `select`, a
line of input, a datagram, a new connection, a `SOCK_CLOSE`, a call of `handle_tcp_app_recv` that
finds no packet, or a frame and its answer.
-/

namespace NewsServer

open Memory

/-- The packet built of a datagram. -/
def Kernel.news (k : Kernel) : SharedPacket :=
  getSendableNews (k.datagram.take buflen) k.saddr

def Kernel.topic (k : Kernel) : Bytes :=
  getNewsTopic k.news.data k.beyond

namespace Server

theorem branch_eq_stdin {s : Server} {fd : ℤ} : s.branch fd = .stdin ↔ fd = stdinFileno := by
  unfold branch
  split_ifs with h <;> simp [h]

/-- The next step handles `fd`, in the branch `b`. -/
def At (s : Server) (fd : ℤ) (b : Branch) : Prop :=
  s.pc = .body fd ∧ s.branch fd = b

theorem At.eq {s : Server} {fd fd' : ℤ} {b b' : Branch} (h : s.At fd b) (h' : s.At fd' b') :
    fd = fd' ∧ b = b' := by
  obtain ⟨hpc, hb⟩ := h
  obtain ⟨hpc', hb'⟩ := h'
  rw [hpc, Pc.body.injEq] at hpc'
  subst hpc'
  exact ⟨rfl, hb.symm.trans hb'⟩

theorem At.not {s : Server} {fd : ℤ} {b b' : Branch} (h : s.At fd b) (hb : b ≠ b') (fd' : ℤ) :
    ¬ s.At fd' b' :=
  fun h' => hb (h.eq h').2

theorem not_at_of_pc {s : Server} (hpc : s.pc = .top ∨ s.pc = .selecting) (fd : ℤ) (b : Branch) :
    ¬ s.At fd b := by
  rintro ⟨h, -⟩
  rcases hpc with hpc | hpc <;> simp [hpc] at h

/-- The descriptor and the branch of the next step, if it handles one. -/
def at? (s : Server) : Option (ℤ × Branch) :=
  match s.pc with
  | .body fd => some (fd, s.branch fd)
  | _ => none

theorem at_iff {s : Server} {fd : ℤ} {b : Branch} : s.At fd b ↔ s.at? = some (fd, b) := by
  unfold At at?
  rcases s.pc with _ | _ | x
  · simp
  · simp
  · simp only [Pc.body.injEq, Option.some.injEq, Prod.mk.injEq]
    constructor
    · rintro ⟨rfl, hb⟩
      exact ⟨rfl, hb⟩
    · rintro ⟨rfl, hb⟩
      exact ⟨rfl, hb⟩

theorem forall_at_iff {s : Server} {b : Branch} {p : ℤ → Prop} :
    (∀ fd, s.At fd b → p fd) ↔ ∀ x ∈ s.at?, x.2 = b → p x.1 := by
  simp only [at_iff, Option.mem_def, Prod.forall]
  exact ⟨fun h fd b' hx hb => h fd (hb ▸ hx), fun h fd hx => h fd b hx rfl⟩

instance {s : Server} {b : Branch} {p : ℤ → Prop} [DecidablePred p] :
    Decidable (∀ fd, s.At fd b → p fd) :=
  decidable_of_iff _ forall_at_iff.symm

theorem exists_at_iff {s : Server} {b : Branch} {p : ℤ → Prop} :
    (∃ fd, s.At fd b ∧ p fd) ↔ ∃ x ∈ s.at?, x.2 = b ∧ p x.1 := by
  simp only [at_iff, Option.mem_def, Prod.exists]
  exact ⟨fun ⟨fd, hx, hp⟩ => ⟨fd, b, hx, rfl, hp⟩, fun ⟨fd, b', hx, hb, hp⟩ => ⟨fd, hb ▸ hx, hp⟩⟩

instance {s : Server} {b : Branch} {p : ℤ → Prop} [DecidablePred p] :
    Decidable (∃ fd, s.At fd b ∧ p fd) :=
  decidable_of_iff _ exists_at_iff.symm

instance {s : Server} {b : Branch} : Decidable (∃ fd, s.At fd b) :=
  decidable_of_iff (∃ fd, s.At fd b ∧ True) (by simp)

/-- The frame that `handle_tcp_app_recv` has for `process_tcp_client_packet`. -/
def incoming (s : Server) : Option Bytes :=
  match s.multi.recv with
  | (size, .bufferWritten, copied, _) =>
    if copied.length ≤ buflen then
      some ((overwrite (List.replicate buflen 0) 0 copied).take size)
    else
      none
  | _ => none

end Server

/-- The objects watch the same sockets, and have the same entries queued. -/
structure SameSockets (m m' : MultiSocket) : Prop where
  mem : ∀ fd, fd ∈ m'.tcpSockets ↔ fd ∈ m.tcpSockets
  queue : m'.sockQueue = m.sockQueue
  udp : m'.sockfdUdp = m.sockfdUdp
  tcp : m'.sockfdTcp = m.sockfdTcp

theorem SameSockets.refl (m : MultiSocket) : SameSockets m m :=
  ⟨fun _ => .rfl, rfl, rfl, rfl⟩

/-- What `recv` answers: there is no socket, no packet, or a packet, which it takes. -/
inductive Received (m : MultiSocket) : ℕ × Code × Bytes × MultiSocket → Prop
  | unbuffered : Received m (2 ^ 64 - 1, .unbufferedSocket, [], m)
  | notReady : Received m (0, .packetNotReady, [], m)
  | written {size : ℕ} {copied : Bytes} {m' : MultiSocket}
      (hmem : m.currSockfd ∈ m.tcpSockets) (hm : SameSockets m m') :
      Received m (size, .bufferWritten, copied, m')

theorem received_recv (m : MultiSocket) : Received m m.recv := by
  unfold MultiSocket.recv
  rcases hs : m.tcpSockets[m.currSockfd]? with _ | sock
  · exact .unbuffered
  · have hmem : m.currSockfd ∈ m.tcpSockets := by
      rw [Std.TreeMap.mem_iff_isSome_getElem?, hs]
      rfl
    rcases hr : sock.packetReady with _ | _
    · simp only [hr, Bool.not_false, ↓reduceIte]
      exact .notReady
    · simp only [hr, Bool.not_true, Bool.false_eq_true, ↓reduceIte]
      refine .written hmem ⟨fun fd => ?_, rfl, rfl, rfl⟩
      simp only [Std.TreeMap.mem_insert, Std.compare_eq_iff_eq]
      exact ⟨fun h => h.elim (fun h => h ▸ hmem) id, .inr⟩

/-- What `handle_tcp_app_recv` does with what `recv` gives it: it stops over a packet that is longer
than its buffer or a `cli_packet`, goes on where there is none, or answers a frame. -/
inductive Handled (s : Server) (fd : ℤ) : Except Stop (Server × List Event) → Prop
  | overrun (hlong : buflen < s.multi.recv.2.2.1.length) : Handled s fd (.error .overrun)
  | tooBig : Handled s fd (.error (.die .tcpPacketTooBig))
  | idle (hin : s.incoming = none) (hm : s.multi.recv.2.2.2 = s.multi) : Handled s fd (.ok (s, []))
  | stopped {buffer : Bytes} {size : ℕ} {type : UInt8} {tables : Tables} {e : Stop}
      (hmem : s.multi.currSockfd ∈ s.multi.tcpSockets)
      (hm : SameSockets s.multi s.multi.recv.2.2.2)
      (hp : processTcpClientPacket s.tables fd buffer size = .ok (type, tables))
      (ha : answer s.multi.recv.2.2.2 tables fd buffer size type = .error e) :
      Handled s fd (.error e)
  | frame {buffer : Bytes} {size : ℕ} {type : UInt8} {tables : Tables} {multi : MultiSocket}
      {past evs : List Event} (hin : s.incoming = some (buffer.take size))
      (hmem : s.multi.currSockfd ∈ s.multi.tcpSockets)
      (hm : SameSockets s.multi s.multi.recv.2.2.2)
      (hp : processTcpClientPacket s.tables fd buffer size = .ok (type, tables))
      (ha : answer s.multi.recv.2.2.2 tables fd buffer size type = .ok (multi, evs))
      (hpast : past = [] ∨ past = [.pastPacket]) :
      Handled s fd (.ok ({ s with multi, tables },
        .frame fd (buffer.take size) type :: past ++ evs))

theorem handled (s : Server) (fd : ℤ) : Handled s fd (s.handleTcpAppRecv fd) := by
  have hr := received_recv s.multi
  unfold Server.handleTcpAppRecv Server.received
  rcases hrecv : s.multi.recv with ⟨size, out, copied, multi⟩
  rw [hrecv] at hr
  dsimp only
  split_ifs with hlong htoo hready
  · exact .overrun (by rwa [hrecv])
  · cases hr with
    | unbuffered => simp at htoo
    | notReady => simp at htoo
    | written => simp at htoo
  · cases hr with
    | unbuffered => simp at hready
    | notReady => exact .idle (by simp only [Server.incoming, hrecv]) (by rw [hrecv])
    | written => simp at hready
  · rcases hp : processTcpClientPacket s.tables fd (overwrite (List.replicate buflen 0) 0 copied)
      size with e | ⟨type, tables⟩
    · rw [process_error hp]
      exact .tooBig
    have hsize := process_size hp
    cases hr with
    | unbuffered =>
      simp only [cliPacketSize, cliPacketDataSize] at hsize
      omega
    | notReady => exact absurd rfl hready
    | written hmem hm =>
      have hmulti : s.multi.recv.2.2.2 = multi := by rw [hrecv]
      rw [← hmulti] at hm ⊢
      have hin : s.incoming =
          some ((overwrite (List.replicate buflen 0) 0 copied).take size) := by
        simp only [Server.incoming, hrecv, if_pos (not_lt.1 hlong)]
      dsimp only
      rcases ha : answer s.multi.recv.2.2.2 tables fd _ size type with e | ⟨multi', evs⟩
      · exact .stopped hmem hm hp ha
      · refine .frame hin hmem hm hp ha ?_
        split_ifs
        · exact .inr rfl
        · exact .inl rfl

/-- What the server does for a frame: an `AUTH` that is accepted is sent back, and then what is
stored for the id; one that is not is sent back as one byte, and the connection closed. -/
inductive Answered (m : MultiSocket) (t : Tables) (fd : ℤ) (buf : Bytes) :
    UInt8 → MultiSocket → List Event → Prop
  | confirmed {m' : MultiSocket} (hm : SameSockets m m') : Answered m t fd buf typeAuth m'
      (.sent fd (wire buf) :: replays (frameField buf) fd (queueOf t.clients (frameField buf)))
  | declined {m' : MultiSocket} (hm : SameSockets m m') :
      Answered m t fd buf typeAuthDuplicate (m'.close fd)
        [.sent fd (wire [typeAuthDuplicate]), .closed fd]
  | silent {type : UInt8} {m' : MultiSocket} (hne : type ≠ typeAuth ∧ type ≠ typeAuthDuplicate)
      (hm : SameSockets m m') : Answered m t fd buf type m' []

section Answered

variable {m m' : MultiSocket} {t : Tables} {fd : ℤ} {buf : Bytes} {type : UInt8}
  {past evs : List Event}

theorem Answered.storedFor_eq (h : Answered m t fd buf type m' evs)
    (hpast : past = [] ∨ past = [.pastPacket]) (id : Bytes) :
    storedFor id (.frame fd buf type :: past ++ evs) = [] := by
  have hevs : storedFor id evs = [] := by
    cases h with
    | confirmed => exact storedFor_replays id _ _
    | declined => rfl
    | silent => rfl
  rw [storedFor_append, hevs]
  rcases hpast with rfl | rfl <;> rfl

theorem Answered.replayedTo_eq (h : Answered m t fd buf type m' evs)
    (hpast : past = [] ∨ past = [.pastPacket]) (id : Bytes) :
    replayedTo id (.frame fd buf type :: past ++ evs) =
      if type = typeAuth ∧ frameField buf = id then queueOf t.clients id else [] := by
  have hskip : replayedTo id (.frame fd buf type :: past ++ evs) = replayedTo id evs := by
    rw [replayedTo_append]
    rcases hpast with rfl | rfl <;> rfl
  rw [hskip]
  cases h with
  | confirmed =>
    have hreplay := @replayedTo_replays fd id (frameField buf) (queueOf t.clients (frameField buf))
    refine hreplay.trans ?_
    by_cases hid : frameField buf = id
    · subst hid
      rw [if_pos rfl, if_pos ⟨rfl, rfl⟩]
    · rw [if_neg hid, if_neg fun hc => hid hc.2]
  | declined => exact (if_neg fun hc => absurd hc.1 (by decide)).symm
  | silent hne => exact (if_neg fun hc => hne.1 hc.1).symm

end Answered

section Answer

variable {m m₁ m' : MultiSocket} {t : Tables} {fd : ℤ} {buffer : Bytes} {size : ℕ} {type : UInt8}
  {evs : List Event}

theorem answer_auth_eq (hm : fd ∈ m₁.tcpSockets) (hsize : size ≤ cliPacketSize) {t₀ : Tables}
    (ht : LoggedIn fd (frameField (buffer.take size)) t₀ t) :
    answer m₁ t fd buffer size typeAuth =
      match unloadNewsQueue.unload m₁ (frameField (buffer.take size))
        (t.clients.getD (frameField (buffer.take size)) default)
        (queueOf t.clients (frameField (buffer.take size))) with
      | .error e => .error e
      | .ok evs => .ok (m₁, .sent fd (wire (buffer.take size)) :: evs) := by
  have hlen : (buffer.take size).length + 4 ≤ tcpBufferSize := by
    have := List.length_take_le size buffer
    simp only [cliPacketSize, cliPacketDataSize, tcpBufferSize] at hsize ⊢
    omega
  have hid : t.idsMap.getD fd [] = frameField (buffer.take size) := by
    rw [ht.ids, Std.TreeMap.getD_insert_self]
  unfold answer
  rw [if_pos rfl, send_of_mem hm hlen]
  simp only [hid]
  rfl

theorem answer_declined_eq (hm : fd ∈ m₁.tcpSockets) :
    answer m₁ t fd buffer size typeAuthDuplicate =
      .ok (m₁.close fd, [.sent fd (wire [typeAuthDuplicate]), .closed fd]) := by
  have hbyte : (overwrite buffer 0 [typeAuthDuplicate]).take 1 = [typeAuthDuplicate] := rfl
  unfold answer
  rw [if_neg (by decide), if_pos rfl]
  simp only [changeTcpTypePacket, hbyte]
  rw [send_of_mem hm (by simp [tcpBufferSize])]
  rfl

theorem answer_ok (hm : fd ∈ m.tcpSockets) (hsame : SameSockets m m₁)
    (hsize : size ≤ cliPacketSize) {t₀ : Tables} (hp : Processed t₀ fd (buffer.take size) type t)
    (h : answer m₁ t fd buffer size type = .ok (m', evs)) :
    Answered m t fd (buffer.take size) type m' evs := by
  have hm₁ : fd ∈ m₁.tcpSockets := (hsame.mem fd).2 hm
  by_cases hauth : type = typeAuth
  · obtain ⟨-, -, hl⟩ := hp.of_auth hauth
    subst hauth
    have hsub := hl.sockfd
    rw [answer_auth_eq hm₁ hsize hl] at h
    rcases hu : unloadNewsQueue.unload m₁ _ _ _ with e | evs' <;> rw [hu] at h
    · simp at h
    simp only [Except.ok.injEq, Prod.mk.injEq] at h
    obtain ⟨rfl, rfl⟩ := h
    rw [unload_ok _ _ hu, hsub]
    exact .confirmed hsame
  by_cases hdup : type = typeAuthDuplicate
  · subst hdup
    rw [answer_declined_eq hm₁, Except.ok.injEq, Prod.mk.injEq] at h
    obtain ⟨rfl, rfl⟩ := h
    exact .declined hsame
  · unfold answer at h
    rw [if_neg hauth, if_neg hdup, Except.ok.injEq, Prod.mk.injEq] at h
    obtain ⟨rfl, rfl⟩ := h
    exact .silent ⟨hauth, hdup⟩ hsame

/-- An answer goes through where what is stored is small, and closes the connection of an `AUTH`
that is declined. -/
theorem exists_answer (hm : fd ∈ m₁.tcpSockets) (hsize : size ≤ cliPacketSize) {t₀ : Tables}
    (hp : Processed t₀ fd (buffer.take size) type t)
    (hsmall : ∀ packet ∈ queueOf t₀.clients (frameField (buffer.take size)),
      packet.size + 4 ≤ tcpBufferSize) :
    ∃ evs, answer m₁ t fd buffer size type =
      .ok (if type = typeAuthDuplicate then m₁.close fd else m₁, evs) := by
  by_cases hauth : type = typeAuth
  · obtain ⟨-, -, hl⟩ := hp.of_auth hauth
    subst hauth
    have hsub := hl.sockfd
    rw [← hl.queue] at hsmall
    rw [answer_auth_eq hm hsize hl, unload_of_mem _ (hsub.symm ▸ hm) hsmall]
    exact ⟨_, rfl⟩
  by_cases hdup : type = typeAuthDuplicate
  · rw [hdup, answer_declined_eq hm]
    exact ⟨_, rfl⟩
  · unfold answer
    rw [if_neg hauth, if_neg hdup, if_neg hdup]
    exact ⟨_, rfl⟩

end Answer

/-! ## The kinds of steps -/

/-- What a step that goes on does. -/
inductive Does (s : Server) (k : Kernel) : Server → List Event → Prop
  | poll {pc : Pc} (hpc : s.pc = .top ∨ s.pc = .selecting ∧ s.multi.sockQueue ≠ [])
      (hnext : pc = .body s.multi.getNextFd.1 ∨ pc = .selecting ∧ s.multi.getNextFd.1 < 0) :
      Does s k { s with multi := s.multi.getNextFd.2, pc } []
  | select (hpc : s.pc = .selecting) (hq : s.multi.sockQueue = []) :
      Does s k { s with multi := (s.multi.selectRound k.pass).1 } (s.multi.selectRound k.pass).2
  | stdin {fd : ℤ} (hat : s.At fd .stdin) :
      Does s k { s with buffer := Server.fgets s.buffer k.line, pc := .top } []
  | news {fd : ℤ} {buffer : Bytes} {clients : ClientMap} {evs : List Event} (hat : s.At fd .udp)
      (hfan : FannedOut s.multi k.news (s.tables.topicMap.getD k.topic ∅).toList s.tables.clients
        clients evs) :
      Does s k
        { s with
          tables := { s.tables with
            topicMap := s.tables.topicMap.insertIfNew k.topic ∅
            clients }
          buffer
          pc := .top }
        (.news k.topic k.news :: evs)
  | accept {fd : ℤ} (hat : s.At fd .accept) :
      Does s k
        { s with
          multi := { s.multi with
            readFds := insert k.newsockfd s.multi.readFds
            fdmax := maxInt s.multi.fdmax k.newsockfd
            tcpSockets := s.multi.tcpSockets.insert k.newsockfd (.new k.newsockfd k.uninit) }
          pc := .top }
        [.accepted k.newsockfd]
  | closed {fd : ℤ} (hat : s.At fd .closed) :
      Does s k { (s.handleClosed fd).1 with pc := .top } [.disconnected fd]
  | idle {fd : ℤ} (hat : s.At fd .recv) (hin : s.incoming = none) :
      Does s k { s with pc := .top } []
  | frame {fd : ℤ} {buf : Bytes} {type : UInt8} {tables : Tables} {multi : MultiSocket}
      {past evs : List Event} (hat : s.At fd .recv) (hin : s.incoming = some buf)
      (hsize : buf.length ≤ cliPacketSize) (hmem : fd ∈ s.multi.tcpSockets)
      (hp : Processed s.tables fd buf type tables)
      (hans : Answered s.multi tables fd buf type multi evs)
      (hpast : past = [] ∨ past = [.pastPacket]) :
      Does s k { s with multi, tables, pc := .top } (.frame fd buf type :: past ++ evs)

section Step

variable {s s' : Server} {k : Kernel} {fd : ℤ} {evs : List Event}

theorem handleUdp_eq (s : Server) (k : Kernel) : s.handleUdp k =
    match fanOut s.multi k.news (s.tables.topicMap.getD k.topic ∅).toList s.tables.clients with
    | .error e => .error e
    | .ok (clients, evs) => .ok ({ s with
        tables := { s.tables with
          topicMap := s.tables.topicMap.insertIfNew k.topic ∅
          clients }
        buffer := overwrite (List.replicate buflen 0) 0 (k.datagram.take buflen) },
        .news k.topic k.news :: evs) := by
  have hgot : (overwrite (List.replicate buflen 0) 0 (k.datagram.take buflen)).take
      (k.datagram.take buflen).length = k.datagram.take buflen := by
    simp [overwrite]
  unfold Server.handleUdp sendNewsToSubscribers
  dsimp only
  rw [hgot, getD_insertIfNew_same,
    show getSendableNews (k.datagram.take buflen) k.saddr = k.news from rfl,
    show getNewsTopic k.news.data k.beyond = k.topic from rfl]
  rcases fanOut s.multi k.news _ s.tables.clients with e | ⟨clients, evs⟩ <;> rfl

theorem handleUdp_ok (hat : s.At fd .udp) (h : s.handleUdp k = .ok (s', evs)) :
    Does s k { s' with pc := .top } evs := by
  rw [handleUdp_eq] at h
  rcases hf : fanOut s.multi k.news (s.tables.topicMap.getD k.topic ∅).toList s.tables.clients with
    e | ⟨clients, evs'⟩ <;> rw [hf] at h
  · simp at h
  · simp only [Except.ok.injEq, Prod.mk.injEq] at h
    obtain ⟨rfl, rfl⟩ := h
    exact .news hat (fannedOut_of_ok _ _ _ hf)

theorem handleTcpAppRecv_ok (hat : s.At fd .recv) (hcurr : s.multi.currSockfd = fd)
    (h : s.handleTcpAppRecv fd = .ok (s', evs)) : Does s k { s' with pc := .top } evs := by
  have hd := handled s fd
  rw [h] at hd
  cases hd with
  | idle hin => exact .idle hat hin
  | frame hin hmem hsame hp ha hpast =>
    rw [hcurr] at hmem
    have hsize := process_size hp
    exact .frame hat hin ((List.length_take_le _ _).trans hsize) hmem (process_ok hp)
      (answer_ok hmem hsame hsize (process_ok hp) ha) hpast

/-- A step that goes on, one case for each branch of the loop. -/
inductive Server.Turn (s : Server) (k : Kernel) : Server → List Event → Prop
  | poll (hpc : s.pc = .top) : Server.Turn s k
      { s with
        multi := s.multi.getNextFd.2
        pc := if s.multi.getNextFd.1 < 0 then .selecting else .body s.multi.getNextFd.1 } []
  | first (hpc : s.pc = .selecting) (hq : s.multi.sockQueue ≠ []) : Server.Turn s k
      { s with multi := s.multi.getNextFd.2, pc := .body s.multi.getNextFd.1 } []
  | select (hpc : s.pc = .selecting) (hq : s.multi.sockQueue = []) : Server.Turn s k
      { s with multi := (s.multi.selectRound k.pass).1 } (s.multi.selectRound k.pass).2
  | stdin {fd : ℤ} (hat : s.At fd .stdin) : Server.Turn s k
      { s with buffer := Server.fgets s.buffer k.line, pc := .top } []
  | news {fd : ℤ} {s' : Server} {evs : List Event} (hat : s.At fd .udp)
      (h : s.handleUdp k = .ok (s', evs)) : Server.Turn s k { s' with pc := .top } evs
  | accept {fd : ℤ} {multi : MultiSocket} {evs : List Event} (hat : s.At fd .accept)
      (h : s.multi.accept k.newsockfd k.uninit = .ok (multi, evs)) :
      Server.Turn s k { s with multi, pc := .top } evs
  | closed {fd : ℤ} (hat : s.At fd .closed) : Server.Turn s k
      { (s.handleClosed fd).1 with pc := .top } (s.handleClosed fd).2
  | recv {fd : ℤ} {s' : Server} {evs : List Event} (hat : s.At fd .recv)
      (h : s.handleTcpAppRecv fd = .ok (s', evs)) : Server.Turn s k { s' with pc := .top } evs

theorem Server.turn_of_step (h : s.step k = .ok (s', evs)) : Server.Turn s k s' evs := by
  unfold Server.step at h
  rcases hpc : s.pc with _ | _ | fd <;> rw [hpc] at h <;> dsimp only at h
  · obtain ⟨rfl, rfl⟩ := Prod.mk.inj (Except.ok.inj h)
    exact .poll hpc
  · split_ifs at h with hq
    · obtain ⟨rfl, rfl⟩ := Prod.mk.inj (Except.ok.inj h)
      rw [← hpc]
      exact .select hpc hq
    · obtain ⟨rfl, rfl⟩ := Prod.mk.inj (Except.ok.inj h)
      exact .first hpc hq
  · rcases hb : s.loopBody k fd with e | ⟨s₁, evs₁⟩ <;> rw [hb] at h
    · simp at h
    obtain ⟨rfl, rfl⟩ := Prod.mk.inj (Except.ok.inj h)
    unfold Server.loopBody at hb
    rcases hbranch : s.branch fd with _ | _ | _ | _ | _ <;> rw [hbranch] at hb <;>
      dsimp only at hb
    · split_ifs at hb
      obtain ⟨rfl, rfl⟩ := Prod.mk.inj (Except.ok.inj hb)
      exact .stdin ⟨hpc, hbranch⟩
    · exact .news ⟨hpc, hbranch⟩ hb
    · rcases ha : s.multi.accept k.newsockfd k.uninit with e | ⟨multi, evs₂⟩ <;> rw [ha] at hb
      · simp at hb
      obtain ⟨rfl, rfl⟩ := Prod.mk.inj (Except.ok.inj hb)
      exact .accept ⟨hpc, hbranch⟩ ha
    · obtain ⟨rfl, rfl⟩ := Prod.mk.inj (Except.ok.inj hb)
      exact .closed ⟨hpc, hbranch⟩
    · exact .recv ⟨hpc, hbranch⟩ hb

theorem World.step_of_next {w w' : World} (hn : next w k = some w') :
    ∃ evs, w.server.step k = .ok (w'.server, evs) ∧ w'.trace = w.trace ++ evs ∧
      0 ≤ k.newsockfd ∧ ¬ w.server.IsOpen k.newsockfd := by
  unfold next at hn
  split_ifs at hn with hk
  unfold step at hn
  rcases hs : w.server.step k with e | ⟨s', evs⟩ <;> simp only [hs] at hn
  · simp [Except.toOption] at hn
  simp only [Except.toOption, Option.some.injEq] at hn
  subst hn
  exact ⟨evs, rfl, rfl, hk⟩

theorem step_does (hcurr : ∀ fd, s.pc = .body fd → s.multi.currSockfd = fd)
    (h : s.step k = .ok (s', evs)) : Does s k s' evs := by
  cases Server.turn_of_step h with
  | poll hpc =>
    refine .poll (.inl hpc) ?_
    split_ifs with hfd
    · exact .inr ⟨rfl, hfd⟩
    · exact .inl rfl
  | first hpc hq => exact .poll (.inr ⟨hpc, hq⟩) (.inl rfl)
  | select hpc hq => exact .select hpc hq
  | stdin hat => exact .stdin hat
  | news hat h => exact handleUdp_ok hat h
  | accept hat h =>
    unfold MultiSocket.accept at h
    split_ifs at h
    obtain ⟨rfl, rfl⟩ := Prod.mk.inj (Except.ok.inj h)
    exact .accept hat
  | closed hat => exact .closed hat
  | recv hat h => exact handleTcpAppRecv_ok hat (hcurr _ hat.1) h

theorem step_of_recv (hat : s.At fd .recv) (k : Kernel) : s.step k =
    match s.handleTcpAppRecv fd with
    | .error e => .error e
    | .ok (s', evs) => .ok ({ s' with pc := .top }, evs) := by
  obtain ⟨hpc, hb⟩ := hat
  have hbody : s.loopBody k fd = s.handleTcpAppRecv fd := by
    rw [Server.loopBody, hb]
  rcases hh : s.handleTcpAppRecv fd with e | ⟨s', evs⟩
  · simp only [Server.step, hpc, hbody, hh]
  · simp only [Server.step, hpc, hbody, hh]

/-- The step that handles a frame which fits a `cli_packet` goes on unless the answer does not. -/
theorem step_of_incoming (hat : s.At fd .recv) (hcurr : s.multi.currSockfd = fd) {buf : Bytes}
    (hin : s.incoming = some buf) (hsize : buf.length ≤ cliPacketSize) (k : Kernel) :
    fd ∈ s.multi.tcpSockets ∧ ∃ multi buffer size type tables past,
      SameSockets s.multi multi ∧ buffer.take size = buf ∧ size ≤ cliPacketSize ∧
        Processed s.tables fd buf type tables ∧ (past = [] ∨ past = [.pastPacket]) ∧
          s.step k = match answer multi tables fd buffer size type with
            | .error e => .error e
            | .ok (multi', evs) => .ok ({ s with multi := multi', tables, pc := .top },
                .frame fd buf type :: past ++ evs) := by
  have hr := received_recv s.multi
  rcases hrecv : s.multi.recv with ⟨size, out, copied, multi⟩
  rw [hrecv] at hr
  simp only [Server.incoming, hrecv] at hin
  cases hr with
  | unbuffered => simp at hin
  | notReady => simp at hin
  | written hmem hsame =>
    simp only [Option.ite_none_right_eq_some, Option.some.injEq] at hin
    obtain ⟨hlong, rfl⟩ := hin
    have hsize' : size ≤ cliPacketSize := by
      rw [List.length_take] at hsize
      have : (overwrite (List.replicate buflen 0) 0 copied).length = buflen := by
        rw [length_overwrite]
        · simp
        · simpa using hlong
      rw [this] at hsize
      simp only [buflen, cliPacketSize, cliPacketDataSize] at hsize ⊢
      omega
    obtain ⟨type, tables, hp⟩ := process_total s.tables fd
      (overwrite (List.replicate buflen 0) 0 copied) hsize'
    rw [hcurr] at hmem
    refine ⟨hmem, multi, _, size, type, tables, if size = cliPacketSize then [.pastPacket] else [],
      hsame, rfl, hsize', process_ok hp, ?_, ?_⟩
    · split_ifs
      · exact .inr rfl
      · exact .inl rfl
    rw [step_of_recv hat]
    simp only [Server.handleTcpAppRecv, Server.received, hrecv, if_neg (not_lt.2 hlong), hp,
      reduceCtorEq, ↓reduceIte]
    rcases answer multi tables fd _ size type with e | ⟨multi', evs⟩ <;> rfl

/-- An `AUTH` for an id in use is answered with one byte, and the connection is closed. -/
theorem step_of_used (hat : s.At fd .recv) (hcurr : s.multi.currSockfd = fd) {buf : Bytes}
    (hin : s.incoming = some buf) (hsize : buf.length ≤ cliPacketSize)
    (hauth : frameType buf = typeAuth) (hused : (userOf s.tables.clients (frameField buf)).isSome)
    (k : Kernel) : ∃ s' past, (past = [] ∨ past = [.pastPacket]) ∧
      s.step k = .ok (s', .frame fd buf typeAuthDuplicate :: past ++
        [.sent fd (wire [typeAuthDuplicate]), .closed fd]) := by
  obtain ⟨hmem, multi, buffer, size, type, tables, past, hsame, -, -, hp, hpast, hstep⟩ :=
    step_of_incoming hat hcurr hin hsize k
  obtain rfl := hp.of_used hauth hused
  rw [answer_declined_eq ((hsame.mem fd).2 hmem)] at hstep
  exact ⟨_, past, hpast, hstep⟩

/-- An `AUTH` that is accepted is sent back, and after it what is stored for the id. -/
theorem step_of_free (hat : s.At fd .recv) (hcurr : s.multi.currSockfd = fd) {buf : Bytes}
    (hin : s.incoming = some buf) (hsize : buf.length ≤ cliPacketSize)
    (hauth : frameType buf = typeAuth) (hfree : userOf s.tables.clients (frameField buf) = none)
    (hsmall : ∀ packet ∈ queueOf s.tables.clients (frameField buf),
      packet.size + 4 ≤ tcpBufferSize) (k : Kernel) :
    ∃ s' past, (past = [] ∨ past = [.pastPacket]) ∧
      s.step k = .ok (s', .frame fd buf typeAuth :: past ++ .sent fd (wire buf) ::
        replays (frameField buf) fd (queueOf s.tables.clients (frameField buf))) := by
  obtain ⟨hmem, multi, buffer, size, type, tables, past, hsame, hbuf, hsize', hp, hpast, hstep⟩ :=
    step_of_incoming hat hcurr hin hsize k
  obtain rfl := hp.of_free hauth hfree
  obtain ⟨-, -, hl⟩ := hp.of_auth rfl
  rw [← hbuf] at hl hsmall ⊢
  have hsub := hl.sockfd
  have hunload := unload_of_mem (frameField (buffer.take size))
    (hsub.symm ▸ (hsame.mem fd).2 hmem) hsmall
  rw [answer_auth_eq ((hsame.mem fd).2 hmem) hsize' hl, hl.queue, hunload, hsub, ← hbuf] at hstep
  exact ⟨_, past, hpast, hstep⟩

theorem answer_ne_sendToSub {m : MultiSocket} {t t₀ : Tables} {buffer : Bytes} {size : ℕ}
    {type : UInt8} (hmem : fd ∈ m.tcpSockets) (hsize : size ≤ cliPacketSize)
    (hp : Processed t₀ fd (buffer.take size) type t) :
    answer m t fd buffer size type ≠ .error (.die .sendToSub) := by
  by_cases hauth : type = typeAuth
  · obtain ⟨-, -, hl⟩ := hp.of_auth hauth
    subst hauth
    have hsub := hl.sockfd
    have hne := unload_error (frameField (buffer.take size)) (hsub.symm ▸ hmem)
      (queueOf t.clients (frameField (buffer.take size)))
    rw [answer_auth_eq hmem hsize hl]
    rcases hu : unloadNewsQueue.unload m _ _ _ with e | evs
    · rw [hu] at hne
      simpa using hne
    · simp
  by_cases hdup : type = typeAuthDuplicate
  · rw [hdup, answer_declined_eq hmem]
    simp
  · unfold answer
    rw [if_neg hauth, if_neg hdup]
    simp

theorem handleTcpAppRecv_ne_sendToSub (hcurr : s.multi.currSockfd = fd) :
    s.handleTcpAppRecv fd ≠ .error (.die .sendToSub) := by
  intro h
  have hd := handled s fd
  rw [h] at hd
  cases hd with
  | stopped hmem hsame hp ha =>
    rw [hcurr] at hmem
    exact answer_ne_sendToSub ((hsame.mem fd).2 hmem) (process_size hp) (process_ok hp) ha

/-- A step gives up on a subscriber only for a datagram, and if the socket of one is not there. -/
theorem step_ne_sendToSub (hcurr : ∀ fd, s.pc = .body fd → s.multi.currSockfd = fd)
    (hreg : ∀ fd, s.At fd .udp → ∀ entry ∈ (s.tables.topicMap.getD k.topic ∅).toList,
      ∀ f, userOf s.tables.clients entry.1 = some f → f ∈ s.multi.tcpSockets) :
    s.step k ≠ .error (.die .sendToSub) := by
  unfold Server.step
  rcases hpc : s.pc with _ | _ | fd <;> dsimp only
  · simp
  · split_ifs <;> simp
  have hbody : s.loopBody k fd ≠ .error (.die .sendToSub) := by
    unfold Server.loopBody
    rcases hbranch : s.branch fd with _ | _ | _ | _ | _ <;> dsimp only
    · split_ifs <;> simp
    · have hne := fanOut_error s.multi k.news _ s.tables.clients (hreg fd ⟨hpc, hbranch⟩)
      rw [handleUdp_eq]
      rcases hf : fanOut s.multi k.news _ s.tables.clients with e | ⟨clients, evs⟩
      · rw [hf] at hne
        simpa using hne
      · simp
    · unfold MultiSocket.accept
      split_ifs <;> simp
    · simp
    · exact handleTcpAppRecv_ne_sendToSub (hcurr fd hpc)
  rcases hb : s.loopBody k fd with e | ⟨s₁, evs₁⟩
  · rw [hb] at hbody
    simpa using hbody
  · simp

/-- Only a frame changes a subscription, one of the id that is bound to its connection. -/
theorem Does.flagOf_ne (hd : Does s k s' evs) {topic id : Bytes}
    (h : flagOf s'.tables.topicMap topic id ≠ flagOf s.tables.topicMap topic id) :
    ∃ fd, s.At fd .recv ∧ fd ∈ s.multi.tcpSockets ∧ s.tables.idsMap[fd]? = some id := by
  cases hd with
  | @frame fd buf type tables multi past evs hat hin hsize hmem hp hans hpast =>
    cases hp with
    | accepted hauth hfree ht => exact absurd (by rw [ht.topics]) h
    | declined hauth hused ht htopics => exact absurd (by rw [htopics]) h
    | echoed => exact absurd rfl h
    | other hne hframe ht htopics => exact ⟨fd, hat, hmem, htopics topic id h⟩
  | news =>
    refine absurd ?_ h
    simp only [flagOf, getD_insertIfNew_same]
  | poll => exact absurd rfl h
  | select => exact absurd rfl h
  | stdin => exact absurd rfl h
  | accept => exact absurd rfl h
  | closed => exact absurd rfl h
  | idle => exact absurd rfl h

/-- News is sent where its client is connected, for a datagram or an `AUTH`. -/
theorem Does.delivered (hd : Does s k s' evs) {id : Bytes} {fd : ℤ} {packet : SharedPacket}
    (h : .forwarded id fd packet ∈ evs ∨ .replayed id fd packet ∈ evs) :
    (∃ fd', s.At fd' .udp ∨ s.At fd' .recv) ∧ userOf s'.tables.clients id = some fd ∧
      fd ∈ s'.multi.tcpSockets := by
  cases hd with
  | @news fd' buffer clients evs hat hfan =>
    refine ⟨⟨fd', .inl hat⟩, ?_⟩
    simp only [List.mem_cons, reduceCtorEq, false_or] at h
    rcases h with h | h
    · obtain ⟨hid, hmem⟩ := hfan.forwarded h
      exact ⟨(hfan.user id).trans hid, hmem⟩
    · have := mem_replayedTo h
      simp [hfan.replayedTo] at this
  | @frame fd' buf type tables multi past evs hat hin hsize hmem hp hans hpast =>
    refine ⟨⟨fd', .inr hat⟩, ?_⟩
    have hevs : .forwarded id fd packet ∈ evs ∨ .replayed id fd packet ∈ evs := by
      rcases hpast with rfl | rfl <;> simpa using h
    cases hans with
    | confirmed hm =>
      simp only [replays, List.mem_cons, reduceCtorEq, List.mem_flatMap, List.not_mem_nil, or_false,
        false_or, and_false, exists_false, Event.replayed.injEq] at hevs
      obtain ⟨p, -, rfl, rfl, -⟩ := hevs
      obtain ⟨-, -, hl⟩ := hp.of_auth rfl
      exact ⟨(hl.user _).trans (if_pos rfl), (hm.mem fd).2 hmem⟩
    | declined => simp at hevs
    | silent => simp at hevs
  | select =>
    obtain ⟨fds, he, -⟩ := MultiSocket.passed_selectRound s.multi k.pass
    simp [he] at h
  | poll => simp at h
  | stdin => simp at h
  | accept => simp at h
  | closed => simp at h
  | idle => simp at h

theorem Does.queue (hd : Does s k s' evs) (id : Bytes) :
    queueOf s'.tables.clients id = queueOf s.tables.clients id ++ storedFor id evs := by
  cases hd with
  | news hat hfan => exact hfan.queue id
  | select =>
    obtain ⟨fds, he, -⟩ := MultiSocket.passed_selectRound s.multi k.pass
    rw [he, storedFor_closed, List.append_nil]
  | @closed fd hat =>
    simp only [Server.handleClosed, queueOf_insert]
    split_ifs with hid
    · subst hid
      simp [storedFor, queueOf]
    · simp [storedFor]
  | frame hat hin hsize hmem hp hans hpast =>
    rw [hans.storedFor_eq hpast, List.append_nil]
    exact hp.queue id
  | poll => simp [storedFor]
  | stdin => simp [storedFor]
  | accept => simp [storedFor]
  | idle => simp [storedFor]

/-- Only an `AUTH` that is accepted sends what is stored, all of it. -/
theorem Does.replayedTo (hd : Does s k s' evs) (id : Bytes) : replayedTo id evs = [] ∨
    ∃ fd, s.At fd .recv ∧ ∃ buf ∈ s.incoming, buf.length ≤ cliPacketSize ∧
      frameType buf = typeAuth ∧ frameField buf = id ∧ userOf s.tables.clients id = none ∧
        replayedTo id evs = queueOf s.tables.clients id := by
  cases hd with
  | news hat hfan => exact .inl (hfan.replayedTo id)
  | select =>
    obtain ⟨fds, he, -⟩ := MultiSocket.passed_selectRound s.multi k.pass
    rw [he]
    exact .inl (replayedTo_closed id fds)
  | @frame fd buf type tables multi past evs hat hin hsize hmem hp hans hpast =>
    rw [hans.replayedTo_eq hpast]
    split_ifs with hc
    · obtain ⟨hauth, rfl⟩ := hc
      obtain ⟨hframe, hfree, hl⟩ := hp.of_auth hauth
      exact .inr ⟨fd, hat, buf, hin, hsize, hframe, rfl, hfree, hl.queue _⟩
    · exact .inl rfl
  | poll => exact .inl rfl
  | stdin => exact .inl rfl
  | accept => exact .inl rfl
  | closed => exact .inl rfl
  | idle => exact .inl rfl

/-- A step that accepts an `AUTH` stores nothing, and sends all that is stored for the id. -/
theorem Does.accepted (hd : Does s k s' evs) (hat : s.At fd .recv) {buf : Bytes}
    (hin : s.incoming = some buf) (hauth : frameType buf = typeAuth)
    (hfree : userOf s.tables.clients (frameField buf) = none) :
    (∀ id, storedFor id evs = []) ∧
      NewsServer.replayedTo (frameField buf) evs = queueOf s.tables.clients (frameField buf) := by
  cases hd with
  | @frame fd' buf' type tables multi past evs hat' hin' hsize hmem hp hans hpast =>
    rw [hin, Option.some.injEq] at hin'
    subst hin'
    obtain rfl := hp.of_free hauth hfree
    obtain ⟨-, -, hl⟩ := hp.of_auth rfl
    refine ⟨hans.storedFor_eq hpast, ?_⟩
    rw [hans.replayedTo_eq hpast, if_pos ⟨rfl, rfl⟩, hl.queue]
  | idle hat' hin' => simp [hin] at hin'
  | poll hpc => exact absurd hat (Server.not_at_of_pc (hpc.imp_right And.left) fd _)
  | select hpc => exact absurd hat (Server.not_at_of_pc (.inr hpc) fd _)
  | stdin hat' => exact absurd hat (hat'.not (by decide) fd)
  | news hat' => exact absurd hat (hat'.not (by decide) fd)
  | accept hat' => exact absurd hat (hat'.not (by decide) fd)
  | closed hat' => exact absurd hat (hat'.not (by decide) fd)

theorem nodup_toList (ids : Std.TreeMap Bytes UInt8) : (ids.toList.map Prod.fst).Nodup := by
  rw [List.Nodup, List.pairwise_map]
  exact ids.distinct_keys_toList.imp fun h => by simpa using h

/-- A datagram is stored for a client that is subscribed to its topic with `sf` 1 and not
connected. -/
theorem Does.missed (hd : Does s k s' evs) (hat : s.At fd .udp) {id : Bytes}
    (hflag : flagOf s.tables.topicMap k.topic id = some 1)
    (hfree : userOf s.tables.clients id = none) : storedFor id evs = [k.news] := by
  cases hd with
  | news hat' hfan =>
    have hmem : (id, 1) ∈ (s.tables.topicMap.getD k.topic ∅).toList :=
      Std.TreeMap.mem_toList_iff_getElem?_eq_some.2 hflag
    exact hfan.storedFor_eq (nodup_toList _) hmem (by decide) hfree
  | poll hpc => exact absurd hat (Server.not_at_of_pc (hpc.imp_right And.left) fd _)
  | select hpc => exact absurd hat (Server.not_at_of_pc (.inr hpc) fd _)
  | stdin hat' => exact absurd hat (hat'.not (by decide) fd)
  | accept hat' => exact absurd hat (hat'.not (by decide) fd)
  | closed hat' => exact absurd hat (hat'.not (by decide) fd)
  | idle hat' => exact absurd hat (hat'.not (by decide) fd)
  | frame hat' => exact absurd hat (hat'.not (by decide) fd)

theorem Does.eq_of_mem_storedFor (hd : Does s k s' evs) {id : Bytes} {p : SharedPacket}
    (hp : p ∈ storedFor id evs) : p = k.news := by
  cases hd with
  | news hat hfan => exact hfan.eq_of_mem hp
  | select =>
    obtain ⟨fds, he, -⟩ := MultiSocket.passed_selectRound s.multi k.pass
    simp [he, storedFor_closed] at hp
  | frame _ _ _ _ _ hans hpast =>
    rw [hans.storedFor_eq hpast] at hp
    simp at hp
  | poll => simp [storedFor] at hp
  | stdin => simp [storedFor] at hp
  | accept => simp [storedFor] at hp
  | closed => simp [storedFor] at hp
  | idle => simp [storedFor] at hp

end Step

end NewsServer
