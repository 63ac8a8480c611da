import NewsServer.Proofs.FrameBounds
import NewsServer.Proofs.Isolation
import NewsServer.Proofs.Operator

/-!
# What stops the server

Where `::select`, `setsockopt`, `recvfrom` and `::send` on an open socket succeed, the next step of
every run stops the server exactly for one of a few reasons (`stops_iff`): a line that begins with
`exit`, a subscriber whose socket is gone, an error of `::accept` or a descriptor from it that is
past the `fd_set`, a frame that is too long, or `handle_tcp_app_recv` without a socket. No `send` of
a buffered socket and no `recv` of `main` ever ends in its `DIE`.
-/

namespace NewsServer

open Memory

namespace Server

/-- What stops a branch of the loop, with `fd` at hand. -/
inductive FailsIn (s : Server) (k : Kernel) (fd : ℤ) : Branch → Stop → Prop
  | exit (hline : exitText <+: fgets s.buffer k.line) : FailsIn s k fd .stdin .exit
  | gone {id : Bytes} {f : ℤ} (hflag : (flagOf s.tables.topicMap k.topic id).isSome)
      (huser : userOf s.tables.clients id = some f) (hgone : f ∉ s.multi.tcpSockets) :
      FailsIn s k fd .udp (.die .sendToSub)
  | accept (hneg : k.newsockfd < 0) : FailsIn s k fd .accept (.die .accept)
  | pastFdSet (hlarge : fdSetsize ≤ k.newsockfd) : FailsIn s k fd .accept .pastFdSet
  | noSocket (hgone : fd ∉ s.multi.tcpSockets) : FailsIn s k fd .recv (.die .tcpPacketTooBig)
  | tooBig {p : Bytes} (hp : s.front = some p) (hbig : cliPacketSize < p.length)
      (hfits : p.length ≤ buflen) : FailsIn s k fd .recv (.die .tcpPacketTooBig)
  | overrun {p : Bytes} (hp : s.front = some p) (hlong : buflen < p.length) :
      FailsIn s k fd .recv .overrun

/-- A reason for which a step stops the server. -/
def Fails (s : Server) (k : Kernel) (e : Stop) : Prop :=
  ∃ fd b, s.At fd b ∧ s.FailsIn k fd b e

theorem fails_iff {s : Server} {fd : ℤ} {b : Branch} (hat : s.At fd b) (k : Kernel) (e : Stop) :
    s.Fails k e ↔ s.FailsIn k fd b e := by
  refine ⟨?_, fun h => ⟨fd, b, hat, h⟩⟩
  rintro ⟨fd', b', hat', h⟩
  obtain ⟨rfl, rfl⟩ := hat.eq hat'
  exact h

end Server

section News

variable {multi : MultiSocket} {packet : SharedPacket} {entries : List (Bytes × UInt8)}
  {clients clients' : ClientMap} {evs : List Event}

/-- Where the walk gets through, the clients that are connected have their sockets. -/
theorem FannedOut.mem_of_user (h : FannedOut multi packet entries clients clients' evs)
    {entry : Bytes × UInt8} (he : entry ∈ entries) {fd : ℤ}
    (huser : userOf clients entry.1 = some fd) : fd ∈ multi.tcpSockets := by
  induction h with
  | nil => simp at he
  | skip hfree hu _ _ ih =>
    rcases List.mem_cons.1 he with rfl | he
    · simp [hfree] at huser
    · exact ih he ((hu _).trans huser)
  | store hfree _ hu _ _ ih =>
    rcases List.mem_cons.1 he with rfl | he
    · simp [hfree] at huser
    · exact ih he ((hu _).trans huser)
  | forward huser' hmem hu _ _ ih =>
    rcases List.mem_cons.1 he with rfl | he
    · obtain rfl := Option.some.inj (huser'.symm.trans huser)
      exact hmem
    · exact ih he ((hu _).trans huser)

/-- The walk stops exactly at a client that is connected and has no socket. -/
theorem fanOut_error_iff (hsize : packet.size + 4 ≤ tcpBufferSize) {e : Stop} :
    fanOut multi packet entries clients = .error e ↔ e = .die .sendToSub ∧
      ∃ entry ∈ entries, ∃ fd, userOf clients entry.1 = some fd ∧ fd ∉ multi.tcpSockets := by
  rcases hf : fanOut multi packet entries clients with e' | ⟨clients', evs⟩
  · obtain rfl : e' = .die .sendToSub := by
      rcases fanOut_stop hf with he | ⟨-, hlong⟩
      · exact he
      · exact absurd hsize (not_le.2 hlong)
    have hgone : ∃ entry ∈ entries, ∃ fd, userOf clients entry.1 = some fd ∧
        fd ∉ multi.tcpSockets := by
      by_contra hno
      simp only [not_exists, not_and, not_not] at hno
      exact fanOut_error multi packet entries clients hno hf
    simp only [Except.error.injEq, eq_comm (a := e), hgone, and_true]
  · have hfan := fannedOut_of_ok multi packet entries hf
    simp only [reduceCtorEq, false_iff, not_and, not_exists, not_not]
    exact fun _ entry he fd huser => hfan.mem_of_user he huser

end News

section Step

variable {s : Server} {k : Kernel} {fd : ℤ} {e : Stop}

theorem step_of_body (hpc : s.pc = .body fd) (k : Kernel) :
    s.step k = .error e ↔ s.loopBody k fd = .error e := by
  unfold Server.step
  rw [hpc]
  dsimp only
  rcases s.loopBody k fd with e' | ⟨s', evs⟩ <;> simp

theorem stdin_error_iff (fd : ℤ) :
    (if strncmpEq (Server.fgets s.buffer k.line) Server.exitText 4 then
      (.error .exit : Except Stop (Server × List Event))
      else .ok ({ s with buffer := Server.fgets s.buffer k.line }, [])) = .error e ↔
      s.FailsIn k fd .stdin e := by
  split_ifs with hexit <;> rw [strncmpEq_exitText] at hexit
  · refine ⟨fun h => Except.error.inj h ▸ .exit hexit, fun h => ?_⟩
    cases h
    rfl
  · simp only [false_iff]
    intro h
    cases h with
    | exit hline => exact hexit hline

theorem handleUdp_error_iff (fd : ℤ) : s.handleUdp k = .error e ↔ s.FailsIn k fd .udp e := by
  have hfan : s.handleUdp k = .error e ↔ fanOut s.multi k.news
      (s.tables.topicMap.getD k.topic ∅).toList s.tables.clients = .error e := by
    rw [handleUdp_eq]
    rcases fanOut s.multi k.news _ s.tables.clients with e' | ⟨clients, evs⟩ <;> simp
  rw [hfan, fanOut_error_iff (size_news_le k)]
  constructor
  · rintro ⟨rfl, ⟨id, sf⟩, hentry, f, huser, hgone⟩
    refine .gone ?_ huser hgone
    rw [flagOf, Std.TreeMap.mem_toList_iff_getElem?_eq_some.1 hentry]
    rfl
  · intro h
    cases h with
    | @gone id f hflag huser hgone =>
      obtain ⟨sf, hsf⟩ := Option.isSome_iff_exists.1 hflag
      exact ⟨rfl, (id, sf), Std.TreeMap.mem_toList_iff_getElem?_eq_some.2 hsf, f, huser, hgone⟩

theorem accept_error_iff (fd : ℤ) :
    s.multi.accept k.newsockfd k.uninit = .error e ↔ s.FailsIn k fd .accept e := by
  unfold MultiSocket.accept
  split_ifs with hneg hlarge
  · refine ⟨fun h => Except.error.inj h ▸ .accept hneg, fun h => ?_⟩
    cases h with
    | accept => rfl
    | pastFdSet hlarge => exact absurd (hlarge.trans_lt hneg) (by decide)
  · refine ⟨fun h => Except.error.inj h ▸ .pastFdSet hlarge, fun h => ?_⟩
    cases h with
    | accept hneg' => exact absurd hneg' hneg
    | pastFdSet => rfl
  · simp only [false_iff]
    intro h
    cases h with
    | accept hneg' => exact hneg hneg'
    | pastFdSet hlarge' => exact hlarge hlarge'

theorem handleTcpAppRecv_error_iff (hm : s.multi.Sound) (hsend : Sendable s)
    (hcurr : s.multi.currSockfd = fd) :
    s.handleTcpAppRecv fd = .error e ↔ s.FailsIn k fd .recv e := by
  have hfails : s.FailsIn k fd .recv e ↔ fd ∉ s.multi.tcpSockets ∧ e = .die .tcpPacketTooBig ∨
      ∃ p, s.front = some p ∧ (cliPacketSize < p.length ∧ p.length ≤ buflen ∧
        e = .die .tcpPacketTooBig ∨ buflen < p.length ∧ e = .overrun) := by
    constructor
    · intro h
      cases h with
      | noSocket hgone => exact .inl ⟨hgone, rfl⟩
      | tooBig hp hbig hfits => exact .inr ⟨_, hp, .inl ⟨hbig, hfits, rfl⟩⟩
      | overrun hp hlong => exact .inr ⟨_, hp, .inr ⟨hlong, rfl⟩⟩
    · rintro (⟨hgone, rfl⟩ | ⟨p, hp, ⟨hbig, hfits, rfl⟩ | ⟨hlong, rfl⟩⟩)
      · exact .noSocket hgone
      · exact .tooBig hp hbig hfits
      · exact .overrun hp hlong
  rw [hfails, Server.front, hcurr]
  rcases hs : s.multi.tcpSockets[fd]? with _ | sock
  · have hgone : fd ∉ s.multi.tcpSockets := by
      rw [Std.TreeMap.mem_iff_isSome_getElem?, hs]
      simp
    have hbig : s.handleTcpAppRecv fd = .error (.die .tcpPacketTooBig) := by
      unfold Server.handleTcpAppRecv Server.received
      rw [MultiSocket.recv_of_none (hcurr ▸ hs)]
      dsimp only
      rw [if_neg (by simp), if_neg (by decide), if_neg (by decide), process_big _ _ _ (by decide)]
    simp [hbig, hgone, eq_comm]
  have hmem : fd ∈ s.multi.tcpSockets := by
    rw [Std.TreeMap.mem_iff_isSome_getElem?, hs]
    rfl
  rcases hp : sock.packets with _ | ⟨p, rest⟩
  · have hok : s.handleTcpAppRecv fd = .ok ({ s with multi := s.multi }, []) := by
      unfold Server.handleTcpAppRecv Server.received
      rw [MultiSocket.recv_of_not_ready (hcurr ▸ hs) (BufferedTcpSocket.packetReady_eq_false.2 hp)]
      dsimp only
      rw [if_neg (by simp), if_neg (by decide), if_pos rfl]
    simp [hok, hmem, hp]
  obtain ⟨hover, hbig, hfits⟩ := handleTcpAppRecv_frame hm hsend hcurr hs hp
  simp only [hmem, not_true_eq_false, false_and, false_or, Option.bind_some, hp, List.head?_cons,
    Option.some.injEq, exists_eq_left']
  rcases lt_or_ge buflen p.length with hlong | hlong
  · rw [hover hlong]
    simp [hlong, not_le.2 hlong, eq_comm]
  rcases lt_or_ge cliPacketSize p.length with hsize | hsize
  · rw [hbig hsize hlong]
    simp [hsize, hlong, not_lt.2 hlong, eq_comm]
  · obtain ⟨s', evs, hok, -⟩ := hfits hsize
    simp [hok, not_lt.2 hsize, not_lt.2 hlong]

/-- A step stops the server exactly for one of the reasons. -/
theorem step_error_iff (hm : s.multi.Sound) (hsend : Sendable s)
    (hcurr : ∀ fd, s.pc = .body fd → s.multi.currSockfd = fd) :
    s.step k = .error e ↔ s.Fails k e := by
  have hno : s.pc = .top ∨ s.pc = .selecting → ¬ s.Fails k e := by
    rintro hpc ⟨fd, b, hat, -⟩
    exact Server.not_at_of_pc hpc fd b hat
  rcases hpc : s.pc with _ | _ | fd
  · unfold Server.step
    simp [hpc, hno (.inl hpc)]
  · unfold Server.step
    rw [hpc]
    dsimp only
    split_ifs <;> simp [hno (.inr hpc)]
  have hat : s.At fd (s.branch fd) := ⟨hpc, rfl⟩
  rw [step_of_body hpc, Server.fails_iff hat]
  unfold Server.loopBody
  rcases s.branch fd <;> dsimp only
  · exact stdin_error_iff fd
  · exact handleUdp_error_iff fd
  · rw [← accept_error_iff fd]
    rcases s.multi.accept k.newsockfd k.uninit with x | ⟨multi, evs⟩ <;> simp
  · simp only [reduceCtorEq, false_iff]
    intro h
    cases h
  · exact handleTcpAppRecv_error_iff hm hsend (hcurr fd hpc)

end Step

namespace World

/-- In every run, where `::select`, `setsockopt`, `recvfrom` and `::send` on an open socket succeed
and whatever else the system answers, the next step stops the server exactly for one of the reasons
of `Server.FailsIn`. -/
theorem stops_iff {udp tcp : ℤ} {buffer : Bytes} {tr : List (World × Kernel)} {w : World}
    (h : Run udp tcp buffer tr w) (k : Kernel) (e : Stop) :
    w.step k = .error e ↔ w.server.Fails k e := by
  rw [← step_error_iff h.sound h.sendable fun fd hpc => (Run.consistent h).curr fd hpc]
  unfold step
  rcases w.server.step k with e' | ⟨s', evs⟩ <;> simp

set_option maxRecDepth 10000 in
/-- A frame of 66 bytes has come in. -/
theorem stops_iff_66 : ∃ tr w, Run 3 4 [] tr w ∧ tr.map Prod.snd = frameInputs 66 ∧
    (w.step .quiet = .error (.die .tcpPacketTooBig) ↔
      w.server.Fails .quiet (.die .tcpPacketTooBig)) ∧
    w.server.Fails .quiet (.die .tcpPacketTooBig) := by
  have hready : ∃ w ∈ Runs.exec next (start 3 4 []) (frameInputs 66),
      w.server.at? = some (5, .recv) ∧ ∃ p, w.server.front = some p ∧ p.length = 66 := by
    decide +kernel
  obtain ⟨tr, w, hr, htr, hat, p, hp, hlen⟩ := Runs.exists_run_of_exec hready
  exact ⟨tr, w, hr, htr, stops_iff hr _ _,
    5, .recv, Server.at_iff.2 hat, .tooBig hp (by rw [hlen]; decide) (by rw [hlen]; decide)⟩

end World

end NewsServer
