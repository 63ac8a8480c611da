import NewsServer.Proofs.ServerLoop
import NewsServer.Proofs.StoreForward

/-!
# What a frame of a client can do

The decoder lets frames of up to `MAX_PACKET_SIZE` bytes through. The handler's buffer has `BUFLEN`
bytes, a `cli_packet` 65, and a NUL is written behind what is copied into it. So the handler gets
through a frame, within its arrays, exactly where it is shorter than a `cli_packet`
(`withinBounds_iff`).
-/

namespace NewsServer

open Memory

/-- The step goes back to the top of the loop, and has written past no array. -/
def WithinBounds (s : Server) (k : Kernel) : Prop :=
  ∃ s' evs, s.step k = .ok (s', evs) ∧ .pastPacket ∉ evs

theorem Answered.pastPacket_notMem {m m' : MultiSocket} {t : Tables} {fd : ℤ} {buf : Bytes}
    {type : UInt8} {evs : List Event} (h : Answered m t fd buf type m' evs) :
    .pastPacket ∉ evs := by
  cases h with
  | confirmed => simp [replays]
  | declined => simp
  | silent => simp

section Frame

variable {s : Server} {fd : ℤ} {sock : BufferedTcpSocket} {p : Bytes} {rest : List Bytes}

theorem handleTcpAppRecv_frame (hsound : s.multi.Sound) (hsend : Sendable s)
    (hcurr : s.multi.currSockfd = fd) (hs : s.multi.tcpSockets[fd]? = some sock)
    (hp : sock.packets = p :: rest) :
    (buflen < p.length → s.handleTcpAppRecv fd = .error .overrun) ∧
      (cliPacketSize < p.length → p.length ≤ buflen →
        s.handleTcpAppRecv fd = .error (.die .tcpPacketTooBig)) ∧
      (p.length ≤ cliPacketSize → ∃ s' evs, s.handleTcpAppRecv fd = .ok (s', evs) ∧
        (.pastPacket ∈ evs ↔ p.length = cliPacketSize)) := by
  subst hcurr
  obtain ⟨sock', hrecv, -, -⟩ := hsound.recv_eq hs hp
  have hmem : s.multi.currSockfd ∈ s.multi.tcpSockets := by
    rw [Std.TreeMap.mem_iff_isSome_getElem?, hs]
    rfl
  unfold Server.handleTcpAppRecv Server.received
  rw [hrecv]
  dsimp only
  refine ⟨fun hlong => by rw [if_pos hlong], fun hbig hlong => ?_, fun hsize => ?_⟩
  · rw [if_neg (not_lt.2 hlong), if_neg (by decide), if_neg (by decide), process_big _ _ _ hbig]
  · have hlong : p.length ≤ buflen := hsize.trans (by decide)
    rw [if_neg (not_lt.2 hlong), if_neg (by decide), if_neg (by decide)]
    obtain ⟨type, t, hproc⟩ := process_total s.tables s.multi.currSockfd
      (overwrite (List.replicate buflen 0) 0 p) hsize
    have hproc' := process_ok hproc
    have hmem' : s.multi.currSockfd ∈ ({ s.multi with
        tcpSockets := s.multi.tcpSockets.insert s.multi.currSockfd sock' } :
          MultiSocket).tcpSockets := by
      simp
    obtain ⟨evs, hans⟩ := exists_answer hmem' hsize hproc' (hsend _)
    have hno := (answer_ok hmem' (.refl _) hsize hproc' hans).pastPacket_notMem
    rw [hproc]
    dsimp only
    rw [hans]
    refine ⟨_, _, rfl, ?_⟩
    by_cases hfull : p.length = cliPacketSize
    · simp [hfull]
    · simp [hfull, hno]

theorem handleTcpAppRecv_tables {s' : Server} {evs : List Event}
    (h : s.handleTcpAppRecv fd = .ok (s', evs)) :
    s.incoming = none ∧ s'.tables = s.tables ∨ ∃ buf, s.incoming = some buf ∧
      s'.tables = (command s.tables fd (frameType buf) (frameField buf)).2 := by
  have hd := handled s fd
  rw [h] at hd
  cases hd with
  | idle hin => exact .inl ⟨hin, rfl⟩
  | frame hin _ _ hp =>
    rw [process_take _ _ _ (process_size hp)] at hp
    exact .inr ⟨_, hin, (congrArg Prod.snd (Except.ok.inj hp)).symm⟩

end Frame

namespace World

/-- In every run a frame of a client is handled within the arrays, and without a `DIE`, exactly
where it is shorter than a `cli_packet`. -/
theorem withinBounds_iff {udp tcp : ℤ} {buffer : Bytes} {tr : List (World × Kernel)} {w : World}
    (h : Run udp tcp buffer tr w) {fd : ℤ} (hat : w.server.At fd .recv) {sock : BufferedTcpSocket}
    (hs : w.server.multi.tcpSockets[fd]? = some sock) {p : Bytes} {rest : List Bytes}
    (hp : sock.packets = p :: rest) (k : Kernel) :
    WithinBounds w.server k ↔ p.length < cliPacketSize := by
  obtain ⟨hover, hbig, hfits⟩ := handleTcpAppRecv_frame h.sound h.sendable
    ((Run.consistent h).curr fd hat.1) hs hp
  unfold WithinBounds
  rw [step_of_recv hat]
  rcases lt_or_ge buflen p.length with hlong | hlong
  · rw [hover hlong]
    simp only [cliPacketSize, cliPacketDataSize, buflen] at hlong ⊢
    simp
    omega
  rcases lt_or_ge cliPacketSize p.length with hsize | hsize
  · rw [hbig hsize hlong]
    simpa using hsize.le
  · obtain ⟨s', evs, hok, hpast⟩ := hfits hsize
    rw [hok]
    simp only [Except.ok.injEq, Prod.mk.injEq, existsAndEq, true_and, hpast]
    omega

/-- A connection is accepted on 5, and a frame of `n` bytes comes in, none of which is a NUL. -/
def frameInputs (n : UInt8) : List Kernel :=
  [.quiet, .ready {4} [], .quiet, .connect 5, .quiet,
    .ready {5} [(5, [0, 0, 0, n] ++ List.replicate n.toNat 9)], .quiet]

set_option maxRecDepth 10000 in
theorem withinBounds_iff_64 : ∃ tr w, Run 3 4 [] tr w ∧ tr.map Prod.snd = frameInputs 64 ∧
    (WithinBounds w.server .quiet ↔ (List.replicate 64 (9 : UInt8)).length < cliPacketSize) := by
  have hready : ∃ w ∈ Runs.exec next (start 3 4 []) (frameInputs 64),
      w.server.at? = some (5, .recv) ∧ ∃ sock ∈ w.server.multi.tcpSockets[(5 : ℤ)]?,
        sock.packets = [List.replicate 64 9] := by
    decide +kernel
  obtain ⟨tr, w, hr, htr, hat, sock, hs, hp⟩ := Runs.exists_run_of_exec hready
  exact ⟨tr, w, hr, htr, withinBounds_iff hr (Server.at_iff.2 hat) hs hp _⟩

set_option maxRecDepth 10000 in
/-- A frame of 66 bytes ends the server, and for one of 65 it writes past its packet. -/
theorem not_withinBounds_65 :
    (∃ tr w, Run 3 4 [] tr w ∧ tr.map Prod.snd = frameInputs 66 ∧
        w.server.step .quiet = .error (.die .tcpPacketTooBig)) ∧
      ∃ tr w s' evs, Run 3 4 [] tr w ∧ tr.map Prod.snd = frameInputs 65 ∧
        w.server.step .quiet = .ok (s', evs) ∧ .pastPacket ∈ evs := by
  have hready : ∀ n ∈ [(65 : UInt8), 66], ∃ w ∈ Runs.exec next (start 3 4 []) (frameInputs n),
      w.server.at? = some (5, .recv) ∧ ∃ sock ∈ w.server.multi.tcpSockets[(5 : ℤ)]?,
        sock.packets = [List.replicate n.toNat 9] := by
    decide +kernel
  constructor
  · obtain ⟨tr, w, hr, htr, hat, sock, hs, hp⟩ :=
      Runs.exists_run_of_exec (hready 66 (by decide))
    have hat := Server.at_iff.2 hat
    obtain ⟨-, hbig, -⟩ := handleTcpAppRecv_frame (Run.sound hr) (Run.sendable hr)
      ((Run.consistent hr).curr 5 hat.1) hs hp
    refine ⟨tr, w, hr, htr, ?_⟩
    rw [step_of_recv hat, hbig (by decide) (by decide)]
  · obtain ⟨tr, w, hr, htr, hat, sock, hs, hp⟩ :=
      Runs.exists_run_of_exec (hready 65 (by decide))
    have hat := Server.at_iff.2 hat
    obtain ⟨-, -, hfits⟩ := handleTcpAppRecv_frame (Run.sound hr) (Run.sendable hr)
      ((Run.consistent hr).curr 5 hat.1) hs hp
    obtain ⟨s', evs, hok, hpast⟩ := hfits (by decide)
    refine ⟨tr, w, { s' with pc := .top }, evs, hr, htr, ?_, hpast.2 (by decide)⟩
    rw [step_of_recv hat, hok]

end World

end NewsServer
