import NewsServer.Proofs.Chunks
import NewsServer.Proofs.ClientLoop
import NewsServer.Proofs.Steps

/-!
# What `recv` copies

`MultiSocket::recv` hands the packet at the front to `write_packet`, which copies all of it. So the
buffer is long enough exactly if the packet is no longer than it, which nothing checks: a frame may
have 65536 bytes, and a datagram's packet six more than the datagram.
-/

namespace NewsServer

open Memory

namespace MultiSocket

/-- What the header says of `recv` with a buffer of `len` bytes: the packet is copied if it fits,
and stays where it is if not. `recv` does not read its parameter `len`. -/
def RecvWithin (m : MultiSocket) (len : ℕ) : Prop :=
  ∀ (sock : BufferedTcpSocket) (p : Bytes) (rest : List Bytes),
    m.tcpSockets[m.currSockfd]? = some sock → sock.packets = p :: rest →
      if p.length ≤ len then
        m.recv.1 = p.length ∧ m.recv.2.1 = .bufferWritten ∧ m.recv.2.2.1 = p ∧
          ∃ sock' : BufferedTcpSocket, m.recv.2.2.2 =
            { m with tcpSockets := m.tcpSockets.insert m.currSockfd sock' } ∧ sock'.packets = rest
      else
        m.recv.2.1 = .bufferTooSmall ∧ m.recv.2.2.1 = [] ∧ m.recv.2.2.2 = m

section Recv

variable {m : MultiSocket} {sock : BufferedTcpSocket}

theorem recvWithin_iff (hs : m.tcpSockets[m.currSockfd]? = some sock) (hw : sock.Wf) (len : ℕ) :
    m.RecvWithin len ↔ ∀ p ∈ sock.packets.head?, p.length ≤ len := by
  constructor
  · intro h p hp
    obtain ⟨rest, hp⟩ := List.head?_eq_some_iff.1 hp
    obtain ⟨sock', hrecv, -, -⟩ := recv_of_packets hw hs hp
    by_contra hlen
    have hsmall := h sock p rest hs hp
    rw [if_neg hlen, hrecv] at hsmall
    simp at hsmall
  · intro h sock₁ p rest hs₁ hp
    rw [hs] at hs₁
    obtain rfl := Option.some.inj hs₁
    obtain ⟨sock', hrecv, hrest, -⟩ := recv_of_packets hw hs hp
    rw [if_pos (h p (by rw [hp]; rfl)), hrecv]
    exact ⟨rfl, rfl, rfl, sock', rfl, hrest⟩

end Recv

end MultiSocket

section Buffers

variable {sock : BufferedTcpSocket} {p : Bytes} {rest : List Bytes}

/-- The server's buffer is overrun exactly by what is longer than it. -/
theorem handleTcpAppRecv_overrun {s : Server} (fd : ℤ) :
    s.handleTcpAppRecv fd = .error .overrun ↔ buflen < s.multi.recv.2.2.1.length := by
  constructor
  · intro h
    have hd := handled s fd
    rw [h] at hd
    cases hd with
    | overrun hlong => exact hlong
    | stopped _ _ _ ha =>
      obtain ⟨d, hdie⟩ := answer_isDie ha
      simp at hdie
  · intro hlong
    unfold Server.handleTcpAppRecv Server.received
    dsimp only
    rw [if_pos hlong]

theorem handleTcpAppRecv_overrun_iff {s : Server} (fd : ℤ)
    (hs : s.multi.tcpSockets[s.multi.currSockfd]? = some sock) (hw : sock.Wf)
    (hp : sock.packets = p :: rest) :
    s.handleTcpAppRecv fd = .error .overrun ↔ buflen < p.length := by
  obtain ⟨sock', hrecv, -, -⟩ := MultiSocket.recv_of_packets hw hs hp
  rw [handleTcpAppRecv_overrun, hrecv]

theorem handleNews_undefined_iff {c : Client} (R : RealText) (beyond : Bytes)
    (hs : c.multi.tcpSockets[c.multi.currSockfd]? = some sock) (hw : sock.Wf)
    (hp : sock.packets = p :: rest) :
    c.handleNews R beyond = .error .undefined ↔ buflen < p.length := by
  obtain ⟨sock', hrecv, -, -⟩ := MultiSocket.recv_of_packets hw hs hp
  unfold Client.handleNews
  rw [hrecv]
  dsimp only
  refine ⟨fun h => ?_, fun hlen => if_pos hlen⟩
  by_contra hlen
  rw [if_neg hlen] at h
  rcases hparse : (parseSubscriberNews R _ _ c.news).1 with _ | news <;> rw [hparse] at h <;>
    simp at h

theorem authenticate_undefined_iff {c : Client}
    (hs : c.multi.tcpSockets[c.multi.getNextFd.2.currSockfd]? = some sock) (hw : sock.Wf)
    (hp : sock.packets = p :: rest) :
    c.authenticate = .error .undefined ↔ buflen < p.length := by
  rw [← MultiSocket.getNextFd_tcpSockets] at hs
  obtain ⟨sock', hrecv, -, -⟩ := MultiSocket.recv_of_packets hw hs hp
  unfold Client.authenticate
  rw [hrecv]
  dsimp only
  refine ⟨fun h => ?_, fun hlen => if_pos hlen⟩
  by_contra hlen
  rw [if_neg hlen] at h
  split_ifs at h <;> simp at h

/-- The packet of a datagram fits exactly if the datagram leaves room for its sender. -/
theorem length_sendable_le_iff (d : Bytes) (saddr : SockaddrIn) :
    (getSendableNews (d.take buflen) saddr).data.length ≤ buflen ↔ d.length + 6 ≤ buflen := by
  rw [(getSendableNews _ saddr).fits]
  simp only [getSendableNews, List.length_take, buflen]
  omega

end Buffers

/-- `recv` keeps to the length it is given exactly if the packet does, and so the buffers of the
programs are overrun by the packets that are longer than `BUFLEN`. -/
theorem bounded_receive {sock : BufferedTcpSocket} (h : sock.Reached) :
    (∀ (m : MultiSocket) (len : ℕ), m.tcpSockets[m.currSockfd]? = some sock →
      (m.RecvWithin len ↔ ∀ p ∈ sock.packets.head?, p.length ≤ len)) ∧
    (∀ (s : Server) (fd : ℤ), s.multi.tcpSockets[s.multi.currSockfd]? = some sock →
      ∀ p ∈ sock.packets.head?,
        (s.handleTcpAppRecv fd ≠ .error .overrun ↔ p.length ≤ buflen)) ∧
    (∀ (R : RealText) (c : Client), ∀ p ∈ sock.packets.head?,
      (c.multi.tcpSockets[c.multi.getNextFd.2.currSockfd]? = some sock →
        (c.authenticate ≠ .error .undefined ↔ p.length ≤ buflen)) ∧
      (c.multi.tcpSockets[c.multi.currSockfd]? = some sock →
        ∀ beyond, c.handleNews R beyond ≠ .error .undefined ↔ p.length ≤ buflen)) ∧
    ∀ (d : Bytes) (saddr : SockaddrIn),
      (getSendableNews (d.take buflen) saddr).data.length ≤ buflen ↔ d.length + 6 ≤ buflen := by
  refine ⟨fun m len hs => MultiSocket.recvWithin_iff hs h.wf len, fun s fd hs p hp => ?_,
    fun R c p hp => ⟨fun hs => ?_, fun hs beyond => ?_⟩, length_sendable_le_iff⟩
  all_goals
    obtain ⟨rest, hp⟩ := List.head?_eq_some_iff.1 hp
    rw [ne_eq, ← not_lt, not_iff_not]
  · exact handleTcpAppRecv_overrun_iff fd hs h.wf hp
  · exact authenticate_undefined_iff hs h.wf hp
  · exact handleNews_undefined_iff R beyond hs h.wf hp

/-- A connection on 5 has sent a frame. -/
def oneFrameOn5 (p : Bytes) : MultiSocket :=
  { MultiSocket.new with
    currSockfd := 5
    tcpSockets := (∅ : Std.TreeMap ℤ BufferedTcpSocket).insert 5
      ((BufferedTcpSocket.new 5 default).read (framing.enc p)).2 }

theorem packets_oneFrameOn5 {p : Bytes} (hp : p ≠ [] ∧ p.length ≤ framing.limit) :
    ((BufferedTcpSocket.new 5 default).read (framing.enc p)).2.packets = [p] := by
  have hcut := framing.cut_enc (List.forall_mem_singleton.2 hp)
  have hread := BufferedTcpSocket.read_spec (BufferedTcpSocket.wf_new 5 default) (framing.enc p)
  rw [List.flatMap_singleton] at hcut
  rw [BufferedTcpSocket.ReadResult, BufferedTcpSocket.pending_new, List.nil_append, hcut,
    if_neg (by simp [Framing.Oversize, framing])] at hread
  exact hread.2.2.1

/-- A frame of one byte fits. -/
theorem bounded_receive_one : (oneFrameOn5 [65]).RecvWithin buflen := by
  have hpk := packets_oneFrameOn5 (p := [65]) ⟨by simp, by decide⟩
  refine ((bounded_receive (.read (.new 5 default) _)).1 (oneFrameOn5 [65]) buflen
    Std.TreeMap.getElem?_insert_self).2 ?_
  rw [hpk]
  simp [buflen]

/-- A frame of 2049 bytes does not. -/
theorem not_recvWithin_long : ¬ (oneFrameOn5 (List.replicate 2049 65)).RecvWithin buflen := by
  have hne : List.replicate 2049 (65 : UInt8) ≠ [] := by
    rw [ne_eq, List.replicate_eq_nil_iff]
    omega
  have hlen : (List.replicate 2049 (65 : UInt8)).length = 2049 := List.length_replicate
  have hlimit : framing.limit = 65536 := rfl
  have hpk := packets_oneFrameOn5 ⟨hne, by omega⟩
  rw [MultiSocket.recvWithin_iff (m := oneFrameOn5 (List.replicate 2049 65))
    Std.TreeMap.getElem?_insert_self
      (BufferedTcpSocket.wf_read (BufferedTcpSocket.wf_new 5 default) _),
    hpk]
  intro h
  have hle := h _ rfl
  rw [hlen, buflen] at hle
  omega

end NewsServer
