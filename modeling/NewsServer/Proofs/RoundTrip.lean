import NewsServer.Proofs.Decoder

/-!
# Frames come out as they went in

However the stream of some sent packets is cut into chunks, and whenever packets are taken out,
the packets taken out and the ones still queued are the packets sent.
-/

namespace NewsServer

open Memory

namespace BufferedTcpSocket

/-- A call on the socket of a program that receives packets. -/
inductive Call
  | read (chunk : Bytes)
  | writePacket

/-- The chunks some calls read. -/
def chunks : List Call → List Bytes
  | [] => []
  | .read chunk :: cs => chunk :: chunks cs
  | .writePacket :: cs => chunks cs

/-- What `write_packet` returns and copies along some calls, whenever there is a packet, and the
socket after them. -/
def run : List Call → BufferedTcpSocket → List (ℕ × Bytes) × BufferedTcpSocket
  | [], s => ([], s)
  | .read chunk :: cs, s => run cs (s.read chunk).2
  | .writePacket :: cs, s =>
    let (size, copied, s') := s.writePacket
    let (out, s') := run cs s'
    (if s.packetReady then (size, copied) :: out else out, s')

/-- The queued packets, as `write_packet` will return them. -/
def queued (s : BufferedTcpSocket) : List (ℕ × Bytes) :=
  s.packetQueue.map fun p => (p.size.toNat, s.packetBytes p)

theorem queued_eq {s : BufferedTcpSocket} (h : s.Wf) :
    s.queued = s.packets.map fun b => (b.length, b) := by
  rw [queued, packets, List.map_map]
  refine List.map_congr_left fun p hp => ?_
  have := (h.queue p hp).2
  simp only [Function.comp_apply, Prod.mk.injEq, and_true]
  rw [packetBytes, List.length_take, this, min_self]

/-- Along calls that read no header that is too big, the packets taken out and the ones left are
the ones that were queued and the frames of the bytes read. -/
theorem run_spec : ∀ (cs : List Call) {s : BufferedTcpSocket}, s.Wf →
    ¬ framing.Oversize (framing.cut (s.pending ++ (chunks cs).flatten)).2 →
    (run cs s).1 ++ (run cs s).2.queued =
      s.queued ++ (framing.cut (s.pending ++ (chunks cs).flatten)).1.map fun b => (b.length, b)
  | [], s, h, _ => by
    simp only [run, chunks, List.flatten_nil, List.append_nil, List.nil_append,
      Framing.cut_of_none _ (next?_pending h), List.map_nil]
  | .read chunk :: cs, s, h, hsmall => by
    simp only [chunks, List.flatten_cons, ← List.append_assoc] at hsmall ⊢
    rw [Framing.cut_append] at hsmall ⊢
    have hmid : ¬ framing.Oversize (framing.cut (s.pending ++ chunk)).2 := by
      intro hbig
      have hmore := framing.oversize_append hbig (chunks cs).flatten
      apply hsmall
      rw [Framing.cut_of_none _ (Framing.next?_eq_none_of_oversize _ hmore)]
      exact hmore
    have hread := read_spec h chunk
    rw [ReadResult, if_neg hmid] at hread
    obtain ⟨-, hwf, hpk, hpend⟩ := hread
    have ih := run_spec cs hwf
    rw [hpend] at ih
    rw [run, ih hsmall, queued_eq h, queued_eq hwf, hpk, List.map_append, List.map_append,
      List.append_assoc]
  | .writePacket :: cs, s, h, hsmall => by
    have ih := run_spec cs (wf_writePacket h)
    rcases hq : s.packetQueue with _ | ⟨p, q⟩
    · have hsame : s.writePacket = (0, [], s) := by simp [writePacket, hq]
      rw [hsame] at ih
      simpa [run, chunks, hsame, packetReady, hq] using ih hsmall
    · have hw := writePacket_of_cons h hq
      have hqueued : s.queued = ((s.packetBytes p).length, s.packetBytes p) ::
          s.writePacket.2.2.queued := by
        rw [queued_eq h, queued_eq (wf_writePacket h), hw, packets, hq]
        rfl
      have hpend : s.writePacket.2.2.pending = s.pending := by
        rw [hw]
        rfl
      rw [hpend] at ih
      rw [hqueued, List.cons_append, chunks, ← ih hsmall]
      simp [run, packetReady, hq, hw]

theorem send_eq_enc {p : Bytes} (h : p.length ≤ 4092) : send p = .ok (framing.enc p) := by
  have hlen : (UInt32.ofNat p.length).toNat = p.length := by
    rw [UInt32.toNat_ofNat', Nat.mod_eq_of_lt (by omega)]
  rw [send, if_neg (by rw [tcpBufferSize]; omega), wordBytes_ntohl, hlen]
  rfl

theorem mapM_send : ∀ {ps : List Bytes}, (∀ p ∈ ps, p.length ≤ 4092) →
    ps.mapM send = .ok (ps.map framing.enc)
  | [], _ => rfl
  | p :: ps, h => by
    have ih := mapM_send fun q hq => h q (List.mem_cons_of_mem _ hq)
    rw [List.mapM_cons, send_eq_enc (h p List.mem_cons_self), ih]
    rfl

end BufferedTcpSocket

open BufferedTcpSocket

/-- The packets received are the packets sent. -/
theorem packets_received_eq_sent (sockfd : ℤ) (u : Uninit) {ps : List Bytes}
    (hps : ∀ p ∈ ps, 1 ≤ p.length ∧ p.length ≤ 4092) :
    ∃ wires, ps.mapM send = .ok wires ∧
      wires = ps.map (fun p => beBytes 4 p.length ++ p) ∧
      ∀ cs : List Call, (chunks cs).flatten = wires.flatten →
        (run cs (.new sockfd u)).1 ++ (run cs (.new sockfd u)).2.queued =
          ps.map fun p => (p.length, p) := by
  refine ⟨ps.map framing.enc, mapM_send fun p hp => (hps p hp).2, rfl, fun cs hcs => ?_⟩
  have hcut : framing.cut (ps.flatMap framing.enc) = (ps, []) := by
    refine framing.cut_enc fun p hp => ⟨?_, ?_⟩
    · exact List.ne_nil_of_length_pos (hps p hp).1
    · exact (hps p hp).2.trans (by simp [framing, maxPacketSize])
  have hspec := run_spec cs (wf_new sockfd u)
  rw [pending_new, List.nil_append, hcs, ← List.flatMap_def, hcut] at hspec
  rw [hspec (by simp [Framing.Oversize, framing])]
  rfl

theorem packets_received_eq_sent_two :
    ∃ wires, [[65, 66], [67]].mapM send = .ok wires ∧
      wires = [[0, 0, 0, 2, 65, 66], [0, 0, 0, 1, 67]] ∧
      ∀ cs : List Call, (chunks cs).flatten = wires.flatten →
        (run cs (.new 5 ⟨7, 8, 9⟩)).1 ++ (run cs (.new 5 ⟨7, 8, 9⟩)).2.queued =
          [(2, [65, 66]), (1, [67])] :=
  packets_received_eq_sent 5 ⟨7, 8, 9⟩ (by decide)

example : (run [.read [0, 0], .writePacket, .read [0, 2, 65, 66, 0, 0, 0], .writePacket,
    .read [1, 67]] (.new 5 ⟨7, 8, 9⟩)).1 = [(2, [65, 66])] := by decide

end NewsServer
