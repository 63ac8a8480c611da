import NewsServer.Proofs.Network
import NewsServer.Proofs.NewsLines

/-!
# Server and subscriber agree on an `AUTH`

A subscriber takes its first event for the reply. If what has come in then is a whole frame, that is
the server's answer to its `AUTH`, since the answer is the first the server sends on a connection
unless news goes to a connection that has not logged in. If only a part of it has come in, `out` is
`PACKET_NOT_READY`, which `main` does not look at, and the subscriber ends over the size it has
read.
-/

namespace NewsServer

open Memory

namespace Client

/-- Nothing has come in yet. -/
structure Waits (c : Client) : Prop where
  pc : c.pc = .reply
  queue : c.multi.sockQueue = []
  only : ∀ x, x ≠ c.sockfdTcp → c.multi.tcpSockets[x]? = none
  watched : c.multi.readFds ⊆ {c.sockfdTcp}
  fresh : ∃ sock : BufferedTcpSocket, c.multi.tcpSockets[c.sockfdTcp]? = some sock ∧
    sock.packets = [] ∧ sock.pending = []

/-- The first `select` has returned, with the frames of the first chunk. -/
structure Notified (c : Client) (got : Bytes) : Prop where
  pc : c.pc = .reply
  queue : c.multi.sockQueue ≠ []
  only : ∀ x, x ≠ c.sockfdTcp → c.multi.tcpSockets[x]? = none
  entries : ∀ e ∈ c.multi.sockQueue, e.fd = c.sockfdTcp
  packets : c.waiting = (framing.cut got).1

section Reply

variable {c c' : Client} {k : ClientKernel} {got : Bytes}

theorem waits_connected (id : Bytes) (sockfd : ℤ) (u : Uninit) (vars : Locals) :
    (Terminal.connected id sockfd u vars).client.Waits where
  pc := rfl
  queue := rfl
  only x hx := by
    have hne : sockfd ≠ x := fun h => hx h.symm
    simp [Terminal.connected, MultiSocket.opened, MultiSocket.new, hne]
  watched := by simp [Terminal.connected, MultiSocket.opened, MultiSocket.new]
  fresh := ⟨.new sockfd u, by simp [Terminal.connected, MultiSocket.opened], by simp, by simp⟩

/-- The entries of a round are of the connection, and there is one if the connection was read. -/
theorem Waits.entries (h : c.Waits) (p : Pass) :
    (∀ e ∈ (c.multi.selectRound p).1.sockQueue, e.fd = c.sockfdTcp ∧
      c.multi.Visits p c.sockfdTcp) ∧
      (c.multi.Visits p c.sockfdTcp → (c.multi.selectRound p).1.sockQueue ≠ []) := by
  rw [MultiSocket.selectRound_sockQueue, h.queue, List.nil_append]
  constructor
  · intro e he
    obtain ⟨hmem, hsel, -⟩ := MultiSocket.mem_of_mem_entries c.multi p _ _ _ e he
    have hfd := Finset.mem_singleton.1 (h.watched (Finset.mem_inter.1 hsel).1)
    exact ⟨hfd, hfd ▸ ⟨hsel, MultiSocket.mem_descriptors.1 hmem⟩⟩
  · intro hv hnil
    obtain ⟨type, he⟩ := MultiSocket.exists_entry c.multi p _ hv.1
      (MultiSocket.descriptors c.multi.fdmax) p.fdType (MultiSocket.mem_descriptors.2 hv.2)
    rw [hnil] at he
    simp at he

theorem Waits.round_quiet (h : c.Waits) (hv : ¬ c.multi.Visits k.pass c.sockfdTcp) :
    (c.round k.pass).1.Waits := by
  refine ⟨h.pc, ?_, fun x hx => ?_, ?_, ?_⟩
  · refine List.eq_nil_iff_forall_not_mem.2 fun e he => ?_
    exact hv ((h.entries k.pass).1 e he).2
  · exact MultiSocket.selectRound_of_none k.pass (h.only x hx)
  · exact (MultiSocket.selectRound_watched c.multi k.pass).2.1.trans h.watched
  · obtain ⟨sock, hs, hempty⟩ := h.fresh
    refine ⟨sock, ?_, hempty⟩
    exact (MultiSocket.selectRound_of_not_visits hv).1.trans hs

/-- A round that reads the connection gives the subscriber the frames of a chunk. -/
theorem Waits.round_read (h : c.Waits) (hm : c.multi.Sound)
    (hv : c.multi.Visits k.pass c.sockfdTcp)
    (hbig : ¬ framing.Oversize (framing.cut (c.received k)).2) :
    (c.round k.pass).1.Notified (c.received k) := by
  obtain ⟨sock, hs, hpk, hpd⟩ := h.fresh
  have hb : c.Blocks := ⟨.inl h.pc, h.queue⟩
  have hopen : c.sockfdTcp ∈ c.multi.tcpSockets := by
    rw [Std.TreeMap.mem_iff_isSome_getElem?, hs]
    rfl
  have hpend : ∀ sock : BufferedTcpSocket, c.multi.tcpSockets[c.sockfdTcp]? = some sock →
      sock.pending = (framing.cut []).2 := by
    intro sock' hs'
    rw [hs] at hs'
    obtain rfl := Option.some.inj hs'
    rw [framing.cut_nil, hpd]
  obtain ⟨⟨new, hcut, hwait⟩, -⟩ := round_stream hm hb (fun _ => hopen) hpend hbig
  have hnil : c.waiting = [] := by
    rw [waiting, hs]
    exact hpk
  rw [framing.cut_nil, List.nil_append, List.nil_append] at hcut
  refine ⟨h.pc, (h.entries k.pass).2 hv, fun x hx => ?_, fun e he => ?_, ?_⟩
  · exact MultiSocket.selectRound_of_none k.pass (h.only x hx)
  · exact ((h.entries k.pass).1 e he).1
  · rw [hwait, hnil, hcut]
    rfl

theorem Notified.authenticate_partial (h : c.Notified got) (hcut : (framing.cut got).1 = []) :
    ∃ e, c.authenticate = .error e ∧ e ≠ .duplicate := by
  refine authenticate_of_not_ready fun sock hs => ?_
  by_cases hfd : c.multi.getNextFd.2.currSockfd = c.sockfdTcp
  · have hpk := h.packets
    rw [hfd] at hs
    rw [waiting, hs, hcut] at hpk
    exact BufferedTcpSocket.packetReady_eq_false.2 hpk
  · rw [h.only _ hfd] at hs
    simp at hs

/-- The first whole frame decides. -/
theorem Notified.authenticate (h : c.Notified got) (hm : c.multi.Sound) {q : Bytes}
    {rest : List Bytes} (hcut : (framing.cut got).1 = q :: rest) (hne : q ≠ [])
    (hlen : q.length ≤ buflen) :
    (q.headD 0 = typeAuthDuplicate → c.authenticate = .error .duplicate) ∧
      (q.headD 0 = typeAuth → ∃ c', c.authenticate = .ok c') := by
  have hpk := h.packets
  rw [hcut, waiting] at hpk
  rcases hs : c.multi.tcpSockets[c.sockfdTcp]? with _ | sock
  · simp [hs] at hpk
  rw [hs] at hpk
  have hready := BufferedTcpSocket.packetReady_of_packets hpk
  have hmem := MultiSocket.mem_getNextFd_of_ready hs hready (hm.queued _ _ hs hready)
  have hcurr : c.multi.getNextFd.2.currSockfd = c.sockfdTcp := by
    rcases MultiSocket.getNextFd_cases c.multi with ⟨-, hq⟩ | ⟨e, he, -, hcurr, -, -⟩
    · rw [hq] at hmem
      simp at hmem
    · rw [hcurr, h.entries e he]
  rw [← hcurr] at hs
  exact authenticate_of_packet hm hs hpk hne hlen

end Reply

end Client

/-! ## A subscriber and its connection -/

namespace Peer

/-- It has entered its command loop. -/
def InLoop (p : Peer) : Prop :=
  p.terminal.client.pc ≠ .reply

/-- It has obtained its first event, and has gone on or ended. -/
def Replied (p : Peer) : Prop :=
  p.ending.isSome ∨ p.InLoop

/-- Its `AUTH` was handled, and `process_tcp_client_packet` returned `type`. -/
def Answered (p : Peer) (w : World) (type : UInt8) : Prop :=
  ∃ c ∈ p.conn, w.Answered c (authPacket p.id) type

/-- Once it has its first event, it is in its loop if the server has accepted its `AUTH`, and it has
ended with the `TYPE_AUTH_DUPLICATE` exit if the server has declined it, and only then. -/
def Agrees (p : Peer) (w : World) : Prop :=
  p.Replied → (p.InLoop ↔ p.Answered w typeAuth) ∧
    (p.ending = some .duplicate ↔ p.Answered w typeAuthDuplicate)

/-- It has ended over the first part of a reply. -/
def Misread (p : Peer) : Prop :=
  ¬ p.InLoop ∧ (∃ e, p.ending = some e ∧ e ≠ .duplicate) ∧ p.got ≠ [] ∧ (framing.cut p.got).1 = []

/-- How far it has come. -/
inductive Stage (w : World) (p : Peer) : Prop
  | waits (hend : p.ending = none) (h : p.terminal.client.Waits) (hgot : p.got = [])
  | notified (hend : p.ending = none) (h : p.terminal.client.Notified p.got)
      (htold : p.got <+: p.told w) (heof : p.got = [] → p.told w = [] ∧ p.Closed w)
  | inLoop (hpc : p.InLoop) (hend : p.ending ≠ some .duplicate) (ha : p.Answered w typeAuth)
  | refused (hpc : ¬ p.InLoop) (hend : p.ending = some .duplicate)
      (ha : p.Answered w typeAuthDuplicate)
  | misread (h : p.Misread) (htold : p.got <+: p.told w)
  | dropped (hpc : ¬ p.InLoop) (hend : p.ending.isSome ∧ p.ending ≠ some .duplicate)
      (hgot : p.got = []) (hclosed : p.Closed w) (hanswers : ∀ c ∈ p.conn, w.answers c = [])

/-- What holds of a subscriber and its connection. -/
structure Coupled (w : World) (p : Peer) : Prop where
  sound : p.terminal.client.multi.Sound
  idLength : p.id.length < clientIdLen
  said : framing.enc (authPacket p.id) <+: p.said
  heard : p.heard <+: p.said
  unlinked : p.conn = none → p.heard = []
  linked : ∀ c ∈ p.conn, c < w.registry.count ∧
    (w.Untouched c p.heard ∨ w.Settled c (authPacket p.id))
  stage : p.Stage w

section Auth

variable {id : Bytes}

theorem length_authPacket (h : id.length < clientIdLen) : (authPacket id).length = 12 := by
  have hcstr : (cstr id).length ≤ id.length := (List.takeWhile_sublist _).length_le
  rw [authPacket, List.length_cons, strncpy, List.length_append, List.length_take,
    List.length_replicate]
  rw [clientIdLen] at h ⊢
  omega

theorem frameField_authPacket (h : id.length < clientIdLen) :
    frameField (authPacket id) = cstr id := by
  have hcstr : (cstr id).length ≤ id.length := (List.takeWhile_sublist _).length_le
  obtain ⟨n, hn⟩ : ∃ n, clientIdLen - (cstr id).length = n + 1 :=
    ⟨clientIdLen - (cstr id).length - 1, by omega⟩
  have hfield : (authPacket id ++ [0]).drop 1 = cstr id ++ 0 :: (List.replicate n 0 ++ [0]) := by
    rw [authPacket, strncpy, List.take_of_length_le (by omega), hn, List.replicate_succ]
    simp
  rw [frameField, hfield]
  exact cstr_append_nul (notMem_cstr id) _

theorem framed_authPacket (h : id.length < clientIdLen) :
    authPacket id ≠ [] ∧ (authPacket id).length ≤ framing.limit := by
  rw [length_authPacket h]
  exact ⟨by simp [authPacket], by decide⟩

end Auth

section Coupled

variable {w w' : World} {p : Peer} {c : ℕ}

theorem told_of_conn (hc : p.conn = some c) : p.told w = (w.sends c).flatten := by
  rw [told, hc]
  rfl

theorem told_of_none (hc : p.conn = none) : p.told w = [] := by
  rw [told, hc]
  rfl

theorem Answered.eq {type type' : UInt8} (h : p.Answered w type) (h' : p.Answered w type') :
    type = type' := by
  obtain ⟨c, hc, ha⟩ := h
  obtain ⟨c', hc', ha'⟩ := h'
  obtain rfl : c = c' := Option.mem_unique hc hc'
  rw [World.Answered, show (w.answers c).head? = _ from ha, Option.some.injEq, Prod.mk.injEq] at ha'
  exact ha'.2

/-- Where something was sent to a subscriber, it begins with what its `AUTH` was answered. -/
theorem Coupled.reply (h : Coupled w p) (htold : p.told w ≠ []) : ∃ type reply rest,
    (type = typeAuth ∧ reply = authPacket p.id ∨
      type = typeAuthDuplicate ∧ reply = [typeAuthDuplicate]) ∧ p.Answered w type ∧
      p.told w = framing.enc reply ++ rest := by
  rcases hconn : p.conn with _ | c
  · exact absurd (told_of_none hconn) htold
  rw [told_of_conn hconn] at htold ⊢
  rcases (h.linked c hconn).2 with hu | ⟨type, reply, hcases, ha, hr⟩
  · rw [hu.sends] at htold
    simp at htold
  obtain ⟨rest, hrest⟩ := List.head?_eq_some_iff.1 hr
  have hlen : reply.length ≤ 4092 := by
    rcases hcases with ⟨-, rfl⟩ | ⟨-, rfl⟩
    · rw [length_authPacket h.idLength]
      omega
    · simp
  refine ⟨type, reply, rest.flatten, hcases, ⟨c, hconn, ha⟩, ?_⟩
  rw [hrest, List.flatten_cons, World.wire_eq_enc hlen]

/-- Nothing is wrong before a reply has been looked at. -/
theorem agrees_iff_of_reply (hend : p.ending = none) (hpc : p.terminal.client.pc = .reply) :
    p.Agrees w ↔ ¬ p.Misread := by
  refine iff_of_true (fun hr => ?_) fun hm => ?_
  · rcases hr with hr | hr
    · simp [hend] at hr
    · exact absurd hpc hr
  · obtain ⟨-, ⟨e, he, -⟩, -⟩ := hm
    rw [hend] at he
    simp at he

/-- All that goes wrong is a reply that has come in part. -/
theorem Coupled.agrees_iff (h : Coupled w p) : p.Agrees w ↔ ¬ p.Misread := by
  cases h.stage with
  | waits hend hw => exact agrees_iff_of_reply hend hw.pc
  | notified hend hw => exact agrees_iff_of_reply hend hw.pc
  | inLoop hpc hend ha =>
    refine iff_of_true (fun _ => ⟨iff_of_true hpc ha, iff_of_false hend fun hd => ?_⟩) fun hm => ?_
    · exact absurd (ha.eq hd) (by decide)
    · exact hm.1 hpc
  | refused hpc hend ha =>
    refine iff_of_true (fun _ => ⟨iff_of_false hpc fun hd => ?_, iff_of_true hend ha⟩) fun hm => ?_
    · exact absurd (ha.eq hd) (by decide)
    · obtain ⟨-, ⟨e, he, hne⟩, -⟩ := hm
      rw [hend] at he
      exact hne (Option.some.inj he).symm
  | misread hm htold =>
    refine iff_of_false (fun hagree => ?_) (not_not.2 hm)
    obtain ⟨hpc, ⟨e, he, hne⟩, hgot, -⟩ := hm
    have hne' : p.told w ≠ [] := fun h0 => hgot (List.prefix_nil.1 (h0 ▸ htold))
    obtain ⟨type, reply, rest, hcases, ha, -⟩ := h.reply hne'
    obtain ⟨hloop, hdup⟩ := hagree (.inl (by rw [he]; rfl))
    rcases hcases with ⟨rfl, -⟩ | ⟨rfl, -⟩
    · exact hpc (hloop.2 ha)
    · rw [hdup.2 ha] at he
      exact hne (Option.some.inj he).symm
  | dropped hpc hend hgot hclosed hanswers =>
    have hno : ∀ type, ¬ p.Answered w type := by
      rintro type ⟨c, hc, ha⟩
      rw [World.Answered, hanswers c hc] at ha
      simp at ha
    exact iff_of_true (fun _ => ⟨iff_of_false hpc (hno _), iff_of_false hend.2 (hno _)⟩)
      fun hm => hm.2.2.1 hgot

theorem Uploads.heard {k : Kernel} (h : p.Uploads w k) (hheard : p.heard <+: p.said) :
    p.heard ++ readBytes (p.up w k) <+: p.said := by
  rcases hup : p.up w k with _ | _ | chunk
  · simpa [readBytes] using hheard
  · simpa [readBytes] using hheard
  · exact ((h _ hup).2 chunk rfl).isPrefix hheard

section Server

variable {k : Kernel} (hw : w.Consistent) (hn : World.next w k = some w')

include hw hn

theorem told_next (p : Peer) : p.told w <+: p.told w' := by
  rcases hconn : p.conn with _ | c
  · rw [told_of_none hconn, told_of_none hconn]
  obtain ⟨-, sent, -, -, hsent⟩ := World.spoken_of_next hw hn c
  rw [told_of_conn hconn, told_of_conn hconn, hsent, List.flatten_append]
  exact List.prefix_append _ _

theorem Answered.next {type : UInt8} (h : p.Answered w type) : p.Answered w' type := by
  obtain ⟨c, hc, ha⟩ := h
  exact ⟨c, hc, ha.next hw hn⟩

/-- Nothing comes of a connection that is closed. -/
theorem Closed.next (h : p.Closed w) (hcount : ∀ c ∈ p.conn, c < w.registry.count) :
    p.Closed w' ∧ p.told w' = p.told w ∧ ∀ c ∈ p.conn, w'.answers c = w.answers c := by
  obtain ⟨c, hc, hclosed⟩ := h
  have hno := (World.fdOf_eq_none hw).1 hclosed
  obtain ⟨frames, sent, hspoken, hframes, hsent⟩ := World.spoken_of_next hw hn c
  obtain ⟨rfl, rfl⟩ := hspoken.eq_nil hno
  rw [List.append_nil] at hframes hsent
  refine ⟨⟨c, hc, (World.fdOf_eq_none (hw.next hn)).2 fun fd hon => ?_⟩, ?_, fun c' hc' => ?_⟩
  · exact hno fd ((World.conn_next hw hn).2 fd (hcount c hc) hon)
  · rw [told_of_conn hc, told_of_conn hc, hsent]
  · obtain rfl : c = c' := Option.mem_unique hc hc'
    exact hframes

theorem Stage.next (h : p.Stage w) (hcount : ∀ c ∈ p.conn, c < w.registry.count) :
    p.Stage w' := by
  cases h with
  | waits hend hwaits hgot => exact .waits hend hwaits hgot
  | notified hend hnote htold heof =>
    refine .notified hend hnote (htold.trans (told_next hw hn p)) fun hgot => ?_
    obtain ⟨hnil, hclosed⟩ := heof hgot
    obtain ⟨hclosed', htold', -⟩ := hclosed.next hw hn hcount
    exact ⟨htold'.trans hnil, hclosed'⟩
  | inLoop hpc hend ha => exact .inLoop hpc hend (ha.next hw hn)
  | refused hpc hend ha => exact .refused hpc hend (ha.next hw hn)
  | misread hm htold => exact .misread hm (htold.trans (told_next hw hn p))
  | dropped hpc hend hgot hclosed hanswers =>
    obtain ⟨hclosed', -, hsame⟩ := hclosed.next hw hn hcount
    exact .dropped hpc hend hgot hclosed' fun c hc => (hsame c hc).trans (hanswers c hc)

theorem Coupled.hear (h : Coupled w p) (hm : w.server.multi.Sound) (hup : p.Uploads w k)
    (hnews : ∀ c ∈ p.conn, w.answers c = [] → ¬ w.Forwards k c) :
    Coupled w' (p.hear w k) := by
  have hcount : ∀ c ∈ p.conn, c < w.registry.count := fun c hc => (h.linked c hc).1
  refine ⟨h.sound, h.idLength, h.said, hup.heard h.heard, fun hconn => ?_, fun c hc => ?_, ?_⟩
  · have hnone : p.up w k = none := by
      rw [up, show p.conn = none from hconn]
      rfl
    simp [Peer.hear, hnone, readBytes, h.unlinked hconn]
  · have hup' : p.up w k = (w.fdOf c).bind fun fd => w.reads k fd := by
      rw [up, show p.conn = some c from hc]
      rfl
    obtain ⟨hlt, hstate⟩ := h.linked c hc
    refine ⟨hlt.trans_le (World.conn_next (c := c) hw hn).1, ?_⟩
    rcases hstate with hu | hs
    swap
    · exact .inr (hs.next hw hn)
    rcases hu.next hw hm hn hlt (hnews c hc hu.answers) with
      hu' | ⟨fd, buf, type, rest, -, hcut, hframes, hsent, -, hp⟩
    · rw [← hup'] at hu'
      exact .inl hu'
    · obtain ⟨r, hr⟩ := h.said
      have hheard := h.heard
      rw [← hr] at hheard
      obtain rfl := framing.head_cut (framed_authPacket h.idLength) hheard hcut
      exact .inr (World.settled_of_processed rfl hp hframes hsent)
  · have hstage := h.stage.next hw hn hcount
    cases hstage with
    | waits hend hwaits hgot => exact .waits hend hwaits hgot
    | notified hend hnote htold heof => exact .notified hend hnote htold heof
    | inLoop hpc hend ha => exact .inLoop hpc hend ha
    | refused hpc hend ha => exact .refused hpc hend ha
    | misread hm htold => exact .misread hm htold
    | dropped hpc hend hgot hclosed hanswers => exact .dropped hpc hend hgot hclosed hanswers

theorem Coupled.accepted (h : Coupled w p) (hnum : w.Numbered) (hconn : p.conn = none)
    (hat : ∃ fd, w.server.At fd .accept) :
    Coupled w' { p.hear w k with conn := some w.registry.count } := by
  have hnil : p.told w = [] := told_of_none hconn
  have hnone : p.up w k = none := by
    rw [up, hconn]
    rfl
  have hheard : (p.hear w k).heard = [] := by
    simp [Peer.hear, hnone, readBytes, h.unlinked hconn]
  have hclosed : ¬ p.Closed w := by
    rintro ⟨c, hc, -⟩
    rw [hconn] at hc
    simp at hc
  have hanswered : ∀ type, ¬ p.Answered w type := by
    rintro type ⟨c, hc, -⟩
    rw [hconn] at hc
    simp at hc
  obtain ⟨hcount, hfd⟩ := World.conn_of_accept hw hn hat
  refine ⟨h.sound, h.idLength, h.said, hheard ▸ List.nil_prefix, by simp, fun c hc => ?_, ?_⟩
  · obtain rfl := Option.some.inj hc
    obtain ⟨frames, sent, hspoken, hframes, hsent⟩ :=
      World.spoken_of_next hw hn w.registry.count
    obtain ⟨rfl, rfl⟩ := hspoken.eq_nil fun fd hon => absurd (hw.sound.lt hon) (lt_irrefl _)
    obtain ⟨hanswers, hsends⟩ := hnum _ le_rfl
    refine ⟨by omega, .inl ⟨hframes.trans (by simp [hanswers]), hsent.trans (by simp [hsends]), ?_⟩⟩
    intro fd sock hon hs
    obtain rfl := hfd fd hon
    rw [World.socket_of_accept hn hat] at hs
    obtain rfl := Option.some.inj hs
    rw [show ({ p.hear w k with conn := some w.registry.count } : Peer).heard = [] from hheard,
      framing.cut_nil]
    exact ⟨by simp, by simp⟩
  · cases h.stage with
    | waits hend hwaits hgot => exact .waits hend hwaits hgot
    | notified hend hnote htold heof =>
      rw [hnil, List.prefix_nil] at htold
      exact absurd (heof htold).2 hclosed
    | inLoop _ _ ha => exact absurd ha (hanswered _)
    | refused _ _ ha => exact absurd ha (hanswered _)
    | misread hmis htold =>
      rw [hnil, List.prefix_nil] at htold
      exact absurd htold hmis.2.2.1
    | dropped _ _ _ hc => exact absurd hc hclosed

end Server

section Own

variable {R : RealText} {k : ClientKernel}

theorem readBytes_down (p : Peer) (k : ClientKernel) :
    readBytes (p.down k) = p.terminal.client.received k := by
  unfold down Client.received
  dsimp only
  split_ifs
  · rcases k.pass.got p.terminal.client.sockfdTcp with _ | bytes <;> simp [readBytes]
  · rfl

/-- A subscriber that reads gets the next part of what was sent to it, or the end of it. -/
theorem Downloads.received (h : p.Downloads w k)
    (hv : p.terminal.client.Blocks ∧
      p.terminal.client.multi.Visits k.pass p.terminal.client.sockfdTcp) :
    Arrives p.got (p.told w) (p.Closed w) (p.terminal.client.received k) := by
  obtain ⟨chunk, hchunk, harrives⟩ := h _ (if_pos hv)
  have hbytes := readBytes_down p k
  rw [down, if_pos hv, hchunk] at hbytes
  rwa [← hbytes]

theorem step_of_error {e : Ending} (h : p.terminal.client.step R k = .error e) :
    p.step R k =
      { p with got := p.got ++ p.terminal.client.received k, ending := some e } := by
  simp only [step, Terminal.step, h, readBytes_down]

theorem step_of_ok {c' : Client} {evs : List Shown}
    (h : p.terminal.client.step R k = .ok (c', evs)) :
    p.step R k = { p with
      got := p.got ++ p.terminal.client.received k
      terminal := ⟨c', p.terminal.shown ++ evs⟩ } := by
  simp only [step, Terminal.step, h, readBytes_down]

/-- What is sent has no header that is too long. -/
theorem not_oversize_of_told (hframed : ∀ c, World.Framed (w.sends c)) {t : Bytes}
    (ht : t <+: p.told w) : ¬ framing.Oversize (framing.cut t).2 := by
  rcases hconn : p.conn with _ | c
  · rw [told_of_none hconn, List.prefix_nil] at ht
    rw [ht, framing.cut_nil]
    simp [Framing.Oversize, framing]
  · obtain ⟨qs, hqs, hsends⟩ := hframed c
    rw [told_of_conn hconn, hsends, ← List.flatMap_def] at ht
    exact (framing.cut_of_isPrefix hqs ht).2

/-- How far a subscriber has come after its step. -/
theorem Coupled.stage_step (h : Coupled w p) (hframed : ∀ c, World.Framed (w.sends c))
    (hend : p.ending = none) (hdown : p.Downloads w k) : (p.step R k).Stage w := by
  cases h.stage with
  | waits _ hwaits hgot =>
    have hstep : p.terminal.client.step R k = .ok (p.terminal.client.round k.pass) := by
      unfold Client.step
      rw [hwaits.pc]
      exact if_pos hwaits.queue
    rw [step_of_ok hstep, hgot, List.nil_append]
    by_cases hv : p.terminal.client.multi.Visits k.pass p.terminal.client.sockfdTcp
    · have harrives := hdown.received ⟨⟨.inl hwaits.pc, hwaits.queue⟩, hv⟩
      rw [hgot] at harrives
      have hpre : p.terminal.client.received k <+: p.told w := harrives.isPrefix List.nil_prefix
      refine .notified hend (hwaits.round_read h.sound hv (not_oversize_of_told hframed hpre)) hpre
        fun hnil => ?_
      rw [Arrives, if_pos hnil] at harrives
      exact ⟨harrives.2.symm, of_decide_eq_true harrives.1⟩
    · exact .waits hend (hwaits.round_quiet hv) (if_neg fun hr => hv hr.2)
  | notified _ hnote htold heof =>
    have hrec : p.terminal.client.received k = [] := if_neg fun hr => hnote.queue hr.1.2
    rcases hcut : (framing.cut p.got).1 with _ | ⟨q, rest⟩
    · obtain ⟨e, he, hne⟩ := hnote.authenticate_partial hcut
      rw [step_of_error (step_of_authenticate_error hnote.pc hnote.queue he), hrec,
        List.append_nil]
      by_cases hgot : p.got = []
      · obtain ⟨hnil, hclosed⟩ := heof hgot
        refine .dropped (not_not.2 hnote.pc) ⟨rfl, by simpa using hne⟩ hgot hclosed fun c hc => ?_
        rcases (h.linked c hc).2 with hu | ⟨type, reply, -, -, hr⟩
        · exact hu.answers
        · obtain ⟨r, hr⟩ := List.head?_eq_some_iff.1 hr
          rw [told_of_conn (show p.conn = some c from hc), hr] at hnil
          have hlen := congrArg List.length hnil
          simp [wire] at hlen
      · exact .misread ⟨not_not.2 hnote.pc, ⟨e, rfl, hne⟩, hgot, hcut⟩ htold
    · have hne : p.told w ≠ [] := by
        intro h0
        rw [h0, List.prefix_nil] at htold
        simp [htold] at hcut
      obtain ⟨type, reply, r, hcases, ha, heq⟩ := h.reply hne
      rw [heq] at htold
      have hreply : reply ≠ [] ∧ reply.length ≤ 12 := by
        rcases hcases with ⟨-, rfl⟩ | ⟨-, rfl⟩
        · exact ⟨by simp [authPacket], (length_authPacket h.idLength).le⟩
        · simp
      obtain rfl := framing.head_cut ⟨hreply.1, hreply.2.trans (by decide)⟩ htold hcut
      obtain ⟨hdup, hauth⟩ := hnote.authenticate h.sound hcut hreply.1 (hreply.2.trans (by decide))
      rcases hcases with ⟨rfl, rfl⟩ | ⟨rfl, rfl⟩
      · obtain ⟨c', hc'⟩ := hauth rfl
        rw [step_of_ok (step_of_authenticate_ok hnote.pc hnote.queue hc')]
        refine .inLoop ?_ (by simp [hend]) ha
        simp [InLoop, (authenticate_frame hc').2.2]
      · rw [step_of_error (step_of_authenticate_error hnote.pc hnote.queue (hdup rfl))]
        exact .refused (not_not.2 hnote.pc) rfl ha
  | inLoop hpc hne ha =>
    rcases hs : p.terminal.client.step R k with e | ⟨c', evs⟩
    · rw [step_of_error hs]
      refine .inLoop hpc (fun he => ?_) ha
      rw [Option.some.inj he] at hs
      exact step_ne_duplicate hpc hs
    · rw [step_of_ok hs]
      exact .inLoop ((turn_of_step hs).ne_reply hpc) hne ha
  | refused _ hdup =>
    rw [hend] at hdup
    simp at hdup
  | misread hm =>
    obtain ⟨-, ⟨e, he, -⟩, -⟩ := hm
    rw [hend] at he
    simp at he
  | dropped _ hends =>
    rw [hend] at hends
    simp at hends

/-- What a step leaves of `Coupled` to be shown is how far the subscriber has come. -/
theorem Coupled.of_stage (h : Coupled w p) (hstage : (p.step R k).Stage w) :
    Coupled w (p.step R k) := by
  rcases hs : p.terminal.client.step R k with e | ⟨c', evs⟩
  · rw [step_of_error hs] at hstage ⊢
    exact ⟨h.sound, h.idLength, h.said, h.heard, h.unlinked, h.linked, hstage⟩
  · obtain ⟨as, hexec⟩ := (turn_of_step hs).exec
    have hsaid : p.said <+: (p.step R k).said := by
      rw [step_of_ok hs, Peer.said, Peer.said, List.flatMap_append]
      exact List.prefix_append _ _
    rw [step_of_ok hs] at hstage hsaid ⊢
    exact ⟨h.sound.exec hexec, h.idLength, h.said.trans hsaid, h.heard.trans hsaid, h.unlinked,
      h.linked, hstage⟩

/-- A step ends over the first part of a reply exactly if it takes that. -/
theorem Coupled.misread_step_iff (h : Coupled w p) (hend : p.ending = none) :
    (p.step R k).Misread ↔ p.terminal.client.pc = .reply ∧
      p.terminal.client.multi.sockQueue ≠ [] ∧ p.got ≠ [] ∧ (framing.cut p.got).1 = [] := by
  constructor
  · rintro ⟨hpc, ⟨e, he, -⟩, hgot, hcut⟩
    rcases hs : p.terminal.client.step R k with e' | ⟨c', evs⟩
    swap
    · rw [step_of_ok hs] at he
      rw [show p.ending = some e from he] at hend
      simp at hend
    rw [step_of_error hs] at hpc hgot hcut
    have hreply : p.terminal.client.pc = .reply := not_not.1 hpc
    have hqueue : p.terminal.client.multi.sockQueue ≠ [] := by
      intro hq
      unfold Client.step at hs
      rw [hreply] at hs
      simp only [hq] at hs
      simp at hs
    have hrec : p.terminal.client.received k = [] := if_neg fun hr => hqueue hr.1.2
    dsimp only at hgot hcut
    rw [hrec, List.append_nil] at hgot hcut
    exact ⟨hreply, hqueue, hgot, hcut⟩
  · rintro ⟨hpc, hqueue, hgot, hcut⟩
    cases h.stage with
    | waits _ hwaits => exact absurd hwaits.queue hqueue
    | notified _ hnote =>
      obtain ⟨e, he, hne⟩ := hnote.authenticate_partial hcut
      have hstep : p.terminal.client.step R k = .error e :=
        step_of_authenticate_error hpc hqueue he
      have hrec : p.terminal.client.received k = [] := if_neg fun hr => hqueue hr.1.2
      rw [step_of_error hstep, hrec, List.append_nil]
      exact ⟨not_not.2 hpc, ⟨e, rfl, hne⟩, hgot, hcut⟩
    | inLoop hloop => exact absurd hpc hloop
    | refused _ hdup =>
      rw [hend] at hdup
      simp at hdup
    | misread hm =>
      obtain ⟨-, ⟨e, he, -⟩, -⟩ := hm
      rw [hend] at he
      simp at he
    | dropped _ hends =>
      rw [hend] at hends
      simp at hends

end Own

end Coupled

end Peer

/-! ## The system -/

namespace Net

/-- The server and the subscribers agree. -/
def Agree (n : Net) : Prop :=
  ∀ p ∈ n.peers, p.Agrees n.world

/-- The step sends news to the connection of a subscriber whose `AUTH` the server has not handled.
-/
def EarlyNews (n : Net) : Move → Prop
  | .server k _ => ∃ p ∈ n.peers, ∃ c ∈ p.conn, n.world.answers c = [] ∧ n.world.Forwards k c
  | _ => False

/-- If a subscriber takes its reply, a whole frame has come in. -/
def WholeReply (n : Net) : Move → Prop
  | .peer i _ => ∀ p ∈ n.peers[i]?, p.terminal.client.pc = .reply →
      p.terminal.client.multi.sockQueue ≠ [] → p.got ≠ [] → (framing.cut p.got).1 ≠ []
  | _ => True

instance (n : Net) : ∀ m, Decidable (n.WholeReply m)
  | .peer i _ => inferInstanceAs (Decidable (∀ p ∈ n.peers[i]?, p.terminal.client.pc = .reply → _))
  | .start .. => .isTrue trivial
  | .server .. => .isTrue trivial

/-- If the step accepts the `AUTH` of a subscriber, its id is connected on the socket of that
connection. -/
def Registers (n : Net) : Move → Prop
  | .server k _ => ∀ p ∈ n.peers, ∀ c ∈ p.conn, ∀ w, World.next n.world k = some w →
      ¬ n.world.Answered c (authPacket p.id) typeAuth → w.Answered c (authPacket p.id) typeAuth →
        ∃ fd, w.conn fd = some c ∧
          (w.server.tables.clients.getD (cstr p.id) default).state = .connected ∧
          (w.server.tables.clients.getD (cstr p.id) default).sockfd = fd
  | _ => True

/-- What holds in every run in which no news comes early. -/
structure Inv (udp tcp : ℤ) (buffer : Bytes) (n : Net) : Prop where
  world : ∃ tr, World.Run udp tcp buffer tr n.world
  numbered : n.world.Numbered
  peers : ∀ p ∈ n.peers, p.Coupled n.world

section Step

variable {R : RealText} {udp tcp : ℤ} {buffer : Bytes} {n n' : Net} {m : Move}

theorem inv_start : Inv udp tcp buffer (start udp tcp buffer) where
  world := ⟨[], .start⟩
  numbered c _ := ⟨rfl, rfl⟩
  peers := by simp [start]

theorem coupled_of_start {id : Bytes} {sockfd : ℤ} {u : Uninit} {vars : Locals} {client : Client}
    {shown : List Shown} (h : Client.start id sockfd u vars = .ok (client, shown)) (w : World) :
    Peer.Coupled w ⟨id, ⟨client, shown⟩, none, none, [], []⟩ := by
  obtain ⟨⟨hid, -⟩, hr⟩ := Client.start_eq_iff.1 h
  obtain ⟨rfl, rfl⟩ := Prod.mk.inj hr
  refine ⟨?_, hid, ?_, List.nil_prefix, fun _ => rfl, by simp, ?_⟩
  · exact MultiSocket.Sound.opened (MultiSocket.sound_of_noSockets rfl) sockfd u
  · have hwire : wire (authPacket id) = framing.enc (authPacket id) :=
      World.wire_eq_enc (by rw [Peer.length_authPacket hid]; omega)
    simp [Peer.said, Terminal.connected, hwire]
  · exact .waits rfl (Client.waits_connected id sockfd u vars) rfl

theorem mem_accept {k : Kernel} {i : Option ℕ} {p' : Peer} (h : p' ∈ n.accept k i) :
    ∃ p ∈ n.peers, p' = p.hear n.world k ∨
      (∃ j, i = some j ∧ n.peers[j]? = some p) ∧
        p' = { p.hear n.world k with conn := some n.world.registry.count } := by
  unfold accept at h
  rcases i with _ | j <;> dsimp only at h
  · obtain ⟨p, hp, rfl⟩ := List.mem_map.1 h
    exact ⟨p, hp, .inl rfl⟩
  · obtain ⟨x, hx⟩ := List.mem_iff_getElem?.1 h
    rw [List.getElem?_modify, List.getElem?_map, Option.map_eq_map, Option.map_map,
      Option.map_eq_some_iff] at hx
    obtain ⟨p, hp, rfl⟩ := hx
    refine ⟨p, List.mem_of_getElem? hp, ?_⟩
    by_cases hj : j = x
    · subst hj
      exact .inr ⟨⟨j, rfl, hp⟩, by simp⟩
    · exact .inl (by simp [hj])

/-- The moves of the system. -/
inductive Turn (R : RealText) (n : Net) : Move → Net → Prop
  | start {id : Bytes} {sockfd : ℤ} {u : Uninit} {vars : Locals} {client : Client}
      {shown : List Shown} (hs : Client.start id sockfd u vars = .ok (client, shown)) :
      Turn R n (.start id sockfd u vars)
        { n with peers := n.peers ++ [⟨id, ⟨client, shown⟩, none, none, [], []⟩] }
  | server {k : Kernel} {i : Option ℕ} {w : World} (hup : ∀ p ∈ n.peers, p.Uploads n.world k)
      (haccepts : ∀ j ∈ i, n.Accepts j) (hn : World.next n.world k = some w) :
      Turn R n (.server k i) ⟨w, n.accept k i⟩
  | peer {i : ℕ} {k : ClientKernel} {p : Peer} (hi : n.peers[i]? = some p) (hend : p.ending = none)
      (hdown : p.Downloads n.world k) :
      Turn R n (.peer i k) { n with peers := n.peers.set i (p.step R k) }

theorem turn_of_next (hn : Net.next R n m = some n') : Turn R n m n' := by
  cases m with
  | start id sockfd u vars =>
    simp only [Net.next] at hn
    split_ifs at hn
    rcases hs : Client.start id sockfd u vars with e | ⟨client, shown⟩ <;> simp only [hs] at hn
    · simp at hn
    obtain rfl := Option.some.inj hn
    exact .start hs
  | server k i =>
    simp only [Net.next] at hn
    split_ifs at hn with hguard
    obtain ⟨w, hnext, rfl⟩ := Option.map_eq_some_iff.1 hn
    exact .server hguard.1 hguard.2 hnext
  | peer i k =>
    simp only [Net.next] at hn
    rcases hi : n.peers[i]? with _ | p <;> simp only [hi] at hn
    · simp at hn
    split_ifs at hn with hguard
    obtain rfl := Option.some.inj hn
    exact .peer hi hguard.1 hguard.2

theorem Inv.next (h : Inv udp tcp buffer n) (hearly : ¬ n.EarlyNews m)
    (hn : Net.next R n m = some n') : Inv udp tcp buffer n' := by
  obtain ⟨tr, hrun⟩ := h.world
  have hw := World.Run.consistent hrun
  have hm := World.Run.sound hrun
  cases turn_of_next hn with
  | start hs =>
    refine ⟨h.world, h.numbered, ?_⟩
    rw [List.forall_mem_append, List.forall_mem_singleton]
    exact ⟨h.peers, coupled_of_start hs n.world⟩
  | server hup haccepts hnext =>
    refine ⟨⟨_, hrun.step hnext⟩, h.numbered.next hw hnext, fun p' hp' => ?_⟩
    obtain ⟨p, hp, rfl | ⟨⟨j, rfl, hj⟩, rfl⟩⟩ := mem_accept hp'
    · exact (h.peers p hp).hear hw hnext hm (hup p hp) fun c hc hnil hfwd =>
        hearly ⟨p, hp, c, hc, hnil, hfwd⟩
    · obtain ⟨hat, q, hq, hconn⟩ := haccepts j rfl
      rw [Option.mem_def, hj, Option.some.injEq] at hq
      subst hq
      exact (h.peers p hp).accepted hw hnext h.numbered hconn hat
  | peer hi hend hdown =>
    refine ⟨h.world, h.numbered, fun p' hp' => ?_⟩
    rcases List.mem_or_eq_of_mem_set hp' with hp' | rfl
    · exact h.peers p' hp'
    · have hp := h.peers _ (List.mem_of_getElem? hi)
      exact hp.of_stage (hp.stage_step (fun c => World.Run.framed hrun c) hend hdown)

theorem Inv.agree_iff_misread (h : Inv udp tcp buffer n) :
    n.Agree ↔ ∀ p ∈ n.peers, ¬ p.Misread :=
  forall₂_congr fun p hp => (h.peers p hp).agrees_iff

/-- Until a subscriber takes part of a reply, all agree. -/
theorem Inv.agree_next (h : Inv udp tcp buffer n) (hagree : n.Agree) (hearly : ¬ n.EarlyNews m)
    (hwhole : n.WholeReply m) (hn : Net.next R n m = some n') : n'.Agree := by
  rw [(h.next hearly hn).agree_iff_misread]
  rw [h.agree_iff_misread] at hagree
  cases turn_of_next hn with
  | start =>
    rw [List.forall_mem_append, List.forall_mem_singleton]
    exact ⟨hagree, fun hm => hm.2.2.1 rfl⟩
  | server =>
    intro p' hp'
    obtain ⟨p, hp, rfl | ⟨-, rfl⟩⟩ := mem_accept hp'
    · exact hagree p hp
    · exact hagree p hp
  | peer hi hend =>
    intro p' hp'
    rcases List.mem_or_eq_of_mem_set hp' with hp' | rfl
    · exact hagree p' hp'
    rw [(h.peers _ (List.mem_of_getElem? hi)).misread_step_iff hend]
    rintro ⟨hpc, hqueue, hgot, hcut⟩
    exact hwhole _ hi hpc hqueue hgot hcut

/-- A subscriber that takes part of a reply does not agree with the server. -/
theorem Inv.wholeReply (h : Inv udp tcp buffer n) (hearly : ¬ n.EarlyNews m)
    (hn : Net.next R n m = some n') (hagree : n'.Agree) : n.WholeReply m := by
  rw [(h.next hearly hn).agree_iff_misread] at hagree
  cases turn_of_next hn with
  | start => trivial
  | server => trivial
  | @peer i k p hi hend =>
    intro q hq hpc hqueue hgot hcut
    obtain rfl := Option.some.inj (hi.symm.trans hq)
    have hlt := (List.getElem?_eq_some_iff.1 hi).1
    refine hagree (p.step R k) (List.mem_iff_getElem?.2 ⟨i, ?_⟩) ?_
    · rw [List.getElem?_set_self hlt]
    rw [(h.peers p (List.mem_of_getElem? hi)).misread_step_iff hend]
    exact ⟨hpc, hqueue, hgot, hcut⟩

theorem Inv.registers (h : Inv udp tcp buffer n) (m : Move) : n.Registers m := by
  obtain ⟨tr, hrun⟩ := h.world
  cases m with
  | start => trivial
  | peer => trivial
  | server k i =>
    intro p hp c hc w hn hnot ha
    obtain ⟨fd, hfd, hu⟩ := World.userOf_of_answered (World.Run.consistent hrun) hn hnot ha
    rw [Peer.frameField_authPacket (h.peers p hp).idLength, userOf_eq_some_iff] at hu
    exact ⟨fd, hfd, hu⟩

end Step

/-- A subscriber `A` logs in on 5, and has this of the reply. -/
def authInputs (reply : Bytes) : List Move :=
  [.start [65] 3 default zeroLocals, .server .quiet none, .server (.ready {4} []) none,
    .server .quiet none, .server (.connect 5) (some 0), .server .quiet none,
    .server (.ready {5} [(5, wire (authPacket [65]))]) none, .server .quiet none,
    .server .quiet none, .peer 0 (.chunk 3 reply), .peer 0 .quiet]

end Net

end NewsServer
