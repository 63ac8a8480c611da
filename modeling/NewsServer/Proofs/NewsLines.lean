import NewsServer.Proofs.NewsCodec
import NewsServer.Proofs.Stranded

/-!
# The news a subscriber prints

The subscriber prints whatever is in its buffer when the event queue hands it its connection. In a
run in which the queue does so only for a packet (`Client.Orderly`), the lines are those of the
frames it has received, in their order, and when it waits none is missing (`prints_news`).
-/

namespace NewsServer

open Memory
open MultiSocket (getNextFd_tcpSockets getNextFd_cases getNextFd_sockQueue_subset
  selectRound_of_visits selectRound_of_not_visits selectRound_of_none)
open Server (stdinFileno exitText)

/-- The line of a news packet. -/
def frameLine (R : RealText) (f : Bytes) : Bytes :=
  newsLine ((parseSubscriberNews R f (UInt64.ofNat f.length) default).1.getD default)

theorem ofInt_toInt_of_lt {n : ℕ} (h : n < 2 ^ 31) : UInt64.ofInt (toInt n) = UInt64.ofNat n := by
  rw [toInt_of_lt h, UInt64.ofInt, Int.emod_eq_of_lt (by omega) (by omega), Int.toNat_natCast]

namespace Client

/-- What a step's round of `select` reads from the connection. -/
def received (c : Client) (k : ClientKernel) : Bytes :=
  if c.Blocks ∧ c.multi.Visits k.pass c.sockfdTcp then
    ((k.pass.got c.sockfdTcp).getD []).take tcpBufferSize
  else []

/-- The line is the command `exit`, or one that `parse_subscription_cmd` accepts. -/
def Understands (c : Client) (line : Option Bytes) : Prop :=
  let buffer := readLine c.buffer line
  let command := overwrite buffer ((cstr buffer).length - 1) [0]
  (cstr buffer).length ≠ 0 ∧ (cstr command).length ≠ 0 ∧
    (strncmpEq command exitText 4 = true ∨ ∃ type topic,
      parseSubscriptionCmd c.type c.topic command maxCommandSize = some (0, type, topic))

/-- If a round of `select` leaves the connection open with no packet ready, it reads no standard
input, and `fd_type` holds `SOCK_TCP` when it begins; and a line that is read is understood. -/
structure Orderly (c : Client) (k : ClientKernel) : Prop where
  typed : c.Blocks → c.multi.Visits k.pass c.sockfdTcp → c.multi.Unfinished k.pass c.sockfdTcp →
    ¬ c.multi.Visits k.pass stdinFileno ∧ k.pass.fdType = sockTcp
  line : c.pc = .body stdinFileno → c.Understands k.line

variable {R : RealText} {c : Client}

theorem handleNews_eq (hm : c.multi.Sound) {sock : BufferedTcpSocket}
    (hs : c.multi.tcpSockets[c.multi.currSockfd]? = some sock) {p : Bytes} {rest : List Bytes}
    (hp : sock.packets = p :: rest) (hf : NewsFrame p) (hlen : p.length ≤ buflen)
    (beyond : Bytes) : ∃ (c' : Client) (sock' : BufferedTcpSocket),
      c.handleNews R beyond = .ok (c', [.news (frameLine R p)]) ∧
      c'.multi = { c.multi with
        tcpSockets := c.multi.tcpSockets.insert c.multi.currSockfd sock' } ∧
      c'.pc = .next ∧ c'.sockfdTcp = c.sockfdTcp ∧
      sock'.packets = rest ∧ sock'.pending = sock.pending := by
  obtain ⟨sock', hrecv, hrest, hpend⟩ := hm.recv_eq hs hp
  have hbuf : overwrite c.buffer 0 p ++ beyond = p ++ (c.buffer.drop (0 + p.length) ++ beyond) := by
    simp [overwrite]
  have hsize := ofInt_toInt_of_lt (n := p.length) (by
    rw [buflen] at hlen
    omega)
  obtain ⟨n, hn, hn'⟩ := parseSubscriberNews_frame (c.buffer.drop (0 + p.length) ++ beyond) R hf
    c.news
  have hline : frameLine R p = newsLine n := by
    rw [frameLine, hn, Option.getD_some]
  unfold handleNews
  rw [hrecv]
  dsimp only
  rw [if_neg (not_lt.2 hlen), hbuf, hsize, hn', hline]
  exact ⟨_, sock', rfl, rfl, rfl, rfl, hrest, hpend⟩

/-- The packets of the connection that are ready. -/
def waiting (c : Client) : List Bytes :=
  ((c.multi.tcpSockets[c.sockfdTcp]?).map BufferedTcpSocket.packets).getD []

/-- What a round of `select` reads adds its frames to the packets that are ready. -/
theorem round_stream {rx : Bytes} {k : ClientKernel} (hm : c.multi.Sound) (hb : c.Blocks)
    (hopen : c.sockfdTcp ∈ c.multi.readFds → c.sockfdTcp ∈ c.multi.tcpSockets)
    (hpend : ∀ sock : BufferedTcpSocket, c.multi.tcpSockets[c.sockfdTcp]? = some sock →
      sock.pending = (framing.cut rx).2)
    (hbig : ¬ framing.Oversize (framing.cut (rx ++ c.received k)).2) :
    (∃ new, (framing.cut (rx ++ c.received k)).1 = (framing.cut rx).1 ++ new ∧
      (c.round k.pass).1.waiting = c.waiting ++ new) ∧
    ∀ sock : BufferedTcpSocket, (c.round k.pass).1.multi.tcpSockets[c.sockfdTcp]? = some sock →
      sock.pending = (framing.cut (rx ++ c.received k)).2 := by
  have hround : (c.round k.pass).1.waiting = (((c.multi.selectRound
      k.pass).1.tcpSockets[c.sockfdTcp]?).map BufferedTcpSocket.packets).getD [] := rfl
  have hmulti : (c.round k.pass).1.multi = (c.multi.selectRound k.pass).1 := rfl
  rw [hround, hmulti, waiting]
  by_cases hv : c.multi.Visits k.pass c.sockfdTcp
  · obtain ⟨sock, hs⟩ : ∃ sock, c.multi.tcpSockets[c.sockfdTcp]? = some sock :=
      ⟨_, getElem?_pos _ _ (hopen (Finset.mem_inter.1 hv.1).1)⟩
    have hnil := hm.packets_eq_nil hb.2 hs
    have hrec : c.received k = ((k.pass.got c.sockfdTcp).getD []).take tcpBufferSize :=
      if_pos ⟨hb, hv⟩
    have happ := framing.cut_append rx (c.received k)
    rw [← hpend sock hs] at happ
    rw [(selectRound_of_visits hv hs).1, hs]
    by_cases hc : MultiSocket.Closes sock (k.pass.got c.sockfdTcp)
    · have hrx : c.received k = [] := by
        rw [BufferedTcpSocket.closes_iff (hm.wf _ _ hs)] at hc
        rcases hg : k.pass.got c.sockfdTcp with _ | bytes
        · simp [hrec, hg]
        · by_contra hne
          rw [hrec, hg, Option.getD_some] at hne happ hbig
          rw [happ] at hbig
          exact hbig (hc bytes hg (by rintro rfl; simp at hne))
      rw [if_pos hc, hrx, List.append_nil]
      exact ⟨⟨[], by simp, by simp [hnil]⟩, by simp⟩
    · obtain ⟨bytes, hg, -, -, hpk, hpd⟩ := BufferedTcpSocket.recv_open (hm.wf _ _ hs) hc
      rw [hg, Option.getD_some] at hrec
      rw [if_neg hc, happ, hrec]
      refine ⟨⟨_, rfl, by simpa using hpk⟩, fun sock' hs' => ?_⟩
      rw [← Option.some.inj hs', hpd]
  · have hrx : c.received k = [] := if_neg fun h => hv h.2
    rw [(selectRound_of_not_visits hv).1, hrx, List.append_nil]
    exact ⟨⟨[], by simp, by simp⟩, hpend⟩

/-- An event of standard input, or of a packet of the connection, or of its end. -/
def Handles (c : Client) (e : RecvHolder) : Prop :=
  e.fd = stdinFileno ∨ e.fd = c.sockfdTcp ∧
    (e.type = sockTcp ∨ e.type = sockClose ∧ c.multi.tcpSockets[c.sockfdTcp]? = none)

theorem round_queue {k : ClientKernel} (hb : c.Blocks)
    (hwatched : ∀ x ∈ c.multi.readFds, x = stdinFileno ∨ x = c.sockfdTcp ∧ x ∈ c.multi.tcpSockets)
    (hk : c.Orderly k) :
    ∀ e ∈ (c.round k.pass).1.multi.sockQueue, (c.round k.pass).1.Handles e := by
  intro e he
  have hqueue : (c.round k.pass).1.multi.sockQueue = MultiSocket.entries c.multi k.pass
      (c.multi.readFds ∩ k.pass.ready) (MultiSocket.descriptors c.multi.fdmax) k.pass.fdType := by
    refine (MultiSocket.selectRound_sockQueue c.multi k.pass).trans ?_
    rw [hb.2, List.nil_append]
  rw [hqueue] at he
  obtain ⟨hmem, hsel, t, ht⟩ := MultiSocket.mem_of_mem_entries c.multi k.pass _ _ _ e he
  have hv : c.multi.Visits k.pass e.fd := ⟨hsel, MultiSocket.mem_descriptors.1 hmem⟩
  rcases hwatched _ (Finset.mem_inter.1 hsel).1 with hstd | ⟨hfd, hin⟩
  · exact .inl hstd
  refine .inr ⟨hfd, ?_⟩
  rw [hfd] at ht hv hin
  obtain ⟨sock, hs⟩ : ∃ sock, c.multi.tcpSockets[c.sockfdTcp]? = some sock :=
    ⟨_, getElem?_pos _ _ hin⟩
  have hafter := (selectRound_of_visits hv hs).1
  by_cases hc : MultiSocket.Closes sock (k.pass.got c.sockfdTcp)
  · rw [MultiSocket.visit_of_closes hs hc] at ht
    rw [if_pos hc] at hafter
    exact .inr ⟨ht, hafter⟩
  left
  rcases hr : (sock.recv (k.pass.got c.sockfdTcp)).2.2.packetReady with _ | _
  · obtain ⟨hno, htype⟩ := hk.typed hb hv ⟨sock, hs, hc, hr⟩
    have honly : ∀ x ∈ MultiSocket.descriptors c.multi.fdmax,
        x ∈ c.multi.readFds ∩ k.pass.ready → x = c.sockfdTcp := by
      intro x hx hx'
      rcases hwatched x (Finset.mem_inter.1 hx').1 with rfl | h
      · exact absurd ⟨hx', MultiSocket.mem_descriptors.1 hx⟩ hno
      · exact h.1
    have he' := MultiSocket.mem_entries_of_only c.multi k.pass _ _ k.pass.fdType
      (MultiSocket.nodup_descriptors _) honly e he
    rw [he', MultiSocket.visit_of_open hs hc, hr]
    exact htype
  · rw [MultiSocket.visit_of_open hs hc, hr] at ht
    exact ht

/-- The body is at an event that `Handles` allows. -/
def HandlesFd (c : Client) (fd : ℤ) : Prop :=
  fd = stdinFileno ∨ fd = c.sockfdTcp ∧ c.multi.currSockfd = c.sockfdTcp ∧
    (c.multi.currentFdType = sockClose ∧ c.multi.tcpSockets[c.sockfdTcp]? = none ∨
      c.multi.currentFdType = sockTcp ∧ ∃ sock : BufferedTcpSocket,
        c.multi.tcpSockets[c.sockfdTcp]? = some sock ∧ sock.packetReady = true)

end Client

/-- The lines of news. -/
def newsLines (shown : List Shown) : List Bytes :=
  shown.filterMap fun
    | .news line => some line
    | _ => none

@[simp] theorem newsLines_append (shown shown' : List Shown) :
    newsLines (shown ++ shown') = newsLines shown ++ newsLines shown' :=
  List.filterMap_append

theorem newsLines_of_notMem {shown : List Shown} (h : ∀ line, .news line ∉ shown) :
    newsLines shown = [] := by
  rw [newsLines, List.filterMap_eq_nil_iff]
  rintro (e | line | text | text) he
  · rfl
  · exact absurd he (h line)
  · rfl
  · rfl

/-- The subscriber has received `rx` and printed `lines`: the first frame is the reply, the next
ones are printed, and the others are ready. -/
structure Follows (R : RealText) (rx : Bytes) (lines : List Bytes) (c : Client) : Prop where
  pos : 0 < c.sockfdTcp
  only : ∀ x, x ≠ c.sockfdTcp → c.multi.tcpSockets[x]? = none
  watched : ∀ x ∈ c.multi.readFds, x = stdinFileno ∨ x = c.sockfdTcp ∧ x ∈ c.multi.tcpSockets
  queue : ∀ e ∈ c.multi.sockQueue, c.Handles e
  body : ∀ fd, c.pc = .body fd → c.HandlesFd fd
  pending : ∀ sock : BufferedTcpSocket, c.multi.tcpSockets[c.sockfdTcp]? = some sock →
    sock.pending = (framing.cut rx).2
  reply : c.pc = .reply → (framing.cut rx).1 = c.waiting ∧ lines = []
  printed : c.pc ≠ .reply → ∃ r news, (framing.cut rx).1 = r :: (news ++ c.waiting) ∧
    lines = news.map (frameLine R)

section Step

variable {R : RealText} {rx : Bytes} {lines lines' : List Bytes} {c c' : Client} {k : ClientKernel}

theorem follows_connected (id : Bytes) {sockfd : ℤ} (hpos : 0 < sockfd) (u : Uninit)
    (vars : Locals) : Follows R [] [] (Terminal.connected id sockfd u vars).client where
  pos := hpos
  only x hx := by
    have hne : sockfd ≠ x := fun h => hx h.symm
    simp [Terminal.connected, MultiSocket.opened, MultiSocket.new, hne]
  watched x hx := by
    have hx : x = sockfd := by
      simpa [Terminal.connected, MultiSocket.opened, MultiSocket.new] using hx
    exact .inr ⟨hx, by simp [Terminal.connected, MultiSocket.opened, hx]⟩
  queue e he := by simp [Terminal.connected, MultiSocket.opened, MultiSocket.new] at he
  body fd h := by simp [Terminal.connected] at h
  pending sock hs := by
    simp only [Terminal.connected, MultiSocket.opened, Std.TreeMap.getElem?_insert_self] at hs
    simp [← Option.some.inj hs]
  reply _ := by simp [Client.waiting, Terminal.connected, MultiSocket.opened]
  printed h := absurd rfl h

theorem Follows.round (h : Follows R rx lines c) (hm : c.multi.Sound) (hb : c.Blocks)
    (hk : c.Orderly k) (hbig : ¬ framing.Oversize (framing.cut (rx ++ c.received k)).2) :
    Follows R (rx ++ c.received k) lines (c.round k.pass).1 := by
  obtain ⟨-, hread, hmem, -⟩ := MultiSocket.selectRound_watched c.multi k.pass
  have hopen : c.sockfdTcp ∈ c.multi.readFds → c.sockfdTcp ∈ c.multi.tcpSockets := by
    intro hx
    rcases h.watched _ hx with hstd | hin
    · exact absurd hstd h.pos.ne'
    · exact hin.2
  obtain ⟨⟨new, hnew, hwait⟩, hpend⟩ := Client.round_stream hm hb hopen h.pending hbig
  refine ⟨h.pos, fun x hx => selectRound_of_none k.pass (h.only x hx), fun x hx => ?_,
    Client.round_queue hb h.watched hk, fun fd hpc => ?_, hpend, fun hpc => ?_, fun hpc => ?_⟩
  · rcases h.watched x (hread hx) with hstd | ⟨hfd, hin⟩
    · exact .inl hstd
    · exact .inr ⟨hfd, hmem x hx hin⟩
  · have hpc' : c.pc = .body fd := hpc
    rcases hb.1 with hr | hr <;> simp [hr] at hpc'
  · obtain ⟨hcut, hlines⟩ := h.reply hpc
    rw [hnew, hwait, hcut]
    exact ⟨rfl, hlines⟩
  · obtain ⟨r, news, hcut, hlines⟩ := h.printed hpc
    refine ⟨r, news, ?_, hlines⟩
    rw [hnew, hwait, hcut, List.cons_append, List.append_assoc]

theorem Client.Handles.of_subset {e : RecvHolder} (h : c.Handles e)
    (hfd : c'.sockfdTcp = c.sockfdTcp) (hnone : c.multi.tcpSockets[c.sockfdTcp]? = none →
      c'.multi.tcpSockets[c.sockfdTcp]? = none) : c'.Handles e := by
  unfold Handles at h ⊢
  rw [hfd]
  exact h.imp_right fun ⟨he, ht⟩ => ⟨he, ht.imp_right fun ⟨ht, hs⟩ => ⟨ht, hnone hs⟩⟩

theorem Follows.poll (h : Follows R rx lines c) (hpc : c.pc ≠ .reply) :
    Follows R rx lines c.nextFd := by
  have hsockets : c.nextFd.multi.tcpSockets = c.multi.tcpSockets := getNextFd_tcpSockets c.multi
  have hwait : c.nextFd.waiting = c.waiting := by
    unfold Client.waiting
    rw [hsockets]
    rfl
  have hpc' : c.nextFd.pc ≠ .reply := by
    simp only [Client.nextFd]
    split_ifs <;> simp
  refine ⟨h.pos, fun x hx => ?_, fun x hx => ?_, fun e he => ?_, fun fd hbody => ?_,
    fun sock hs => ?_, fun hr => absurd hr hpc', fun _ => ?_⟩
  · rw [hsockets]
    exact h.only x hx
  · rw [hsockets]
    exact h.watched x (MultiSocket.getNextFd_readFds c.multi ▸ hx)
  · refine (h.queue e (getNextFd_sockQueue_subset c.multi he)).of_subset rfl fun hs => ?_
    rw [hsockets, hs]
  · simp only [Client.nextFd] at hbody
    split_ifs at hbody with hpos
    obtain rfl := ClientPc.body.inj hbody
    rcases getNextFd_cases c.multi with ⟨hneg, -⟩ | ⟨e, he, hfd, hcurr, htype, hfresh⟩
    · omega
    rw [hfd]
    rcases h.queue e he with hstd | ⟨hconn, ht⟩
    · exact .inl hstd
    refine .inr ⟨hconn, hcurr.trans hconn, ?_⟩
    rw [hsockets]
    rcases ht with ht | ⟨ht, hs⟩
    · refine .inr ⟨htype.trans ht, ?_⟩
      have hstale := hfresh ht
      unfold MultiSocket.stale at hstale
      rw [hconn] at hstale
      rcases hs : c.multi.tcpSockets[c.sockfdTcp]? with _ | sock <;> rw [hs] at hstale
      · simp at hstale
      · exact ⟨sock, hs, by simpa using hstale⟩
    · exact .inl ⟨htype.trans ht, hs⟩
  · rw [hsockets] at hs
    exact h.pending sock hs
  · rw [hwait]
    exact h.printed hpc

theorem Follows.taken (h : Follows R rx lines c) {sock sock' : BufferedTcpSocket}
    (hs : c.multi.tcpSockets[c.sockfdTcp]? = some sock) {p : Bytes} {rest : List Bytes}
    (hp : sock.packets = p :: rest) (hrest : sock'.packets = rest)
    (hpend : sock'.pending = sock.pending) (hfd : c'.sockfdTcp = c.sockfdTcp)
    (hsockets : c'.multi.tcpSockets = c.multi.tcpSockets.insert c.sockfdTcp sock')
    (hread : ∀ x ∈ c'.multi.readFds, x = stdinFileno ∨ x ∈ c.multi.readFds)
    (hqueue : c'.multi.sockQueue ⊆ c.multi.sockQueue)
    (hpc : c'.pc = .next ∨ c'.pc = .selecting) (hfirst : c.pc = .reply → lines' = lines)
    (hnext : c.pc ≠ .reply → lines' = lines ++ [frameLine R p]) : Follows R rx lines' c' := by
  have hwaiting : c.waiting = p :: c'.waiting := by
    simp [Client.waiting, hfd, hsockets, hs, hp, hrest]
  have hpc' : c'.pc ≠ .reply ∧ ∀ fd, c'.pc ≠ .body fd := by
    rcases hpc with hpc | hpc <;> simp [hpc]
  refine ⟨hfd ▸ h.pos, fun x hx => ?_, fun x hx => ?_, fun e he => ?_,
    fun fd hbody => absurd hbody (hpc'.2 fd), fun s hs' => ?_, fun hr => absurd hr hpc'.1,
    fun _ => ?_⟩
  · rw [hfd] at hx
    rw [hsockets, Std.TreeMap.getElem?_insert, if_neg (by simpa using hx.symm)]
    exact h.only x hx
  · rw [hfd, hsockets]
    rcases hread x hx with hstd | hx
    · exact .inl hstd
    · refine (h.watched x hx).imp_right fun ⟨hfd, _⟩ => ⟨hfd, ?_⟩
      simp [hfd]
  · refine (h.queue e (hqueue he)).of_subset hfd fun hnone => ?_
    rw [hs] at hnone
    simp at hnone
  · rw [hfd, hsockets, Std.TreeMap.getElem?_insert_self] at hs'
    rw [← Option.some.inj hs', hpend, h.pending sock hs]
  · by_cases hr : c.pc = .reply
    · obtain ⟨hcut, hlines⟩ := h.reply hr
      refine ⟨p, [], ?_, ?_⟩
      · rw [hcut, hwaiting, List.nil_append]
      · rw [hfirst hr, hlines, List.map_nil]
    · obtain ⟨r, news, hcut, hlines⟩ := h.printed hr
      refine ⟨r, news ++ [p], ?_, ?_⟩
      · rw [hcut, hwaiting, List.append_assoc, List.singleton_append]
      · rw [hnext hr, hlines, List.map_append, List.map_singleton]

theorem received_of_not_blocks (hb : ¬ c.Blocks) : c.received k = [] :=
  if_neg fun h => hb h.1

theorem Follows.authenticated (h : Follows R rx lines c) (hm : c.multi.Sound)
    (hpc : c.pc = .reply) (ha : c.authenticate = .ok c') : Follows R rx lines c' := by
  obtain ⟨hmulti, hfd, hpc'⟩ := authenticate_frame ha
  obtain ⟨sock, hs, hr⟩ := ready_of_authenticate ha
  have hcurr : c.multi.getNextFd.2.currSockfd = c.sockfdTcp := by
    by_contra hne
    rw [h.only _ hne] at hs
    simp at hs
  obtain ⟨p, rest, hp⟩ := BufferedTcpSocket.exists_packets_of_ready hr
  rw [hcurr] at hs
  have hs' : c.multi.getNextFd.2.tcpSockets[c.multi.getNextFd.2.currSockfd]? = some sock := by
    rw [hcurr, getNextFd_tcpSockets, hs]
  obtain ⟨sock', hrecv, hrest, hpend⟩ := hm.getNextFd.recv_eq hs' hp
  rw [hrecv, hcurr] at hmulti
  refine h.taken hs hp hrest hpend hfd ?_ ?_ ?_ (.inr hpc') (fun _ => rfl) fun hne => absurd hpc hne
  · rw [hmulti]
    exact congrArg (·.insert c.sockfdTcp sock') (getNextFd_tcpSockets c.multi)
  · intro x hx
    rw [hmulti] at hx
    refine (Finset.mem_insert.1 hx).imp_right fun hx => ?_
    rwa [← MultiSocket.getNextFd_readFds c.multi]
  · rw [hmulti]
    exact getNextFd_sockQueue_subset c.multi

/-- A frame that is ready is printed. -/
theorem Follows.news (h : Follows R rx lines c) (hm : c.multi.Sound) {fd : ℤ}
    (hpc : c.pc = .body fd) (hfd : fd ≠ stdinFileno) (hclosed : c.multi.hasClosed = false)
    (hframes : ∀ f ∈ (framing.cut rx).1.tail, NewsFrame f ∧ f.length ≤ buflen) (beyond : Bytes) :
    ∃ c' p, c.handleNews R beyond = .ok (c', [.news (frameLine R p)]) ∧
      Follows R rx (lines ++ [frameLine R p]) c' := by
  have hne : c.pc ≠ .reply := by simp [hpc]
  obtain ⟨-, hcurr, hevent⟩ := (h.body fd hpc).resolve_left hfd
  obtain ⟨-, sock, hs, hr⟩ := hevent.resolve_left fun ht => by
    simp [MultiSocket.hasClosed, ht.1] at hclosed
  obtain ⟨p, rest, hp⟩ := BufferedTcpSocket.exists_packets_of_ready hr
  have hmem : p ∈ (framing.cut rx).1.tail := by
    obtain ⟨r, news, hcut, -⟩ := h.printed hne
    simp [hcut, Client.waiting, hs, hp]
  obtain ⟨hf, hlen⟩ := hframes p hmem
  obtain ⟨c', sock', hok, hmulti, hpc', hfd', hrest, hpend⟩ :=
    Client.handleNews_eq hm (hcurr ▸ hs) hp hf hlen beyond
  refine ⟨c', p, hok, h.taken hs hp hrest hpend hfd' ?_ ?_ ?_ (.inl hpc')
    (fun hr => absurd hr hne) fun _ => rfl⟩
  · rw [hmulti, hcurr]
  · rw [hmulti]
    exact fun x hx => .inr hx
  · rw [hmulti]
    exact List.Subset.refl _

theorem Follows.line (h : Follows R rx lines c) (hpc : c.pc = .body stdinFileno)
    {line : Option Bytes} {evs : List Shown} (hl : c.handleStdin line = .ok (c', evs)) :
    Follows R rx lines c' := by
  obtain ⟨hmulti, hfd, hpc', -⟩ := handleStdin_frame hl
  have hne : c.pc ≠ .reply ∧ c'.pc ≠ .reply := by
    rw [hpc] at hpc' ⊢
    rcases hpc' with hpc' | hpc' <;> simp [hpc']
  have hwait : c'.waiting = c.waiting := by
    unfold Client.waiting
    rw [hmulti, hfd]
  refine ⟨hfd ▸ h.pos, ?_, ?_, fun e he => ?_, fun fd hbody => ?_, ?_,
    fun hr => absurd hr hne.2, fun _ => ?_⟩
  · rw [hmulti, hfd]
    exact h.only
  · rw [hmulti, hfd]
    exact h.watched
  · rw [hmulti] at he
    exact (h.queue e he).of_subset hfd fun hnone => by rwa [hmulti]
  · rcases hpc' with hpc' | hpc' <;> rw [hpc'] at hbody
    · exact .inl (ClientPc.body.inj (hpc ▸ hbody)).symm
    · simp at hbody
  · rw [hmulti, hfd]
    exact h.pending
  · rw [hwait]
    exact h.printed hne.1

/-- An orderly step prints the frames it takes off the connection. -/
theorem Follows.turn (h : Follows R rx lines c) (hm : c.multi.Sound) (hk : c.Orderly k)
    (hbig : ¬ framing.Oversize (framing.cut (rx ++ c.received k)).2)
    (hframes : ∀ f ∈ (framing.cut rx).1.tail, NewsFrame f ∧ f.length ≤ buflen)
    {evs : List Shown} (ht : Turn R c k c' evs) :
    Follows R (rx ++ c.received k) (lines ++ newsLines evs) c' := by
  have hbody : ∀ {fd}, c.pc = .body fd → c.received k = [] := fun hpc =>
    received_of_not_blocks fun hb => by rcases hb.1 with hr | hr <;> simp [hr] at hpc
  cases ht with
  | round hpc hq =>
    have hnews : newsLines (c.round k.pass).2 = [] :=
      newsLines_of_notMem fun line => by simp [Client.round]
    rw [hnews, List.append_nil]
    exact h.round hm ⟨hpc, hq⟩ hk hbig
  | reply hpc hq ha =>
    rw [received_of_not_blocks fun hb => hq hb.2]
    simpa [newsLines] using h.authenticated hm hpc ha
  | poll hpc =>
    have hne : c.pc ≠ .reply := by
      rcases hpc with hpc | ⟨hpc, -⟩ <;> simp [hpc]
    have hb : ¬ c.Blocks := by
      rintro ⟨hr, hq⟩
      rcases hpc with hpc | ⟨-, hq'⟩
      · simp [hpc] at hr
      · exact hq' hq
    rw [received_of_not_blocks hb]
    simpa [newsLines] using h.poll hne
  | line hpc hl =>
    rw [hbody hpc, newsLines_of_notMem (handleStdin_frame hl).2.2.2]
    simpa using h.line hpc hl
  | news hpc hfd hclosed hn =>
    obtain ⟨c'', p, hok, hfollows⟩ := h.news hm hpc hfd hclosed hframes k.beyond
    rw [hok] at hn
    obtain ⟨rfl, rfl⟩ := Prod.mk.inj (Except.ok.inj hn)
    rw [hbody hpc, List.append_nil]
    exact hfollows

/-- A line that is understood ends the loop or sends a command, which fails where the connection is
closed. -/
theorem handleStdin_of_understands {line : Option Bytes} (hu : c.Understands line) :
    c.handleStdin line = .error .exit ∨
      (∃ c' evs, c.handleStdin line = .ok (c', evs) ∧ c'.pc = .next) ∨
      c.handleStdin line = .error (.die .send) ∧ c.multi.tcpSockets[c.sockfdTcp]? = none := by
  obtain ⟨hlen, hcommand, hline⟩ := hu
  unfold Client.handleStdin
  dsimp only
  generalize overwrite (Client.readLine c.buffer line) _ [0] = command at hcommand hline ⊢
  rw [if_neg hlen, if_neg hcommand]
  by_cases hexit : strncmpEq command exitText 4 = true
  · exact .inl (if_pos hexit)
  obtain ⟨type, topic, hparse⟩ := hline.resolve_left hexit
  rw [if_neg hexit, hparse]
  dsimp only
  rw [if_neg (by simp)]
  by_cases hmem : c.sockfdTcp ∈ c.multi.tcpSockets
  swap
  · rw [send_of_notMem hmem, getElem?_neg _ _ hmem]
    exact .inr (.inr ⟨rfl, rfl⟩)
  have hshort : ((generateTcpSubPacket type topic command).1.take
      (generateTcpSubPacket type topic command).2).length + 4 ≤ tcpBufferSize := by
    have hlen : (generateTcpSubPacket type topic command).2 ≤ 1 + topicLen :=
      Nat.add_le_add_left (Nat.min_le_left _ _) 1
    rw [List.length_take, tcpBufferSize]
    rw [topicLen] at hlen
    omega
  refine .inr (.inl ?_)
  rw [send_of_mem hmem hshort]
  dsimp only
  rw [if_neg (by omega)]
  exact ⟨_, _, rfl, rfl⟩

theorem Turn.pc_of_line {evs : List Shown} (ht : Turn R c k c' evs) (hk : c.Orderly k)
    (hpc : c.pc = .body stdinFileno) : c'.pc ≠ .body stdinFileno := by
  have hl := ht.of_stdin hpc
  rcases handleStdin_of_understands (hk.line hpc) with he | ⟨c'', evs', hok, hnext⟩ | ⟨he, -⟩
  · simp [he] at hl
  · rw [hok] at hl
    obtain ⟨rfl, -⟩ := Prod.mk.inj (Except.ok.inj hl)
    simp [hnext]
  · simp [he] at hl

theorem Follows.ends (h : Follows R rx lines c) (hm : c.multi.Sound) (hk : c.Orderly k)
    (hframes : ∀ f ∈ (framing.cut rx).1.tail, NewsFrame f ∧ f.length ≤ buflen) {e : Ending}
    (hs : c.step R k = .error e) :
    c.pc = .reply ∨ e = .exit ∨ c.multi.tcpSockets[c.sockfdTcp]? = none := by
  unfold Client.step at hs
  rcases hpc : c.pc with _ | _ | _ | fd <;> rw [hpc] at hs <;> dsimp only at hs
  · exact .inl rfl
  · split_ifs at hs
  · simp at hs
  right
  unfold Client.loopBody at hs
  by_cases hfd : fd = stdinFileno
  · rw [if_pos hfd] at hs
    rcases handleStdin_of_understands (hk.line (hfd ▸ hpc)) with he | ⟨c', evs, hok, -⟩ | ⟨-, hnone⟩
    · rw [he] at hs
      exact .inl (Except.error.inj hs).symm
    · rw [hok] at hs
      simp at hs
    · exact .inr hnone
  rw [if_neg hfd] at hs
  rcases hclosed : c.multi.hasClosed with _ | _
  · obtain ⟨c', p, hok, -⟩ := h.news hm hpc hfd hclosed hframes k.beyond
    rw [if_neg (by simp [hclosed]), hok] at hs
    simp at hs
  · obtain ⟨-, -, ⟨-, hnone⟩ | ⟨ht, -⟩⟩ := (h.body fd hpc).resolve_left hfd
    · exact .inr hnone
    · simp [MultiSocket.hasClosed, ht, sockTcp, sockClose] at hclosed

end Step

namespace Terminal

/-- What a run has read from the connection. -/
def received (tr : List (Terminal × ClientKernel)) : Bytes :=
  tr.flatMap fun q => q.1.client.received q.2

theorem received_concat (tr : List (Terminal × ClientKernel)) (t : Terminal) (k : ClientKernel) :
    received (tr ++ [(t, k)]) = received tr ++ t.client.received k := by
  simp [received]

/-- The number of news frames that are complete in what a run has read. The first frame is the
reply. -/
def newsReceived (tr : List (Terminal × ClientKernel)) : ℕ :=
  (framing.cut (received tr)).1.length - 1

/-- The next step waits: in `::select`, or in `fgets` for a line that no event has announced. -/
def Waits (tr : List (Terminal × ClientKernel)) (t : Terminal) : Prop :=
  t.client.Blocks ∨ t.client.pc = .body stdinFileno ∧
    ∃ q ∈ tr.getLast?, q.1.client.pc = .body stdinFileno

/-- The lines are those of news frames that are complete, the first ones of `fs`, in their order;
when the loop waits, it is in `::select` and has printed all of them; and it ends only at the reply,
at the command `exit`, or when the connection is closed. -/
structure PrintsNews (R : RealText) (fs : List Bytes) (tr : List (Terminal × ClientKernel))
    (t : Terminal) : Prop where
  lines : newsLines t.shown <+: (fs.take (newsReceived tr)).map (frameLine R)
  waits : Waits tr t → t.client.Blocks ∧
    newsLines t.shown = (fs.take (newsReceived tr)).map (frameLine R)
  ends : ∀ k e, t.client.Orderly k → t.step R k = .error e → t.client.pc = .reply ∨ e = .exit ∨
    t.client.multi.tcpSockets[t.client.sockfdTcp]? = none

section Run

variable {R : RealText} {t₀ t : Terminal} {tr : List (Terminal × ClientKernel)} {reply : Bytes}
  {fs : List Bytes}

theorem frames_received (hreply : reply ≠ [] ∧ reply.length ≤ maxPacketSize)
    (hfs : ∀ f ∈ fs, NewsFrame f) {rx : Bytes}
    (hrx : rx <+: framing.enc reply ++ fs.flatMap framing.enc) :
    (framing.cut rx).1 <+: reply :: fs ∧ ¬ framing.Oversize (framing.cut rx).2 := by
  refine framing.cut_of_isPrefix (List.forall_mem_cons.2 ⟨hreply, fun f hf => ?_⟩) hrx
  obtain ⟨-, hvalue, hle⟩ := hfs f hf
  have hpos : 0 < f.length := by omega
  refine ⟨List.ne_nil_of_length_pos hpos, hle.trans ?_⟩
  decide

theorem tail_eq_take {r : Bytes} {l : List Bytes} (h : l <+: r :: fs) :
    l.tail = fs.take (l.length - 1) := by
  obtain ⟨b, hb⟩ := h
  rcases l with _ | ⟨x, l⟩
  · simp
  · obtain ⟨rfl, rfl⟩ := List.cons.inj hb
    simp

theorem Run.follows (h0 : t₀.Started) (h : Run R t₀ tr t)
    (hreply : reply ≠ [] ∧ reply.length ≤ maxPacketSize) (hfs : ∀ f ∈ fs, NewsFrame f)
    (hshort : ∀ f ∈ fs, f.length ≤ buflen) (hk : ∀ q ∈ tr, q.1.client.Orderly q.2)
    (hrx : received tr <+: framing.enc reply ++ fs.flatMap framing.enc) :
    Follows R (received tr) (newsLines t.shown) t.client := by
  induction h with
  | start =>
    obtain ⟨id, sockfd, u, vars, -, hpos, rfl⟩ := h0.eq_connected
    exact follows_connected id hpos u vars
  | @step tr t t' k h hn ih =>
    rw [received_concat] at hrx ⊢
    have hrx' := (List.prefix_append _ _).trans hrx
    have ih := ih (fun q hq => hk q (List.mem_append_left _ hq)) hrx'
    obtain ⟨evs, hturn, hshown⟩ := turn_of_next hn
    rw [hshown, newsLines_append]
    refine ih.turn (Run.sound h0 h) (hk _ List.mem_concat_self)
      (frames_received hreply hfs hrx).2 (fun f hf => ?_) hturn
    have hmem : f ∈ fs := by
      rw [tail_eq_take (frames_received hreply hfs hrx').1] at hf
      exact List.mem_of_mem_take hf
    exact ⟨hfs f hmem, hshort f hmem⟩

/-- In every run of a subscriber whose server sends a reply and then well-formed news, if no frame
is longer than the buffer and every step is orderly, a line is printed for each frame. -/
theorem prints_news (h0 : t₀.Started) (h : Run R t₀ tr t)
    (hreply : reply ≠ [] ∧ reply.length ≤ maxPacketSize) (hfs : ∀ f ∈ fs, NewsFrame f)
    (hrx : received tr <+: framing.enc reply ++ fs.flatMap framing.enc)
    (hshort : ∀ f ∈ fs, f.length ≤ buflen) (hk : ∀ q ∈ tr, q.1.client.Orderly q.2) :
    PrintsNews R fs tr t := by
  have hm := Run.sound h0 h
  have hfollows := Run.follows h0 h hreply hfs hshort hk hrx
  have hpre := (frames_received hreply hfs hrx).1
  have htail := tail_eq_take hpre
  constructor
  · rw [newsReceived, ← htail]
    by_cases hpc : t.client.pc = .reply
    · rw [(hfollows.reply hpc).2]
      exact List.nil_prefix
    · obtain ⟨r, news, hcut, hlines⟩ := hfollows.printed hpc
      rw [hcut, hlines, List.tail_cons, List.map_append]
      exact List.prefix_append _ _
  · intro hwaits
    have hb : t.client.Blocks := by
      refine hwaits.resolve_right ?_
      rintro ⟨hpc, q, hq, hpc'⟩
      cases h with
      | start => simp at hq
      | step _ hn =>
        rw [List.getLast?_concat, Option.mem_some_iff] at hq
        subst hq
        obtain ⟨evs, hturn, -⟩ := turn_of_next hn
        exact hturn.pc_of_line (hk _ List.mem_concat_self) hpc' hpc
    refine ⟨hb, ?_⟩
    have hnone : t.client.waiting = [] := by
      rcases hs : t.client.multi.tcpSockets[t.client.sockfdTcp]? with _ | sock
      · simp [Client.waiting, hs]
      · simp [Client.waiting, hs, hm.packets_eq_nil hb.2 hs]
    rw [newsReceived, ← htail]
    by_cases hpc : t.client.pc = .reply
    · obtain ⟨hcut, hlines⟩ := hfollows.reply hpc
      simp [hcut, hlines, hnone]
    · obtain ⟨r, news, hcut, hlines⟩ := hfollows.printed hpc
      rw [hcut, hlines, hnone, List.append_nil, List.tail_cons]
  · intro k e hk' hstep
    have hframes : ∀ f ∈ (framing.cut (received tr)).1.tail, NewsFrame f ∧ f.length ≤ buflen := by
      intro f hf
      rw [htail] at hf
      exact ⟨hfs f (List.mem_of_mem_take hf), hshort f (List.mem_of_mem_take hf)⟩
    unfold step at hstep
    rcases hs : t.client.step R k with e' | x <;> rw [hs] at hstep
    · obtain rfl := Except.error.inj hstep
      exact hfollows.ends hm hk' hframes hs
    · simp at hstep

end Run

/-- `5` on the topic `a`, from port 80 of 10.0.0.1. -/
def oneFrame : Bytes :=
  (getSendableNews (97 :: List.replicate 50 0 ++ [0, 0, 0, 0, 5])
    ⟨word [10, 0, 0, 1], htons 80⟩).data

theorem newsFrame_oneFrame : NewsFrame oneFrame :=
  newsFrame_sendable (by decide) (by decide) (by decide)

/-- The reply comes in, and then the packet. -/
def newsInputs : List ClientKernel :=
  [.chunk 5 (framing.enc [typeAuth]), .quiet, .quiet, .chunk 5 (framing.enc oneFrame), .quiet,
    .quiet, .quiet]

set_option maxRecDepth 10000 in
/-- The line has been printed when the loop blocks again. -/
theorem prints_news_one : ∃ tr t, Run noReals (.connected [65] 5 default zeroLocals) tr t ∧
    tr.map Prod.snd = newsInputs ∧ Waits tr t ∧ newsReceived tr = 1 ∧
      PrintsNews noReals [oneFrame] tr t := by
  have hexec : ∃ x ∈ Runs.exec (Runs.record (next noReals))
      ([], .connected [65] 5 default zeroLocals) newsInputs,
      (received x.1 <+: framing.enc [typeAuth] ++ [oneFrame].flatMap framing.enc ∧
        newsReceived x.1 = 1 ∧ x.2.client.Blocks) ∧
      ∀ q ∈ x.1, q.1.client.pc ≠ .body stdinFileno ∧ (q.1.client.Blocks →
        q.1.client.multi.Visits q.2.pass q.1.client.sockfdTcp →
          ¬ q.1.client.multi.Unfinished q.2.pass q.1.client.sockfdTcp) := by
    decide +kernel
  obtain ⟨tr, t, hr, htr, ⟨hrx, hone, hb⟩, hk⟩ := Runs.exists_run_of_record (P := fun tr t =>
    (received tr <+: framing.enc [typeAuth] ++ [oneFrame].flatMap framing.enc ∧
        newsReceived tr = 1 ∧ t.client.Blocks) ∧ ∀ q ∈ tr, q.1.client.pc ≠ .body stdinFileno ∧
      (q.1.client.Blocks → q.1.client.multi.Visits q.2.pass q.1.client.sockfdTcp →
        ¬ q.1.client.multi.Unfinished q.2.pass q.1.client.sockfdTcp)) hexec
  have hreply : ([typeAuth] : Bytes) ≠ [] ∧ ([typeAuth] : Bytes).length ≤ maxPacketSize := by
    decide
  refine ⟨tr, t, hr, htr, .inl hb, hone, prints_news (started_connected (by decide) (by decide)
    (by decide) default zeroLocals) hr hreply ?_ hrx ?_ fun q hq => ?_⟩
  · simpa using newsFrame_oneFrame
  · simpa using show oneFrame.length ≤ buflen by decide
  · obtain ⟨hpc, hun⟩ := hk q hq
    exact ⟨fun hb hv hu => absurd hu (hun hb hv), fun h => absurd h hpc⟩

/-- `subscribe a 0` is typed while the first byte of the packet comes in. -/
def stdinInputs : List ClientKernel :=
  [.chunk 5 (framing.enc [typeAuth]), .quiet, .quiet,
    { ClientKernel.quiet with pass := ⟨{0, 5}, fun _ => some [0], 0⟩ }, .quiet,
    { ClientKernel.quiet with line := some (subscribeText ++ [32, 97, 32, 48, 10]) }, .quiet,
    .quiet]

set_option maxRecDepth 10000 in
/-- A line of news is printed of no frame. -/
theorem not_prints_news_stdin : NewsFrame oneFrame ∧ oneFrame.length ≤ buflen ∧
    ∃ tr t, Run noReals (.connected [65] 5 default zeroLocals) tr t ∧
      tr.map Prod.snd = stdinInputs ∧
      received tr <+: framing.enc [typeAuth] ++ [oneFrame].flatMap framing.enc ∧
      (newsLines t.shown).length = 1 ∧ newsReceived tr = 0 ∧
      ¬ PrintsNews noReals [oneFrame] tr t := by
  refine ⟨newsFrame_oneFrame, by decide, ?_⟩
  have hexec : ∃ x ∈ Runs.exec (Runs.record (next noReals))
      ([], .connected [65] 5 default zeroLocals) stdinInputs,
      received x.1 <+: framing.enc [typeAuth] ++ [oneFrame].flatMap framing.enc ∧
        (newsLines x.2.shown).length = 1 ∧ newsReceived x.1 = 0 := by
    decide +kernel
  obtain ⟨tr, t, hr, htr, hrx, hline, hzero⟩ := Runs.exists_run_of_record (P := fun tr t =>
    received tr <+: framing.enc [typeAuth] ++ [oneFrame].flatMap framing.enc ∧
      (newsLines t.shown).length = 1 ∧ newsReceived tr = 0) hexec
  refine ⟨tr, t, hr, htr, hrx, hline, hzero, fun h => ?_⟩
  have hle := h.lines.length_le
  rw [hline, hzero] at hle
  simp at hle

end Terminal

end NewsServer
