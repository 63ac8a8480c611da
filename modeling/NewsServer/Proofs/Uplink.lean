import NewsServer.Proofs.Agreement
import NewsServer.Proofs.Dialogue

/-!
# Commands from the keyboard to the server

What was received of a connection is the frames that were handled, those that are ready in its
decoder, and the beginning of another (`Served`). So the frames the server has handled of a
subscriber are the first ones the subscriber has sent (`Linked`), and those are its `AUTH` and the
commands that were typed (`handled_typed`), in any order of the steps of the server and its
subscribers.
-/

namespace NewsServer

open Memory
open Sessions Registry
open Server (stdinFileno)

namespace World

variable {w w' : World} {k : Kernel} {c : ℕ} {heard : Bytes}

/-- What was received of the connection is the frames that were handled, and, while it is open, what
is in its decoder. -/
structure Served (w : World) (c : ℕ) (heard : Bytes) : Prop where
  handled : (w.answers c).map Prod.fst <+: (framing.cut heard).1
  decoder : ∀ (fd : ℤ) (sock : BufferedTcpSocket), w.conn fd = some c →
    w.server.multi.tcpSockets[fd]? = some sock →
      (framing.cut heard).1 = (w.answers c).map Prod.fst ++ sock.packets ∧
        sock.pending = (framing.cut heard).2

theorem socket_of_frame (h : w.Consistent) (hm : w.server.multi.Sound)
    (hn : next w k = some w') {fd : ℤ} (hat : w.server.At fd .recv) {sock sock' : BufferedTcpSocket}
    (hs : w.server.multi.tcpSockets[fd]? = some sock) {buf : Bytes} {rest : List Bytes}
    (hpk : sock.packets = buf :: rest) (hs' : w'.server.multi.tcpSockets[fd]? = some sock') :
    sock'.packets = rest ∧ sock'.pending = sock.pending := by
  rw [← h.curr fd hat.1] at hs hs'
  obtain ⟨sock₁, hrecv, hrest, hpend⟩ := hm.recv_eq hs hpk
  obtain ⟨as, hmoved, -⟩ := exec_of_next hn
  rcases hmoved.of_at hat with ⟨-, hb⟩ | ⟨hb, -⟩ | ⟨-, hm' | hm'⟩
  · exact absurd rfl hb
  · simp at hb
  · rw [hm', hrecv] at hs'
    simp only [Std.TreeMap.getElem?_insert_self] at hs'
    rw [← Option.some.inj hs']
    exact ⟨hrest, hpend⟩
  · rw [hm', ← h.curr fd hat.1] at hs'
    simp [MultiSocket.close] at hs'

theorem Served.next (h : w.Consistent) (hm : w.server.multi.Sound) (hn : World.next w k = some w')
    (hc : c < w.registry.count) (hserved : w.Served c heard) :
    w'.Served c (heard ++ readBytes ((w.fdOf c).bind fun fd => w.reads k fd)) := by
  obtain ⟨frames, sent, hspoken, hframes, -⟩ := spoken_of_next h hn c
  have hgrow := framing.cut_isPrefix
    (List.prefix_append heard (readBytes ((w.fdOf c).bind fun fd => w.reads k fd)))
  cases hspoken with
  | news hall hidle =>
    rw [List.append_nil] at hframes
    refine ⟨?_, fun fd sock hon' hs' => ?_⟩
    · rw [hframes]
      exact hserved.handled.trans hgrow
    have hon := (conn_next h hn).2 fd hc hon'
    have hin := (h.on fd).1 (by rw [show w.registry.on fd = _ from hon]; rfl)
    rw [hframes, (fdOf_eq_some h).2 hon, Option.bind_some]
    rcases socket_of_next h hn hin hs' with
      ⟨hr, hs⟩ | ⟨sock₀, hs₀, hq, hr, hopen, rfl⟩ | ⟨hat, hsome⟩
    · rw [hr]
      simpa [readBytes] using hserved.decoder fd sock hon hs
    · obtain ⟨hcut, hpend⟩ := hserved.decoder fd sock₀ hon hs₀
      obtain ⟨bytes, hg, -, -, hpk, hpd⟩ := BufferedTcpSocket.recv_open (hm.wf _ _ hs₀) hopen
      rw [hm.packets_eq_nil hq hs₀] at hcut hpk
      rw [List.append_nil] at hcut
      rw [hr, hpk, hpd, hg, framing.cut_append heard, hcut, ← hpend]
      exact ⟨rfl, rfl⟩
    · rw [hidle fd hat hon] at hsome
      simp at hsome
  | @frame fd buf type hat hin hsize hon hp =>
    obtain ⟨sock, rest, hs, hpk⟩ := exists_packets_of_incoming hm hin
    rw [h.curr fd hat.1] at hs
    obtain ⟨hcut, hpend⟩ := hserved.decoder fd sock hon hs
    have hread : readBytes ((w.fdOf c).bind fun fd => w.reads k fd) = [] := by
      rw [(fdOf_eq_some h).2 hon, Option.bind_some, reads, if_neg fun hr => ?_]
      · rfl
      · rw [hat.1] at hr
        simp at hr
    rw [hread, List.append_nil]
    rw [hpk] at hcut
    refine ⟨?_, fun fd' sock' hon' hs' => ?_⟩
    · rw [hframes, List.map_append, hcut]
      exact ⟨rest, by simp⟩
    · obtain rfl := h.sound.inj ((conn_next h hn).2 fd' hc hon') hon
      obtain ⟨hrest, hpend'⟩ := socket_of_frame h hm hn hat hs hpk hs'
      rw [hframes, hrest, hpend', hcut]
      exact ⟨by simp, hpend⟩

/-- Nothing was received of a connection when it is accepted. -/
theorem served_of_accept (h : w.Consistent) (hn : World.next w k = some w') (hnum : w.Numbered)
    (hat : ∃ fd, w.server.At fd .accept) : w'.Served w.registry.count [] := by
  obtain ⟨-, hfd⟩ := conn_of_accept h hn hat
  obtain ⟨frames, sent, hspoken, hframes, -⟩ := spoken_of_next h hn w.registry.count
  obtain ⟨rfl, -⟩ := hspoken.eq_nil fun fd hon => absurd (h.sound.lt hon) (lt_irrefl _)
  rw [(hnum _ le_rfl).1, List.append_nil] at hframes
  refine ⟨by rw [hframes]; exact List.nil_prefix, fun fd sock hon hs => ?_⟩
  obtain rfl := hfd fd hon
  rw [socket_of_accept hn hat] at hs
  obtain rfl := Option.some.inj hs
  rw [hframes, framing.cut_nil]
  exact ⟨by simp, by simp⟩

end World

/-- The frame of a command. -/
structure CommandFrame (f : Bytes) : Prop where
  type : frameType f = typeSub ∨ frameType f = typeSubSf ∨ frameType f = typeUnsub
  ne_nil : f ≠ []
  le : f.length ≤ 1 + topicLen

/-- The frames of the commands among the lines. -/
def commandFrames (lines : List Bytes) : List Bytes :=
  lines.filterMap fun s => (command? (tokens blanks s)).map fun x => x.1 :: x.2

/-- The bytes that were sent. -/
def sentBytes (shown : List Shown) : Bytes :=
  shown.flatMap fun
    | .call (.sent _ bytes) => bytes
    | _ => []

theorem sentBytes_append (shown shown' : List Shown) :
    sentBytes (shown ++ shown') = sentBytes shown ++ sentBytes shown' :=
  List.flatMap_append

theorem sentBytes_filter : ∀ shown : List Shown,
    sentBytes (shown.filter Shown.ofCommand) = sentBytes shown
  | [] => rfl
  | e :: shown => by
    have ih := sentBytes_filter shown
    rw [sentBytes] at ih
    rw [List.filter_cons, sentBytes, sentBytes, List.flatMap_cons]
    split_ifs with he
    · rw [List.flatMap_cons, ih]
      rfl
    · rw [ih]
      rcases e with (_ | _ | _) | _ | _ | _ <;> first | rfl | exact absurd rfl he

theorem sentBytes_commandAnswer (type : UInt8) : sentBytes (Client.commandAnswer type) = [] := by
  unfold Client.commandAnswer
  split_ifs <;> rfl

theorem CommandFrame.length_le {f : Bytes} (h : CommandFrame f) : f.length ≤ 51 :=
  h.le

theorem CommandFrame.wire_eq {f : Bytes} (h : CommandFrame f) : wire f = framing.enc f :=
  World.wire_eq_enc (h.length_le.trans (by decide))

theorem commandFrame_of_command? {s topic : Bytes} {type : UInt8} (hnul : 0 ∉ s)
    (h : command? (tokens blanks s) = some (type, topic)) : CommandFrame (type :: topic) := by
  have hle := (topicName_of_command? hnul h).le
  refine ⟨?_, List.cons_ne_nil _ _, by rw [List.length_cons]; omega⟩
  obtain ⟨-, ⟨-, rfl⟩ | ⟨sf, -, -, rfl⟩⟩ := command?_eq_some h
  · exact .inr (.inr rfl)
  · split_ifs
    · exact .inr (.inl rfl)
    · exact .inl rfl

theorem commandFrame_of_mem {f : Bytes} {lines : List Bytes} (hnul : ∀ s ∈ lines, 0 ∉ s)
    (h : f ∈ commandFrames lines) : CommandFrame f := by
  obtain ⟨s, hs, hf⟩ := List.mem_filterMap.1 h
  obtain ⟨⟨type, topic⟩, hc, rfl⟩ := Option.map_eq_some_iff.1 hf
  exact commandFrame_of_command? (hnul s hs) hc

theorem sentBytes_lineShown (sockfd : ℤ) {s : Bytes} (hnul : 0 ∉ s) :
    sentBytes (lineShown sockfd s) = (commandFrames [s]).flatMap framing.enc := by
  unfold lineShown commandFrames
  rcases hc : command? (tokens blanks s) with _ | ⟨type, topic⟩
  · simp only [List.filterMap_cons, hc, Option.map_none, List.filterMap_nil]
    split_ifs <;> rfl
  · have hwire := (commandFrame_of_command? hnul hc).wire_eq
    dsimp only
    rw [← List.singleton_append, sentBytes_append, sentBytes_commandAnswer]
    simp [sentBytes, hc, hwire]

theorem notMem_typing {c : Client} {k : ClientKernel} : ∀ s ∈ c.typing k, 0 ∉ s := by
  intro s hs
  unfold Client.typing at hs
  split_ifs at hs
  · exact notMem_of_command hs
  · simp at hs

/-- What is parsed as a command has the type of one. -/
theorem type_of_parse {type type' : UInt8} {topic topic' buf : Bytes} {size : ℕ}
    (h : parseSubscriptionCmd type topic buf size = some (0, type', topic')) :
    type' = typeSub ∨ type' = typeSubSf ∨ type' = typeUnsub := by
  unfold parseSubscriptionCmd at h
  dsimp only at h
  rcases hp : strtok blanks (cstr (strncpy size buf)) with _ | ⟨p, rest⟩ <;> rw [hp] at h
  · simp at h
  dsimp only at h
  rcases hct : commandType p with _ | t <;> rw [hct] at h
  · simp [unknownCommand] at h
  have ht : t = typeSub ∨ t = typeUnsub := by
    unfold commandType at hct
    split_ifs at hct
    · exact .inl (Option.some.inj hct).symm
    · exact .inr (Option.some.inj hct).symm
  dsimp only at h
  rcases hq : strtok blanks rest with _ | ⟨q, more⟩ <;> rw [hq] at h
  · simp [unknownCommand] at h
  dsimp only at h
  split_ifs at h with hunsub
  · simp only [Option.some.injEq, Prod.mk.injEq] at h
    exact .inr (.inr (h.2.1.symm.trans hunsub))
  rcases hsf : strtok blanks more with _ | ⟨sf, last⟩ <;> rw [hsf] at h
  · simp [unknownCommand] at h
  simp only [Option.some.injEq, Prod.mk.injEq] at h
  rw [← h.2.1]
  split_ifs
  · exact .inr (.inl rfl)
  · exact ht.imp_right .inr

theorem commandFrame_generate {type : UInt8}
    (h : type = typeSub ∨ type = typeSubSf ∨ type = typeUnsub) (topic buf : Bytes) :
    CommandFrame ((generateTcpSubPacket type topic buf).1.take
      (generateTcpSubPacket type topic buf).2) := by
  have hlen : (generateTcpSubPacket type topic buf).2 ≤ 1 + topicLen :=
    Nat.add_le_add_left (Nat.min_le_left _ _) 1
  obtain ⟨rest, hrest⟩ : ∃ rest, (generateTcpSubPacket type topic buf).1.take
      (generateTcpSubPacket type topic buf).2 = type :: rest := by
    simp only [generateTcpSubPacket, overwrite, List.take_zero, List.nil_append, List.cons_append,
      Nat.add_comm 1, List.take_succ_cons]
    exact ⟨_, rfl⟩
  refine ⟨by rw [hrest]; exact h, by rw [hrest]; exact List.cons_ne_nil _ _, ?_⟩
  exact (List.length_take_le _ _).trans hlen

theorem handleStdin_sent {c c' : Client} {line : Option Bytes} {evs : List Shown}
    (h : c.handleStdin line = .ok (c', evs)) :
    sentBytes evs = [] ∨ ∃ f, CommandFrame f ∧ sentBytes evs = framing.enc f := by
  unfold Client.handleStdin at h
  dsimp only at h
  split_ifs at h with hlen hempty hexit
  · obtain ⟨-, rfl⟩ := Prod.mk.inj (Except.ok.inj h)
    exact .inl rfl
  rcases hp : parseSubscriptionCmd c.type c.topic _ maxCommandSize with _ | ⟨status, type, topic⟩
    <;> rw [hp] at h
  · simp at h
  dsimp only at h
  split_ifs at h with hstatus
  · obtain ⟨-, rfl⟩ := Prod.mk.inj (Except.ok.inj h)
    exact .inl rfl
  obtain rfl := not_not.1 hstatus
  have hf := commandFrame_generate (type_of_parse hp) topic
    (overwrite (Client.readLine c.buffer line)
      ((cstr (Client.readLine c.buffer line)).length - 1) [0])
  by_cases hmem : c.sockfdTcp ∈ c.multi.tcpSockets
  · rw [send_of_mem hmem (by
      have := hf.length_le
      rw [tcpBufferSize]
      omega)] at h
    dsimp only at h
    rw [if_neg (by omega)] at h
    obtain ⟨-, rfl⟩ := Prod.mk.inj (Except.ok.inj h)
    refine .inr ⟨_, hf, ?_⟩
    rw [sentBytes_append, sentBytes_commandAnswer, ← hf.wire_eq]
    simp [sentBytes]
  · rw [send_of_notMem hmem] at h
    simp at h

/-- A step of a subscriber sends frames of commands, those of the line it is given where that is
unambiguous. -/
theorem Turn.sent {R : RealText} {c c' : Client} {k : ClientKernel} {evs : List Shown}
    (h : Turn R c k c' evs) : ∃ frames, (∀ f ∈ frames, CommandFrame f) ∧
      sentBytes evs = frames.flatMap framing.enc ∧
      ((∀ s ∈ c.typing k, s = [] ∨ Unambiguous (tokens blanks s)) →
        frames = commandFrames (c.typing k).toList) := by
  by_cases hline : ∀ s ∈ c.typing k, s = [] ∨ Unambiguous (tokens blanks s)
  · refine ⟨commandFrames (c.typing k).toList, fun f hf => ?_, ?_, fun _ => rfl⟩
    · exact commandFrame_of_mem (fun s hs => notMem_typing s (Option.mem_toList.1 hs)) hf
    · rw [← sentBytes_filter, h.ofCommand hline]
      rcases ht : c.typing k with _ | s
      · rfl
      · rw [Option.toList_some, List.flatMap_cons, List.flatMap_nil, List.append_nil]
        exact sentBytes_lineShown _ (notMem_typing s ht)
  · have hpc : c.pc = .body stdinFileno := by
      by_contra hne
      refine hline fun s hs => ?_
      rw [Client.typing, if_neg hne] at hs
      simp at hs
    rcases handleStdin_sent (h.of_stdin hpc) with hnil | ⟨f, hf, hsent⟩
    · exact ⟨[], by simp, hnil, fun hl => absurd hl hline⟩
    · exact ⟨[f], by simpa using hf, by simpa using hsent, fun hl => absurd hl hline⟩

namespace Peer

/-- A subscriber has sent its `AUTH` and the commands `frames`, and this has become of it. -/
structure Linked (w : World) (p : Peer) (frames : List Bytes) : Prop where
  idLength : p.id.length < clientIdLen
  commands : ∀ f ∈ frames, CommandFrame f
  said : p.said = (authPacket p.id :: frames).flatMap framing.enc
  heard : p.heard <+: p.said
  unlinked : p.conn = none → p.heard = []
  linked : ∀ c ∈ p.conn, c < w.registry.count ∧ w.Served c p.heard

section Linked

variable {w w' : World} {p : Peer} {frames : List Bytes} {k : Kernel}

theorem Linked.framed (h : Linked w p frames) :
    ∀ f ∈ authPacket p.id :: frames, f ≠ [] ∧ f.length ≤ framing.limit := by
  refine List.forall_mem_cons.2 ⟨framed_authPacket h.idLength, fun f hf => ?_⟩
  exact ⟨(h.commands f hf).ne_nil, (h.commands f hf).length_le.trans (by decide)⟩

/-- The frames the server has handled are the first ones of those that were sent. -/
theorem Linked.handled (h : Linked w p frames) {c : ℕ} (hc : c ∈ p.conn) :
    (w.answers c).map Prod.fst <+: authPacket p.id :: frames :=
  (h.linked c hc).2.handled.trans
    (framing.cut_of_isPrefix h.framed (h.said ▸ h.heard)).1

/-- The server has handled all of them, where it waits and all have come. -/
theorem Linked.handled_all (h : Linked w p frames) (hw : w.Consistent)
    (hm : w.server.multi.Sound) {c : ℕ} (hc : c ∈ p.conn) (hall : p.heard = p.said)
    (hopen : (w.fdOf c).isSome) (hq : w.server.multi.sockQueue = []) :
    (w.answers c).map Prod.fst = authPacket p.id :: frames := by
  obtain ⟨fd, hfd⟩ := Option.isSome_iff_exists.1 hopen
  have hon := (World.fdOf_eq_some hw).1 hfd
  have hin := (hw.on fd).1 (by rw [show w.registry.on fd = _ from hon]; rfl)
  have hs := getElem?_pos w.server.multi.tcpSockets fd hin
  obtain ⟨hcut, -⟩ := (h.linked c hc).2.decoder fd _ hon hs
  rw [hm.packets_eq_nil hq hs, List.append_nil, hall, h.said, framing.cut_enc h.framed] at hcut
  exact hcut.symm

theorem Linked.hear (h : Linked w p frames) (hw : w.Consistent) (hm : w.server.multi.Sound)
    (hn : World.next w k = some w') (hup : p.Uploads w k) : Linked w' (p.hear w k) frames := by
  refine ⟨h.idLength, h.commands, h.said, hup.heard h.heard, fun hconn => ?_, fun c hc => ?_⟩
  · have hnone : p.up w k = none := by
      rw [up, show p.conn = none from hconn]
      rfl
    simp [Peer.hear, hnone, readBytes, h.unlinked hconn]
  · obtain ⟨hlt, hserved⟩ := h.linked c hc
    have hup' : p.up w k = (w.fdOf c).bind fun fd => w.reads k fd := by
      rw [up, show p.conn = some c from hc]
      rfl
    refine ⟨hlt.trans_le (World.conn_next (c := c) hw hn).1, ?_⟩
    rw [show (p.hear w k).heard = p.heard ++ readBytes (p.up w k) from rfl, hup']
    exact hserved.next hw hm hn hlt

theorem Linked.accepted (h : Linked w p frames) (hw : w.Consistent)
    (hn : World.next w k = some w') (hnum : w.Numbered) (hconn : p.conn = none)
    (hat : ∃ fd, w.server.At fd .accept) :
    Linked w' { p.hear w k with conn := some w.registry.count } frames := by
  have hnone : p.up w k = none := by
    rw [up, hconn]
    rfl
  have hheard : (p.hear w k).heard = [] := by
    simp [Peer.hear, hnone, readBytes, h.unlinked hconn]
  refine ⟨h.idLength, h.commands, h.said, ?_, by simp, fun c hc => ?_⟩
  · exact hheard ▸ List.nil_prefix
  · obtain rfl := Option.some.inj hc
    refine ⟨by rw [(World.conn_of_accept hw hn hat).1]; exact Nat.lt_succ_self _, ?_⟩
    rw [show ({ p.hear w k with conn := some w.registry.count } : Peer).heard = [] from hheard]
    exact World.served_of_accept hw hn hnum hat

theorem Linked.step {R : RealText} {k : ClientKernel} (h : Linked w p frames) :
    ∃ new, Linked w (p.step R k) (frames ++ new) ∧ ((p.step R k).ending = none →
      (∀ s ∈ p.terminal.client.typing k, s = [] ∨ Unambiguous (tokens blanks s)) →
        new = commandFrames (p.terminal.client.typing k).toList) ∧
      ((p.step R k).ending ≠ none → p.ending = none → new = []) := by
  rcases hs : p.terminal.client.step R k with e | ⟨c', evs⟩
  · rw [step_of_error hs]
    refine ⟨[], ?_, fun hend => by simp at hend, fun _ _ => rfl⟩
    rw [List.append_nil]
    exact ⟨h.idLength, h.commands, h.said, h.heard, h.unlinked, h.linked⟩
  · obtain ⟨new, hcommands, hsent, hnew⟩ := (turn_of_step hs).sent
    have hsaid : sentBytes (p.terminal.shown ++ evs) =
        (authPacket p.id :: (frames ++ new)).flatMap framing.enc := by
      rw [sentBytes_append, hsent, show sentBytes p.terminal.shown = _ from h.said,
        ← List.cons_append, List.flatMap_append]
    rw [step_of_ok hs]
    refine ⟨new, ⟨h.idLength, ?_, hsaid, ?_, h.unlinked, h.linked⟩, fun _ => hnew,
      fun hend hno => absurd hno hend⟩
    · exact fun f hf => (List.mem_append.1 hf).elim (h.commands f) (hcommands f)
    · exact h.heard.trans ⟨sentBytes evs, (sentBytes_append _ _).symm⟩

end Linked

end Peer

namespace Net

/-- The string that the stdin branch of the subscriber `i` gets. -/
def typing (n : Net) (i : ℕ) : Move → Option Bytes
  | .peer j k => if i = j then n.peers[i]?.bind fun p => p.terminal.client.typing k else none
  | _ => none

def typed (i : ℕ) (tr : List (Net × Move)) : List Bytes :=
  tr.filterMap fun q => q.1.typing i q.2

/-- What the subscriber `i` has sent are commands, and these are the ones that were typed. -/
structure Commanded (tr : List (Net × Move)) (n : Net) (i : ℕ) (p : Peer) (frames : List Bytes) :
    Prop where
  linked : p.Linked n.world frames
  typed : (∀ s ∈ typed i tr, s = [] ∨ Unambiguous (tokens blanks s)) →
    frames <+: commandFrames (typed i tr) ∧
      (p.ending = none → frames = commandFrames (typed i tr))

/-- What holds in every run. -/
structure Uplinks (udp tcp : ℤ) (buffer : Bytes) (tr : List (Net × Move)) (n : Net) : Prop where
  world : ∃ tr, World.Run udp tcp buffer tr n.world
  numbered : n.world.Numbered
  peers : ∀ i p, n.peers[i]? = some p → ∃ frames, Commanded tr n i p frames
  unstarted : ∀ i ≥ n.peers.length, typed i tr = []

section Step

variable {R : RealText} {udp tcp : ℤ} {buffer : Bytes} {tr : List (Net × Move)} {n n' : Net}
  {m : Move}

theorem commandFrames_append (lines lines' : List Bytes) :
    commandFrames (lines ++ lines') = commandFrames lines ++ commandFrames lines' :=
  List.filterMap_append

theorem typed_concat (i : ℕ) (tr : List (Net × Move)) (q : Net × Move) :
    typed i (tr ++ [q]) = typed i tr ++ (q.1.typing i q.2).toList := by
  rw [typed, List.filterMap_append, typed]
  rcases h : q.1.typing i q.2 <;> simp [h]

theorem typed_concat_of_none {i : ℕ} {q : Net × Move} (h : q.1.typing i q.2 = none) :
    typed i (tr ++ [q]) = typed i tr := by
  rw [typed_concat, h, Option.toList_none, List.append_nil]

theorem Commanded.mono {i : ℕ} {p p' : Peer} {frames : List Bytes} {q : Net × Move}
    (h : Commanded tr n i p frames) (htyping : q.1.typing i q.2 = none)
    (hend : p'.ending = p.ending) (hlinked : p'.Linked n'.world frames) :
    Commanded (tr ++ [q]) n' i p' frames := by
  refine ⟨hlinked, ?_⟩
  rw [typed_concat_of_none htyping, hend]
  exact h.typed

/-- A step that the subscriber takes. -/
theorem Commanded.step {i : ℕ} {p : Peer} {frames : List Bytes} {k : ClientKernel}
    (h : Commanded tr n i p frames) (hi : n.peers[i]? = some p) (hend : p.ending = none)
    (hworld : n'.world = n.world) :
    ∃ frames', Commanded (tr ++ [(n, .peer i k)]) n' i (p.step R k) frames' := by
  obtain ⟨new, hlinked, hnew, hended⟩ := h.linked.step (R := R) (k := k)
  refine ⟨frames ++ new, hworld ▸ hlinked, ?_⟩
  have htyping : n.typing i (.peer i k) = p.terminal.client.typing k := by
    rw [typing, if_pos rfl, hi, Option.bind_some]
  rw [typed_concat, htyping, commandFrames_append, List.forall_mem_append]
  intro hlines
  rw [(h.typed hlines.1).2 hend]
  by_cases hgoes : (p.step R k).ending = none
  · rw [hnew hgoes fun s hs => hlines.2 s (Option.mem_toList.2 hs)]
    exact ⟨List.prefix_rfl, fun _ => rfl⟩
  · rw [hended hgoes hend, List.append_nil]
    exact ⟨List.prefix_append _ _, fun hno => absurd hno hgoes⟩

theorem linked_of_start {id : Bytes} {sockfd : ℤ} {u : Uninit} {vars : Locals} {client : Client}
    {shown : List Shown} (h : Client.start id sockfd u vars = .ok (client, shown)) (w : World) :
    Peer.Linked w ⟨id, ⟨client, shown⟩, none, none, [], []⟩ [] := by
  have hcoupled := coupled_of_start h w
  refine ⟨hcoupled.idLength, by simp, ?_, List.nil_prefix, fun _ => rfl, by simp⟩
  obtain ⟨⟨hid, -⟩, hr⟩ := Client.start_eq_iff.1 h
  obtain ⟨rfl, rfl⟩ := Prod.mk.inj hr
  have hwire : wire (authPacket id) = framing.enc (authPacket id) :=
    World.wire_eq_enc (by rw [Peer.length_authPacket hid]; omega)
  simp [Peer.said, Terminal.connected, hwire]

theorem length_accept (n : Net) (k : Kernel) (i : Option ℕ) :
    (n.accept k i).length = n.peers.length := by
  unfold accept
  rcases i with _ | j <;> simp

theorem getElem?_accept {k : Kernel} {j : Option ℕ} {i : ℕ} {p' : Peer}
    (h : (n.accept k j)[i]? = some p') : ∃ p, n.peers[i]? = some p ∧
      (p' = p.hear n.world k ∨
        j = some i ∧ p' = { p.hear n.world k with conn := some n.world.registry.count }) := by
  unfold accept at h
  rcases j with _ | j <;> dsimp only at h
  · rw [List.getElem?_map, Option.map_eq_some_iff] at h
    obtain ⟨p, hp, rfl⟩ := h
    exact ⟨p, hp, .inl rfl⟩
  · rw [List.getElem?_modify, List.getElem?_map, Option.map_eq_map, Option.map_map,
      Option.map_eq_some_iff] at h
    obtain ⟨p, hp, rfl⟩ := h
    refine ⟨p, hp, ?_⟩
    by_cases hj : j = i
    · subst hj
      exact .inr ⟨rfl, by simp⟩
    · exact .inl (by simp [hj])

theorem uplinks_start : Uplinks udp tcp buffer [] (start udp tcp buffer) where
  world := ⟨[], .start⟩
  numbered c _ := ⟨rfl, rfl⟩
  peers i p hi := by simp [start] at hi
  unstarted i _ := rfl

theorem Uplinks.next (h : Uplinks udp tcp buffer tr n) (hn : Net.next R n m = some n') :
    Uplinks udp tcp buffer (tr ++ [(n, m)]) n' := by
  obtain ⟨wtr, hrun⟩ := h.world
  have hw := World.Run.consistent hrun
  have hm := World.Run.sound hrun
  cases turn_of_next hn with
  | @start id sockfd u vars client shown hs =>
    refine ⟨h.world, h.numbered, fun i p hi => ?_, fun i hi => ?_⟩
    · rcases lt_or_ge i n.peers.length with hlt | hge
      · rw [List.getElem?_append_left hlt] at hi
        obtain ⟨frames, hp⟩ := h.peers i p hi
        exact ⟨frames, hp.mono rfl rfl hp.linked⟩
      · rw [List.getElem?_append_right hge, List.getElem?_singleton] at hi
        split_ifs at hi
        obtain rfl := Option.some.inj hi
        refine ⟨[], linked_of_start hs n.world, fun _ => ?_⟩
        rw [typed_concat_of_none (show n.typing i _ = none from rfl), h.unstarted i hge]
        exact ⟨List.prefix_rfl, fun _ => rfl⟩
    · rw [List.length_append] at hi
      rw [typed_concat_of_none (show n.typing i _ = none from rfl)]
      exact h.unstarted i (Nat.le_of_add_right_le hi)
  | @server k j w hup haccepts hnext =>
    refine ⟨⟨_, hrun.step hnext⟩, h.numbered.next hw hnext, fun i p' hi => ?_, fun i hi => ?_⟩
    · obtain ⟨p, hp, hcases⟩ := getElem?_accept hi
      obtain ⟨frames, hc⟩ := h.peers i p hp
      rcases hcases with rfl | ⟨rfl, rfl⟩
      · exact ⟨frames, hc.mono rfl rfl
          (hc.linked.hear hw hm hnext (hup p (List.mem_of_getElem? hp)))⟩
      · obtain ⟨hat, q, hq, hconn⟩ := haccepts i rfl
        rw [Option.mem_def, hp, Option.some.injEq] at hq
        subst hq
        exact ⟨frames, hc.mono rfl rfl (hc.linked.accepted hw hnext h.numbered hconn hat)⟩
    · rw [typed_concat_of_none (show n.typing i _ = none from rfl)]
      rw [show (⟨w, n.accept k j⟩ : Net).peers = n.accept k j from rfl, length_accept] at hi
      exact h.unstarted i hi
  | @peer j k p hj hend hdown =>
    refine ⟨h.world, h.numbered, fun i q hi => ?_, fun i hi => ?_⟩
    · obtain ⟨frames, hc⟩ := h.peers j p hj
      by_cases hij : i = j
      · subst hij
        rw [List.getElem?_set_self (List.getElem?_eq_some_iff.1 hj).1] at hi
        obtain rfl := Option.some.inj hi
        exact hc.step hj hend rfl
      · rw [List.getElem?_set_ne (Ne.symm hij)] at hi
        obtain ⟨frames, hq⟩ := h.peers i q hi
        exact ⟨frames, hq.mono (if_neg hij) rfl hq.linked⟩
    · rw [List.length_set] at hi
      have hij : i ≠ j := fun heq => absurd (List.getElem?_eq_some_iff.1 hj).1 (by omega)
      rw [typed_concat_of_none (show n.typing i (.peer j k) = none from if_neg hij)]
      exact h.unstarted i hi

end Step

section Runs

variable {R : RealText} {udp tcp : ℤ} {buffer : Bytes} {tr : List (Net × Move)} {n : Net}

theorem Run.uplinks (h : Run R udp tcp buffer tr n) : Uplinks udp tcp buffer tr n := by
  induction h with
  | start => exact uplinks_start
  | step _ hn ih => exact ih.next hn

end Runs

/-- `A` logs in and subscribes, and the server handles that. -/
def commandInputs : List Move :=
  authInputs (wire (authPacket [65])) ++
    [.peer 0 .quiet, .peer 0 { ClientKernel.quiet with pass := ⟨{0}, fun _ => none, 0⟩ },
      .peer 0 .quiet,
      .peer 0 { ClientKernel.quiet with line := some (subscribeText ++ [32, 97, 32, 49, 10]) },
      .server .quiet none, .server (.ready {5} [(5, wire (typeSubSf :: [97]))]) none,
      .server .quiet none, .server .quiet none, .server .quiet none]

end Net

end NewsServer
