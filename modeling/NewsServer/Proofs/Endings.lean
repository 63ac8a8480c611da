import NewsServer.Proofs.ClientDrain
import NewsServer.Proofs.NewsLines

/-!
# What ends a subscriber

Where `::select` and `::send` on the open connection succeed, the next step of every run ends the
subscriber exactly for one of a few reasons (`ends_iff`): what the first event after its `AUTH` is,
the line it reads, and the packet it reads, or the lack of one. None of them is a `DIE` of `send` or
`recv` of a buffered socket.
-/

namespace NewsServer

open Memory
open Server (stdinFileno exitText)

/-- The packet that `recv` gives for the descriptor, which is empty where there is none. -/
def MultiSocket.packetOn (m : MultiSocket) (fd : ℤ) : Bytes :=
  (m.tcpSockets[fd]?.bind fun sock => sock.packets.head?).getD []

namespace Client

/-- How `main` ends after its first `select`, `fd` being what `get_next_fd` has given. -/
inductive ReplyEnds (c : Client) (fd : ℤ) : Ending → Prop
  | noSocket (hgone : fd ∉ c.multi.tcpSockets) : ReplyEnds c fd (.die .multiRecv)
  | overrun (hlong : buflen < (c.multi.packetOn fd).length) : ReplyEnds c fd .undefined
  | duplicate (hfits : (c.multi.packetOn fd).length ≤ buflen)
      (htype : (c.multi.packetOn fd).head? = some typeAuthDuplicate) : ReplyEnds c fd .duplicate
  | failed (hmem : fd ∈ c.multi.tcpSockets) (hfits : (c.multi.packetOn fd).length ≤ buflen)
      (hdup : (c.multi.packetOn fd).head? ≠ some typeAuthDuplicate)
      (hauth : (c.multi.packetOn fd).head? ≠ some typeAuth) : ReplyEnds c fd .authFailed

/-- A line is taken for a command by how its first word starts and how many words follow. -/
def TakenForCommand (word : Bytes) (args : List Bytes) : Prop :=
  word.take 9 = subscribeText ∧ 2 ≤ args.length ∨
    word.take 11 = unsubscribeText ∧ 1 ≤ args.length

/-- How `main` ends at a line. The string in `buffer` may be empty, or have no token. -/
inductive LineEnds (c : Client) (line : Option Bytes) : Ending → Prop
  | noString (hs : Console.command c.buffer line = none) : LineEnds c line .undefined
  | exit {s : Bytes} (hs : Console.command c.buffer line = some s) (hexit : exitText <+: s) :
      LineEnds c line .exit
  | noToken {s : Bytes} (hs : Console.command c.buffer line = some s) (hne : s ≠ [])
      (hblank : ∀ b ∈ s, b ∈ blanks) : LineEnds c line .undefined
  | unsent {s word : Bytes} {args : List Bytes} (hs : Console.command c.buffer line = some s)
      (hexit : ¬ exitText <+: s) (htoks : tokens blanks s = word :: args)
      (htaken : TakenForCommand word args) (hgone : c.sockfdTcp ∉ c.multi.tcpSockets) :
      LineEnds c line (.die .send)

/-- How `main` ends at an event on `fd`: the connection is closed, or the packet does not fit in
`buffer`, or it is too short for a `STRING`, whose type it takes from what is there. -/
inductive NewsEnds (c : Client) (beyond : Bytes) (fd : ℤ) : Ending → Prop
  | closed (hclosed : c.multi.hasClosed = true) : NewsEnds c beyond fd .closed
  | overrun (hopen : c.multi.hasClosed = false)
      (hlong : buflen < (c.multi.packetOn fd).length) : NewsEnds c beyond fd .undefined
  | short (hopen : c.multi.hasClosed = false) (hshort : (c.multi.packetOn fd).length < 57)
      (hstring : ((overwrite c.buffer 0 (c.multi.packetOn fd) ++ beyond).drop 56).headD 0 =
        dataTypeString) : NewsEnds c beyond fd .lengthError

/-- A reason for which a step ends the subscriber. -/
def Ends (c : Client) (k : ClientKernel) (e : Ending) : Prop :=
  match c.pc with
  | .reply => c.multi.sockQueue ≠ [] ∧ c.ReplyEnds c.multi.getNextFd.1 e
  | .body fd => if fd = stdinFileno then c.LineEnds k.line e else c.NewsEnds k.beyond fd e
  | _ => False

end Client

section Packet

variable {m : MultiSocket}

theorem packetOn_of_notMem {fd : ℤ} (h : fd ∉ m.tcpSockets) : m.packetOn fd = [] := by
  simp [MultiSocket.packetOn, getElem?_neg m.tcpSockets fd h]

theorem getTcpPacketType_overwrite (buffer p : Bytes) :
    getTcpPacketType (overwrite buffer 0 p) p.length = p.head?.getD typeInvalid := by
  rcases p with _ | ⟨b, p⟩
  · rfl
  · rw [getTcpPacketType, if_neg (by simp)]
    rfl

theorem recv_packetOn (hm : m.Sound) (hmem : m.currSockfd ∈ m.tcpSockets) :
    ∃ out m', m.recv =
      ((m.packetOn m.currSockfd).length, out, m.packetOn m.currSockfd, m') := by
  obtain ⟨sock, hs⟩ := Option.isSome_iff_exists.1 (Std.TreeMap.mem_iff_isSome_getElem?.1 hmem)
  rcases hp : sock.packets with _ | ⟨p, rest⟩
  · have hready := BufferedTcpSocket.packetReady_eq_false.2 hp
    rw [MultiSocket.recv_of_not_ready hs hready]
    simp only [MultiSocket.packetOn, hs, Option.bind_some, hp, List.head?_nil, Option.getD_none,
      List.length_nil]
    exact ⟨_, _, rfl⟩
  · obtain ⟨sock', hrecv, -, -⟩ := hm.recv_eq hs hp
    rw [hrecv]
    simp only [MultiSocket.packetOn, hs, Option.bind_some, hp, List.head?_cons, Option.getD_some]
    exact ⟨_, _, rfl⟩

end Packet

section Step

variable {R : RealText} {c : Client} {k : ClientKernel} {e : Ending}

theorem authenticate_error_iff (hm : c.multi.Sound) :
    c.authenticate = .error e ↔ c.ReplyEnds c.multi.getNextFd.1 e := by
  have hon : ∀ fd, c.multi.getNextFd.2.packetOn fd = c.multi.packetOn fd := fun fd => by
    rw [MultiSocket.packetOn, MultiSocket.packetOn, MultiSocket.getNextFd_tcpSockets]
  by_cases hmem : c.multi.getNextFd.1 ∈ c.multi.tcpSockets
  · have hmem' : c.multi.getNextFd.2.currSockfd ∈ c.multi.getNextFd.2.tcpSockets := by
      rwa [MultiSocket.getNextFd_tcpSockets, currSockfd_getNextFd]
    obtain ⟨out, m', hrecv⟩ := recv_packetOn hm.getNextFd hmem'
    rw [hon, currSockfd_getNextFd] at hrecv
    have hends : c.ReplyEnds c.multi.getNextFd.1 e ↔
        buflen < (c.multi.packetOn c.multi.getNextFd.1).length ∧ e = .undefined ∨
          (c.multi.packetOn c.multi.getNextFd.1).length ≤ buflen ∧
            ((c.multi.packetOn c.multi.getNextFd.1).head? = some typeAuthDuplicate ∧
                e = .duplicate ∨
              (c.multi.packetOn c.multi.getNextFd.1).head? ≠ some typeAuthDuplicate ∧
                (c.multi.packetOn c.multi.getNextFd.1).head? ≠ some typeAuth ∧
                  e = .authFailed) := by
      constructor
      · intro h
        cases h with
        | noSocket hgone => exact absurd hmem hgone
        | overrun hlong => exact .inl ⟨hlong, rfl⟩
        | duplicate hfits htype => exact .inr ⟨hfits, .inl ⟨htype, rfl⟩⟩
        | failed _ hfits hdup hauth => exact .inr ⟨hfits, .inr ⟨hdup, hauth, rfl⟩⟩
      · rintro (⟨hlong, rfl⟩ | ⟨hfits, ⟨htype, rfl⟩ | ⟨hdup, hauth, rfl⟩⟩)
        · exact .overrun hlong
        · exact .duplicate hfits htype
        · exact .failed hmem hfits hdup hauth
    rw [hends]
    unfold Client.authenticate
    rw [hrecv]
    dsimp only
    generalize c.multi.packetOn c.multi.getNextFd.1 = p
    rcases lt_or_ge buflen p.length with hlong | hfits
    · rw [if_pos hlong]
      simp [hlong, not_le.2 hlong, eq_comm]
    have hsize : toInt p.length = p.length := toInt_of_lt (by
      rw [buflen] at hfits
      omega)
    rw [if_neg (not_lt.2 hfits), hsize, if_neg (by omega), Int.toNat_natCast,
      getTcpPacketType_overwrite]
    have hhead : ∀ t ≠ typeInvalid, p.head? = some t ↔ p.head?.getD typeInvalid = t := by
      intro t ht
      rcases p with _ | ⟨b, p⟩
      · simpa using ht.symm
      · simp
    have hno : ¬ buflen < p.length := not_lt.2 hfits
    by_cases hdup : p.head?.getD typeInvalid = typeAuthDuplicate
    · have hp := (hhead typeAuthDuplicate (by decide)).2 hdup
      rw [if_pos hdup]
      simp [hp, hno, hfits, eq_comm]
    have hp := mt (hhead typeAuthDuplicate (by decide)).1 hdup
    rw [if_neg hdup]
    by_cases hauth : p.head?.getD typeInvalid = typeAuth
    · have hp' := (hhead typeAuth (by decide)).2 hauth
      rw [if_neg (not_not.2 hauth)]
      simp [hp', hno, typeAuth, typeAuthDuplicate]
    · have hp' := mt (hhead typeAuth (by decide)).1 hauth
      rw [if_pos hauth]
      simp [hp, hp', hno, hfits, eq_comm]
  · have hends : c.ReplyEnds c.multi.getNextFd.1 e ↔ e = .die .multiRecv := by
      constructor
      · intro h
        cases h with
        | noSocket => rfl
        | overrun hlong => simp [packetOn_of_notMem hmem] at hlong
        | duplicate _ htype => simp [packetOn_of_notMem hmem] at htype
        | failed hmem' => exact absurd hmem' hmem
      · rintro rfl
        exact .noSocket hmem
    have hs : c.multi.getNextFd.2.tcpSockets[c.multi.getNextFd.2.currSockfd]? = none := by
      rw [MultiSocket.getNextFd_tcpSockets, currSockfd_getNextFd]
      exact getElem?_neg _ _ hmem
    rw [hends]
    unfold Client.authenticate
    rw [MultiSocket.recv_of_none hs]
    dsimp only
    rw [if_neg (by simp), if_pos (by decide), Except.error.injEq, eq_comm]

theorem tokens_eq_nil_iff (s : Bytes) : tokens blanks s = [] ↔ ∀ b ∈ s, b ∈ blanks := by
  have hdrop : s.dropWhile (· ∈ blanks) = [] ↔ ∀ b ∈ s, b ∈ blanks := by
    rw [List.dropWhile_eq_nil_iff]
    simp
  rw [← hdrop, tokens_eq, strtok]
  rcases s.dropWhile (· ∈ blanks) with _ | ⟨b, s'⟩ <;> simp

theorem exists_parseTokens {word : Bytes} (hnul : 0 ∉ word) (type : UInt8) (topic : Bytes)
    (args : List Bytes) : ∃ status t field,
      parseTokens type topic (word :: args) = some (status, t, field) ∧
        (status = 0 ↔ Client.TakenForCommand word args) := by
  have hunknown : (∃ t field, parseTokens type topic (word :: args) =
      some (unknownCommand, t, field)) ↔ _ := parseTokens_unknown_iff hnul type topic
  obtain ⟨status, t, field, hp, hstatus⟩ : ∃ status t field,
      parseTokens type topic (word :: args) = some (status, t, field) ∧
        (status = 0 ∨ status = unknownCommand) := by
    unfold parseTokens
    dsimp only
    rcases commandType word with _ | t
    · exact ⟨_, _, _, rfl, .inr rfl⟩
    rcases args with _ | ⟨p, args⟩
    · exact ⟨_, _, _, rfl, .inr rfl⟩
    dsimp only
    split_ifs
    · exact ⟨_, _, _, rfl, .inl rfl⟩
    · rcases args with _ | ⟨p', args⟩
      · exact ⟨_, _, _, rfl, .inr rfl⟩
      · exact ⟨_, _, _, rfl, .inl rfl⟩
  refine ⟨status, t, field, hp, ?_⟩
  rw [hp, ← not_or] at hunknown
  rcases hstatus with rfl | rfl
  · refine iff_of_true rfl (not_not.1 fun hno => ?_)
    obtain ⟨t', field', heq⟩ := hunknown.2 hno
    simp [unknownCommand] at heq
  · exact iff_of_false (by decide) (hunknown.1 ⟨t, field, rfl⟩)

theorem send_generate (m : MultiSocket) (fd : ℤ) (type : UInt8) (topic buffer : Bytes) :
    ∃ n evs, m.send fd ((generateTcpSubPacket type topic buffer).1.take
      (generateTcpSubPacket type topic buffer).2) = .ok (n, evs) ∧
        (n < 0 ↔ fd ∉ m.tcpSockets) := by
  by_cases hmem : fd ∈ m.tcpSockets
  · have hle : (generateTcpSubPacket type topic buffer).2 ≤ 1 + topicLen :=
      Nat.add_le_add_left (Nat.min_le_left _ _) 1
    rw [send_of_mem hmem (by
      rw [List.length_take, tcpBufferSize]
      rw [topicLen] at hle
      omega)]
    exact ⟨_, _, rfl, iff_of_false (by omega) (not_not.2 hmem)⟩
  · rw [send_of_notMem hmem]
    exact ⟨_, _, rfl, iff_of_true (by decide) hmem⟩

theorem handleStdin_error_iff {line : Option Bytes} :
    c.handleStdin line = .error e ↔ c.LineEnds line e := by
  rcases hs : Console.command c.buffer line with _ | s
  · rw [handleStdin_of_none hs, Except.error.injEq]
    constructor
    · rintro rfl
      exact .noString hs
    · intro h
      cases h with
      | noString => rfl
      | exit hs' => simp [hs] at hs'
      | noToken hs' => simp [hs] at hs'
      | unsent hs' => simp [hs] at hs'
  obtain ⟨buffer, heq⟩ := handleStdin_of_command hs
  have hends : c.LineEnds line e ↔ exitText <+: s ∧ e = .exit ∨
      (s ≠ [] ∧ tokens blanks s = []) ∧ e = .undefined ∨
      ∃ word args, (¬ exitText <+: s ∧ tokens blanks s = word :: args ∧
        Client.TakenForCommand word args ∧ c.sockfdTcp ∉ c.multi.tcpSockets) ∧
          e = .die .send := by
    constructor
    · intro h
      cases h with
      | noString hs' => simp [hs] at hs'
      | exit hs' hexit =>
        obtain rfl := Option.some.inj (hs.symm.trans hs')
        exact .inl ⟨hexit, rfl⟩
      | noToken hs' hne hblank =>
        obtain rfl := Option.some.inj (hs.symm.trans hs')
        exact .inr (.inl ⟨⟨hne, (tokens_eq_nil_iff s).2 hblank⟩, rfl⟩)
      | unsent hs' hexit htoks htaken hgone =>
        obtain rfl := Option.some.inj (hs.symm.trans hs')
        exact .inr (.inr ⟨_, _, ⟨hexit, htoks, htaken, hgone⟩, rfl⟩)
    · rintro (⟨hexit, rfl⟩ | ⟨⟨hne, htoks⟩, rfl⟩ | ⟨word, args, ⟨hexit, htoks, htaken, hgone⟩, rfl⟩)
      · exact .exit hs hexit
      · exact .noToken hs hne ((tokens_eq_nil_iff s).1 htoks)
      · exact .unsent hs hexit htoks htaken hgone
  rw [hends, heq]
  by_cases hnil : s = []
  · subst hnil
    simp [exitText, tokens_nil]
  rw [if_neg hnil]
  by_cases hexit : exitText <+: s
  · -- it has a token
    have htoks : tokens blanks s ≠ [] := fun htoks =>
      absurd ((tokens_eq_nil_iff s).1 htoks 101 (hexit.subset (by decide))) (by decide)
    rw [if_pos hexit]
    simp [hexit, htoks, eq_comm]
  rw [if_neg hexit]
  rcases htoks : tokens blanks s with _ | ⟨word, args⟩
  · simp [parseTokens, hexit, hnil, eq_comm]
  have hword : 0 ∉ word := fun h0 =>
    notMem_of_command hs ((mem_tokens (htoks ▸ List.mem_cons_self)).2 0 h0).1
  obtain ⟨status, t, field, hp, hstatus⟩ := exists_parseTokens hword c.type c.topic args
  obtain ⟨n, evs, hsend, hn⟩ := send_generate c.multi c.sockfdTcp t field buffer
  rw [hp]
  dsimp only
  by_cases htaken : Client.TakenForCommand word args
  · rw [if_neg (not_not.2 (hstatus.2 htaken)), hsend]
    dsimp only
    by_cases hgone : c.sockfdTcp ∈ c.multi.tcpSockets
    · rw [if_neg (mt hn.1 (not_not.2 hgone))]
      simp [hexit, hgone]
    · rw [if_pos (hn.2 hgone)]
      simp [hexit, hgone, htaken, eq_comm]
  · rw [if_pos (mt hstatus.1 htaken)]
    simp [hexit, htaken]

/-- A `STRING` is not built where `size` has wrapped. -/
theorem parseSubscriberNews_eq_none_iff (R : RealText) (mem : Bytes) (size : UInt64)
    (news : SubscriberNews) : (parseSubscriberNews R mem size news).1 = none ↔
      (mem.drop 56).headD 0 = dataTypeString ∧
        2 ^ 63 ≤ size - 4 - 2 - UInt64.ofNat topicLen - 1 := by
  unfold parseSubscriberNews parseHeader
  dsimp only
  have h56 : 4 + 2 + topicLen = 56 := rfl
  rw [h56]
  split_ifs with hint hshort hfloat hstring hbig
  · exact iff_of_false (by simp) fun h => absurd (hint.symm.trans h.1) (by decide)
  · exact iff_of_false (by simp) fun h => absurd (hshort.symm.trans h.1) (by decide)
  · exact iff_of_false (by simp) fun h => absurd (hfloat.symm.trans h.1) (by decide)
  · exact iff_of_true rfl ⟨hstring, hbig⟩
  · exact iff_of_false (by simp) fun h => hbig h.2
  · exact iff_of_false (by simp) fun h => hstring h.1

theorem size_wraps_iff {n : ℕ} (hn : n ≤ buflen) :
    2 ^ 63 ≤ UInt64.ofNat n - 4 - 2 - UInt64.ofNat topicLen - 1 ↔ n < 57 := by
  rcases lt_or_ge n 57 with hshort | hge
  · have hall : ∀ n < 57, 2 ^ 63 ≤ UInt64.ofNat n - 4 - 2 - UInt64.ofNat topicLen - 1 := by
      decide +kernel
    exact iff_of_true (hall n hshort) hshort
  · obtain ⟨m, rfl⟩ := Nat.exists_eq_add_of_le' hge
    have h57 : UInt64.ofNat (m + 57) - 4 - 2 - UInt64.ofNat topicLen - 1 = UInt64.ofNat m := by
      rw [UInt64.ofNat_add, topicLen]
      grind
    have h63 : (2 ^ 63 : UInt64).toNat = 2 ^ 63 := by decide +kernel
    refine iff_of_false (fun h => ?_) hge.not_gt
    rw [h57, UInt64.le_iff_toNat_le, h63,
      UInt64.toNat_ofNat_of_lt' (by rw [UInt64.size]; rw [buflen] at hn; omega)] at h
    rw [buflen] at hn
    omega

theorem handleNews_error_iff (hm : c.multi.Sound) (beyond : Bytes)
    (hopen : c.multi.hasClosed = false) :
    c.handleNews R beyond = .error e ↔ c.NewsEnds beyond c.multi.currSockfd e := by
  have hends : c.NewsEnds beyond c.multi.currSockfd e ↔
      buflen < (c.multi.packetOn c.multi.currSockfd).length ∧ e = .undefined ∨
        (c.multi.packetOn c.multi.currSockfd).length < 57 ∧
          ((overwrite c.buffer 0 (c.multi.packetOn c.multi.currSockfd) ++ beyond).drop 56).headD 0 =
            dataTypeString ∧ e = .lengthError := by
    constructor
    · intro h
      cases h with
      | closed hclosed => simp [hopen] at hclosed
      | overrun _ hlong => exact .inl ⟨hlong, rfl⟩
      | short _ hshort hstring => exact .inr ⟨hshort, hstring, rfl⟩
    · rintro (⟨hlong, rfl⟩ | ⟨hshort, hstring, rfl⟩)
      · exact .overrun hopen hlong
      · exact .short hopen hshort hstring
  -- `recv` gives a packet, or nothing with a length that is 0 or -1
  obtain ⟨size, out, m', hrecv, hsize⟩ : ∃ size out m', c.multi.recv =
      (size, out, c.multi.packetOn c.multi.currSockfd, m') ∧
        (size = (c.multi.packetOn c.multi.currSockfd).length ∨
          size = 2 ^ 64 - 1 ∧ c.multi.packetOn c.multi.currSockfd = []) := by
    by_cases hmem : c.multi.currSockfd ∈ c.multi.tcpSockets
    · obtain ⟨out, m', hrecv⟩ := recv_packetOn hm hmem
      exact ⟨_, out, m', hrecv, .inl rfl⟩
    · have hnil := packetOn_of_notMem hmem
      refine ⟨2 ^ 64 - 1, .unbufferedSocket, c.multi, ?_, .inr ⟨rfl, hnil⟩⟩
      rw [hnil]
      exact MultiSocket.recv_of_none (getElem?_neg _ _ hmem)
  rw [hends]
  unfold Client.handleNews
  rw [hrecv]
  dsimp only
  generalize c.multi.packetOn c.multi.currSockfd = p at hsize
  rcases lt_or_ge buflen p.length with hlong | hfits
  · have hnot : ¬ p.length < 57 := by
      rw [buflen] at hlong
      omega
    rw [if_pos hlong]
    simp [hlong, hnot, eq_comm]
  have hwraps : 2 ^ 63 ≤ UInt64.ofInt (toInt size) - 4 - 2 - UInt64.ofNat topicLen - 1 ↔
      p.length < 57 := by
    rcases hsize with rfl | ⟨rfl, rfl⟩
    · rw [ofInt_toInt_of_lt (by rw [buflen] at hfits; omega), size_wraps_iff hfits]
    · decide +kernel
  have hnone := parseSubscriberNews_eq_none_iff R (overwrite c.buffer 0 p ++ beyond)
    (UInt64.ofInt (toInt size)) c.news
  rw [hwraps] at hnone
  rw [if_neg (not_lt.2 hfits)]
  rcases hparse : (parseSubscriberNews R (overwrite c.buffer 0 p ++ beyond)
    (UInt64.ofInt (toInt size)) c.news).1 with _ | news
  · obtain ⟨hstring, hshort⟩ := hnone.1 hparse
    simp only [not_lt.2 hfits, hshort, hstring, false_and, true_and, false_or,
      Except.error.injEq, eq_comm]
  · have hno := mt hnone.2 (by rw [hparse]; simp)
    refine iff_of_false (by simp) ?_
    rintro (⟨hlong, -⟩ | ⟨hshort, hstring, -⟩)
    · exact absurd hlong (not_lt.2 hfits)
    · exact hno ⟨hstring, hshort⟩

theorem Client.step_error_iff (hm : c.multi.Sound)
    (hcurr : ∀ fd, c.pc = .body fd → c.multi.currSockfd = fd) :
    c.step R k = .error e ↔ c.Ends k e := by
  unfold Client.step Client.Ends
  rcases hpc : c.pc with _ | _ | _ | fd <;> dsimp only
  · split_ifs with hq
    · simp [hq]
    · rw [← authenticate_error_iff hm]
      rcases c.authenticate with e' | c' <;> simp [hq]
  · split_ifs <;> simp
  · simp
  · unfold Client.loopBody
    by_cases hfd : fd = stdinFileno
    · rw [if_pos hfd, if_pos hfd]
      exact handleStdin_error_iff
    rw [if_neg hfd, if_neg hfd]
    rcases hclosed : c.multi.hasClosed with _ | _
    · rw [if_neg (by simp), ← hcurr fd hpc]
      exact handleNews_error_iff hm k.beyond hclosed
    · rw [if_pos rfl, Except.error.injEq]
      refine ⟨fun h => h ▸ .closed hclosed, fun h => ?_⟩
      cases h with
      | closed => rfl
      | overrun hopen => simp [hclosed] at hopen
      | short hopen => simp [hclosed] at hopen

end Step

namespace Terminal

/-- In every run of a subscriber, where `::select` and `::send` on the open connection succeed and
whatever else the system answers, the next step ends the subscriber exactly for one of the reasons
of `Client.Ends`. -/
theorem ends_iff {R : RealText} {t₀ t : Terminal} {tr : List (Terminal × ClientKernel)}
    (h0 : t₀.Started) (h : Run R t₀ tr t) (k : ClientKernel) (e : Ending) :
    t.step R k = .error e ↔ t.client.Ends k e := by
  rw [← Client.step_error_iff (Run.sound h0 h) (Run.handed h0 h).curr]
  unfold step
  rcases t.client.step R k with e' | ⟨c, evs⟩ <;> simp

/-- A `STRING` comes in, and then a packet of one byte. -/
def shortInputs : List ClientKernel :=
  [.chunk 5 (framing.enc [typeAuth]), .quiet, .quiet,
    .chunk 5 (framing.enc (List.replicate 56 1 ++ [dataTypeString, 97]) ++ framing.enc [1]),
    .quiet, .quiet, .quiet]

set_option maxRecDepth 10000 in
theorem ends_iff_short : ∃ tr t, Run noReals (.connected [65] 5 default zeroLocals) tr t ∧
    tr.map Prod.snd = shortInputs ∧
    (t.step noReals .quiet = .error .lengthError ↔ t.client.Ends .quiet .lengthError) ∧
    t.client.Ends .quiet .lengthError := by
  have hexec : ∃ t ∈ Runs.exec (next noReals) (.connected [65] 5 default zeroLocals) shortInputs,
      t.client.pc = .body 5 ∧ t.client.multi.hasClosed = false ∧
        (t.client.multi.packetOn 5).length < 57 ∧
        ((overwrite t.client.buffer 0 (t.client.multi.packetOn 5) ++ []).drop 56).headD 0 =
          dataTypeString := by
    decide +kernel
  obtain ⟨tr, t, hr, htr, hpc, hopen, hshort, hstring⟩ := Runs.exists_run_of_exec hexec
  have hstarted : Started (.connected [65] 5 default zeroLocals) :=
    started_connected (by decide) (by decide) (by decide) default zeroLocals
  refine ⟨tr, t, hr, htr, ends_iff hstarted hr _ _, ?_⟩
  rw [Client.Ends, hpc]
  exact .short hopen hshort hstring

end Terminal

end NewsServer
