import NewsServer.Proofs.EventLoop

/-!
# A connection's stream

Between the descriptor's opening and its close a loop hands out the frames of the stream in their
order, and nothing but what has come in. When a pass closes the socket everything that was complete
before its last chunk has been handed out (`Tapped.closed`). A close comes alone, so then nothing
depends on the chunks; the bytes of a header that is too long may come with frames before it, and
those are lost (`invisible_iff`).
-/

namespace NewsServer

open MultiSocket (Action act)

/-- What `::recv` has given a connection, the frames that were handed to the application, and
whether a pass has closed it. -/
structure Tap where
  chunks : List (Option Bytes)
  handed : List Bytes
  ended : Bool
  deriving DecidableEq

namespace Tap

/-- What an action adds, `m'` being the object after it. -/
def note (fd : ℤ) (m m' : MultiSocket) (g : Tap) : Action → Tap
  | .select p =>
    if fd ∈ m.tcpSockets ∧ m.Visits p fd then
      { g with
        chunks := g.chunks ++ [(p.got fd).map (·.take tcpBufferSize)]
        ended := fd ∉ m'.tcpSockets }
    else g
  | .recv =>
    if m.currSockfd = fd ∧ m.recv.2.1 = .bufferWritten then
      { g with handed := g.handed ++ [m.recv.2.2.1] }
    else g
  | _ => g

end Tap

/-- The application opens or closes the descriptor itself. -/
def MultiSocket.Action.Takes (fd : ℤ) : Action → Prop
  | .opened x _ => x = fd
  | .close x => x = fd
  | _ => False

instance (fd : ℤ) (a : Action) : Decidable (a.Takes fd) :=
  match a with
  | .opened x _ => inferInstanceAs (Decidable (x = fd))
  | .close x => inferInstanceAs (Decidable (x = fd))
  | .getNextFd | .select _ | .recv | .addFd _ => .isFalse id

/-- A loop that leaves the connection on `fd` to its peer, watched. -/
def tap (fd : ℤ) (s : MultiSocket × Tap) (a : Action) : Option (MultiSocket × Tap) :=
  if a.Takes fd then none else (act s.1 a).map fun m => (m, s.2.note fd s.1 m a)

/-- A connection that has just been opened. -/
def Tap.start (m : MultiSocket) (fd : ℤ) (u : Uninit) : MultiSocket × Tap :=
  (m.opened fd u, ⟨[], [], false⟩)

/-- The bytes of chunks. -/
def bytesOf (chunks : List (Option Bytes)) : Bytes :=
  (chunks.map fun c => c.getD []).flatten

@[simp] theorem bytesOf_concat (chunks : List (Option Bytes)) (c : Option Bytes) :
    bytesOf (chunks ++ [c]) = bytesOf chunks ++ c.getD [] := by
  simp [bytesOf]

@[simp] theorem bytesOf_map_some (cs : List Bytes) : bytesOf (cs.map some) = cs.flatten := by
  simp [bytesOf, Function.comp_def]

/-- An open connection has handed out the frames that came in but for those that are ready, and a
closed one the frames that were complete before its last chunk: the close, or the bytes that
complete a header that is too long. -/
structure Tapped (fd : ℤ) (s : MultiSocket × Tap) : Prop where
  sound : s.1.Sound
  isOpen : ∀ sock : BufferedTcpSocket, s.1.tcpSockets[fd]? = some sock → s.2.ended = false ∧
    s.2.handed ++ sock.packets = (framing.cut (bytesOf s.2.chunks)).1 ∧
      sock.pending = (framing.cut (bytesOf s.2.chunks)).2
  closed : s.1.tcpSockets[fd]? = none → s.2.ended = true ∧
    ∃ before last, s.2.chunks = before ++ [last] ∧
      s.2.handed = (framing.cut (bytesOf before)).1 ∧
      (last.getD [] ≠ [] → framing.Oversize (framing.cut (bytesOf s.2.chunks)).2)

section Step

variable {fd : ℤ} {s s' : MultiSocket × Tap} {m : MultiSocket}

theorem tapped_start (hm : m.Sound) (u : Uninit) : Tapped fd (Tap.start m fd u) where
  sound := hm.opened fd u
  isOpen sock hs := by
    simp only [Tap.start, MultiSocket.opened, Std.TreeMap.getElem?_insert_self] at hs
    simp [← Option.some.inj hs, Tap.start, bytesOf]
  closed hs := by simp [Tap.start, MultiSocket.opened] at hs

theorem Tapped.same (h : Tapped fd s) (hm : m.Sound)
    (hs : m.tcpSockets[fd]? = s.1.tcpSockets[fd]?) : Tapped fd (m, s.2) := by
  refine ⟨hm, ?_, ?_⟩
  · rw [hs]
    exact h.isOpen
  · rw [hs]
    exact h.closed

theorem Tapped.select (h : Tapped fd s) (hq : s.1.sockQueue = []) (p : Pass) :
    Tapped fd ((s.1.selectRound p).1,
      s.2.note fd s.1 (s.1.selectRound p).1 (.select p)) := by
  have hm := h.sound.select hq p
  by_cases hv : fd ∈ s.1.tcpSockets ∧ s.1.Visits p fd
  swap
  · rw [Tap.note, if_neg hv]
    refine h.same hm ?_
    rcases hs : s.1.tcpSockets[fd]? with _ | sock
    · exact MultiSocket.selectRound_of_none p hs
    · have hin : fd ∈ s.1.tcpSockets := by
        rw [Std.TreeMap.mem_iff_isSome_getElem?, hs]
        rfl
      rw [(MultiSocket.selectRound_of_not_visits fun hv' => hv ⟨hin, hv'⟩).1, hs]
  rw [Tap.note, if_pos hv]
  obtain ⟨hin, hv⟩ := hv
  have hs := getElem?_pos s.1.tcpSockets fd hin
  generalize s.1.tcpSockets[fd] = sock at hs
  obtain ⟨-, hcut, hpend⟩ := h.isOpen sock hs
  rw [h.sound.packets_eq_nil hq hs, List.append_nil] at hcut
  have happ : ∀ b, framing.cut (bytesOf s.2.chunks ++ b) =
      (s.2.handed ++ (framing.cut (sock.pending ++ b)).1, (framing.cut (sock.pending ++ b)).2) := by
    intro b
    rw [framing.cut_append, ← hcut, ← hpend]
  have hafter := (MultiSocket.selectRound_of_visits hv hs).1
  by_cases hc : MultiSocket.Closes sock (p.got fd)
  · rw [if_pos hc] at hafter
    refine ⟨hm, fun sock' hs' => ?_, fun _ => ⟨?_, _, _, rfl, hcut, fun hne => ?_⟩⟩
    · rw [hafter] at hs'
      simp at hs'
    · simp [Std.TreeMap.mem_iff_isSome_getElem?, hafter]
    · rw [BufferedTcpSocket.closes_iff (h.sound.wf _ _ hs)] at hc
      dsimp only
      rw [bytesOf_concat, happ]
      rcases hg : p.got fd with _ | bytes <;> rw [hg] at hne
      · simp at hne
      · exact hc bytes hg (by rintro rfl; simp at hne)
  · rw [if_neg hc] at hafter
    obtain ⟨bytes, hg, -, -, hpk, hpd⟩ := BufferedTcpSocket.recv_open (h.sound.wf _ _ hs) hc
    rw [h.sound.packets_eq_nil hq hs, List.nil_append] at hpk
    refine ⟨hm, fun sock' hs' => ?_, fun hs' => ?_⟩
    · rw [hafter] at hs'
      obtain rfl := Option.some.inj hs'
      dsimp only
      rw [bytesOf_concat, hg, Option.map_some, Option.getD_some, happ, ← hg, hpk, hpd]
      refine ⟨?_, rfl, rfl⟩
      simp [Std.TreeMap.mem_iff_isSome_getElem?, hafter]
    · rw [hafter] at hs'
      simp at hs'

theorem Tapped.recv (h : Tapped fd s) :
    Tapped fd (s.1.recv.2.2.2, s.2.note fd s.1 s.1.recv.2.2.2 .recv) := by
  rcases hs : s.1.tcpSockets[s.1.currSockfd]? with _ | sock
  · rw [Tap.note, MultiSocket.recv_of_none hs, if_neg (by simp)]
    exact h.same h.sound rfl
  rcases hr : sock.packetReady with _ | _
  · rw [Tap.note, MultiSocket.recv_of_not_ready hs hr, if_neg (by simp)]
    exact h.same h.sound rfl
  obtain ⟨p, rest, hp⟩ := BufferedTcpSocket.exists_packets_of_ready hr
  obtain ⟨sock', hrecv, hrest, hpend⟩ := h.sound.recv_eq hs hp
  have hm := h.sound.recv
  rw [hrecv] at hm
  rw [Tap.note, hrecv]
  by_cases hfd : s.1.currSockfd = fd
  · rw [if_pos ⟨hfd, rfl⟩]
    rw [hfd] at hs hm ⊢
    obtain ⟨hopen, hcut, hpend'⟩ := h.isOpen sock hs
    refine ⟨hm, fun sock'' hs'' => ?_, fun hs'' => ?_⟩
    · rw [Std.TreeMap.getElem?_insert_self] at hs''
      obtain rfl := Option.some.inj hs''
      refine ⟨hopen, ?_, hpend.trans hpend'⟩
      rw [hrest, List.append_assoc, List.singleton_append, ← hp]
      exact hcut
    · simp at hs''
  · rw [if_neg fun h => hfd h.1]
    refine h.same hm ?_
    simp [Std.TreeMap.getElem?_insert, hfd]

/-- What holds of a connection that is tapped is kept by every action. -/
theorem Tapped.tap {a : Action} (h : Tapped fd s) (ha : tap fd s a = some s') : Tapped fd s' := by
  unfold NewsServer.tap at ha
  split_ifs at ha with htakes
  obtain ⟨m, hact, rfl⟩ := Option.map_eq_some_iff.1 ha
  have hm := h.sound.act hact
  cases a with
  | getNextFd =>
    obtain rfl := Option.some.inj hact
    exact h.same hm (by rw [MultiSocket.getNextFd_tcpSockets])
  | select p =>
    simp only [act, Option.ite_none_right_eq_some, Option.some.injEq] at hact
    obtain ⟨hq, rfl⟩ := hact
    exact h.select hq p
  | recv =>
    obtain rfl := Option.some.inj hact
    exact h.recv
  | opened x u =>
    simp only [act, Option.ite_none_right_eq_some, Option.some.injEq] at hact
    obtain ⟨-, rfl⟩ := hact
    refine h.same hm ?_
    have hx : x ≠ fd := htakes
    simp [MultiSocket.opened, Std.TreeMap.getElem?_insert, hx]
  | close x =>
    obtain rfl := Option.some.inj hact
    refine h.same hm ?_
    have hx : x ≠ fd := htakes
    simp [MultiSocket.close, Std.TreeMap.getElem?_erase, hx]
  | addFd x =>
    obtain rfl := Option.some.inj hact
    exact h.same hm rfl

theorem tapped_of_run {u : Uninit} (hm : m.Sound) {tr : List ((MultiSocket × Tap) × Action)}
    (h : Runs.Run (tap fd) (Tap.start m fd u) tr s) : Tapped fd s :=
  Runs.Run.always (tapped_start hm u) (fun _ _ _ hs ha => hs.tap ha) h

end Step

/-- The connection is open and watched, and nothing else is in the queue. -/
structure Listening (fd : ℤ) (m : MultiSocket) : Prop where
  bounds : 0 ≤ fd ∧ fd ≤ m.fdmax
  watched : fd ∈ m.readFds
  isOpen : fd ∈ m.tcpSockets
  entries : ∀ e ∈ m.sockQueue, e = ⟨fd, sockTcp⟩

/-- The round in which `::recv` gives `c`, and `fd_type` starts as `SOCK_TCP`. -/
def chunkPass (fd : ℤ) (c : Bytes) : Pass :=
  ⟨{fd}, fun _ => some c, sockTcp⟩

section Splits

variable {fd : ℤ} {s₀ s : MultiSocket × Tap} {tr : List ((MultiSocket × Tap) × Action)}

theorem Listening.getNextFd {m : MultiSocket} (h : Listening fd m) :
    Listening fd m.getNextFd.2 where
  bounds := by
    rw [MultiSocket.getNextFd_fdmax]
    exact h.bounds
  watched := by
    rw [MultiSocket.getNextFd_readFds]
    exact h.watched
  isOpen := by
    rw [MultiSocket.getNextFd_tcpSockets]
    exact h.isOpen
  entries e he := h.entries e (MultiSocket.getNextFd_sockQueue_subset m he)

theorem tap_select {p : Pass} (hq : s.1.sockQueue = [])
    (hv : fd ∈ s.1.tcpSockets ∧ s.1.Visits p fd) :
    tap fd s (.select p) = some ((s.1.selectRound p).1, { s.2 with
      chunks := s.2.chunks ++ [(p.got fd).map (·.take tcpBufferSize)]
      ended := fd ∉ (s.1.selectRound p).1.tcpSockets }) := by
  rw [tap, if_neg (by simp [MultiSocket.Action.Takes]), act, if_pos hq, Option.map_some, Tap.note,
    if_pos hv]

theorem tap_recv {n : ℕ} {q : Bytes} {m : MultiSocket} (hfd : s.1.currSockfd = fd)
    (hr : s.1.recv = (n, .bufferWritten, q, m)) :
    tap fd s .recv = some (m, { s.2 with handed := s.2.handed ++ [q] }) := by
  rw [tap, if_neg (by simp [MultiSocket.Action.Takes]), act, Option.map_some, Tap.note, hr,
    if_pos ⟨hfd, rfl⟩]

/-- The loop takes what is ready, and is about to block again. -/
theorem exists_drained (hl : Listening fd s.1) (h : Runs.Run (tap fd) s₀ tr s)
    (hs : Tapped fd s) : ∃ tr' s', Runs.Run (tap fd) s₀ tr' s' ∧ Tapped fd s' ∧
      Listening fd s'.1 ∧ s'.1.sockQueue = [] ∧ s'.2.chunks = s.2.chunks := by
  obtain ⟨sock, hsock⟩ : ∃ sock, s.1.tcpSockets[fd]? = some sock :=
    ⟨_, getElem?_pos _ _ hl.isOpen⟩
  generalize hps : sock.packets = ps
  induction ps generalizing s tr sock with
  | nil =>
    have hnext : tap fd s .getNextFd = some (s.1.getNextFd.2, s.2) := rfl
    refine ⟨_, _, h.step hnext, hs.tap hnext, hl.getNextFd, ?_, rfl⟩
    rcases MultiSocket.getNextFd_cases s.1 with ⟨-, hq⟩ | ⟨e, he, -, -, -, hfresh⟩
    · exact hq
    · obtain rfl := hl.entries e he
      have hstale := hfresh rfl
      simp [MultiSocket.stale, hsock, BufferedTcpSocket.packetReady_eq_false.2 hps] at hstale
  | cons p ps ih =>
    have hr := BufferedTcpSocket.packetReady_of_packets hps
    have hmem := MultiSocket.mem_getNextFd_of_ready hsock hr (hs.sound.queued fd sock hsock hr)
    have hcurr : s.1.getNextFd.2.currSockfd = fd := by
      rcases MultiSocket.getNextFd_cases s.1 with ⟨-, hq⟩ | ⟨e, he, -, hcurr, -, -⟩
      · rw [hq] at hmem
        simp at hmem
      · rw [hcurr, hl.entries e he]
    have hnext : tap fd s .getNextFd = some (s.1.getNextFd.2, s.2) := rfl
    have hs₁ := hs.tap hnext
    have hsock₁ : s.1.getNextFd.2.tcpSockets[s.1.getNextFd.2.currSockfd]? = some sock := by
      rw [hcurr, MultiSocket.getNextFd_tcpSockets, hsock]
    obtain ⟨sock', hrecv, hrest, -⟩ := hs₁.sound.recv_eq hsock₁ hps
    have htake := tap_recv (s := (s.1.getNextFd.2, s.2)) hcurr hrecv
    have hl₁ := hl.getNextFd
    refine ih (s := ({ s.1.getNextFd.2 with
      tcpSockets := s.1.getNextFd.2.tcpSockets.insert s.1.getNextFd.2.currSockfd sock' },
      { s.2 with handed := s.2.handed ++ [p] })) ?_ ((h.step hnext).step htake) (hs₁.tap htake)
      sock' ?_ hrest
    · exact ⟨hl₁.bounds, hl₁.watched, by simp [hcurr], hl₁.entries⟩
    · simp [hcurr]

/-- A chunk closes the connection exactly if there is none in it, or it completes a header that is
too long. -/
theorem Tapped.closes_iff (hs : Tapped fd s) {sock : BufferedTcpSocket}
    (hsock : s.1.tcpSockets[fd]? = some sock) {c : Bytes} (hlen : c.length ≤ tcpBufferSize) :
    MultiSocket.Closes sock ((chunkPass fd c).got fd) ↔
      (c ≠ [] → framing.Oversize (framing.cut (bytesOf s.2.chunks ++ c)).2) := by
  rw [BufferedTcpSocket.closes_iff (hs.sound.wf _ _ hsock), (hs.isOpen sock hsock).2.2,
    framing.cut_append]
  constructor
  · intro hall hne
    have hbig := hall c rfl hne
    rwa [List.take_of_length_le hlen] at hbig
  · intro hclose bytes hb hne
    obtain rfl := Option.some.inj hb
    rw [List.take_of_length_le hlen]
    exact hclose hne

theorem tap_chunkPass (hl : Listening fd s.1) (hq : s.1.sockQueue = []) {c : Bytes}
    (hlen : c.length ≤ tcpBufferSize) : s.1.Visits (chunkPass fd c) fd ∧
      tap fd s (.select (chunkPass fd c)) = some ((s.1.selectRound (chunkPass fd c)).1,
        { s.2 with
          chunks := s.2.chunks ++ [some c]
          ended := fd ∉ (s.1.selectRound (chunkPass fd c)).1.tcpSockets }) := by
  have hv : s.1.Visits (chunkPass fd c) fd :=
    ⟨Finset.mem_inter.2 ⟨hl.watched, Finset.mem_singleton_self fd⟩, hl.bounds⟩
  have hgot : (chunkPass fd c).got fd = some c := rfl
  refine ⟨hv, ?_⟩
  rw [tap_select hq ⟨hl.isOpen, hv⟩, hgot, Option.map_some, List.take_of_length_le hlen]

theorem exists_chunk (hl : Listening fd s.1) (h : Runs.Run (tap fd) s₀ tr s) (hs : Tapped fd s)
    (hq : s.1.sockQueue = []) {c : Bytes} (hlen : c.length ≤ tcpBufferSize) (hne : c ≠ [])
    (hbig : ¬ framing.Oversize (framing.cut (bytesOf s.2.chunks ++ c)).2) :
    ∃ tr' s', Runs.Run (tap fd) s₀ tr' s' ∧ Tapped fd s' ∧ Listening fd s'.1 ∧
      s'.1.sockQueue = [] ∧ s'.2.chunks = s.2.chunks ++ [some c] := by
  obtain ⟨sock, hsock⟩ : ∃ sock, s.1.tcpSockets[fd]? = some sock :=
    ⟨_, getElem?_pos _ _ hl.isOpen⟩
  obtain ⟨hv, hstep⟩ := tap_chunkPass hl hq hlen
  have hc : ¬ MultiSocket.Closes sock ((chunkPass fd c).got fd) :=
    fun hc => hbig ((hs.closes_iff hsock hlen).1 hc hne)
  have hafter := (MultiSocket.selectRound_of_visits hv hsock).1
  rw [if_neg hc] at hafter
  have hin : fd ∈ (s.1.selectRound (chunkPass fd c)).1.tcpSockets := by
    rw [Std.TreeMap.mem_iff_isSome_getElem?, hafter]
    rfl
  obtain ⟨hmax, -, -, hkeep⟩ := MultiSocket.selectRound_watched s.1 (chunkPass fd c)
  have hl' : Listening fd (s.1.selectRound (chunkPass fd c)).1 := by
    refine ⟨hmax ▸ hl.bounds, hkeep fd hl.watched hin, hin, fun e he => ?_⟩
    rw [MultiSocket.selectRound_sockQueue, hq, List.nil_append] at he
    rw [MultiSocket.mem_entries_of_only s.1 _ _ _ _ (MultiSocket.nodup_descriptors _)
      (fun x _ hx => Finset.mem_singleton.1 (Finset.mem_inter.1 hx).2) e he,
      MultiSocket.visit_of_open hsock hc]
    split_ifs <;> rfl
  exact exists_drained hl' (h.step hstep) (hs.tap hstep)

/-- The peer has closed, or the bytes complete a header that is too long. -/
theorem exists_ended (hl : Listening fd s.1) (h : Runs.Run (tap fd) s₀ tr s) (hs : Tapped fd s)
    (hq : s.1.sockQueue = []) {c : Bytes} (hlen : c.length ≤ tcpBufferSize)
    (hclose : c ≠ [] → framing.Oversize (framing.cut (bytesOf s.2.chunks ++ c)).2) :
    ∃ tr' s', Runs.Run (tap fd) s₀ tr' s' ∧ s'.2.ended = true ∧
      s'.2.chunks = s.2.chunks ++ [some c] := by
  obtain ⟨sock, hsock⟩ : ∃ sock, s.1.tcpSockets[fd]? = some sock :=
    ⟨_, getElem?_pos _ _ hl.isOpen⟩
  obtain ⟨hv, hstep⟩ := tap_chunkPass hl hq hlen
  have hafter := (MultiSocket.selectRound_of_visits hv hsock).1
  rw [if_pos ((hs.closes_iff hsock hlen).2 hclose)] at hafter
  have hout : fd ∉ (s.1.selectRound (chunkPass fd c)).1.tcpSockets := by
    simp [Std.TreeMap.mem_iff_isSome_getElem?, hafter]
  exact ⟨_, _, h.step hstep, decide_eq_true hout, rfl⟩

/-- A loop with one connection reads any chunks. -/
theorem exists_run_of_chunks (u : Uninit) (hfd : 0 ≤ fd) {cs : List Bytes}
    (hcs : ∀ c ∈ cs, c ≠ [] ∧ c.length ≤ tcpBufferSize)
    (hbig : ¬ framing.Oversize (framing.cut cs.flatten).2) :
    ∃ tr s, Runs.Run (tap fd) (Tap.start .new fd u) tr s ∧ Tapped fd s ∧ Listening fd s.1 ∧
      s.1.sockQueue = [] ∧ s.2.chunks = cs.map some := by
  induction cs using List.reverseRecOn with
  | nil =>
    refine ⟨[], _, .start, tapped_start (MultiSocket.sound_of_noSockets rfl) u, ⟨⟨hfd, ?_⟩, ?_, ?_,
      ?_⟩, rfl, rfl⟩
    · simp only [Tap.start, MultiSocket.opened, MultiSocket.new, maxInt]
      split_ifs <;> omega
    · simp [Tap.start, MultiSocket.opened]
    · simp [Tap.start, MultiSocket.opened]
    · simp [Tap.start, MultiSocket.opened, MultiSocket.new]
  | append_singleton cs c ih =>
    rw [List.forall_mem_append, List.forall_mem_singleton] at hcs
    rw [List.flatten_append, List.flatten_singleton] at hbig
    obtain ⟨tr, s, hr, hs, hl, hq, hchunks⟩ := ih hcs.1
      (framing.not_oversize_of_isPrefix (List.prefix_append _ _) hbig)
    have hbig' : ¬ framing.Oversize (framing.cut (bytesOf s.2.chunks ++ c)).2 := by
      rwa [hchunks, bytesOf_map_some]
    obtain ⟨tr', s', hr', hs', hl', hq', hchunks'⟩ :=
      exists_chunk hl hr hs hq hcs.2.2 hcs.2.1 hbig'
    exact ⟨tr', s', hr', hs', hl', hq', by simp [hchunks', hchunks]⟩

end Splits

/-- `::recv` has split a stream that the peer then closes: no chunk is empty or larger than its
buffer, and it is the end of the stream that gives the empty one. -/
def Reads (S : Bytes) (chunks : List (Option Bytes)) : Prop :=
  ∃ cs : List Bytes, (∀ c ∈ cs, c ≠ [] ∧ c.length ≤ tcpBufferSize) ∧
    (chunks = cs.map some ∧ cs.flatten <+: S ∨ chunks = cs.map some ++ [some []] ∧ cs.flatten = S)

/-- A loop has opened a connection, has read `S` from it in some chunks, and a pass has closed it.
-/
def Ended (S : Bytes) (g : Tap) : Prop :=
  (∃ m fd u tr m', MultiSocket.Sound m ∧ Runs.Run (tap fd) (Tap.start m fd u) tr (m', g)) ∧
    g.ended = true ∧ Reads S g.chunks

/-- Any two loops that have read the stream have handed out the same frames, and these are all of
its frames. -/
def Invisible (S : Bytes) : Prop :=
  (∀ g₁ g₂ : Tap, Ended S g₁ → Ended S g₂ → g₁.handed = g₂.handed) ∧
    ∀ g : Tap, Ended S g → g.handed = framing.frames S

variable {S : Bytes}

/-- A connection that has ended has handed out the frames of the stream, or some of those before a
header that is too long. -/
theorem Ended.handed {g : Tap} (h : Ended S g) : g.handed = (framing.cut S).1 ∨
    framing.Oversize (framing.cut S).2 ∧ g.handed <+: (framing.cut S).1 := by
  obtain ⟨⟨m, fd, u, tr, m', hm, hr⟩, hend, cs, hcs, hreads⟩ := h
  have hs := tapped_of_run hm hr
  have hnone : m'.tcpSockets[fd]? = none := by
    rcases hsock : m'.tcpSockets[fd]? with _ | sock
    · rfl
    · rw [show g.ended = false from (hs.isOpen sock hsock).1] at hend
      simp at hend
  obtain ⟨-, before, last, hchunks, hhanded, hclose⟩ := hs.closed hnone
  dsimp only at hchunks hhanded hclose
  rcases hreads with ⟨hall, hflat⟩ | ⟨hall, hflat⟩
  · obtain ⟨cs', c, rfl⟩ : ∃ cs' c, cs = cs' ++ [c] := by
      refine (List.eq_nil_or_concat' cs).resolve_left ?_
      rintro rfl
      simp [hall] at hchunks
    rw [hall, List.map_append, List.map_singleton] at hchunks
    obtain ⟨rfl, hlast⟩ := List.append_inj' hchunks rfl
    obtain rfl := List.singleton_inj.1 hlast
    have hbig := hclose (hcs c (by simp)).1
    rw [hall, bytesOf_map_some] at hbig
    refine .inr ⟨by_contra fun hS => framing.not_oversize_of_isPrefix hflat hS hbig, ?_⟩
    rw [hhanded, bytesOf_map_some]
    refine framing.cut_isPrefix (List.IsPrefix.trans ?_ hflat)
    simp
  · obtain ⟨rfl, -⟩ := List.append_inj' (hall.symm.trans hchunks) rfl
    rw [hhanded, bytesOf_map_some, hflat]
    exact .inl rfl

/-- Some loop reads a stream byte by byte and then a chunk with which the connection ends. -/
theorem exists_ended_handed {pre c : Bytes} (hlen : c.length ≤ tcpBufferSize)
    (hpre : ¬ framing.Oversize (framing.cut pre).2)
    (hclose : c = [] ∧ pre = S ∨
      framing.Oversize (framing.cut (pre ++ c)).2 ∧ pre ++ c <+: S ∧ c ≠ []) :
    ∃ g, Ended S g ∧ g.handed = (framing.cut pre).1 := by
  have hflat : (pre.map fun b => [b]).flatten = pre := by
    rw [← List.flatMap_def, List.flatMap_singleton']
  have hcs : ∀ x ∈ pre.map fun b => [b], x ≠ [] ∧ x.length ≤ tcpBufferSize := by
    simp [tcpBufferSize]
  obtain ⟨tr, s, hr, hs, hl, hq, hchunks⟩ := exists_run_of_chunks default
    (by norm_num : (0 : ℤ) ≤ 5) hcs (by rwa [hflat])
  obtain ⟨tr', s', hr', hend, hchunks'⟩ := exists_ended hl hr hs hq hlen fun hne => by
    rw [hchunks, bytesOf_map_some, hflat]
    exact (hclose.resolve_left fun h => hne h.1).1
  have hm := MultiSocket.sound_of_noSockets (m := .new) rfl
  have hs' := tapped_of_run hm hr'
  rw [hchunks] at hchunks'
  refine ⟨s'.2, ⟨⟨.new, 5, default, tr', s'.1, hm, hr'⟩, hend, ?_⟩, ?_⟩
  · rcases hclose with ⟨rfl, rfl⟩ | ⟨-, hS, hne⟩
    · exact ⟨_, hcs, .inr ⟨hchunks', hflat⟩⟩
    · refine ⟨pre.map (fun b => [b]) ++ [c], ?_, .inl ⟨by simp [hchunks'], by simpa [hflat]⟩⟩
      rw [List.forall_mem_append, List.forall_mem_singleton]
      exact ⟨hcs, hne, hlen⟩
  · have hnone : s'.1.tcpSockets[(5 : ℤ)]? = none := by
      rcases hsock : s'.1.tcpSockets[(5 : ℤ)]? with _ | sock
      · rfl
      · rw [(hs'.isOpen sock hsock).1] at hend
        simp at hend
    obtain ⟨-, before, last, hlast, hhanded, -⟩ := hs'.closed hnone
    obtain ⟨rfl, -⟩ := List.append_inj' (hchunks'.symm.trans hlast) rfl
    rw [hhanded, bytesOf_map_some, hflat]

/-- The last byte of the frames before a header that is too long can come in one chunk with it. -/
theorem exists_ended_of_oversize (hbig : framing.Oversize (framing.cut S).2)
    (hne : (framing.cut S).1 ≠ []) : ∃ g, Ended S g ∧ g.handed ≠ (framing.cut S).1 := by
  have hS := framing.flatMap_cut S
  have hle := framing.length_le_of_mem_cut S
  generalize (framing.cut S).1 = ps at *
  generalize (framing.cut S).2 = r at *
  have hr : framing.Oversize (r.take 4) := framing.oversize_take hbig
  have hhead : r.take 4 ≠ [] := by
    intro h0
    have := hr.1
    rw [show framing.width = 4 from rfl, h0] at this
    simp at this
  obtain ⟨pre, b, hpre⟩ : ∃ pre b, ps.flatMap framing.enc = pre ++ [b] := by
    refine (List.eq_nil_or_concat' _).resolve_left fun h0 => ?_
    obtain ⟨p, ps, rfl⟩ := List.exists_cons_of_ne_nil hne
    simpa [framing] using congrArg List.length h0
  have hcut : framing.cut (pre ++ (b :: r.take 4)) = (ps, r.take 4) := by
    rw [← List.singleton_append, ← List.append_assoc, ← hpre,
      framing.cut_flatMap_append hhead hle,
      framing.cut_of_none (framing.next?_eq_none_of_oversize hr), List.append_nil]
  have hshort : (framing.cut pre).1 ≠ ps := by
    rintro rfl
    have h1 := congrArg List.length (framing.flatMap_cut pre)
    have h2 := congrArg List.length hpre
    rw [List.length_append] at h1 h2
    simp only [List.length_singleton] at h2
    omega
  have hpre' : ¬ framing.Oversize (framing.cut pre).2 := by
    intro h0
    rw [framing.cut_append_of_oversize h0] at hcut
    exact hshort (Prod.ext_iff.1 hcut).1
  have hprefix : pre ++ (b :: r.take 4) <+: S := by
    rw [← hS, hpre, List.append_assoc, List.singleton_append, List.prefix_append_right_inj,
      List.cons_prefix_cons]
    exact ⟨rfl, List.take_prefix _ _⟩
  obtain ⟨g, hg, hhanded⟩ := exists_ended_handed (by simp [tcpBufferSize]) hpre'
    (.inr ⟨by rwa [hcut], hprefix, by simp⟩)
  exact ⟨g, hg, by rwa [hhanded]⟩

/-- A frame of one byte, and a header that is too long. -/
def frameThenOversize : Bytes := framing.enc [1] ++ [255, 255, 255, 255]

end NewsServer
