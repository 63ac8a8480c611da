import NewsServer.Proofs.StoreForward

/-!
# Who stops the server

The loop ends at a line of input that starts with `exit`. At the end of the input `fgets` leaves
the buffer as it is, and the buffer is where datagrams come in: what stops the server then is the
last datagram (`stopsForOperator_iff`).

Where no step finds it so, and none gives up on a subscriber, datagrams decide nothing about the
loop: two servers that differ in what datagrams made of them (`Alike`) stop together.
-/

namespace NewsServer

open Memory

/-- The loop ends only at a line of input that starts with `exit`. -/
def StopsForOperator (s : Server) (k : Kernel) : Prop :=
  s.step k = .error .exit →
    (∃ fd, s.At fd .stdin) ∧ ∃ line, k.line = some line ∧ Server.exitText <+: line

/-- `fgets` reads a line, or the buffer does not start with `exit`. -/
def ReadsLine (s : Server) (k : Kernel) : Prop :=
  (∃ fd, s.At fd .stdin) → ¬ (k.line = none ∧ Server.exitText <+: s.buffer)

instance (s : Server) (k : Kernel) : Decidable (ReadsLine s k) :=
  inferInstanceAs (Decidable (_ → ¬ (_ ∧ _)))

theorem strncmpEq_exitText (buf : Bytes) :
    strncmpEq buf Server.exitText 4 = true ↔ Server.exitText <+: buf := by
  have hexit : (cstr Server.exitText).take 4 = Server.exitText := by decide
  simp only [strncmpEq, hexit, decide_eq_true_eq]
  constructor
  · intro h
    rw [← h]
    exact (List.take_prefix _ _).trans (List.takeWhile_prefix _)
  · rintro ⟨rest, rfl⟩
    rw [cstr_append_of_notMem (by decide)]
    exact List.take_left' rfl

/-- A string is at the front of an array exactly if it is in front of the first NUL. -/
theorem prefix_append_nul {s buf : Bytes} (hs : 0 ∉ s) (rest : Bytes) :
    s <+: buf ++ 0 :: rest ↔ s <+: buf := by
  refine ⟨fun h => ?_, fun h => h.trans (List.prefix_append _ _)⟩
  rcases List.prefix_or_prefix_of_prefix h (List.prefix_append buf (0 :: rest)) with h' | ⟨q, rfl⟩
  · exact h'
  · rw [List.prefix_append_right_inj] at h
    rcases q with _ | ⟨b, q⟩
    · rw [List.append_nil]
    · obtain ⟨rfl, -⟩ := List.cons_prefix_cons.1 h
      simp at hs

theorem strncmpEq_fgets (buffer line : Bytes) :
    strncmpEq (Server.fgets buffer (some line)) Server.exitText 4 = true ↔
      Server.exitText <+: line := by
  have hfgets : Server.fgets buffer (some line) = line.take (buflen - 2) ++
      0 :: buffer.drop (line.take (buflen - 2) ++ [0]).length := by
    simp [Server.fgets, overwrite]
  rw [strncmpEq_exitText, hfgets, prefix_append_nul (by decide), List.prefix_take_iff]
  exact and_iff_left (by decide)

theorem strncmpEq_fgets_of_readsLine {buffer : Bytes} {line : Option Bytes}
    (h : ¬ (line = none ∧ Server.exitText <+: buffer)) :
    strncmpEq (Server.fgets buffer line) Server.exitText 4 = true ↔
      ∃ l, line = some l ∧ Server.exitText <+: l := by
  rcases line with _ | l
  · rw [Server.fgets, strncmpEq_exitText]
    simpa using fun hp => h ⟨rfl, hp⟩
  · rw [strncmpEq_fgets]
    simp

theorem handleTcpAppRecv_ne_exit (s : Server) (fd : ℤ) :
    s.handleTcpAppRecv fd ≠ .error .exit := by
  intro h
  have hd := handled s fd
  rw [h] at hd
  cases hd with
  | stopped _ _ _ ha =>
    obtain ⟨d, hdie⟩ := answer_isDie ha
    simp at hdie

theorem step_eq_exit_iff (s : Server) (k : Kernel) : s.step k = .error .exit ↔
    (∃ fd, s.At fd .stdin) ∧ strncmpEq (Server.fgets s.buffer k.line) Server.exitText 4 = true := by
  have hbody : ∀ fd, s.loopBody k fd = .error .exit ↔ fd = Server.stdinFileno ∧
      strncmpEq (Server.fgets s.buffer k.line) Server.exitText 4 = true := by
    intro fd
    unfold Server.loopBody
    by_cases hstd : fd = Server.stdinFileno
    · rw [Server.branch_eq_stdin.2 hstd]
      dsimp only
      split_ifs with hexit <;> simp [hstd, hexit]
    refine ⟨fun h => ?_, fun h => absurd h.1 hstd⟩
    exfalso
    rcases hbranch : s.branch fd <;> rw [hbranch] at h <;> dsimp only at h
    · exact hstd (Server.branch_eq_stdin.1 hbranch)
    · rw [handleUdp_eq] at h
      rcases hf : fanOut s.multi k.news _ s.tables.clients with e | ⟨clients, evs⟩ <;> rw [hf] at h
      · obtain rfl := Except.error.inj h
        rcases fanOut_stop hf with h' | ⟨h', -⟩ <;> simp at h'
      · simp at h
    · unfold MultiSocket.accept at h
      split_ifs at h <;> simp at h
    · simp at h
    · exact handleTcpAppRecv_ne_exit s fd h
  have hat : ∀ fd, s.pc = .body fd → ((∃ x, s.At x .stdin) ↔ fd = Server.stdinFileno) := by
    intro fd hpc
    constructor
    · rintro ⟨x, hx, hb⟩
      rw [hpc, Pc.body.injEq] at hx
      subst hx
      exact Server.branch_eq_stdin.1 hb
    · rintro rfl
      exact ⟨_, hpc, Server.branch_eq_stdin.2 rfl⟩
  unfold Server.step
  rcases hpc : s.pc with _ | _ | fd <;> dsimp only
  · have hno := Server.not_at_of_pc (.inl hpc)
    simp [hno]
  · have hno := Server.not_at_of_pc (.inr hpc)
    split_ifs <;> simp [hno]
  · rw [hat fd hpc, ← hbody]
    rcases s.loopBody k fd with e | ⟨s', evs⟩ <;> simp

/-- The loop ends at a line that starts with `exit` alone exactly where `fgets` reads a line, or the
buffer does not start with `exit`. -/
theorem stopsForOperator_iff (s : Server) (k : Kernel) :
    StopsForOperator s k ↔ ReadsLine s k := by
  rw [StopsForOperator, step_eq_exit_iff]
  constructor
  · rintro h hat ⟨hline, hexit⟩
    have hstop := (strncmpEq_exitText s.buffer).2 hexit
    obtain ⟨-, line, hl, -⟩ := h ⟨hat, by rwa [hline]⟩
    rw [hline] at hl
    simp at hl
  · rintro h ⟨hat, hstop⟩
    exact ⟨hat, (strncmpEq_fgets_of_readsLine (h hat)).1 hstop⟩

/-! ## Servers that differ in their datagrams -/

/-- The inputs differ at most in what the datagram holds. -/
def SameButNews (k k' : Kernel) : Prop :=
  k' = { k with datagram := k'.datagram, beyond := k'.beyond }

/-- A datagram's subscribers are not connected, or on a socket that is there. -/
def FindsSockets (s : Server) (k : Kernel) : Prop :=
  (∃ fd, s.At fd .udp) → ∀ entry ∈ (s.tables.topicMap.getD k.topic ∅).toList,
    ∀ fd ∈ userOf s.tables.clients entry.1, fd ∈ s.multi.tcpSockets

instance (s : Server) (k : Kernel) : Decidable (FindsSockets s k) :=
  inferInstanceAs (Decidable (_ → ∀ entry ∈ (_ : List (Bytes × UInt8)), ∀ fd ∈ (_ : Option ℤ), _))

/-- The servers differ at most in the topics, in what is stored, and in the buffer. -/
structure Alike (s t : Server) : Prop where
  multi : t.multi = s.multi
  pc : t.pc = s.pc
  ids : t.tables.idsMap = s.tables.idsMap
  user : ∀ id, userOf t.tables.clients id = userOf s.tables.clients id

/-- Both stop for one reason, or both go on alike. -/
inductive SameOutcome : Except Stop (Server × List Event) → Except Stop (Server × List Event) → Prop
  | stop (e : Stop) : SameOutcome (.error e) (.error e)
  | goOn {s t : Server} {evs evs' : List Event} (h : Alike s t) :
      SameOutcome (.ok (s, evs)) (.ok (t, evs'))

section Alike

variable {s t : Server} {k k' : Kernel} {fd : ℤ}

theorem Alike.branch (h : Alike s t) (fd : ℤ) : t.branch fd = s.branch fd := by
  unfold Server.branch
  rw [h.multi]

theorem Processed.user_congr {m m' : Tables} {t₁ t₂ : Tables} {buf : Bytes} {type type' : UInt8}
    (h : Processed m fd buf type t₁) (h' : Processed m' fd buf type' t₂)
    (hids : m'.idsMap = m.idsMap) (huser : ∀ id, userOf m'.clients id = userOf m.clients id) :
    t₂.idsMap = t₁.idsMap ∧ ∀ id, userOf t₂.clients id = userOf t₁.clients id := by
  have hauth : type' = typeAuth ↔ type = typeAuth := by
    rw [h.auth_iff, h'.auth_iff, huser]
  by_cases ha : type = typeAuth
  · obtain ⟨-, -, hl⟩ := h.of_auth ha
    obtain ⟨-, -, hl'⟩ := h'.of_auth (hauth.2 ha)
    refine ⟨by rw [hl.ids, hl'.ids, hids], fun id => ?_⟩
    rw [hl.user, hl'.user, huser]
  · have hs := h.sameLogins ha
    have hs' := h'.sameLogins (hauth.not.2 ha)
    refine ⟨by rw [hs.ids, hs'.ids, hids], fun id => ?_⟩
    rw [hs.user, hs'.user, huser]

/-- A frame does the same to both. -/
theorem Alike.handleTcpAppRecv (h : Alike s t) (hs : Sendable s) (ht : Sendable t)
    (hcurr : s.multi.currSockfd = fd) :
    SameOutcome (s.handleTcpAppRecv fd) (t.handleTcpAppRecv fd) := by
  have hr := received_recv s.multi
  unfold Server.handleTcpAppRecv Server.received
  rw [h.multi]
  rcases hrecv : s.multi.recv with ⟨size, out, copied, multi⟩
  rw [hrecv] at hr
  dsimp only
  by_cases hlong : copied.length > buflen
  · rw [if_pos hlong, if_pos hlong]
    exact .stop _
  rw [if_neg hlong, if_neg hlong]
  by_cases htoo : out = .bufferTooSmall
  · rw [if_pos htoo, if_pos htoo]
    exact .stop _
  rw [if_neg htoo, if_neg htoo]
  by_cases hready : out = .packetNotReady
  · rw [if_pos hready, if_pos hready]
    exact .goOn ⟨rfl, h.pc, h.ids, h.user⟩
  rw [if_neg hready, if_neg hready]
  by_cases hsize : size ≤ cliPacketSize
  · have hmem : fd ∈ multi.tcpSockets := by
      cases hr with
      | unbuffered =>
        simp only [cliPacketSize, cliPacketDataSize] at hsize
        omega
      | notReady => exact absurd rfl hready
      | written hmem hsame => exact (hsame.mem fd).2 (hcurr ▸ hmem)
    obtain ⟨type, t₁, hp⟩ := process_total s.tables fd
      (overwrite (List.replicate buflen 0) 0 copied) hsize
    obtain ⟨type', t₂, hp'⟩ := process_total t.tables fd
      (overwrite (List.replicate buflen 0) 0 copied) hsize
    have hpr := process_ok hp
    have hpr' := process_ok hp'
    obtain ⟨evs, ha⟩ := exists_answer hmem hsize hpr (hs _)
    obtain ⟨evs', ha'⟩ := exists_answer hmem hsize hpr' (ht _)
    obtain ⟨hids, huser⟩ := hpr.user_congr hpr' h.ids h.user
    have hdup : type' = typeAuthDuplicate ↔ type = typeAuthDuplicate := by
      rw [hpr.duplicate_iff, hpr'.duplicate_iff, h.user]
    simp only [hp, hp', ha, ha', hdup]
    exact .goOn ⟨rfl, h.pc, hids, huser⟩
  · rw [process_big _ _ _ (not_le.1 hsize), process_big _ _ _ (not_le.1 hsize)]
    exact .stop _

theorem exists_handleUdp (hnews : k.news.size + 4 ≤ tcpBufferSize)
    (hfind : ∀ entry ∈ (s.tables.topicMap.getD k.topic ∅).toList,
      ∀ fd ∈ userOf s.tables.clients entry.1, fd ∈ s.multi.tcpSockets) :
    ∃ s' evs, s.handleUdp k = .ok (s', evs) ∧ Alike s s' := by
  have hne := fanOut_error s.multi k.news _ s.tables.clients hfind
  rw [handleUdp_eq]
  rcases hf : fanOut s.multi k.news _ s.tables.clients with e | ⟨clients, evs⟩
  · rcases fanOut_stop hf with rfl | ⟨-, hbig⟩
    · exact absurd hf hne
    · omega
  · exact ⟨_, _, rfl, rfl, rfl, rfl, (fannedOut_of_ok _ _ _ hf).user⟩

theorem Alike.symm (h : Alike s t) : Alike t s :=
  ⟨h.multi.symm, h.pc.symm, h.ids.symm, fun id => (h.user id).symm⟩

theorem Alike.trans {u : Server} (h : Alike s t) (h' : Alike t u) : Alike s u :=
  ⟨h'.multi.trans h.multi, h'.pc.trans h.pc, h'.ids.trans h.ids,
    fun id => (h'.user id).trans (h.user id)⟩

theorem size_news_le (k : Kernel) : k.news.size + 4 ≤ tcpBufferSize := by
  have := World.size_news k
  simp only [buflen, tcpBufferSize] at this ⊢
  omega

/-- A step on inputs that differ in the datagram stops both, or leaves them alike. -/
theorem Alike.step (h : Alike s t) (hk : SameButNews k k') (hs : Sendable s) (ht : Sendable t)
    (hcurr : ∀ fd, s.pc = .body fd → s.multi.currSockfd = fd)
    (hline : ReadsLine s k ∧ ReadsLine t k') (hfind : FindsSockets s k ∧ FindsSockets t k') :
    SameOutcome (s.step k) (t.step k') := by
  have hpass : k'.pass = k.pass := by rw [hk]
  have hnew : k'.newsockfd = k.newsockfd := by rw [hk]
  have huninit : k'.uninit = k.uninit := by rw [hk]
  have hk'line : k'.line = k.line := by rw [hk]
  have hbody : ∀ fd, s.pc = .body fd →
      SameOutcome (s.loopBody k fd) (t.loopBody k' fd) := by
    intro fd hpc
    have hat : s.At fd (s.branch fd) := ⟨hpc, rfl⟩
    have hat' : t.At fd (s.branch fd) := ⟨h.pc.trans hpc, h.branch fd⟩
    unfold Server.loopBody
    rw [h.branch fd, h.multi]
    rcases hbranch : s.branch fd <;> rw [hbranch] at hat hat' <;> dsimp only
    · have hexit := strncmpEq_fgets_of_readsLine (hline.1 ⟨fd, hat⟩)
      have hexit' := strncmpEq_fgets_of_readsLine (hline.2 ⟨fd, hat'⟩)
      rw [hk'line, ← hexit] at hexit'
      rw [hk'line]
      by_cases hstop : strncmpEq (Server.fgets s.buffer k.line) Server.exitText 4 = true
      · rw [if_pos hstop, if_pos (hexit'.2 hstop)]
        exact .stop _
      · rw [if_neg hstop, if_neg (hexit'.not.2 hstop)]
        exact .goOn ⟨rfl, h.pc, h.ids, h.user⟩
    · obtain ⟨s', evs, hs', hsame⟩ := exists_handleUdp (size_news_le k) (hfind.1 ⟨fd, hat⟩)
      obtain ⟨t', evs', ht', hsame'⟩ := exists_handleUdp (size_news_le k') (hfind.2 ⟨fd, hat'⟩)
      rw [hs', ht']
      exact .goOn ((hsame.symm.trans h).trans hsame')
    · rw [hnew, huninit]
      rcases s.multi.accept k.newsockfd k.uninit with e | ⟨multi, evs⟩
      · exact .stop _
      · exact .goOn ⟨rfl, h.pc, h.ids, h.user⟩
    · refine .goOn ⟨h.multi, h.pc, ?_, fun id => ?_⟩
      · simp only [h.ids]
      · simp only [userOf_insert, h.ids, h.user, reduceCtorEq, if_false]
    · exact h.handleTcpAppRecv hs ht (hcurr fd hpc)
  unfold Server.step
  rw [h.pc, h.multi, hpass]
  rcases hpc : s.pc with _ | _ | fd <;> dsimp only
  · exact .goOn ⟨rfl, rfl, h.ids, h.user⟩
  · split_ifs
    · exact .goOn ⟨rfl, rfl, h.ids, h.user⟩
    · exact .goOn ⟨rfl, rfl, h.ids, h.user⟩
  · have hb := hbody fd hpc
    generalize s.loopBody k fd = x at hb
    generalize t.loopBody k' fd = y at hb
    cases hb with
    | stop => exact .stop _
    | goOn h' => exact .goOn ⟨h'.multi, rfl, h'.ids, h'.user⟩

end Alike

namespace World

/-- The server, fed the inputs, gets to the input `k`, and stops there. -/
def StopsAt (udp tcp : ℤ) (buffer : Bytes) (ks : List Kernel) (k : Kernel) (e : Stop) : Prop :=
  ∃ w ∈ Runs.exec next (start udp tcp buffer) ks, w.server.step k = .error e

/-- Neither the end of the input nor a datagram stops the server in this step. -/
def Harmless (w : World) (k : Kernel) : Prop :=
  ReadsLine w.server k ∧ FindsSockets w.server k

instance (w : World) (k : Kernel) : Decidable (w.Harmless k) :=
  inferInstanceAs (Decidable (_ ∧ _))

/-- Worlds that runs reach, whose servers are alike. -/
def AlikeRuns (udp tcp : ℤ) (buffer buffer' : Bytes) (w w' : World) : Prop :=
  (∃ tr, Run udp tcp buffer tr w) ∧ (∃ tr, Run udp tcp buffer' tr w') ∧ Alike w.server w'.server

section Two

variable {udp tcp : ℤ} {buffer buffer' : Bytes} {w w' : World} {k k' : Kernel}

theorem AlikeRuns.step (h : AlikeRuns udp tcp buffer buffer' w w') (hk : SameButNews k k')
    (hC : w.Harmless k) (hC' : w'.Harmless k') :
    SameOutcome (w.server.step k) (w'.server.step k') := by
  obtain ⟨⟨tr, hr⟩, ⟨tr', hr'⟩, ha⟩ := h
  exact ha.step hk hr.sendable hr'.sendable (Run.consistent hr).curr ⟨hC.1, hC'.1⟩ ⟨hC.2, hC'.2⟩

theorem AlikeRuns.next (h : AlikeRuns udp tcp buffer buffer' w w') (hk : SameButNews k k')
    (hC : w.Harmless k) (hC' : w'.Harmless k') :
    Option.Rel (AlikeRuns udp tcp buffer buffer') (World.next w k) (World.next w' k') := by
  have hstep := h.step hk hC hC'
  obtain ⟨⟨tr, hr⟩, ⟨tr', hr'⟩, ha⟩ := h
  have hopen : (0 ≤ k'.newsockfd ∧ ¬ w'.server.IsOpen k'.newsockfd) ↔
      (0 ≤ k.newsockfd ∧ ¬ w.server.IsOpen k.newsockfd) := by
    rw [show k'.newsockfd = k.newsockfd by rw [hk]]
    simp only [Server.IsOpen, ha.multi]
  have hn : ∀ v, World.next w k = some v → Run udp tcp buffer (tr ++ [(w, k)]) v :=
    fun v hv => hr.step hv
  have hn' : ∀ v, World.next w' k' = some v → Run udp tcp buffer' (tr' ++ [(w', k')]) v :=
    fun v hv => hr'.step hv
  unfold World.next at hn hn' ⊢
  by_cases hok : 0 ≤ k.newsockfd ∧ ¬ w.server.IsOpen k.newsockfd
  · rw [if_pos hok] at hn ⊢
    rw [if_pos (hopen.2 hok)] at hn' ⊢
    unfold World.step at hn hn' ⊢
    generalize w.server.step k = x at hstep hn ⊢
    generalize w'.server.step k' = y at hstep hn' ⊢
    cases hstep with
    | stop => exact .none
    | goOn ha' => exact .some ⟨⟨_, hn _ rfl⟩, ⟨_, hn' _ rfl⟩, ha'⟩
  · rw [if_neg hok, if_neg (hopen.not.2 hok)]
    exact .none

/-- Two runs on inputs that differ in the datagrams stop at the same one, if no step of them is
stopped by a datagram. -/
theorem stopsAt_iff {ks ks' : List Kernel} {e : Stop}
    (hks : List.Forall₂ SameButNews ks ks') (hk : SameButNews k k')
    (hC : Runs.Meets World.next Harmless (start udp tcp buffer) (ks ++ [k]))
    (hC' : Runs.Meets World.next Harmless (start udp tcp buffer') (ks' ++ [k'])) :
    StopsAt udp tcp buffer ks k e ↔ StopsAt udp tcp buffer' ks' k' e := by
  obtain ⟨hC, hlast⟩ := Runs.meets_concat hC
  obtain ⟨hC', hlast'⟩ := Runs.meets_concat hC'
  have hstart : AlikeRuns udp tcp buffer buffer' (start udp tcp buffer) (start udp tcp buffer') :=
    ⟨⟨[], .start⟩, ⟨[], .start⟩, rfl, rfl, rfl, fun _ => rfl⟩
  have hrel : Option.Rel (AlikeRuns udp tcp buffer buffer')
      (Runs.exec World.next (start udp tcp buffer) ks)
      (Runs.exec World.next (start udp tcp buffer') ks') :=
    Runs.exec_rel (fun _ _ _ _ h hk hC hC' => h.next hk hC hC') hks hstart hC hC'
  unfold StopsAt
  rcases hx : Runs.exec World.next (start udp tcp buffer) ks with _ | v <;>
    rcases hy : Runs.exec World.next (start udp tcp buffer') ks' with _ | v' <;> rw [hx, hy] at hrel
  · simp
  · cases hrel
  · cases hrel
  · obtain ⟨h⟩ := hrel
    have hstep := h.step hk (hlast v hx) (hlast' v' hy)
    simp only [Option.mem_def, Option.some.injEq, exists_eq_left']
    generalize v.server.step k = x at hstep
    generalize v'.server.step k' = y at hstep
    cases hstep with
    | stop => exact .rfl
    | goOn => simp

end Two

/-- In every run the loop ends at a line of input that starts with `exit` alone exactly where
`fgets` reads a line, or the buffer does not start with `exit`. Runs in which it is so, and in which
a datagram finds its subscribers' sockets, stop at the same event if they differ in the datagrams.
-/
theorem stops_for_operator (udp tcp : ℤ) (buffer : Bytes) :
    (∀ tr w, Run udp tcp buffer tr w → ∀ k, StopsForOperator w.server k ↔ ReadsLine w.server k) ∧
      ∀ buffer' ks ks' k k' e, List.Forall₂ SameButNews ks ks' → SameButNews k k' →
        Runs.Meets next Harmless (start udp tcp buffer) (ks ++ [k]) →
          Runs.Meets next Harmless (start udp tcp buffer') (ks' ++ [k']) →
            (StopsAt udp tcp buffer ks k e ↔ StopsAt udp tcp buffer' ks' k' e) :=
  ⟨fun _ w _ k => stopsForOperator_iff w.server k,
    fun _ _ _ _ _ _ hks hk hC hC' => stopsAt_iff hks hk hC hC'⟩

/-- A datagram comes in, and after it `select` reports the input. -/
def datagramInputs (datagram : Bytes) : List Kernel :=
  [.quiet, .ready {3} [], .quiet, { Kernel.quiet with datagram }, .quiet, .ready {0} [], .quiet]

/-- A line `exit`. -/
def exitLine : Kernel :=
  { Kernel.quiet with line := some (Server.exitText ++ [10]) }

set_option maxRecDepth 10000 in
/-- With a line `exit` behind them, the datagrams `exit` and `n` are the same. -/
theorem stops_for_operator_line :
    (∃ tr w, Run 3 4 [] tr w ∧ tr.map Prod.snd = datagramInputs Server.exitText ∧
        StopsForOperator w.server exitLine) ∧
      (StopsAt 3 4 [] (datagramInputs Server.exitText) exitLine .exit ↔
        StopsAt 3 4 [] (datagramInputs [110]) exitLine .exit) := by
  have hline : ∃ w ∈ Runs.exec next (start 3 4 []) (datagramInputs Server.exitText),
      ReadsLine w.server exitLine := by
    decide +kernel
  obtain ⟨tr, w, hr, htr, hline⟩ := Runs.exists_run_of_exec hline
  obtain ⟨hstops, hsame⟩ := stops_for_operator 3 4 []
  refine ⟨⟨tr, w, hr, htr, (hstops tr w hr exitLine).2 hline⟩, hsame [] _ _ _ _ _ ?_ rfl ?_ ?_⟩
  · simp [datagramInputs, SameButNews]
  · decide +kernel
  · decide +kernel

set_option maxRecDepth 10000 in
/-- At the end of the input, a datagram `exit` stops the server, and another does not. -/
theorem not_stops_for_operator_eof :
    (∃ tr w, Run 3 4 [] tr w ∧ tr.map Prod.snd = datagramInputs Server.exitText ∧
        Kernel.quiet.line = none ∧ ¬ StopsForOperator w.server .quiet) ∧
      StopsAt 3 4 [] (datagramInputs Server.exitText) .quiet .exit ∧
        ¬ StopsAt 3 4 [] (datagramInputs [110]) .quiet .exit := by
  have hexit : ∃ w ∈ Runs.exec next (start 3 4 []) (datagramInputs Server.exitText),
      ¬ ReadsLine w.server .quiet ∧ (∃ fd, w.server.At fd .stdin) ∧
        strncmpEq (Server.fgets w.server.buffer none) Server.exitText 4 = true := by
    decide +kernel
  have hother : ¬ ∃ w ∈ Runs.exec next (start 3 4 []) (datagramInputs [110]),
      (∃ fd, w.server.At fd .stdin) ∧
        strncmpEq (Server.fgets w.server.buffer none) Server.exitText 4 = true := by
    decide +kernel
  refine ⟨?_, ?_, fun h => hother ?_⟩
  · obtain ⟨tr, w, hr, htr, hline, -⟩ := Runs.exists_run_of_exec hexit
    exact ⟨tr, w, hr, htr, rfl, (stopsForOperator_iff _ _).not.2 hline⟩
  · obtain ⟨w, hw, -, hstop⟩ := hexit
    exact ⟨w, hw, (step_eq_exit_iff _ _).2 hstop⟩
  · obtain ⟨w, hw, hstop⟩ := h
    exact ⟨w, hw, (step_eq_exit_iff _ _).1 hstop⟩

end World

end NewsServer
