import NewsServer.Proofs.Connections

/-!
# Who a connection is

What `ids_map` and `clients` hold for the descriptor of an open connection is what the connection
logged in as, as long as every descriptor that `accept` gives was cleaned up before. The connections
that the answer to a second `AUTH` closes are not (`identityBound_iff`).

No two open connections are logged in under one id, and an `AUTH` for an id in use is declined, as
long as no `SOCK_CLOSE` is handled that disconnects the id of an open connection
(`uniqueLogin_iff`).
-/

namespace NewsServer

open Sessions

namespace World

/-! ## Descriptors -/

/-- What the maps hold for the descriptor of an open socket, its own connection logged in as. -/
def IdentityBound (w : World) : Prop :=
  ∀ fd ∈ w.server.multi.tcpSockets, ∀ id,
    w.server.tables.idsMap[fd]? = some id ∨ userOf w.server.tables.clients id = some fd →
      ∃ c, w.conn fd = some c ∧ w.Authed c id

/-- Subscriptions are changed by connections, and news is sent to connections, that logged in as the
id. -/
def Honest (w : World) (k : Kernel) : Prop :=
  ∀ w', next w k = some w' →
    (∀ topic id, flagOf w'.server.tables.topicMap topic id ≠
        flagOf w.server.tables.topicMap topic id →
      ∃ fd c, w.server.At fd .recv ∧ w.conn fd = some c ∧ w.Authed c id) ∧
    ∀ id fd packet, .forwarded id fd packet ∈ w.events k ∨ .replayed id fd packet ∈ w.events k →
      ∃ c, w'.conn fd = some c ∧ w'.Authed c id

/-- If the step accepts a connection, nothing is kept for the descriptor it gets. -/
def AcceptsClean (w : World) (k : Kernel) : Prop :=
  ∀ fd, w.server.At fd .accept → w.server.tables.idsMap[k.newsockfd]? = none ∧
    ∀ id, userOf w.server.tables.clients id ≠ some k.newsockfd

variable {w w' : World} {k : Kernel}

theorem identityBound_iff_genuine (h : w.Consistent) :
    w.IdentityBound ↔ w.registry.Genuine := by
  constructor
  · intro hb fd id c hk hon
    rw [h.bound, h.user] at hk
    obtain ⟨d, hd, hmem⟩ := hb fd ((h.on fd).1 (by rw [hon]; rfl)) id hk
    rw [conn, hon, Option.some.injEq] at hd
    exact hd ▸ hmem
  · intro hg fd hfd id hk
    obtain ⟨c, hon⟩ := h.exists_on hfd
    rw [← h.bound, ← h.user] at hk
    exact ⟨c, hon, hg fd id c hk hon⟩

/-- Only accepting a connection can give a descriptor away with something kept for it. -/
theorem genuine_next_iff (h : w.Consistent) (hg : w.registry.Genuine) (hn : next w k = some w') :
    w'.registry.Genuine ↔ w.AcceptsClean k := by
  have heff := h.effect hn
  have hclean : (∀ fd, ¬ w.server.At fd .accept) → w.AcceptsClean k := fun hne fd hat =>
    absurd hat (hne fd)
  have hpc : ∀ {fd b}, w.server.At fd b → b ≠ .accept → w.AcceptsClean k := fun hat hb =>
    hclean (hat.not hb)
  generalize w'.registry = r' at heff
  cases heff with
  | same _ haccept => exact ⟨fun _ => hclean haccept, fun _ => hg⟩
  | pass hpc hclose =>
    exact ⟨fun _ => hclean fun fd => Server.not_at_of_pc (.inr hpc) fd _,
      fun _ => List.foldlRecOn _ Registry.drop hg fun _ h fd _ => h.drop fd⟩
  | accept hat hfresh =>
    rw [Registry.genuine_accept_iff h.sound hg, h.bound]
    simp only [h.user]
    exact ⟨fun hc fd _ => hc, fun hc => hc _ hat⟩
  | release hat => exact ⟨fun _ => hpc hat (by decide), fun _ => hg.release _ _⟩
  | login hat hin hsize hauth hon => exact ⟨fun _ => hpc hat (by decide), fun _ => hg.login hon _⟩
  | refuse hat => exact ⟨fun _ => hpc hat (by decide), fun _ => hg.drop _⟩

theorem honest_of_identityBound (h : w.Consistent) (hb : w.IdentityBound) (k : Kernel) :
    w.Honest k := by
  intro w' hn
  obtain ⟨hd, -, -⟩ := h.does hn
  refine ⟨fun topic id hne => ?_, fun id fd packet he => ?_⟩
  · obtain ⟨fd, hat, hmem, hid⟩ := hd.flagOf_ne hne
    obtain ⟨c, hon, hauthed⟩ := hb fd hmem id (.inl hid)
    exact ⟨fd, c, hat, hon, hauthed⟩
  · obtain ⟨⟨fd', hat⟩, huser, hmem⟩ := hd.delivered he
    have hclean : w.AcceptsClean k := by
      intro x hx
      rcases hat with hat | hat
      · exact absurd hx (hat.not (by decide) x)
      · exact absurd hx (hat.not (by decide) x)
    have hg' := (genuine_next_iff h ((identityBound_iff_genuine h).1 hb) hn).2 hclean
    exact (identityBound_iff_genuine (h.next hn)).2 hg' fd hmem id (.inr huser)

/-- In every run the maps hold for each open socket what its own connection logged in as, and
nothing is subscribed or delivered for another id, exactly if nothing is kept for a descriptor when
`accept` gives it. -/
theorem identityBound_iff {udp tcp : ℤ} {buffer : Bytes} {tr : List (World × Kernel)} {w : World}
    (h : Run udp tcp buffer tr w) :
    ((∀ v ∈ Runs.states tr w, v.IdentityBound) ∧ ∀ q ∈ tr, q.1.Honest q.2) ↔
      ∀ q ∈ tr, q.1.AcceptsClean q.2 := by
  have hiff := Runs.Run.states_iff (I := Consistent) (P := fun v => v.registry.Genuine)
    (C := AcceptsClean) (consistent_start udp tcp buffer) (fun _ _ _ hv hn => hv.next hn)
    Registry.genuine_empty (fun _ _ _ hv hg hc hn => (genuine_next_iff hv hg hn).2 hc)
    (fun _ _ _ hv hg hn hg' => (genuine_next_iff hv hg hn).1 hg') h
  have hcons := Run.consistent_states h
  rw [← hiff]
  constructor
  · exact fun hb v hv => (identityBound_iff_genuine (hcons v hv)).1 (hb.1 v hv)
  · intro hg
    have hb : ∀ v ∈ Runs.states tr w, v.IdentityBound := fun v hv =>
      (identityBound_iff_genuine (hcons v hv)).2 (hg v hv)
    refine ⟨hb, fun q hq => ?_⟩
    have hmem := Runs.mem_states_of_mem hq w
    exact honest_of_identityBound (hcons _ hmem) (hb _ hmem) q.2

set_option maxRecDepth 10000 in
/-- A connection logs in on 5. -/
theorem identityBound_iff_login : ∃ (tr : List (World × Kernel)) (w : World),
    tr.map Prod.snd = loginInputs 5 65 ∧ w.conn 5 = some 0 ∧
    (((∀ v ∈ Runs.states tr w, v.IdentityBound) ∧ ∀ q ∈ tr, q.1.Honest q.2) ↔
      ∀ q ∈ tr, q.1.AcceptsClean q.2) := by
  have hconn : ∃ w ∈ Runs.exec next (start 3 4 []) (loginInputs 5 65), w.conn 5 = some 0 := by
    decide +kernel
  obtain ⟨tr, w, hr, htr, hconn⟩ := Runs.exists_run_of_exec hconn
  exact ⟨tr, w, htr, hconn, identityBound_iff hr⟩

/-- A connection on 5 logs in as `A` and again, and is closed; a new connection gets 5. -/
def reuseInputs : List Kernel :=
  [.quiet, .ready {4} [], .quiet, .connect 5,
    .quiet, .ready {5} [(5, [0, 0, 0, 2, 1, 65, 0, 0, 0, 2, 1, 65])],
    .quiet, .quiet, .quiet, .quiet, .quiet, .ready {4} [], .quiet, .connect 5]

set_option maxRecDepth 10000 in
/-- The new connection, which has sent nothing, has the id of the old one. -/
theorem not_identityBound_reuse : ∃ tr w, Run 3 4 [] tr w ∧ tr.map Prod.snd = reuseInputs ∧
    ¬ w.IdentityBound := by
  have hkept : ∃ w ∈ Runs.exec next (start 3 4 []) reuseInputs, 5 ∈ w.server.multi.tcpSockets ∧
      w.server.tables.idsMap[(5 : ℤ)]? = some [65] ∧ w.conn 5 = some 1 ∧
        (1, [65]) ∉ w.registry.logins := by
    decide +kernel
  obtain ⟨tr, w, hr, htr, hmem, hid, hconn, hnot⟩ := Runs.exists_run_of_exec hkept
  refine ⟨tr, w, hr, htr, fun hb => ?_⟩
  obtain ⟨c, hc, hauthed⟩ := hb 5 hmem [65] (.inl hid)
  rw [hconn, Option.some.injEq] at hc
  exact hnot (hc ▸ hauthed)

/-! ## Names -/

/-- No two open connections had an `AUTH` of the same id accepted. -/
def UniqueLogin (w : World) : Prop :=
  ∀ fd fd' id c c', w.conn fd = some c → w.conn fd' = some c' → w.Authed c id → w.Authed c' id →
    c = c'

/-- An `AUTH` of an id that an open connection is logged in as gives `TYPE_AUTH_DUPLICATE`. -/
def DeclinesUsed (w : World) : Prop :=
  ∀ fd c id, w.conn fd = some c → w.Authed c id → ∀ fd' buf, buf.length ≤ cliPacketSize →
    frameType buf = typeAuth → frameField buf = id →
      ∃ t, processTcpClientPacket w.server.tables fd' buf buf.length = .ok (typeAuthDuplicate, t)

/-- If the frame to be handled is an `AUTH` of an id that an open connection is logged in as, the
server sends the byte `TYPE_AUTH_DUPLICATE` for it and closes the connection. -/
def AnswersUsed (w : World) : Prop :=
  ∀ fd c fd' buf, w.conn fd = some c → w.server.At fd' .recv → w.server.incoming = some buf →
    buf.length ≤ cliPacketSize → frameType buf = typeAuth → w.Authed c (frameField buf) →
      ∀ k, ∃ s' past, (past = [] ∨ past = [.pastPacket]) ∧
        w.server.step k = .ok (s', .frame fd' buf typeAuthDuplicate :: past ++
          [.sent fd' (wire [typeAuthDuplicate]), .closed fd'])

/-- If the step handles a `SOCK_CLOSE`, no open connection is logged in as the id it disconnects. -/
def FreesUnused (w : World) : Prop :=
  ∀ fd, w.server.At fd .closed → ∀ fd' c, w.conn fd' = some c →
    ¬ w.Authed c (w.server.tables.idsMap.getD fd [])

theorem inUse_of_declinesUsed (h : w.Consistent)
    (hframe : ∀ c id, w.Authed c id →
      ∃ buf, buf.length ≤ cliPacketSize ∧ frameType buf = typeAuth ∧ frameField buf = id)
    (hd : w.DeclinesUsed) : w.registry.InUse := by
  intro fd id c hon hl
  obtain ⟨buf, hsize, hauth, rfl⟩ := hframe c id hl
  obtain ⟨t, ht⟩ := hd fd c _ hon hl fd buf hsize hauth rfl
  have hp := process_ok ht
  rw [List.take_length] at hp
  rw [h.user, Option.isSome_iff_ne_none]
  intro hfree
  have := hp.of_free hauth hfree
  exact absurd this (by decide)

theorem declinesUsed_of_inUse (h : w.Consistent) (hu : w.registry.InUse) : w.DeclinesUsed := by
  intro fd c id hon hl fd' buf hsize hauth hid
  subst hid
  obtain ⟨type, t, ht⟩ := process_total w.server.tables fd' buf hsize
  have hp := process_ok ht
  rw [List.take_length] at hp
  have hused := hu fd _ c hon hl
  rw [h.user] at hused
  rw [hp.of_used hauth hused] at ht
  exact ⟨t, ht⟩

theorem answersUsed_of_inUse (h : w.Consistent) (hu : w.registry.InUse) : w.AnswersUsed := by
  intro fd c fd' buf hon hat hin hsize hauth hl k
  have hused := hu fd _ c hon hl
  rw [h.user] at hused
  exact step_of_used hat (h.curr _ hat.1) hin hsize hauth hused k

/-- Only the handling of a `SOCK_CLOSE` can put the id of an open connection out of use. -/
theorem inUse_next_iff (h : w.Consistent) (hu : w.registry.InUse) (hn : next w k = some w') :
    w'.registry.InUse ↔ w.FreesUnused := by
  have heff := h.effect hn
  have hfrees : (∀ fd, ¬ w.server.At fd .closed) → w.FreesUnused := fun hne fd hat =>
    absurd hat (hne fd)
  generalize w'.registry = r' at heff
  cases heff with
  | same hclosed => exact ⟨fun _ => hfrees hclosed, fun _ => hu⟩
  | pass hpc hclose =>
    exact ⟨fun _ => hfrees fun fd => Server.not_at_of_pc (.inr hpc) fd _,
      fun _ => List.foldlRecOn _ Registry.drop hu fun _ h fd _ => h.drop fd⟩
  | accept hat => exact ⟨fun _ => hfrees (hat.not (by decide)), fun _ => hu.accept h.sound _⟩
  | @release fd hat =>
    rw [Registry.inUse_release_iff hu, h.bound, ← Std.TreeMap.getD_eq_getD_getElem?]
    constructor
    · intro hfree x hx a c hon
      obtain ⟨rfl, -⟩ := hat.eq hx
      exact hfree a c hon
    · exact fun hf a c hon => hf fd hat a c hon
  | login hat => exact ⟨fun _ => hfrees (hat.not (by decide)), fun _ => hu.login _ _ _⟩
  | refuse hat => exact ⟨fun _ => hfrees (hat.not (by decide)), fun _ => hu.drop _⟩

/-- While ids of open connections are in use, no second one logs in under them. -/
theorem unique_next (h : w.Consistent) (hq : w.registry.Unique) (hu : w.registry.InUse)
    (hn : next w k = some w') : w'.registry.Unique := by
  have heff := h.effect hn
  generalize w'.registry = r' at heff
  cases heff with
  | same => exact hq
  | pass => exact List.foldlRecOn _ Registry.drop hq fun _ h fd _ => h.drop fd
  | accept => exact hq.accept h.sound _
  | release => exact hq
  | login _ _ _ _ _ hfree => exact hq.login hu hfree _ _
  | refuse => exact hq.drop _

/-- In every run no two open connections are logged in under one id, and an `AUTH` of an id in use
is declined, exactly if every `SOCK_CLOSE` that is handled disconnects an id that no open connection
is logged in as. -/
theorem uniqueLogin_iff {udp tcp : ℤ} {buffer : Bytes} {tr : List (World × Kernel)} {w : World}
    (h : Run udp tcp buffer tr w) :
    (∀ v ∈ Runs.states tr w, v.UniqueLogin ∧ v.DeclinesUsed ∧ v.AnswersUsed) ↔
      ∀ q ∈ tr, q.1.FreesUnused := by
  have hcons := Run.consistent_states h
  have hiff := Runs.Run.states_iff (I := Consistent)
    (P := fun v => v.registry.Unique ∧ v.registry.InUse) (C := fun v _ => v.FreesUnused)
    (consistent_start udp tcp buffer) (fun _ _ _ hv hn => hv.next hn)
    ⟨Registry.unique_empty, Registry.inUse_empty⟩
    (fun _ _ _ hv hp hc hn => ⟨unique_next hv hp.1 hp.2 hn, (inUse_next_iff hv hp.2 hn).2 hc⟩)
    (fun _ _ _ hv hp hn hp' => (inUse_next_iff hv hp.2 hn).1 hp'.2) h
  rw [← hiff]
  constructor
  · intro hp v hv
    obtain ⟨tr', -, hr⟩ := h.of_mem_states v hv
    obtain ⟨hq, hd, -⟩ := hp v hv
    exact ⟨hq, inUse_of_declinesUsed (hcons v hv) (Run.exists_frame hr) hd⟩
  · intro hp v hv
    obtain ⟨hq, hu⟩ := hp v hv
    exact ⟨hq, declinesUsed_of_inUse (hcons v hv) hu, answersUsed_of_inUse (hcons v hv) hu⟩

set_option maxRecDepth 10000 in
/-- A connection logs in on 5. -/
theorem uniqueLogin_iff_login : ∃ (tr : List (World × Kernel)) (w : World),
    tr.map Prod.snd = loginInputs 5 65 ∧ w.Authed 0 [65] ∧
    ((∀ v ∈ Runs.states tr w, v.UniqueLogin ∧ v.DeclinesUsed ∧ v.AnswersUsed) ↔
      ∀ q ∈ tr, q.1.FreesUnused) := by
  have hauthed : ∃ w ∈ Runs.exec next (start 3 4 []) (loginInputs 5 65),
      (0, [65]) ∈ w.registry.logins := by
    decide +kernel
  obtain ⟨tr, w, hr, htr, hauthed⟩ := Runs.exists_run_of_exec hauthed
  exact ⟨tr, w, htr, hauthed, uniqueLogin_iff hr⟩

/-- 5 connects, and 6 logs in as `A`. In one pass the peer of 5 closes and one byte of a header
comes in on 6. A connection on 7 logs in as `A`. -/
def stolenInputs : List Kernel :=
  [.quiet, .ready {4} [], .quiet, .connect 5] ++ loginInputs 6 65 ++
    [.quiet, .ready {5, 6} [(5, []), (6, [0])], .quiet, .quiet, .quiet, .quiet] ++ loginInputs 7 65

set_option maxRecDepth 10000 in
/-- Both connections are open. -/
theorem not_uniqueLogin_stolen : ∃ tr w, Run 3 4 [] tr w ∧ tr.map Prod.snd = stolenInputs ∧
    ¬ w.UniqueLogin := by
  have hboth : ∃ w ∈ Runs.exec next (start 3 4 []) stolenInputs, w.conn 6 = some 1 ∧
      w.conn 7 = some 2 ∧ (1, [65]) ∈ w.registry.logins ∧ (2, [65]) ∈ w.registry.logins := by
    decide +kernel
  obtain ⟨tr, w, hr, htr, h₆, h₇, h₁, h₂⟩ := Runs.exists_run_of_exec hboth
  exact ⟨tr, w, hr, htr, fun hu => absurd (hu 6 7 [65] 1 2 h₆ h₇ h₁ h₂) (by decide)⟩

end World

end NewsServer
