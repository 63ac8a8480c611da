import NewsServer.Proofs.CommandFields
import NewsServer.Proofs.FrameBounds
import NewsServer.Proofs.Receive

/-!
# What a connection can change

A frame changes what is kept of the id its connection is bound to, or of the one it logs in as. A
close does too, if the connection is bound to an id; if it is not, `ids_map[fd]` is the empty
string, and the close makes an entry for that, or disconnects it.
-/

namespace NewsServer

open Memory

/-- What is kept of the id `x` is as it was. -/
structure Unchanged (t t' : Tables) (x : Bytes) : Prop where
  client : t'.clients[x]? = t.clients[x]?
  flags : ∀ topic, flagOf t'.topicMap topic x = flagOf t.topicMap topic x

/-- The maps hold what they held. -/
structure SameTables (t t' : Tables) : Prop where
  clients : ∀ x : Bytes, t'.clients[x]? = t.clients[x]?
  topics : t'.topicMap = t.topicMap
  ids : ∀ fd : ℤ, t'.idsMap[fd]? = t.idsMap[fd]?

theorem SameTables.refl (t : Tables) : SameTables t t :=
  ⟨fun _ => rfl, rfl, fun _ => rfl⟩

theorem SameTables.unchanged {t t' : Tables} (h : SameTables t t') (x : Bytes) :
    Unchanged t t' x :=
  ⟨h.clients x, fun topic => by rw [h.topics]⟩

namespace Server

/-- The event of `fd` that the next step handles is about the id `x`: the connection is bound to it,
or its frame is an `AUTH` for it, which nobody is logged in as. -/
def Concerns (s : Server) (fd : ℤ) (x : Bytes) : Prop :=
  s.tables.idsMap[fd]? = some x ∨ s.At fd .recv ∧
    ∃ buf ∈ s.incoming, frameType buf = typeAuth ∧ frameField buf = x ∧
      userOf s.tables.clients x = none

/-- The step changes nothing but what is kept of the ids its event is about. -/
def Isolated (s : Server) (k : Kernel) (fd : ℤ) : Prop :=
  s.step k ≠ .error .overrun ∧ ∀ s' evs, s.step k = .ok (s', evs) →
    (∀ x, ¬ s.Concerns fd x → Unchanged s.tables s'.tables x) ∧
      ((∀ x, ¬ s.Concerns fd x) → SameTables s.tables s'.tables)

/-- The packet that `recv` would give. -/
def front (s : Server) : Option Bytes :=
  s.multi.tcpSockets[s.multi.currSockfd]?.bind fun sock => sock.packets.head?

/-- The frame fits in the buffer, and a connection that closes is bound to an id, or there is a
client with the empty id, who is not connected. -/
def Confined (s : Server) : Prop :=
  (∀ fd, s.At fd .recv → ∀ p ∈ s.front, p.length ≤ buflen) ∧
    ∀ fd, s.At fd .closed → s.tables.idsMap[fd]? = none →
      ∃ sub ∈ s.tables.clients[([] : Bytes)]?, sub.state = .disconnected

instance (s : Server) : Decidable s.Confined :=
  inferInstanceAs (Decidable (_ ∧ _))

end Server

section Command

variable {t : Tables} {fd : ℤ} {type : UInt8} {key : Bytes}

theorem command_of_used (hauth : type = typeAuth) (hused : (userOf t.clients key).isSome) :
    command t fd type key = (typeAuthDuplicate, t) := by
  have hmem : key ∈ t.clients := by
    by_contra hno
    simp [userOf, Std.TreeMap.getD_eq_fallback hno, default] at hused
  unfold command
  rw [if_pos hauth, if_pos hused, withClient, if_pos hmem]

/-- A command of a connection that is bound to `id` changes at most its subscription. -/
theorem command_of_bound (key : Bytes) {id : Bytes} (hauth : type ≠ typeAuth)
    (hid : t.idsMap[fd]? = some id) :
    command t fd type key = (type, t) ∨ ∃ ids : Std.TreeMap Bytes UInt8,
      (∀ x, x ≠ id → ids[x]? = flagOf t.topicMap key x) ∧
        command t fd type key = (type, { t with topicMap := t.topicMap.insert key ids }) := by
  unfold command
  rw [if_neg hauth, hid]
  by_cases hsub : type = typeSub ∨ type = typeSubSf
  · rw [if_pos hsub]
    refine .inr ⟨_, fun x hx => ?_, rfl⟩
    simp [Std.TreeMap.getElem?_insert, flagOf, hx.symm]
  rw [if_neg hsub]
  by_cases hunsub : type = typeUnsub
  · rw [if_pos hunsub]
    refine .inr ⟨_, fun x hx => ?_, rfl⟩
    simp [Std.TreeMap.getElem?_erase, flagOf, hx.symm]
  · rw [if_neg hunsub]
    exact .inl rfl

theorem command_of_unbound (hauth : type ≠ typeAuth) (hid : t.idsMap[fd]? = none) :
    (command t fd type key).2 = t := by
  unfold command
  rw [if_neg hauth, hid]
  by_cases hsub : type = typeSub ∨ type = typeSubSf
  · rw [if_pos hsub]
  rw [if_neg hsub]
  by_cases hunsub : type = typeUnsub
  · rw [if_pos hunsub]
  · rw [if_neg hunsub]

/-- A command changes what is kept of the id it logs in, and of the one its connection is bound
to. -/
theorem command_unchanged {x : Bytes}
    (hlog : ¬ (type = typeAuth ∧ key = x ∧ userOf t.clients x = none))
    (hid : t.idsMap[fd]? ≠ some x) : Unchanged t (command t fd type key).2 x := by
  have hsame := (SameTables.refl t).unchanged x
  by_cases hauth : type = typeAuth
  · by_cases hused : (userOf t.clients key).isSome
    · rwa [command_of_used hauth hused]
    have hx : key ≠ x := by
      rintro rfl
      exact hlog ⟨hauth, rfl, Option.not_isSome_iff_eq_none.1 hused⟩
    unfold command
    rw [if_pos hauth, if_neg hused]
    refine ⟨?_, fun _ => rfl⟩
    dsimp only
    rw [Std.TreeMap.getElem?_insert, if_neg (by simpa using hx), withClient]
    split_ifs
    · rfl
    · rw [Std.TreeMap.getElem?_insert, if_neg (by simpa using hx)]
  rcases hbound : t.idsMap[fd]? with _ | id
  · rwa [command_of_unbound hauth hbound]
  rcases command_of_bound key hauth hbound with h | ⟨ids, hids, h⟩
  · rwa [h]
  · rw [h]
    refine ⟨rfl, fun topic => ?_⟩
    by_contra hne
    obtain rfl := flagOf_ne hids hne
    exact hid hbound

/-- A command that logs nobody in, of a connection that is not bound, does nothing. -/
theorem command_same (hlog : ¬ (type = typeAuth ∧ userOf t.clients key = none))
    (hid : t.idsMap[fd]? = none) : (command t fd type key).2 = t := by
  by_cases hauth : type = typeAuth
  · rw [command_of_used hauth (Option.ne_none_iff_isSome.1 fun h => hlog ⟨hauth, h⟩)]
  · exact command_of_unbound hauth hid

end Command

section Step

variable {s s' : Server} {k : Kernel} {fd : ℤ} {evs : List Event}

theorem step_of_closed (hat : s.At fd .closed) (k : Kernel) :
    s.step k = .ok ({ (s.handleClosed fd).1 with pc := .top }, (s.handleClosed fd).2) := by
  obtain ⟨hpc, hb⟩ := hat
  simp only [Server.step, hpc, Server.loopBody, hb]

theorem handleTcpAppRecv_ne_overrun_iff (hm : s.multi.Sound) (fd : ℤ) :
    s.handleTcpAppRecv fd ≠ .error .overrun ↔ ∀ p ∈ s.front, p.length ≤ buflen := by
  unfold Server.front
  rcases hs : s.multi.tcpSockets[s.multi.currSockfd]? with _ | sock
  · rw [ne_eq, handleTcpAppRecv_overrun, MultiSocket.recv_of_none hs]
    simp
  rcases hp : sock.packets with _ | ⟨p, rest⟩
  · rw [ne_eq, handleTcpAppRecv_overrun,
      MultiSocket.recv_of_not_ready hs (BufferedTcpSocket.packetReady_eq_false.2 hp)]
    simp [hp]
  · rw [ne_eq, handleTcpAppRecv_overrun_iff fd hs (hm.wf _ _ hs) hp]
    simp [hp]

theorem isolated_of_recv (hat : s.At fd .recv) (k : Kernel) :
    s.Isolated k fd ↔ s.handleTcpAppRecv fd ≠ .error .overrun := by
  have hstep := step_of_recv hat k
  constructor
  · rintro ⟨hover, -⟩ h
    rw [hstep, h] at hover
    exact hover rfl
  intro hover
  refine ⟨fun h => hover ?_, fun s' evs h => ?_⟩
  · rw [hstep] at h
    rcases hh : s.handleTcpAppRecv fd with e | ⟨s₁, evs₁⟩ <;> rw [hh] at h
    · exact congrArg _ (Except.error.inj h)
    · simp at h
  rw [hstep] at h
  rcases hh : s.handleTcpAppRecv fd with e | ⟨s₁, evs₁⟩ <;> rw [hh] at h
  · simp at h
  obtain ⟨rfl, -⟩ := Prod.mk.inj (Except.ok.inj h)
  dsimp only
  rcases handleTcpAppRecv_tables hh with ⟨-, htables⟩ | ⟨buf, hbuf, htables⟩ <;> rw [htables]
  · exact ⟨fun x _ => (SameTables.refl _).unchanged x, fun _ => .refl _⟩
  constructor
  · intro x hx
    refine command_unchanged (fun hlog => hx (.inr ⟨hat, buf, hbuf, hlog⟩)) fun hid => hx (.inl hid)
  · intro hx
    rw [command_same (fun hlog => hx _ (.inr ⟨hat, buf, hbuf, hlog.1, rfl, hlog.2⟩))]
    · exact .refl _
    · rcases hid : s.tables.idsMap[fd]? with _ | id
      · rfl
      · exact absurd (.inl hid) (hx id)

/-- What is kept of an id after a close. -/
theorem handleClosed_getElem? (fd : ℤ) (x : Bytes) :
    (s.handleClosed fd).1.tables.clients[x]? =
      if s.tables.idsMap.getD fd [] = x then
        some { s.tables.clients.getD x default with state := .disconnected }
      else s.tables.clients[x]? := by
  simp only [Server.handleClosed, Std.TreeMap.getElem?_insert, Std.compare_eq_iff_eq]
  split_ifs with hx
  · rw [hx]
  · rfl

/-- The close of a connection that is not bound leaves the maps as they are, exactly if a client
with the empty id is there and not connected. -/
theorem sameTables_handleClosed_iff (hid : s.tables.idsMap[fd]? = none) :
    SameTables s.tables (s.handleClosed fd).1.tables ↔
      ∃ sub ∈ s.tables.clients[([] : Bytes)]?, sub.state = .disconnected := by
  have hget : s.tables.idsMap.getD fd [] = [] := by
    rw [Std.TreeMap.getD_eq_getD_getElem?, hid, Option.getD_none]
  have hclient := handleClosed_getElem? (s := s) fd
  rw [hget] at hclient
  constructor
  · intro h
    have hnil := h.clients []
    rw [hclient, if_pos rfl] at hnil
    exact ⟨_, hnil.symm, rfl⟩
  · rintro ⟨sub, hsub, hstate⟩
    refine ⟨fun x => ?_, rfl, fun fd' => ?_⟩
    · rw [hclient]
      split_ifs with hx
      · rw [← hx, Std.TreeMap.getD_eq_getD_getElem?, hsub, Option.getD_some, ← hstate]
      · rfl
    · simp only [Server.handleClosed, Std.TreeMap.getElem?_erase, Std.compare_eq_iff_eq]
      split_ifs with hfd
      · rw [← hfd, hid]
      · rfl

theorem isolated_of_closed (hat : s.At fd .closed) (k : Kernel) :
    s.Isolated k fd ↔ (s.tables.idsMap[fd]? = none →
      ∃ sub ∈ s.tables.clients[([] : Bytes)]?, sub.state = .disconnected) := by
  have hstep := step_of_closed hat k
  have hconcerns : ∀ x, s.Concerns fd x ↔ s.tables.idsMap[fd]? = some x := by
    intro x
    rw [Server.Concerns, or_iff_left]
    exact fun h => hat.not (by simp) fd h.1
  have hisolated : s.Isolated k fd ↔
      (∀ x, ¬ s.tables.idsMap[fd]? = some x →
        Unchanged s.tables (s.handleClosed fd).1.tables x) ∧
      ((∀ x, ¬ s.tables.idsMap[fd]? = some x) →
        SameTables s.tables (s.handleClosed fd).1.tables) := by
    simp only [Server.Isolated, hconcerns, hstep]
    simp
  rw [hisolated]
  rcases hid : s.tables.idsMap[fd]? with _ | id
  · rw [← sameTables_handleClosed_iff hid]
    simp only [reduceCtorEq, not_false_eq_true, forall_const]
    exact ⟨And.right, fun h => ⟨h.unchanged, h⟩⟩
  · have hget : s.tables.idsMap.getD fd [] = id := by
      rw [Std.TreeMap.getD_eq_getD_getElem?, hid, Option.getD_some]
    refine iff_of_true ⟨fun x hx => ⟨?_, fun _ => rfl⟩, fun h => absurd rfl (h id)⟩ (by simp)
    rw [handleClosed_getElem?, hget, if_neg fun h => hx (congrArg some h)]

end Step

namespace World

/-- In a run every frame and every close changes only what it is about, exactly if every frame fits
in the buffer and every close is of a connection that is bound, or finds the empty id there. -/
theorem isolated_iff {udp tcp : ℤ} {buffer : Bytes} {tr : List (World × Kernel)} {w : World}
    (h : Run udp tcp buffer tr w) :
    (∀ v ∈ Runs.states tr w, ∀ fd k, v.server.At fd .recv ∨ v.server.At fd .closed →
      v.server.Isolated k fd) ↔ ∀ v ∈ Runs.states tr w, v.server.Confined := by
  refine forall₂_congr fun v hv => ?_
  obtain ⟨tr', -, hr⟩ := h.of_mem_states v hv
  have hsound := Run.sound hr
  constructor
  · intro hiso
    refine ⟨fun fd hat => ?_, fun fd hat => ?_⟩
    · have hfd := hiso fd .quiet (.inl hat)
      rwa [isolated_of_recv hat, handleTcpAppRecv_ne_overrun_iff hsound] at hfd
    · have hfd := hiso fd .quiet (.inr hat)
      rwa [isolated_of_closed hat] at hfd
  · rintro ⟨hrecv, hclosed⟩ fd k (hat | hat)
    · rw [isolated_of_recv hat, handleTcpAppRecv_ne_overrun_iff hsound]
      exact hrecv fd hat
    · rw [isolated_of_closed hat]
      exact hclosed fd hat

/-- A connection logs in as `A` on 5, and is closed. -/
def closeInputs : List Kernel :=
  loginInputs 5 65 ++ [.quiet, .ready {5} [(5, [])], .quiet, .quiet]

set_option maxRecDepth 10000 in
theorem isolated_iff_login : ∃ tr w, Run 3 4 [] tr w ∧ tr.map Prod.snd = closeInputs ∧
    ∀ v ∈ Runs.states tr w, ∀ fd k, v.server.At fd .recv ∨ v.server.At fd .closed →
      v.server.Isolated k fd := by
  have hrun : ∃ x ∈ Runs.exec (Runs.record next) ([], start 3 4 []) closeInputs,
      ∀ v ∈ Runs.states x.1 x.2, v.server.Confined := by
    decide +kernel
  obtain ⟨tr, w, hr, htr, hconf⟩ := Runs.exists_run_of_record
    (P := fun tr w => ∀ v : World, v ∈ Runs.states tr w → v.server.Confined) hrun
  exact ⟨tr, w, hr, htr, (isolated_iff hr).2 hconf⟩

/-- A connection is accepted on 5, and is closed before it sends anything. -/
def strayInputs : List Kernel :=
  [.quiet, .ready {4} [], .quiet, .connect 5, .quiet, .ready {5} [(5, [])], .quiet]

/-- Its close makes a client with the empty id. -/
theorem not_isolated_stray : ∃ tr w, Run 3 4 [] tr w ∧ tr.map Prod.snd = strayInputs ∧
    w.server.At 5 .closed ∧ ¬ w.server.Isolated .quiet 5 := by
  have hrun : ∃ w ∈ Runs.exec next (start 3 4 []) strayInputs,
      w.server.at? = some (5, .closed) ∧ w.server.tables.idsMap[(5 : ℤ)]? = none ∧
        w.server.tables.clients[([] : Bytes)]? = none := by
    decide +kernel
  obtain ⟨tr, w, hr, htr, hat, hid, hclient⟩ := Runs.exists_run_of_exec hrun
  have hat := Server.at_iff.2 hat
  refine ⟨tr, w, hr, htr, hat, ?_⟩
  rw [isolated_of_closed hat, hclient]
  simp [hid]

end World

end NewsServer
