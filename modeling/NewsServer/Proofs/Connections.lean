import NewsServer.Lib.Sessions
import NewsServer.Proofs.SelectPass
import NewsServer.Proofs.Steps

/-!
# The registry of a run

The events of a run tell which connection is open on each descriptor and who has logged in on it
(`registry`). The server's maps and its sockets are that registry (`Agrees`), and a step changes it
in one of a few ways (`Effect`).
-/

namespace NewsServer

open Sessions

/-- What an event tells of connections and logins. -/
def note (r : Registry ℤ Bytes) : Event → Registry ℤ Bytes
  | .accepted fd => r.accept fd
  | .closed fd => r.drop fd
  | .frame fd buf type =>
    match r.on fd with
    | some c => if type = typeAuth then r.login c fd (frameField buf) else r
    | none => r
  | .disconnected fd => r.release [] fd
  | _ => r

def registry (evs : List Event) : Registry ℤ Bytes :=
  evs.foldl note .empty

theorem registry_append (evs evs' : List Event) :
    registry (evs ++ evs') = evs'.foldl note (registry evs) :=
  List.foldl_append

section Notes

variable {r : Registry ℤ Bytes}

theorem note_of_ofNews {e : Event} (h : e.OfNews) : note r e = r := by
  cases e <;> first | rfl | exact absurd h id

theorem foldl_note_of_ofNews : ∀ {evs : List Event}, (∀ e ∈ evs, e.OfNews) → evs.foldl note r = r
  | [], _ => rfl
  | e :: evs, h => by
    obtain ⟨he, h⟩ := List.forall_mem_cons.1 h
    rw [List.foldl_cons, note_of_ofNews he, foldl_note_of_ofNews h]

theorem foldl_note_closed : ∀ (fds : List ℤ) (r : Registry ℤ Bytes),
    (fds.map Event.closed).foldl note r = fds.foldl Registry.drop r
  | [], _ => rfl
  | fd :: fds, r => by
    rw [List.map_cons, List.foldl_cons, List.foldl_cons]
    exact foldl_note_closed fds _

theorem foldl_note_past {past : List Event} (h : past = [] ∨ past = [.pastPacket]) :
    past.foldl note r = r := by
  rcases h with rfl | rfl <;> rfl

theorem on_foldl_drop (fd : ℤ) : ∀ (fds : List ℤ) (r : Registry ℤ Bytes),
    (fds.foldl Registry.drop r).on fd = if fd ∈ fds then none else r.on fd
  | [], r => by simp
  | x :: fds, r => by
    rw [List.foldl_cons, on_foldl_drop fd fds]
    by_cases hmem : fd ∈ fds
    · simp [hmem]
    · by_cases hx : fd = x <;> simp [hmem, Registry.drop, hx]

theorem foldl_drop_fixed : ∀ (fds : List ℤ) (r : Registry ℤ Bytes),
    (fds.foldl Registry.drop r).bound = r.bound ∧ (fds.foldl Registry.drop r).user = r.user
  | [], _ => ⟨rfl, rfl⟩
  | fd :: fds, r => foldl_drop_fixed fds (r.drop fd)

theorem logins_foldl_drop : ∀ (fds : List ℤ) (r : Registry ℤ Bytes),
    (fds.foldl Registry.drop r).logins = r.logins
  | [], _ => rfl
  | fd :: fds, r => logins_foldl_drop fds (r.drop fd)

theorem count_foldl_drop : ∀ (fds : List ℤ) (r : Registry ℤ Bytes),
    (fds.foldl Registry.drop r).count = r.count
  | [], _ => rfl
  | fd :: fds, r => count_foldl_drop fds (r.drop fd)

end Notes

/-- The entries that a call of `get_next_fd` skips. -/
def MultiSocket.discards (m : MultiSocket) : List RecvHolder :=
  if ∃ hold ∈ m.sockQueue.head?, hold.type = sockTcp then m.sockQueue.takeWhile m.stale else []

/-- An entry that a call of `get_next_fd` takes out of the queue is skipped, or is its answer. -/
theorem mem_sockQueue_getNextFd {m : MultiSocket} {e : RecvHolder} (he : e ∈ m.sockQueue) :
    e ∈ m.getNextFd.2.sockQueue ∨ e ∈ m.discards ∨
      m.getNextFd.1 = e.fd ∧ m.getNextFd.2.currentFdType = e.type := by
  rcases hq : m.sockQueue with _ | ⟨hold, rest⟩
  · rw [hq] at he
    simp at he
  rw [hq] at he
  by_cases ht : hold.type = sockTcp
  · have hd : m.discards = (hold :: rest).takeWhile m.stale := by
      simp [MultiSocket.discards, hq, ht]
    rw [hd, MultiSocket.getNextFd_sockQueue_of_tcp hq ht]
    rw [← List.takeWhile_append_dropWhile (p := m.stale) (l := hold :: rest), List.mem_append] at he
    exact he.elim (fun h => .inr (.inl h)) .inl
  · obtain ⟨hfd, hrest, htype⟩ := MultiSocket.getNextFd_of_ne_tcp hq ht
    rcases List.mem_cons.1 he with rfl | he
    · exact .inr (.inr ⟨hfd, htype⟩)
    · exact .inl (hrest.symm ▸ he)

theorem currSockfd_getNextFd (m : MultiSocket) : m.getNextFd.2.currSockfd = m.getNextFd.1 := by
  unfold MultiSocket.getNextFd
  split
  · rfl
  · split
    · rfl
    · split <;> rfl

/-! ## The server and its registry -/

/-- The server's sockets and maps are the registry. -/
structure Agrees (s : Server) (r : Registry ℤ Bytes) : Prop where
  sound : r.Sound
  on : ∀ fd, (r.on fd).isSome ↔ fd ∈ s.multi.tcpSockets
  bound : ∀ fd, r.bound fd = s.tables.idsMap[fd]?
  user : ∀ id, r.user id = userOf s.tables.clients id
  pos : ∀ fd ∈ s.multi.tcpSockets, 0 < fd
  bound_pos : ∀ fd, (r.bound fd).isSome → 0 < fd
  curr : ∀ fd, s.pc = .body fd → s.multi.currSockfd = fd

/-- A connection is closed, and there is a `SOCK_CLOSE` of it that is not handled yet. -/
def Server.Closing (s : Server) (fd : ℤ) : Prop :=
  ⟨fd, sockClose⟩ ∈ s.multi.sockQueue ∨ s.At fd .closed

/-- What a step does to the registry. -/
inductive Effect (s : Server) (k : Kernel) (s' : Server) (r : Registry ℤ Bytes) :
    Registry ℤ Bytes → Prop
  | same (hclosed : ∀ fd, ¬ s.At fd .closed) (haccept : ∀ fd, ¬ s.At fd .accept) :
      Effect s k s' r r
  | pass {fds : List ℤ} (hpc : s.pc = .selecting)
      (hclose : ∀ fd ∈ fds, ⟨fd, sockClose⟩ ∈ s'.multi.sockQueue) :
      Effect s k s' r (fds.foldl Registry.drop r)
  | accept {fd : ℤ} (hat : s.At fd .accept) (hfresh : r.on k.newsockfd = none) :
      Effect s k s' r (r.accept k.newsockfd)
  | release {fd : ℤ} (hat : s.At fd .closed) : Effect s k s' r (r.release [] fd)
  | login {fd : ℤ} {buf : Bytes} {c : ℕ} (hat : s.At fd .recv) (hin : s.incoming = some buf)
      (hsize : buf.length ≤ cliPacketSize) (hauth : frameType buf = typeAuth)
      (hon : r.on fd = some c) (hfree : r.user (frameField buf) = none) :
      Effect s k s' r (r.login c fd (frameField buf))
  | refuse {fd : ℤ} {buf : Bytes} (hat : s.At fd .recv) (hin : s.incoming = some buf)
      (htype : frameType buf = typeAuth ∧ (r.user (frameField buf)).isSome ∨
        frameType buf = typeAuthDuplicate) : Effect s k s' r (r.drop fd)

section Step

variable {s s' : Server} {k : Kernel} {r : Registry ℤ Bytes} {evs : List Event}

theorem Agrees.exists_on (h : Agrees s r) {fd : ℤ} (hmem : fd ∈ s.multi.tcpSockets) :
    ∃ c, r.on fd = some c :=
  Option.isSome_iff_exists.1 ((h.on fd).2 hmem)

theorem Agrees.on_eq_none (h : Agrees s r) {fd : ℤ} (hnot : fd ∉ s.multi.tcpSockets) :
    r.on fd = none := by
  rw [← Option.not_isSome_iff_eq_none, h.on]
  exact hnot

theorem note_frame {fd : ℤ} {c : ℕ} (hon : r.on fd = some c) (buf : Bytes) (type : UInt8) :
    note r (.frame fd buf type) = if type = typeAuth then r.login c fd (frameField buf) else r := by
  simp only [note, hon]

theorem foldl_note_frame {m m' : MultiSocket} {t' : Tables} {fd : ℤ} {buf : Bytes} {type : UInt8}
    {past evs : List Event} {c : ℕ} (hon : r.on fd = some c)
    (hans : Answered m t' fd buf type m' evs) (hpast : past = [] ∨ past = [.pastPacket]) :
    (Event.frame fd buf type :: past ++ evs).foldl note r =
      if type = typeAuth then r.login c fd (frameField buf)
      else if type = typeAuthDuplicate then r.drop fd else r := by
  rw [List.cons_append, List.foldl_cons, List.foldl_append, foldl_note_past hpast, note_frame hon]
  cases hans with
  | confirmed =>
    rw [if_pos rfl, if_pos rfl, List.foldl_cons]
    exact foldl_note_of_ofNews fun e he => ofNews_of_mem_replays he
  | declined =>
    rw [if_neg (by decide), if_neg (by decide), if_pos rfl]
    rfl
  | silent hne =>
    rw [if_neg hne.1, if_neg hne.1, if_neg hne.2]
    rfl

theorem Agrees.effect (h : Agrees s r) (hk : ¬ s.IsOpen k.newsockfd) (hd : Does s k s' evs) :
    Effect s k s' r (evs.foldl note r) := by
  cases hd with
  | poll hpc =>
    have hno := Server.not_at_of_pc (hpc.imp_right And.left)
    exact .same (fun fd => hno fd _) fun fd => hno fd _
  | select hpc hq =>
    obtain ⟨fds, he, -, hclose, -⟩ := MultiSocket.passed_selectRound s.multi k.pass
    rw [he, foldl_note_closed]
    exact .pass hpc hclose
  | stdin hat => exact .same (hat.not (by decide)) (hat.not (by decide))
  | news hat hfan =>
    rw [List.foldl_cons, foldl_note_of_ofNews hfan.ofNews]
    exact .same (hat.not (by decide)) (hat.not (by decide))
  | accept hat => exact .accept hat (h.on_eq_none fun hmem => hk (.inr (.inr (.inr hmem))))
  | closed hat => exact .release hat
  | idle hat => exact .same (hat.not (by decide)) (hat.not (by decide))
  | @frame fd buf type tables multi past evs hat hin hsize hmem hp hans hpast =>
    obtain ⟨c, hon⟩ := h.exists_on hmem
    rw [foldl_note_frame hon hans hpast]
    cases hp with
    | accepted hauth hfree =>
      rw [if_pos rfl]
      exact .login hat hin hsize hauth hon ((h.user _).trans hfree)
    | declined hauth hused =>
      rw [if_neg (by decide), if_pos rfl]
      exact .refuse hat hin (.inl ⟨hauth, by rwa [h.user]⟩)
    | echoed htype =>
      rw [if_neg (by decide), if_pos rfl]
      exact .refuse hat hin (.inr htype)
    | other hne =>
      rw [if_neg hne.1, if_neg hne.2]
      exact .same (hat.not (by decide)) (hat.not (by decide))

theorem Agrees.of_sockets (h : Agrees s r) {r' : Registry ℤ Bytes} (hsound : r'.Sound)
    (hon : ∀ fd, (r'.on fd).isSome ↔ fd ∈ s'.multi.tcpSockets) (hbound : r'.bound = r.bound)
    (huser : r'.user = r.user) (hsub : ∀ fd ∈ s'.multi.tcpSockets, fd ∈ s.multi.tcpSockets)
    (hids : s'.tables.idsMap = s.tables.idsMap)
    (husers : ∀ id, userOf s'.tables.clients id = userOf s.tables.clients id)
    (hcurr : ∀ fd, s'.pc = .body fd → s'.multi.currSockfd = fd) : Agrees s' r' where
  sound := hsound
  on := hon
  bound fd := by rw [hbound, hids, h.bound]
  user id := by rw [huser, husers, h.user]
  pos fd hfd := h.pos fd (hsub fd hfd)
  bound_pos fd hfd := h.bound_pos fd (by rwa [← hbound])
  curr := hcurr

theorem Agrees.accept (h : Agrees s r) {fd : ℤ} (hfd : 0 ≤ fd ∧ ¬ s.IsOpen fd)
    {sock : BufferedTcpSocket} {readFds : Finset ℤ} {fdmax : ℤ} :
    Agrees { s with
      multi := { s.multi with
        readFds, fdmax, tcpSockets := s.multi.tcpSockets.insert fd sock }
      pc := .top } (r.accept fd) := by
  have hpos : 0 < fd := lt_of_le_of_ne hfd.1 fun h0 => hfd.2 (.inl h0.symm)
  refine ⟨h.sound.accept _, fun x => ?_, h.bound, h.user, fun x hx => ?_, h.bound_pos, by simp⟩
  · simp only [Registry.accept, Function.update_apply, Std.TreeMap.mem_insert,
      Std.compare_eq_iff_eq, ← h.on]
    rcases eq_or_ne x fd with rfl | hx
    · simp
    · simp [hx, hx.symm]
  · simp only [Std.TreeMap.mem_insert, Std.compare_eq_iff_eq] at hx
    rcases hx with rfl | hx
    · exact hpos
    · exact h.pos x hx

theorem Agrees.release (h : Agrees s r) (fd : ℤ) :
    Agrees { (s.handleClosed fd).1 with pc := .top } (r.release [] fd) := by
  refine ⟨h.sound.release _ _, h.on, fun x => ?_, fun id => ?_, h.pos, fun x hx => ?_, by simp⟩
  · simp only [Registry.release, Function.update_apply, Server.handleClosed,
      Std.TreeMap.getElem?_erase, Std.compare_eq_iff_eq, h.bound]
    rcases eq_or_ne x fd with rfl | hx
    · simp
    · simp [hx, hx.symm]
  · have hname : (r.bound fd).getD [] = s.tables.idsMap.getD fd [] := by
      rw [h.bound, Std.TreeMap.getD_eq_getD_getElem?]
    simp only [Registry.release, Function.update_apply, Server.handleClosed, userOf_insert, hname,
      h.user]
    rcases eq_or_ne id (s.tables.idsMap.getD fd []) with rfl | hx
    · simp
    · simp [hx, hx.symm]
  · obtain ⟨id, hid⟩ := Option.isSome_iff_exists.1 hx
    exact h.bound_pos x (by rw [(Registry.bound_of_release hid).2]; rfl)

section Frame

variable {m : MultiSocket} {t : Tables} {fd : ℤ}

theorem Agrees.login (h : Agrees s r) {id : Bytes} {c : ℕ} (hon : r.on fd = some c)
    (hm : SameSockets s.multi m) (hl : LoggedIn fd id s.tables t) :
    Agrees { s with multi := m, tables := t, pc := .top } (r.login c fd id) := by
  refine ⟨h.sound.login hon _, fun x => ?_, fun x => ?_, fun n => ?_, fun x hx => ?_,
    fun x hx => ?_, by simp⟩
  · rw [hm.mem]
    exact h.on x
  · simp only [Registry.login, Function.update_apply, hl.ids, Std.TreeMap.getElem?_insert,
      Std.compare_eq_iff_eq, h.bound]
    rcases eq_or_ne x fd with rfl | hx
    · simp
    · simp [hx, hx.symm]
  · simp only [Registry.login, Function.update_apply, hl.user, h.user]
    rcases eq_or_ne n id with rfl | hx
    · simp
    · simp [hx, hx.symm]
  · exact h.pos x ((hm.mem x).1 hx)
  · simp only [Registry.login, Function.update_apply] at hx
    split_ifs at hx with hxfd
    · exact hxfd ▸ h.pos fd ((h.on fd).1 (by rw [hon]; rfl))
    · exact h.bound_pos x hx

theorem Agrees.drop (h : Agrees s r) (hm : SameSockets s.multi m) (hl : SameLogins s.tables t) :
    Agrees { s with multi := m.close fd, tables := t, pc := .top } (r.drop fd) := by
  refine h.of_sockets (h.sound.drop fd) (fun x => ?_) rfl rfl (fun x hx => ?_) hl.ids hl.user
    (by simp)
  · simp only [Registry.drop, Function.update_apply, MultiSocket.close, Std.TreeMap.mem_erase,
      hm.mem, ← h.on]
    rcases eq_or_ne x fd with rfl | hx
    · simp
    · simp [hx, hx.symm]
  · simp only [MultiSocket.close, Std.TreeMap.mem_erase, hm.mem] at hx
    exact hx.2

theorem Agrees.same (h : Agrees s r) (hm : SameSockets s.multi m) (hl : SameLogins s.tables t) :
    Agrees { s with multi := m, tables := t, pc := .top } r := by
  refine h.of_sockets h.sound (fun x => ?_) rfl rfl (fun x hx => (hm.mem x).1 hx) hl.ids hl.user
    (by simp)
  rw [hm.mem]
  exact h.on x

theorem Agrees.frame (h : Agrees s r) {buf : Bytes} {type : UInt8} {c : ℕ} (hon : r.on fd = some c)
    (hp : Processed s.tables fd buf type t) (hans : Answered s.multi t fd buf type m evs) :
    Agrees { s with multi := m, tables := t, pc := .top }
      (if type = typeAuth then r.login c fd (frameField buf)
        else if type = typeAuthDuplicate then r.drop fd else r) := by
  cases hans with
  | confirmed hm =>
    obtain ⟨-, -, hl⟩ := hp.of_auth rfl
    rw [if_pos rfl]
    exact h.login hon hm hl
  | declined hm =>
    rw [if_neg (by decide), if_pos rfl]
    exact h.drop hm (hp.sameLogins (by decide))
  | silent hne hm =>
    rw [if_neg hne.1, if_neg hne.2]
    exact h.same hm (hp.sameLogins hne.1)

end Frame

theorem Agrees.step (h : Agrees s r) (hk : 0 ≤ k.newsockfd ∧ ¬ s.IsOpen k.newsockfd)
    (hd : Does s k s' evs) : Agrees s' (evs.foldl note r) := by
  cases hd with
  | @poll pc hpc hnext =>
    have hsock := MultiSocket.getNextFd_tcpSockets s.multi
    refine h.of_sockets h.sound ?_ rfl rfl ?_ rfl (fun _ => rfl) fun fd hfd => ?_
    · intro fd
      rw [hsock]
      exact h.on fd
    · simp only [hsock]
      exact fun _ => id
    · rcases hnext with rfl | ⟨rfl, -⟩
      · exact (currSockfd_getNextFd s.multi).trans (Pc.body.inj hfd)
      · simp at hfd
  | select hpc hq =>
    obtain ⟨fds, he, hmem, -, -⟩ := MultiSocket.passed_selectRound s.multi k.pass
    obtain ⟨hb, hu⟩ := foldl_drop_fixed fds r
    have hsound := List.foldlRecOn fds Registry.drop h.sound fun _ h fd _ => h.drop fd
    rw [he, foldl_note_closed]
    refine h.of_sockets hsound (fun fd => ?_) hb hu (fun fd hfd => ((hmem fd).1 hfd).1) rfl
      (fun _ => rfl) fun fd hfd => ?_
    · rw [on_foldl_drop, hmem, ← h.on]
      split_ifs with hx <;> simp [hx]
    · rw [hpc] at hfd
      simp at hfd
  | stdin => exact h.of_sockets h.sound h.on rfl rfl (fun _ => id) rfl (fun _ => rfl) (by simp)
  | news hat hfan =>
    rw [List.foldl_cons, foldl_note_of_ofNews hfan.ofNews]
    exact h.of_sockets h.sound h.on rfl rfl (fun _ => id) rfl hfan.user (by simp)
  | accept hat => exact h.accept hk
  | @closed fd hat => exact h.release fd
  | idle => exact h.of_sockets h.sound h.on rfl rfl (fun _ => id) rfl (fun _ => rfl) (by simp)
  | frame hat hin hsize hmem hp hans hpast =>
    obtain ⟨c, hon⟩ := h.exists_on hmem
    rw [foldl_note_frame hon hans hpast]
    exact h.frame hon hp hans

/-- A `SOCK_CLOSE` that is not handled yet is handled by the step, or stays, if it is not
skipped. -/
theorem Does.closing (hd : Does s k s' evs) {fd : ℤ} (hpos : 0 < fd)
    (hkeep : s.pc = .top ∨ s.pc = .selecting → ⟨fd, sockClose⟩ ∉ s.multi.discards)
    (hc : s.Closing fd) (hat : ¬ s.At fd .closed) : s'.Closing fd := by
  have hq := hc.resolve_right hat
  cases hd with
  | poll hpc hnext =>
    rcases mem_sockQueue_getNextFd hq with hq' | hq' | ⟨hfd, htype⟩
    · exact .inl hq'
    · exact absurd hq' (hkeep (hpc.imp_right And.left))
    · dsimp only at hfd htype
      rcases hnext with rfl | ⟨-, hneg⟩
      · refine .inr ⟨by rw [hfd], ?_⟩
        simp [Server.branch, MultiSocket.isUdp, MultiSocket.isTcpConnection, MultiSocket.hasClosed,
          htype, sockClose, sockUdp, sockConnect, Server.stdinFileno, hpos.ne']
      · omega
  | select hpc =>
    obtain ⟨-, -, -, -, hpre⟩ := MultiSocket.passed_selectRound s.multi k.pass
    exact .inl (hpre.subset hq)
  | stdin => exact .inl hq
  | news => exact .inl hq
  | accept => exact .inl hq
  | closed => exact .inl hq
  | idle => exact .inl hq
  | frame hat' hin hsize hmem hp hans =>
    left
    cases hans with
    | confirmed hm =>
      dsimp only
      rwa [hm.queue]
    | declined hm =>
      simp only [MultiSocket.close]
      rwa [hm.queue]
    | silent _ hm =>
      dsimp only
      rwa [hm.queue]

end Step

namespace World

/-- The registry of the events so far. -/
def registry (w : World) : Registry ℤ Bytes :=
  NewsServer.registry w.trace

/-- The connection that is open on a descriptor. -/
def conn (w : World) (fd : ℤ) : Option ℕ :=
  w.registry.on fd

/-- An `AUTH` of `id` was accepted from the connection. -/
def Authed (w : World) (c : ℕ) (id : Bytes) : Prop :=
  (c, id) ∈ w.registry.logins

/-- What a step shows. -/
def events (w : World) (k : Kernel) : List Event :=
  match w.server.step k with
  | .error _ => []
  | .ok (_, evs) => evs

/-- The server's sockets and maps are the registry of its events. -/
def Consistent (w : World) : Prop :=
  Agrees w.server w.registry

theorem consistent_start (udp tcp : ℤ) (buffer : Bytes) : (start udp tcp buffer).Consistent where
  sound := Registry.sound_empty
  on _ := by
    simp [registry, NewsServer.registry, start, Server.start, Registry.empty, MultiSocket.new,
      MultiSocket.addFd, MultiSocket.enableTcpConnections, MultiSocket.enableUdp]
  bound _ := rfl
  user _ := rfl
  pos fd hfd := by
    simp [start, Server.start, MultiSocket.new, MultiSocket.addFd,
      MultiSocket.enableTcpConnections, MultiSocket.enableUdp] at hfd
  bound_pos _ hfd := by
    simp [registry, NewsServer.registry, start, Registry.empty] at hfd
  curr _ hpc := by simp [start, Server.start] at hpc

theorem Consistent.does {w w' : World} {k : Kernel} (h : w.Consistent) (hn : next w k = some w') :
    Does w.server k w'.server (w.events k) ∧ w'.trace = w.trace ++ w.events k ∧
      0 ≤ k.newsockfd ∧ ¬ w.server.IsOpen k.newsockfd := by
  obtain ⟨evs, hs, ht, hk⟩ := step_of_next hn
  have hevs : w.events k = evs := by simp only [events, hs]
  rw [hevs]
  exact ⟨step_does h.curr hs, ht, hk⟩

theorem registry_next {w w' : World} {k : Kernel} (ht : w'.trace = w.trace ++ w.events k) :
    w'.registry = (w.events k).foldl note w.registry := by
  rw [registry, registry, ht, registry_append]

theorem Consistent.next {w w' : World} {k : Kernel} (h : w.Consistent) (hn : next w k = some w') :
    w'.Consistent := by
  obtain ⟨hd, ht, hk⟩ := h.does hn
  rw [Consistent, registry_next ht]
  exact h.step hk hd

theorem Consistent.effect {w w' : World} {k : Kernel} (h : w.Consistent)
    (hn : World.next w k = some w') : Effect w.server k w'.server w.registry w'.registry := by
  obtain ⟨hd, ht, hk⟩ := h.does hn
  rw [registry_next ht]
  exact Agrees.effect h hk.2 hd

theorem Run.consistent {udp tcp : ℤ} {buffer : Bytes} {tr : List (World × Kernel)} {w : World}
    (h : Run udp tcp buffer tr w) : w.Consistent :=
  Runs.Run.always (consistent_start udp tcp buffer) (fun _ _ _ hw hn => hw.next hn) h

theorem Run.consistent_states {udp tcp : ℤ} {buffer : Bytes} {tr : List (World × Kernel)}
    {w : World} (h : Run udp tcp buffer tr w) : ∀ v ∈ Runs.states tr w, v.Consistent := by
  intro v hv
  obtain ⟨tr', -, hr⟩ := h.of_mem_states v hv
  exact Run.consistent hr

/-- What connections log in as is what a frame has. -/
theorem Run.exists_frame {udp tcp : ℤ} {buffer : Bytes} {tr : List (World × Kernel)} {w : World}
    (h : Run udp tcp buffer tr w) : ∀ c id, w.Authed c id →
      ∃ buf, buf.length ≤ cliPacketSize ∧ frameType buf = typeAuth ∧ frameField buf = id := by
  have hinv := Runs.Run.always (P := fun v : World => v.Consistent ∧ ∀ c id, v.Authed c id →
    ∃ buf, buf.length ≤ cliPacketSize ∧ frameType buf = typeAuth ∧ frameField buf = id)
    ⟨consistent_start udp tcp buffer, fun _ _ hl => by
      simp [Authed, registry, NewsServer.registry, start, Registry.empty] at hl⟩ ?_ h
  · exact hinv.2
  · rintro v k v' ⟨hv, hl⟩ hn
    refine ⟨hv.next hn, ?_⟩
    have heff := hv.effect hn
    simp only [Authed] at hl ⊢
    generalize v'.registry = r' at heff
    cases heff with
    | @login fd buf c _ _ hsize hauth =>
      intro d id hd
      simp only [Registry.login, List.mem_append, List.mem_singleton, Prod.mk.injEq] at hd
      rcases hd with hd | ⟨-, rfl⟩
      · exact hl d id hd
      · exact ⟨buf, hsize, hauth, rfl⟩
    | @pass fds =>
      rw [logins_foldl_drop]
      exact hl
    | same => exact hl
    | accept => exact hl
    | release => exact hl
    | refuse => exact hl

end World

namespace Kernel

/-- Nothing comes in, and 99 is the next descriptor. -/
def quiet : Kernel where
  pass := ⟨∅, fun _ => none, 0⟩
  newsockfd := 99
  uninit := default
  line := none
  datagram := []
  saddr := default
  beyond := [0]

/-- `select` reports the descriptors, and `::recv` gives what `got` lists. -/
def ready (fds : Finset ℤ) (got : List (ℤ × Bytes)) : Kernel :=
  { quiet with pass := ⟨fds, fun fd => got.lookup fd, 0⟩ }

/-- A new connection gets `fd`. -/
def connect (fd : ℤ) : Kernel :=
  { quiet with newsockfd := fd }

end Kernel

/-- A connection is accepted on `fd`, the listening socket being 4, and logs in as `id`, a single
byte. -/
def loginInputs (fd : ℤ) (id : UInt8) : List Kernel :=
  [.quiet, .ready {4} [], .quiet, .connect fd,
    .quiet, .ready {fd} [(fd, [0, 0, 0, 2, 1, id])], .quiet, .quiet]

end NewsServer
