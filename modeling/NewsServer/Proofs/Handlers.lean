import NewsServer.Server

/-!
# What the handlers do

One lemma for each function the loop calls: which users it leaves connected and where, what it adds
to the stored packets, and what it sends. `userOf` and `queueOf` read a client the way `operator[]`
does, where a client that has no entry is disconnected and has nothing stored.
-/

namespace NewsServer

open Memory

/-- The descriptor of a `CLI_CONNECTED` client. -/
def userOf (clients : ClientMap) (id : Bytes) : Option ℤ :=
  let sub := clients.getD id default
  if sub.state = .connected then some sub.sockfd else none

def queueOf (clients : ClientMap) (id : Bytes) : List SharedPacket :=
  (clients.getD id default).subsQueue

/-- The packets stored for `id`, in order. -/
def storedFor (id : Bytes) (evs : List Event) : List SharedPacket :=
  evs.filterMap fun
    | .stored id' packet => if id' = id then some packet else none
    | _ => none

/-- The stored packets sent to `id`, in order. -/
def replayedTo (id : Bytes) (evs : List Event) : List SharedPacket :=
  evs.filterMap fun
    | .replayed id' _ packet => if id' = id then some packet else none
    | _ => none

/-- The event is about news and what is sent. -/
def Event.OfNews : Event → Prop
  | .sent .. | .pastPacket | .news .. | .stored .. | .forwarded .. | .replayed .. => True
  | _ => False

@[simp] theorem storedFor_append (id : Bytes) (evs evs' : List Event) :
    storedFor id (evs ++ evs') = storedFor id evs ++ storedFor id evs' :=
  List.filterMap_append

@[simp] theorem replayedTo_append (id : Bytes) (evs evs' : List Event) :
    replayedTo id (evs ++ evs') = replayedTo id evs ++ replayedTo id evs' :=
  List.filterMap_append

theorem storedFor_closed (id : Bytes) (fds : List ℤ) : storedFor id (fds.map .closed) = [] := by
  rw [storedFor, List.filterMap_map]
  simp

theorem replayedTo_closed (id : Bytes) (fds : List ℤ) : replayedTo id (fds.map .closed) = [] := by
  rw [replayedTo, List.filterMap_map]
  simp

theorem mem_replayedTo {id : Bytes} {fd : ℤ} {packet : SharedPacket} {evs : List Event}
    (h : .replayed id fd packet ∈ evs) : packet ∈ replayedTo id evs :=
  List.mem_filterMap.2 ⟨_, h, if_pos rfl⟩

@[simp] theorem getD_insertIfNew_same {β : Type*} (m : Std.TreeMap Bytes β) (x y : Bytes) (v : β) :
    (m.insertIfNew x v).getD y v = m.getD y v := by
  rw [Std.TreeMap.getD_insertIfNew]
  split_ifs with h
  · obtain ⟨heq, hmem⟩ := h
    obtain rfl := Std.compare_eq_iff_eq.1 heq
    exact (Std.TreeMap.getD_eq_fallback hmem).symm
  · rfl

section Clients

variable (clients : ClientMap) (id x : Bytes)

theorem getD_insert_client (sub : Subscriber) :
    (clients.insert id sub).getD x default = if id = x then sub else clients.getD x default := by
  simp only [Std.TreeMap.getD_insert, Std.compare_eq_iff_eq]

@[simp] theorem userOf_insertIfNew :
    userOf (clients.insertIfNew id default) x = userOf clients x := by
  simp only [userOf, getD_insertIfNew_same]

@[simp] theorem queueOf_insertIfNew :
    queueOf (clients.insertIfNew id default) x = queueOf clients x := by
  simp only [queueOf, getD_insertIfNew_same]

theorem userOf_insert (sub : Subscriber) : userOf (clients.insert id sub) x =
    if id = x then if sub.state = .connected then some sub.sockfd else none
    else userOf clients x := by
  simp only [userOf, getD_insert_client]
  by_cases h : id = x <;> simp [h]

theorem queueOf_insert (sub : Subscriber) : queueOf (clients.insert id sub) x =
    if id = x then sub.subsQueue else queueOf clients x := by
  simp only [queueOf, getD_insert_client]
  by_cases h : id = x <;> simp [h]

variable {clients id}

theorem userOf_eq_none_iff :
    userOf clients id = none ↔ (clients.getD id default).state = .disconnected := by
  rcases h : (clients.getD id default).state <;> simp [userOf, h]

theorem userOf_eq_some_iff {fd : ℤ} : userOf clients id = some fd ↔
    (clients.getD id default).state = .connected ∧ (clients.getD id default).sockfd = fd := by
  rcases h : (clients.getD id default).state <;> simp [userOf, h]

theorem forall_userOf_ne_iff {fd : ℤ} :
    (∀ id, userOf clients id ≠ some fd) ↔
      ∀ entry ∈ clients.toList, ¬ (entry.2.state = .connected ∧ entry.2.sockfd = fd) := by
  simp only [ne_eq, userOf_eq_some_iff, Std.TreeMap.getD_eq_getD_getElem?]
  constructor
  · intro h entry he hc
    rw [Std.TreeMap.mem_toList_iff_getElem?_eq_some] at he
    exact h entry.1 (by rw [he]; exact hc)
  · intro h id hc
    rcases hs : clients[id]? with _ | sub
    · rw [hs] at hc
      simp [default] at hc
    · rw [hs] at hc
      exact h (id, sub) (Std.TreeMap.mem_toList_iff_getElem?_eq_some.2 hs) hc

end Clients

/-! ## Sending -/

/-- A frame: the length in network order, and the bytes. -/
def wire (buf : Bytes) : Bytes :=
  wordBytes (ntohl (UInt32.ofNat buf.length)) ++ buf

section Send

variable {multi : MultiSocket} {fd : ℤ}

theorem send_of_notMem (h : fd ∉ multi.tcpSockets) (buf : Bytes) :
    multi.send fd buf = .ok (-1, []) := by
  simp only [MultiSocket.send, getElem?_neg multi.tcpSockets fd h]

theorem send_of_mem (h : fd ∈ multi.tcpSockets) {buf : Bytes}
    (hlen : buf.length + 4 ≤ tcpBufferSize) :
    multi.send fd buf = .ok ((wire buf).length, [.sent fd (wire buf)]) := by
  simp only [MultiSocket.send, getElem?_pos multi.tcpSockets fd h, BufferedTcpSocket.send,
    if_neg (not_lt.2 hlen)]
  rfl

theorem send_of_mem_of_lt (h : fd ∈ multi.tcpSockets) {buf : Bytes}
    (hlen : tcpBufferSize < buf.length + 4) : multi.send fd buf = .error (.die .sendBuffered) := by
  simp only [MultiSocket.send, getElem?_pos multi.tcpSockets fd h, BufferedTcpSocket.send,
    if_pos hlen]
  rfl

theorem sendPacketToSub_of_mem (h : fd ∈ multi.tcpSockets) {packet : SharedPacket}
    (hlen : packet.size + 4 ≤ tcpBufferSize) :
    sendPacketToSub multi fd packet = .ok [.sent fd (wire packet.data)] := by
  rw [sendPacketToSub, send_of_mem h (by rwa [packet.fits])]
  simp

theorem sendPacketToSub_of_notMem (h : fd ∉ multi.tcpSockets) (packet : SharedPacket) :
    sendPacketToSub multi fd packet = .error (.die .sendToSub) := by
  rw [sendPacketToSub, send_of_notMem h]
  rfl

theorem sendPacketToSub_ok {packet : SharedPacket} {evs : List Event}
    (h : sendPacketToSub multi fd packet = .ok evs) :
    fd ∈ multi.tcpSockets ∧ packet.size + 4 ≤ tcpBufferSize ∧
      evs = [.sent fd (wire packet.data)] := by
  by_cases hfd : fd ∈ multi.tcpSockets
  · by_cases hlen : packet.size + 4 ≤ tcpBufferSize
    · rw [sendPacketToSub_of_mem hfd hlen, Except.ok.injEq] at h
      exact ⟨hfd, hlen, h.symm⟩
    · rw [sendPacketToSub, send_of_mem_of_lt hfd (by rw [packet.fits]; omega)] at h
      simp at h
  · rw [sendPacketToSub_of_notMem hfd] at h
    simp at h

theorem sendPacketToSub_error (h : fd ∈ multi.tcpSockets) (packet : SharedPacket) :
    sendPacketToSub multi fd packet ≠ .error (.die .sendToSub) := by
  by_cases hlen : packet.size + 4 ≤ tcpBufferSize
  · rw [sendPacketToSub_of_mem h hlen]
    simp
  · rw [sendPacketToSub, send_of_mem_of_lt h (by rw [packet.fits]; omega)]
    simp

/-- What sending the packets of a queue shows. -/
def replays (id : Bytes) (fd : ℤ) (queue : List SharedPacket) : List Event :=
  queue.flatMap fun packet => [.sent fd (wire packet.data), .replayed id fd packet]

theorem unload_of_mem (id : Bytes) {sub : Subscriber} (h : sub.sockfd ∈ multi.tcpSockets) :
    ∀ {queue : List SharedPacket}, (∀ packet ∈ queue, packet.size + 4 ≤ tcpBufferSize) →
      unloadNewsQueue.unload multi id sub queue = .ok (replays id sub.sockfd queue)
  | [], _ => rfl
  | packet :: queue, hq => by
    obtain ⟨hp, hq⟩ := List.forall_mem_cons.1 hq
    rw [unloadNewsQueue.unload, sendPacketToSub_of_mem h hp, unload_of_mem id h hq]
    rfl

theorem unload_ok (id : Bytes) (sub : Subscriber) :
    ∀ {queue : List SharedPacket} {evs : List Event},
    unloadNewsQueue.unload multi id sub queue = .ok evs → evs = replays id sub.sockfd queue
  | [], evs, h => by
    simp only [unloadNewsQueue.unload, Except.ok.injEq] at h
    exact h.symm
  | packet :: queue, evs, h => by
    rw [unloadNewsQueue.unload] at h
    rcases hs : sendPacketToSub multi sub.sockfd packet with e | evs₁ <;> rw [hs] at h
    · simp at h
    rcases hu : unloadNewsQueue.unload multi id sub queue with e | evs₂ <;> rw [hu] at h
    · simp at h
    simp only [Except.ok.injEq] at h
    obtain ⟨-, -, rfl⟩ := sendPacketToSub_ok hs
    rw [← h, unload_ok id sub hu]
    rfl

theorem unload_error (id : Bytes) {sub : Subscriber} (h : sub.sockfd ∈ multi.tcpSockets) :
    ∀ queue : List SharedPacket,
      unloadNewsQueue.unload multi id sub queue ≠ .error (.die .sendToSub)
  | [] => by simp [unloadNewsQueue.unload]
  | packet :: queue => by
    have hne := sendPacketToSub_error h packet
    have ih := unload_error id h queue
    rw [unloadNewsQueue.unload]
    rcases hs : sendPacketToSub multi sub.sockfd packet with e | evs₁
    · rwa [hs] at hne
    rcases hu : unloadNewsQueue.unload multi id sub queue with e | evs₂
    · rwa [hu] at ih
    simp

theorem ofNews_of_mem_replays {id : Bytes} {queue : List SharedPacket} {e : Event}
    (h : e ∈ replays id fd queue) : e.OfNews := by
  simp only [replays, List.mem_flatMap, List.mem_cons, List.not_mem_nil, or_false] at h
  obtain ⟨packet, -, rfl | rfl⟩ := h <;> trivial

theorem storedFor_replays (x id : Bytes) (queue : List SharedPacket) :
    storedFor x (replays id fd queue) = [] := by
  rw [storedFor, List.filterMap_eq_nil_iff]
  intro e he
  simp only [replays, List.mem_flatMap, List.mem_cons, List.not_mem_nil, or_false] at he
  obtain ⟨packet, -, rfl | rfl⟩ := he <;> rfl

theorem replayedTo_replays (x id : Bytes) : ∀ queue : List SharedPacket,
    replayedTo x (replays id fd queue) = if id = x then queue else []
  | [] => by simp [replays, replayedTo]
  | packet :: queue => by
    have ih := replayedTo_replays x id queue
    simp only [replays, replayedTo, List.flatMap_cons, List.cons_append, List.nil_append,
      List.filterMap_cons] at ih ⊢
    rw [ih]
    split_ifs <;> rfl

end Send

/-- What sending a packet to the entries of a topic does, one entry after the other. -/
inductive FannedOut (multi : MultiSocket) (packet : SharedPacket) :
    List (Bytes × UInt8) → ClientMap → ClientMap → List Event → Prop
  | nil {clients : ClientMap} : FannedOut multi packet [] clients clients []
  | skip {id : Bytes} {entries : List (Bytes × UInt8)} {clients mid clients' : ClientMap}
      {evs : List Event} (hfree : userOf clients id = none)
      (hu : ∀ x, userOf mid x = userOf clients x) (hq : ∀ x, queueOf mid x = queueOf clients x)
      (h : FannedOut multi packet entries mid clients' evs) :
      FannedOut multi packet ((id, 0) :: entries) clients clients' evs
  | store {id : Bytes} {sf : UInt8} {entries : List (Bytes × UInt8)}
      {clients mid clients' : ClientMap} {evs : List Event} (hfree : userOf clients id = none)
      (hsf : sf ≠ 0) (hu : ∀ x, userOf mid x = userOf clients x)
      (hq : ∀ x, queueOf mid x = queueOf clients x ++ if id = x then [packet] else [])
      (h : FannedOut multi packet entries mid clients' evs) :
      FannedOut multi packet ((id, sf) :: entries) clients clients' (.stored id packet :: evs)
  | forward {id : Bytes} {sf : UInt8} {fd : ℤ} {entries : List (Bytes × UInt8)}
      {clients mid clients' : ClientMap} {evs : List Event} (huser : userOf clients id = some fd)
      (hmem : fd ∈ multi.tcpSockets) (hu : ∀ x, userOf mid x = userOf clients x)
      (hq : ∀ x, queueOf mid x = queueOf clients x)
      (h : FannedOut multi packet entries mid clients' evs) :
      FannedOut multi packet ((id, sf) :: entries) clients clients'
        (.sent fd (wire packet.data) :: .forwarded id fd packet :: evs)

theorem fannedOut_of_ok (multi : MultiSocket) (packet : SharedPacket) :
    ∀ (entries : List (Bytes × UInt8)) {clients clients' : ClientMap} {evs : List Event},
      fanOut multi packet entries clients = .ok (clients', evs) →
        FannedOut multi packet entries clients clients' evs
  | [], clients, clients', evs, h => by
    simp only [fanOut, Except.ok.injEq, Prod.mk.injEq] at h
    obtain ⟨rfl, rfl⟩ := h
    exact .nil
  | (id, sf) :: entries, clients, clients', evs, h => by
    rw [fanOut] at h
    dsimp only at h
    rw [getD_insertIfNew_same] at h
    split_ifs at h with hstate hsf
    · subst hsf
      exact .skip (userOf_eq_none_iff.2 hstate) (userOf_insertIfNew clients id)
        (queueOf_insertIfNew clients id) (fannedOut_of_ok multi packet entries h)
    · rcases hf : fanOut multi packet entries _ with e | ⟨c, evs₁⟩ <;> rw [hf] at h
      · simp at h
      simp only [Except.ok.injEq, Prod.mk.injEq] at h
      obtain ⟨rfl, rfl⟩ := h
      refine .store (userOf_eq_none_iff.2 hstate) hsf (fun x => ?_) (fun x => ?_)
        (fannedOut_of_ok multi packet entries hf)
      · rw [userOf_insert, userOf_insertIfNew, hstate]
        by_cases hx : id = x
        · subst hx
          simp [userOf_eq_none_iff.2 hstate]
        · simp [hx]
      · rw [queueOf_insert, queueOf_insertIfNew]
        by_cases hx : id = x
        · subst hx
          simp [queueOf]
        · simp [hx]
    · rcases hs : sendPacketToSub multi _ packet with e | evs₀ <;> rw [hs] at h
      · simp at h
      rcases hf : fanOut multi packet entries _ with e | ⟨c, evs₁⟩ <;> rw [hf] at h
      · simp at h
      simp only [Except.ok.injEq, Prod.mk.injEq] at h
      obtain ⟨rfl, rfl⟩ := h
      obtain ⟨hmem, -, rfl⟩ := sendPacketToSub_ok hs
      refine .forward (userOf_eq_some_iff.2 ⟨?_, rfl⟩) hmem (userOf_insertIfNew clients id)
        (queueOf_insertIfNew clients id) (fannedOut_of_ok multi packet entries hf)
      rcases hc : (clients.getD id default).state
      · exact absurd hc hstate
      · rfl

section FannedOut

variable {multi : MultiSocket} {packet : SharedPacket} {entries : List (Bytes × UInt8)}
  {clients clients' : ClientMap} {evs : List Event}

theorem FannedOut.user (h : FannedOut multi packet entries clients clients' evs) (x : Bytes) :
    userOf clients' x = userOf clients x := by
  induction h with
  | nil => rfl
  | skip _ hu _ _ ih => rw [ih, hu]
  | store _ _ hu _ _ ih => rw [ih, hu]
  | forward _ _ hu _ _ ih => rw [ih, hu]

theorem FannedOut.queue (h : FannedOut multi packet entries clients clients' evs) (x : Bytes) :
    queueOf clients' x = queueOf clients x ++ storedFor x evs := by
  induction h with
  | nil => simp [storedFor]
  | skip _ _ hq _ ih => rw [ih, hq]
  | @store id _ _ _ _ _ _ _ _ _ hq _ ih =>
    rw [ih, hq, List.append_assoc]
    by_cases hx : id = x <;> simp [storedFor, hx]
  | forward _ _ _ hq _ ih =>
    rw [ih, hq]
    rfl

theorem FannedOut.ofNews (h : FannedOut multi packet entries clients clients' evs) :
    ∀ e ∈ evs, e.OfNews := by
  induction h with
  | nil => simp
  | skip _ _ _ _ ih => exact ih
  | store _ _ _ _ _ ih => exact List.forall_mem_cons.2 ⟨trivial, ih⟩
  | forward _ _ _ _ _ ih =>
    exact List.forall_mem_cons.2 ⟨trivial, List.forall_mem_cons.2 ⟨trivial, ih⟩⟩

theorem FannedOut.replayedTo (h : FannedOut multi packet entries clients clients' evs)
    (x : Bytes) : replayedTo x evs = [] := by
  induction h with
  | nil => rfl
  | skip _ _ _ _ ih => exact ih
  | store _ _ _ _ _ ih => exact ih
  | forward _ _ _ _ _ ih => exact ih

/-- News goes out to clients that are connected, on their sockets. -/
theorem FannedOut.forwarded {x : Bytes} {fd : ℤ} {p : SharedPacket}
    (h : FannedOut multi packet entries clients clients' evs) (he : .forwarded x fd p ∈ evs) :
    userOf clients x = some fd ∧ fd ∈ multi.tcpSockets := by
  induction h with
  | nil => simp at he
  | skip _ hu _ _ ih => rw [← hu]; exact ih he
  | store _ _ hu _ _ ih =>
    rw [← hu]
    exact ih (by simpa using he)
  | forward huser hmem hu _ _ ih =>
    simp only [List.mem_cons, reduceCtorEq, false_or, Event.forwarded.injEq] at he
    rcases he with ⟨rfl, rfl, -⟩ | he
    · exact ⟨huser, hmem⟩
    · rw [← hu]
      exact ih he

theorem FannedOut.eq_of_mem {x : Bytes} {p : SharedPacket}
    (h : FannedOut multi packet entries clients clients' evs) (hp : p ∈ storedFor x evs) :
    p = packet := by
  induction h with
  | nil => simp [storedFor] at hp
  | skip _ _ _ _ ih => exact ih hp
  | @store id _ _ _ _ _ _ _ _ _ _ _ ih =>
    by_cases hx : id = x
    · simp only [storedFor, List.filterMap_cons, if_pos hx, List.mem_cons] at hp ih
      exact hp.elim (fun h => h) ih
    · simp only [storedFor, List.filterMap_cons, if_neg hx] at hp ih
      exact ih hp
  | forward _ _ _ _ _ ih => exact ih hp

theorem FannedOut.storedFor_of_notMem {x : Bytes}
    (h : FannedOut multi packet entries clients clients' evs) (hx : x ∉ entries.map Prod.fst) :
    storedFor x evs = [] := by
  induction h with
  | nil => rfl
  | skip _ _ _ _ ih => exact ih (List.not_mem_of_not_mem_cons hx)
  | store _ _ _ _ _ ih =>
    rw [List.map_cons, List.mem_cons, not_or] at hx
    simpa [storedFor, Ne.symm hx.1] using ih hx.2
  | forward _ _ _ _ _ ih => exact ih (List.not_mem_of_not_mem_cons hx)

/-- The packet is stored once for a client that is subscribed to be stored for, and not
connected. -/
theorem FannedOut.storedFor_eq {x : Bytes} {flag : UInt8}
    (h : FannedOut multi packet entries clients clients' evs) (hnd : (entries.map Prod.fst).Nodup)
    (hx : (x, flag) ∈ entries) (hflag : flag ≠ 0) (hfree : userOf clients x = none) :
    storedFor x evs = [packet] := by
  induction h with
  | nil => simp at hx
  | skip _ hu _ _ ih =>
    refine ih (List.nodup_cons.1 hnd).2 ((List.mem_cons.1 hx).resolve_left fun heq => ?_)
      ((hu x).trans hfree)
    exact hflag (Prod.mk.inj heq).2
  | @store id _ _ _ _ _ _ _ _ hu _ hrest ih =>
    obtain ⟨hid, hnd⟩ := List.nodup_cons.1 hnd
    rcases List.mem_cons.1 hx with heq | hx
    · obtain ⟨rfl, -⟩ := Prod.mk.inj heq
      simpa [storedFor] using hrest.storedFor_of_notMem hid
    · have hne : id ≠ x := by
        rintro rfl
        exact hid (List.mem_map.2 ⟨_, hx, rfl⟩)
      simpa [storedFor, hne] using ih hnd hx ((hu x).trans hfree)
  | forward huser _ hu _ _ ih =>
    refine ih (List.nodup_cons.1 hnd).2 ((List.mem_cons.1 hx).resolve_left fun heq => ?_)
      ((hu x).trans hfree)
    rw [← (Prod.mk.inj heq).1, hfree] at huser
    simp at huser

end FannedOut

theorem fanOut_error (multi : MultiSocket) (packet : SharedPacket) :
    ∀ (entries : List (Bytes × UInt8)) (clients : ClientMap),
      (∀ entry ∈ entries, ∀ fd, userOf clients entry.1 = some fd → fd ∈ multi.tcpSockets) →
        fanOut multi packet entries clients ≠ .error (.die .sendToSub)
  | [], clients, _ => by simp [fanOut]
  | (id, sf) :: entries, clients, hreg => by
    obtain ⟨hid, hreg⟩ := List.forall_mem_cons.1 hreg
    rw [fanOut]
    dsimp only
    split_ifs with hstate hsf
    · exact fanOut_error multi packet entries _ (by simpa only [userOf_insertIfNew] using hreg)
    · have ih := fanOut_error multi packet entries ((clients.insertIfNew id default).insert id
        { (clients.insertIfNew id default).getD id default with
          subsQueue :=
            ((clients.insertIfNew id default).getD id default).subsQueue ++ [packet] }) ?_
      · rcases hf : fanOut multi packet entries _ with e | ⟨c, evs⟩
        · rwa [hf] at ih
        · simp
      · intro entry he fd hu
        rw [userOf_insert, userOf_insertIfNew, hstate] at hu
        by_cases hx : id = entry.1
        · simp [hx] at hu
        · rw [if_neg hx] at hu
          exact hreg entry he fd hu
    · rw [getD_insertIfNew_same] at hstate ⊢
      have hmem := hid (clients.getD id default).sockfd
        (userOf_eq_some_iff.2 ⟨by rcases h : (clients.getD id default).state <;> simp_all, rfl⟩)
      have hne := sendPacketToSub_error hmem packet
      have ih := fanOut_error multi packet entries (clients.insertIfNew id default)
        (by simpa only [userOf_insertIfNew] using hreg)
      rcases hs : sendPacketToSub multi _ packet with e | evs
      · rw [hs] at hne
        simpa using hne
      rcases hf : fanOut multi packet entries _ with e | ⟨c, evs'⟩
      · rw [hf] at ih
        exact ih
      simp

/-- The program has given up at a `DIE`. -/
def Stop.IsDie (e : Stop) : Prop :=
  ∃ d, e = .die d

section Die

variable {multi : MultiSocket} {fd : ℤ} {e : Stop}

theorem send_isDie {buf : Bytes} (h : multi.send fd buf = .error e) : e.IsDie := by
  by_cases hfd : fd ∈ multi.tcpSockets
  · by_cases hlen : buf.length + 4 ≤ tcpBufferSize
    · rw [send_of_mem hfd hlen] at h
      simp at h
    · rw [send_of_mem_of_lt hfd (not_le.1 hlen), Except.error.injEq] at h
      exact ⟨_, h.symm⟩
  · rw [send_of_notMem hfd] at h
    simp at h

theorem sendPacketToSub_stop {packet : SharedPacket}
    (h : sendPacketToSub multi fd packet = .error e) :
    e = .die .sendToSub ∨ e = .die .sendBuffered ∧ tcpBufferSize < packet.size + 4 := by
  by_cases hfd : fd ∈ multi.tcpSockets
  · by_cases hlen : packet.size + 4 ≤ tcpBufferSize
    · rw [sendPacketToSub_of_mem hfd hlen] at h
      simp at h
    · rw [sendPacketToSub, send_of_mem_of_lt hfd (by rw [packet.fits]; omega),
        Except.error.injEq] at h
      exact .inr ⟨h.symm, not_le.1 hlen⟩
  · rw [sendPacketToSub_of_notMem hfd, Except.error.injEq] at h
    exact .inl h.symm

theorem sendPacketToSub_isDie {packet : SharedPacket}
    (h : sendPacketToSub multi fd packet = .error e) : e.IsDie := by
  rcases sendPacketToSub_stop h with rfl | ⟨rfl, -⟩ <;> exact ⟨_, rfl⟩

theorem unload_isDie {id : Bytes} {sub : Subscriber} : ∀ {queue : List SharedPacket},
    unloadNewsQueue.unload multi id sub queue = .error e → e.IsDie
  | [], h => by simp [unloadNewsQueue.unload] at h
  | packet :: queue, h => by
    rw [unloadNewsQueue.unload] at h
    rcases hs : sendPacketToSub multi sub.sockfd packet with e' | evs <;> rw [hs] at h
    · rw [Except.error.injEq] at h
      exact h ▸ sendPacketToSub_isDie hs
    rcases hu : unloadNewsQueue.unload multi id sub queue with e' | evs' <;> rw [hu] at h
    · rw [Except.error.injEq] at h
      exact unload_isDie (h ▸ hu)
    · simp at h

theorem fanOut_stop {packet : SharedPacket} : ∀ {entries : List (Bytes × UInt8)}
    {clients : ClientMap}, fanOut multi packet entries clients = .error e →
      e = .die .sendToSub ∨ e = .die .sendBuffered ∧ tcpBufferSize < packet.size + 4
  | [], _, h => by simp [fanOut] at h
  | (id, sf) :: entries, clients, h => by
    rw [fanOut] at h
    dsimp only at h
    split_ifs at h with hstate hsf
    · exact fanOut_stop h
    · rcases hf : fanOut multi packet entries _ with e' | ⟨c, evs⟩ <;> rw [hf] at h
      · rw [Except.error.injEq] at h
        exact fanOut_stop (h ▸ hf)
      · simp at h
    · rcases hs : sendPacketToSub multi _ packet with e' | evs <;> rw [hs] at h
      · rw [Except.error.injEq] at h
        exact h ▸ sendPacketToSub_stop hs
      rcases hf : fanOut multi packet entries _ with e' | ⟨c, evs'⟩ <;> rw [hf] at h
      · rw [Except.error.injEq] at h
        exact fanOut_stop (h ▸ hf)
      · simp at h

theorem answer_isDie {tables : Tables} {buffer : Bytes} {size : ℕ} {type : UInt8}
    (h : answer multi tables fd buffer size type = .error e) : e.IsDie := by
  unfold answer at h
  split_ifs at h
  · rcases hs : multi.send fd (buffer.take size) with e' | ⟨cnt, evs⟩ <;> rw [hs] at h
    · rw [Except.error.injEq] at h
      exact h ▸ send_isDie hs
    dsimp only [unloadNewsQueue] at h
    rcases hu : unloadNewsQueue.unload multi _ _ _ with e' | evs' <;> rw [hu] at h
    · rw [Except.error.injEq] at h
      exact unload_isDie (h ▸ hu)
    · simp at h
  · dsimp only at h
    rcases hs : multi.send fd _ with e' | ⟨cnt, evs⟩ <;> rw [hs] at h
    · rw [Except.error.injEq] at h
      exact h ▸ send_isDie hs
    · simp at h

end Die

/-! ## Commands -/

/-- The type of a frame; `process_tcp_client_packet` puts a NUL behind it. -/
def frameType (buf : Bytes) : UInt8 :=
  (buf ++ [0]).headD 0

/-- The id or the topic of a frame. -/
def frameField (buf : Bytes) : Bytes :=
  cstr ((buf ++ [0]).drop 1)

/-- The subscription of `id` to a topic. -/
def flagOf (topics : TopicMap) (topic id : Bytes) : Option UInt8 :=
  (topics.getD topic ∅)[id]?

/-- The clients are connected where they were, with the same packets stored. -/
structure SameLogins (t t' : Tables) : Prop where
  user : ∀ id, userOf t'.clients id = userOf t.clients id
  queue : ∀ id, queueOf t'.clients id = queueOf t.clients id
  ids : t'.idsMap = t.idsMap

/-- `id` has logged in on `fd`. -/
structure LoggedIn (fd : ℤ) (id : Bytes) (t t' : Tables) : Prop where
  user : ∀ x, userOf t'.clients x = if id = x then some fd else userOf t.clients x
  queue : ∀ x, queueOf t'.clients x = queueOf t.clients x
  ids : t'.idsMap = t.idsMap.insert fd id
  topics : t'.topicMap = t.topicMap

/-- What `process_tcp_client_packet` makes of a frame. -/
inductive Processed (t : Tables) (fd : ℤ) (buf : Bytes) : UInt8 → Tables → Prop
  | accepted {t' : Tables} (hauth : frameType buf = typeAuth)
      (hfree : userOf t.clients (frameField buf) = none) (ht : LoggedIn fd (frameField buf) t t') :
      Processed t fd buf typeAuth t'
  | declined {t' : Tables} (hauth : frameType buf = typeAuth)
      (hused : (userOf t.clients (frameField buf)).isSome) (ht : SameLogins t t')
      (htopics : t'.topicMap = t.topicMap) : Processed t fd buf typeAuthDuplicate t'
  | echoed (htype : frameType buf = typeAuthDuplicate) : Processed t fd buf typeAuthDuplicate t
  | other {type : UInt8} {t' : Tables} (hne : type ≠ typeAuth ∧ type ≠ typeAuthDuplicate)
      (hframe : frameType buf ≠ typeAuth ∧ frameType buf ≠ typeAuthDuplicate)
      (ht : SameLogins t t')
      (htopics : ∀ topic id, flagOf t'.topicMap topic id ≠ flagOf t.topicMap topic id →
        t.idsMap[fd]? = some id) : Processed t fd buf type t'

section Processed

variable {t t' : Tables} {fd : ℤ} {buf : Bytes} {type : UInt8}

theorem LoggedIn.sockfd {id : Bytes} (h : LoggedIn fd id t t') :
    (t'.clients.getD id default).sockfd = fd :=
  (userOf_eq_some_iff.1 ((h.user id).trans (if_pos rfl))).2

theorem Processed.of_auth (h : Processed t fd buf type t') (ht : type = typeAuth) :
    frameType buf = typeAuth ∧ userOf t.clients (frameField buf) = none ∧
      LoggedIn fd (frameField buf) t t' := by
  cases h with
  | accepted hauth hfree hl => exact ⟨hauth, hfree, hl⟩
  | declined => exact absurd ht (by decide)
  | echoed => exact absurd ht (by decide)
  | other hne => exact absurd ht hne.1

theorem Processed.sameLogins (h : Processed t fd buf type t') (ht : type ≠ typeAuth) :
    SameLogins t t' := by
  cases h with
  | accepted => exact absurd rfl ht
  | declined _ _ hs => exact hs
  | echoed => exact ⟨fun _ => rfl, fun _ => rfl, rfl⟩
  | other _ _ hs => exact hs

theorem Processed.queue (h : Processed t fd buf type t') (id : Bytes) :
    queueOf t'.clients id = queueOf t.clients id := by
  by_cases ht : type = typeAuth
  · exact (h.of_auth ht).2.2.queue id
  · exact (h.sameLogins ht).queue id

theorem Processed.of_used (h : Processed t fd buf type t') (hauth : frameType buf = typeAuth)
    (hused : (userOf t.clients (frameField buf)).isSome) : type = typeAuthDuplicate := by
  cases h with
  | accepted _ hfree => simp [hfree] at hused
  | declined => rfl
  | echoed => rfl
  | other _ hframe => exact absurd hauth hframe.1

theorem Processed.of_free (h : Processed t fd buf type t') (hauth : frameType buf = typeAuth)
    (hfree : userOf t.clients (frameField buf) = none) : type = typeAuth := by
  cases h with
  | accepted => rfl
  | declined _ hused => simp [hfree] at hused
  | echoed htype => rw [hauth] at htype; exact absurd htype (by decide)
  | other _ hframe => exact absurd hauth hframe.1

theorem Processed.auth_iff (h : Processed t fd buf type t') : type = typeAuth ↔
    frameType buf = typeAuth ∧ userOf t.clients (frameField buf) = none :=
  ⟨fun ht => ⟨(h.of_auth ht).1, (h.of_auth ht).2.1⟩, fun ⟨hauth, hfree⟩ => h.of_free hauth hfree⟩

theorem Processed.duplicate_iff (h : Processed t fd buf type t') : type = typeAuthDuplicate ↔
    frameType buf = typeAuth ∧ (userOf t.clients (frameField buf)).isSome ∨
      frameType buf = typeAuthDuplicate := by
  cases h with
  | accepted hauth hfree => simp [hauth, hfree, typeAuth, typeAuthDuplicate]
  | declined hauth hused => simp [hauth, hused]
  | echoed htype => simp [htype]
  | other hne hframe => simp [hne.2, hframe.1, hframe.2]

end Processed

section Process

variable {t : Tables} {fd : ℤ} {buffer : Bytes} {size : ℕ} {type : UInt8} {t' : Tables}

theorem SameLogins.refl (t : Tables) : SameLogins t t :=
  ⟨fun _ => rfl, fun _ => rfl, rfl⟩

/-- The clients once an `AUTH` has put an entry for its id, if there was none. -/
def withClient (clients : ClientMap) (id : Bytes) : ClientMap :=
  if id ∈ clients then clients else clients.insert id newSubscriber

/-- A new entry is disconnected and has nothing stored, as none is. -/
theorem getD_withClient (clients : ClientMap) (id x : Bytes) :
    ((withClient clients id).getD x default).state = (clients.getD x default).state ∧
      ((withClient clients id).getD x default).subsQueue = (clients.getD x default).subsQueue ∧
      ((clients.getD x default).state = .connected →
        ((withClient clients id).getD x default).sockfd = (clients.getD x default).sockfd) := by
  unfold withClient
  split_ifs with hmem
  · exact ⟨rfl, rfl, fun _ => rfl⟩
  · rw [getD_insert_client]
    split_ifs with hx
    · subst hx
      rw [Std.TreeMap.getD_eq_fallback hmem]
      exact ⟨rfl, rfl, fun h => by simp [default] at h⟩
    · exact ⟨rfl, rfl, fun _ => rfl⟩

theorem userOf_withClient (clients : ClientMap) (id x : Bytes) :
    userOf (withClient clients id) x = userOf clients x := by
  obtain ⟨hstate, -, hfd⟩ := getD_withClient clients id x
  simp only [userOf, hstate]
  split_ifs with hc
  · rw [hfd hc]
  · rfl

theorem queueOf_withClient (clients : ClientMap) (id x : Bytes) :
    queueOf (withClient clients id) x = queueOf clients x :=
  (getD_withClient clients id x).2.1

theorem flagOf_insert (topics : TopicMap) (topic x id : Bytes) (ids : Std.TreeMap Bytes UInt8) :
    flagOf (topics.insert topic ids) x id = if topic = x then ids[id]? else flagOf topics x id := by
  simp only [flagOf, Std.TreeMap.getD_insert, Std.compare_eq_iff_eq]
  split_ifs <;> rfl

/-- A subscription or its end changes nothing but what the connection's id is subscribed to. -/
theorem flagOf_ne {topics : TopicMap} {topic id x y : Bytes} {ids : Std.TreeMap Bytes UInt8}
    (hids : ∀ y, y ≠ id → ids[y]? = flagOf topics topic y)
    (h : flagOf (topics.insert topic ids) x y ≠ flagOf topics x y) : y = id := by
  by_contra hy
  apply h
  rw [flagOf_insert]
  split_ifs with hx
  · rw [hids y hy, hx]
  · rfl

theorem loggedIn_insert (t : Tables) (fd : ℤ) (id : Bytes) :
    LoggedIn fd id t { t with
      clients := (withClient t.clients id).insert id
        { (withClient t.clients id).getD id default with state := .connected, sockfd := fd }
      idsMap := t.idsMap.insert fd id } := by
  refine ⟨fun x => ?_, fun x => ?_, rfl, rfl⟩
  · rw [userOf_insert, userOf_withClient]
    rfl
  · rw [queueOf_insert, queueOf_withClient]
    split_ifs with hx
    · rw [← hx]
      exact queueOf_withClient t.clients id id
    · rfl

theorem Processed.of_notAuth {buf : Bytes}
    (hne : frameType buf ≠ typeAuth ∧ frameType buf ≠ typeAuthDuplicate) :
    Processed t fd buf typeNotAuth t :=
  .other (by decide) hne (.refl t) fun _ _ h => absurd rfl h

theorem Processed.of_topics {buf topic id : Bytes} {ids : Std.TreeMap Bytes UInt8}
    (hne : frameType buf ≠ typeAuth ∧ frameType buf ≠ typeAuthDuplicate)
    (hid : t.idsMap[fd]? = some id) (hids : ∀ y, y ≠ id → ids[y]? = flagOf t.topicMap topic y) :
    Processed t fd buf (frameType buf) { t with topicMap := t.topicMap.insert topic ids } := by
  refine .other hne hne ⟨fun _ => rfl, fun _ => rfl, rfl⟩ fun x y hchange => ?_
  rw [hid, flagOf_ne hids hchange]

/-- What the server does for a command with the id or the topic `key`. -/
def command (t : Tables) (fd : ℤ) (type : UInt8) (key : Bytes) : UInt8 × Tables :=
  if type = typeAuth then
    if (userOf t.clients key).isSome then
      (typeAuthDuplicate, { t with clients := withClient t.clients key })
    else
      (type, { t with
        clients := (withClient t.clients key).insert key
          { (withClient t.clients key).getD key default with state := .connected, sockfd := fd }
        idsMap := t.idsMap.insert fd key })
  else if type = typeSub ∨ type = typeSubSf then
    match t.idsMap[fd]? with
    | none => (typeNotAuth, t)
    | some id =>
      let flag := if type = typeSub then 0 else 1
      (type, { t with
        topicMap := t.topicMap.insert key ((t.topicMap.getD key ∅).insert id flag) })
  else if type = typeUnsub then
    match t.idsMap[fd]? with
    | none => (typeNotAuth, t)
    | some id =>
      (type, { t with topicMap := t.topicMap.insert key ((t.topicMap.getD key ∅).erase id) })
  else
    (type, t)

theorem connected_withClient_iff (clients : ClientMap) (id : Bytes) :
    ((withClient clients id).getD id default).state = .connected ↔ (userOf clients id).isSome := by
  rw [(getD_withClient clients id id).1, ← Option.ne_none_iff_isSome, ne_eq, userOf_eq_none_iff]
  rcases (clients.getD id default).state <;> simp

/-- The frame is handled as the command with the C string at its field. -/
theorem process_take (t : Tables) (fd : ℤ) (buffer : Bytes) {size : ℕ} (h : size ≤ cliPacketSize) :
    processTcpClientPacket t fd buffer size =
      .ok (command t fd (frameType (buffer.take size)) (frameField (buffer.take size))) := by
  have htype : (buffer.take size ++ [0]).headD 0 = frameType (buffer.take size) := rfl
  have hfield : cstr ((buffer.take size ++ [0]).drop 1) = frameField (buffer.take size) := rfl
  have hclient : ∀ id, (if id ∈ t.clients then t.clients else t.clients.insert id newSubscriber) =
      withClient t.clients id := fun _ => rfl
  unfold processTcpClientPacket command
  dsimp only
  rw [if_neg (not_lt.2 h), htype, hfield, hclient]
  simp only [connected_withClient_iff]
  split_ifs
  · rfl
  · rfl
  · rcases t.idsMap[fd]? with _ | id <;> rfl
  · rcases t.idsMap[fd]? with _ | id <;> rfl
  · rcases t.idsMap[fd]? with _ | id <;> rfl
  · rfl

theorem command_processed (t : Tables) (fd : ℤ) (buf : Bytes) :
    Processed t fd buf (command t fd (frameType buf) (frameField buf)).1
      (command t fd (frameType buf) (frameField buf)).2 := by
  unfold command
  set id := frameField buf with hidx
  by_cases hauth : frameType buf = typeAuth
  · rw [if_pos hauth]
    by_cases hused : (userOf t.clients id).isSome
    · rw [if_pos hused]
      exact .declined hauth hused ⟨userOf_withClient _ _, queueOf_withClient _ _, rfl⟩ rfl
    · rw [if_neg hused, hauth]
      exact .accepted hauth (Option.not_isSome_iff_eq_none.1 hused) (loggedIn_insert t fd id)
  rw [if_neg hauth]
  by_cases hsub : frameType buf = typeSub ∨ frameType buf = typeSubSf
  · rw [if_pos hsub]
    have hdup : frameType buf ≠ typeAuthDuplicate := by
      rcases hsub with hsub | hsub <;> rw [hsub] <;> decide
    rcases hid : t.idsMap[fd]? with _ | name
    · exact .of_notAuth ⟨hauth, hdup⟩
    · refine .of_topics ⟨hauth, hdup⟩ hid fun y hy => ?_
      simp [Std.TreeMap.getElem?_insert, flagOf, hy.symm]
  rw [if_neg hsub]
  by_cases hunsub : frameType buf = typeUnsub
  · rw [if_pos hunsub]
    have hdup : frameType buf ≠ typeAuthDuplicate := by
      rw [hunsub]
      decide
    rcases hid : t.idsMap[fd]? with _ | name
    · exact .of_notAuth ⟨hauth, hdup⟩
    · refine .of_topics ⟨hauth, hdup⟩ hid fun y hy => ?_
      simp [Std.TreeMap.getElem?_erase, flagOf, hy.symm]
  rw [if_neg hunsub]
  by_cases hdup : frameType buf = typeAuthDuplicate
  · rw [hdup]
    exact .echoed hdup
  · exact .other ⟨hauth, hdup⟩ ⟨hauth, hdup⟩ (.refl t) fun _ _ hne => absurd rfl hne

theorem process_big (t : Tables) (fd : ℤ) (buffer : Bytes) (h : cliPacketSize < size) :
    processTcpClientPacket t fd buffer size = .error (.die .tcpPacketTooBig) := by
  unfold processTcpClientPacket
  exact if_pos h

theorem process_size (h : processTcpClientPacket t fd buffer size = .ok (type, t')) :
    size ≤ cliPacketSize := by
  by_contra hsize
  rw [process_big t fd buffer (not_le.1 hsize)] at h
  simp at h

theorem process_ok (h : processTcpClientPacket t fd buffer size = .ok (type, t')) :
    Processed t fd (buffer.take size) type t' := by
  have hcommand := command_processed t fd (buffer.take size)
  rw [process_take t fd buffer (process_size h)] at h
  rwa [Except.ok.inj h] at hcommand

theorem process_total (t : Tables) (fd : ℤ) (buffer : Bytes) (h : size ≤ cliPacketSize) :
    ∃ type t', processTcpClientPacket t fd buffer size = .ok (type, t') :=
  ⟨_, _, process_take t fd buffer h⟩

theorem process_error {e : Stop} (h : processTcpClientPacket t fd buffer size = .error e) :
    e = .die .tcpPacketTooBig := by
  rcases le_or_gt size cliPacketSize with hsize | hsize
  · rw [process_take t fd buffer hsize] at h
    simp at h
  · rw [process_big t fd buffer hsize] at h
    exact (Except.error.inj h).symm

end Process

end NewsServer
