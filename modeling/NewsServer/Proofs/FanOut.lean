import NewsServer.Proofs.Steps

/-!
# Who gets the news

`send_news_to_subscribers` walks over the ids of a topic. Where each has an entry in `clients`, and
each that is connected a socket, the walk sends the packet to the ones that are connected, stores it
for the others that asked for it, and changes nothing else.
-/

namespace NewsServer

open Memory

/-- What the walk shows of an entry of the topic. -/
def outcome (clients : ClientMap) (packet : SharedPacket) (entry : Bytes × UInt8) : List Event :=
  match userOf clients entry.1 with
  | some fd => [.sent fd (wire packet.data), .forwarded entry.1 fd packet]
  | none => if entry.2 = 0 then [] else [.stored entry.1 packet]

/-- A call of `::send`. -/
def Event.send? : Event → Option (ℤ × Bytes)
  | .sent fd wire => some (fd, wire)
  | _ => none

/-- A client for which the packet is stored if `wanted` and it is not connected. -/
def Subscriber.store (packet : SharedPacket) (wanted : Prop) [Decidable wanted]
    (sub : Subscriber) : Subscriber :=
  if wanted ∧ sub.state = .disconnected then
    { sub with subsQueue := sub.subsQueue ++ [packet] }
  else
    sub

section FanOut

variable {packet : SharedPacket} {clients : ClientMap}

theorem getElem?_insertIfNew_of_mem {id : Bytes} (h : id ∈ clients) (x : Bytes) :
    (clients.insertIfNew id default)[x]? = clients[x]? := by
  rw [Std.TreeMap.getElem?_insertIfNew]
  split_ifs with hx
  · exact absurd h hx.2
  · rfl

theorem outcome_congr {clients' : ClientMap} (h : ∀ x, userOf clients' x = userOf clients x)
    (entry : Bytes × UInt8) : outcome clients' packet entry = outcome clients packet entry := by
  rw [outcome, outcome, h]

theorem store_congr {p q : Prop} [Decidable p] [Decidable q] (h : p ↔ q) :
    Subscriber.store packet p = Subscriber.store packet q := by
  funext sub
  simp only [Subscriber.store, h]

theorem store_of_not {p : Prop} [Decidable p] (h : ¬ p) (sub : Subscriber) :
    sub.store packet p = sub :=
  if_neg fun hp => h hp.1

/-- The first entry decides about its own client, the others about the others. -/
theorem getElem?_store {id : Bytes} {sf : UInt8} {entries : List (Bytes × UInt8)}
    {mid clients' : ClientMap} (hid : id ∉ entries.map Prod.fst)
    (hother : ∀ x, id ≠ x → mid[x]? = clients[x]?)
    (hself : mid[id]? = clients[id]?.map (Subscriber.store packet (sf ≠ 0)))
    (h : ∀ x, clients'[x]? = mid[x]?.map
      (Subscriber.store packet (∃ entry ∈ entries, entry.1 = x ∧ entry.2 ≠ 0))) (x : Bytes) :
    clients'[x]? = clients[x]?.map
      (Subscriber.store packet (∃ entry ∈ (id, sf) :: entries, entry.1 = x ∧ entry.2 ≠ 0)) := by
  by_cases hx : id = x
  · subst hx
    have hno : ¬ ∃ entry ∈ entries, entry.1 = id ∧ entry.2 ≠ 0 := by
      rintro ⟨entry, he, rfl, -⟩
      exact hid (List.mem_map_of_mem he)
    have hhead : (∃ entry ∈ (id, sf) :: entries, entry.1 = id ∧ entry.2 ≠ 0) ↔ sf ≠ 0 := by
      constructor
      · rintro ⟨entry, he, hentry⟩
        rcases List.mem_cons.1 he with rfl | he
        · exact hentry.2
        · exact absurd ⟨entry, he, hentry⟩ hno
      · exact fun hsf => ⟨(id, sf), List.mem_cons_self, rfl, hsf⟩
    rw [h, hself, store_congr hhead, Option.map_map]
    refine congrArg (Option.map · clients[id]?) (funext fun sub => ?_)
    exact store_of_not hno _
  · have htail : (∃ entry ∈ (id, sf) :: entries, entry.1 = x ∧ entry.2 ≠ 0) ↔
        ∃ entry ∈ entries, entry.1 = x ∧ entry.2 ≠ 0 := by
      simp [hx]
    rw [h, hother x hx, store_congr htail]

theorem fanOut_eq (multi : MultiSocket) (hsize : packet.size + 4 ≤ tcpBufferSize) :
    ∀ {entries : List (Bytes × UInt8)} (clients : ClientMap), (entries.map Prod.fst).Nodup →
      (∀ entry ∈ entries, entry.1 ∈ clients) →
      (∀ entry ∈ entries, ∀ fd, userOf clients entry.1 = some fd → fd ∈ multi.tcpSockets) →
        ∃ clients', fanOut multi packet entries clients =
            .ok (clients', entries.flatMap (outcome clients packet)) ∧
          ∀ x, clients'[x]? = clients[x]?.map
            (Subscriber.store packet (∃ entry ∈ entries, entry.1 = x ∧ entry.2 ≠ 0))
  | [], clients, _, _, _ => by
    refine ⟨clients, rfl, fun x => ?_⟩
    rcases clients[x]? with _ | sub <;> simp [Subscriber.store]
  | (id, sf) :: entries, clients, hnd, hent, hreg => by
    obtain ⟨hid, hnd⟩ := List.nodup_cons.1 hnd
    obtain ⟨hmem, hent⟩ := List.forall_mem_cons.1 hent
    obtain ⟨hfd, hreg⟩ := List.forall_mem_cons.1 hreg
    dsimp only at hmem hfd hid
    have ih : ∀ mid : ClientMap, (∀ x ∈ clients, x ∈ mid) →
        (∀ x, userOf mid x = userOf clients x) → ∃ clients', fanOut multi packet entries mid =
            .ok (clients', entries.flatMap (outcome clients packet)) ∧
          ∀ x, clients'[x]? = mid[x]?.map
            (Subscriber.store packet (∃ entry ∈ entries, entry.1 = x ∧ entry.2 ≠ 0)) := by
      intro mid hkeep huser
      obtain ⟨clients', hfan, hclients⟩ := fanOut_eq multi hsize mid hnd
        (fun entry he => hkeep _ (hent entry he))
        fun entry he fd hu => hreg entry he fd ((huser _).symm.trans hu)
      rw [funext (outcome_congr huser)] at hfan
      exact ⟨clients', hfan, hclients⟩
    have hsub : clients[id]? = some (clients.getD id default) := by
      rw [Std.TreeMap.getD_eq_getD_getElem?, getElem?_pos clients id hmem]
      rfl
    have hsame := getElem?_insertIfNew_of_mem hmem
    have hkeep : ∀ x ∈ clients, x ∈ clients.insertIfNew id default := fun x hx => by simp [hx]
    rw [fanOut, List.flatMap_cons]
    dsimp only
    rw [getD_insertIfNew_same]
    set sub := clients.getD id default with hsubdef
    by_cases hstate : sub.state = .disconnected
    · have hfree : userOf clients id = none := userOf_eq_none_iff.2 hstate
      rw [if_pos hstate]
      by_cases hsf : sf = 0
      · obtain ⟨clients', hfan, hclients⟩ := ih _ hkeep (userOf_insertIfNew clients id)
        refine ⟨clients', ?_, getElem?_store hid (fun x _ => hsame x) ?_ hclients⟩
        · rw [if_pos hsf, hfan]
          simp [outcome, hfree, hsf]
        · rw [hsame, hsub, Option.map_some, store_of_not (not_not.2 hsf)]
      · have hkeep' : ∀ x ∈ clients, x ∈ (clients.insertIfNew id default).insert id
            { sub with subsQueue := sub.subsQueue ++ [packet] } := fun x hx => by simp [hx]
        obtain ⟨clients', hfan, hclients⟩ := ih _ hkeep' fun x => by
          rw [userOf_insert, userOf_insertIfNew, hstate]
          by_cases hx : id = x
          · subst hx
            simp [hfree]
          · simp [hx]
        refine ⟨clients', ?_, getElem?_store hid (fun x hx => ?_) ?_ hclients⟩
        · rw [if_neg hsf, hfan]
          simp [outcome, hfree, hsf]
        · rw [Std.TreeMap.getElem?_insert, if_neg (by simpa using hx), hsame]
        · rw [Std.TreeMap.getElem?_insert_self, hsub, Option.map_some, Subscriber.store,
            if_pos ⟨hsf, hstate⟩]
    · have huser : userOf clients id = some sub.sockfd := by
        rw [userOf_eq_some_iff]
        rcases hs : sub.state with _ | _
        · exact absurd hs hstate
        · exact ⟨rfl, rfl⟩
      obtain ⟨clients', hfan, hclients⟩ := ih _ hkeep (userOf_insertIfNew clients id)
      refine ⟨clients', ?_, getElem?_store hid (fun x _ => hsame x) ?_ hclients⟩
      · rw [if_neg hstate, sendPacketToSub_of_mem (hfd _ huser) hsize, hfan]
        simp [outcome, huser]
      · rw [hsame, hsub, Option.map_some, Subscriber.store, if_neg fun h => hstate h.2]

/-- The sockets of the ids that are connected. -/
def recipients (clients : ClientMap) (entries : List (Bytes × UInt8)) : List (Bytes × ℤ) :=
  entries.filterMap fun entry => (userOf clients entry.1).map fun fd => (entry.1, fd)

theorem mem_recipients {entries : List (Bytes × UInt8)} {id : Bytes} {fd : ℤ} :
    (id, fd) ∈ recipients clients entries ↔
      (∃ sf, (id, sf) ∈ entries) ∧ userOf clients id = some fd := by
  simp only [recipients, List.mem_filterMap, Option.map_eq_some_iff, Prod.mk.injEq, Prod.exists]
  constructor
  · rintro ⟨x, sf, he, y, hu, rfl, rfl⟩
    exact ⟨⟨sf, he⟩, hu⟩
  · rintro ⟨⟨sf, he⟩, hu⟩
    exact ⟨id, sf, he, fd, hu, rfl, rfl⟩

theorem recipients_fst (clients : ClientMap) (entries : List (Bytes × UInt8)) :
    ((recipients clients entries).map Prod.fst).Sublist (entries.map Prod.fst) := by
  induction entries with
  | nil => exact List.Sublist.refl _
  | cons entry entries ih =>
    rw [recipients, List.filterMap_cons]
    rcases userOf clients entry.1 with _ | fd
    · exact ih.cons _
    · exact ih.cons_cons _

theorem sends_outcomes (clients : ClientMap) (packet : SharedPacket)
    (entries : List (Bytes × UInt8)) :
    (entries.flatMap (outcome clients packet)).filterMap Event.send? =
      (recipients clients entries).map fun r => (r.2, wire packet.data) := by
  induction entries with
  | nil => rfl
  | cons entry entries ih =>
    rw [List.flatMap_cons, List.filterMap_append, ih]
    rcases hu : userOf clients entry.1 with _ | fd
    · simp only [outcome, recipients, List.filterMap_cons, hu, Option.map_none]
      split_ifs <;> rfl
    · simp [outcome, recipients, hu, Event.send?]

end FanOut

/-- The packet goes once to each client of the topic that is connected, is put once behind what is
stored for each other one that asked for it, and nothing else happens. -/
theorem sendNewsToSubscribers_exact (multi : MultiSocket) (tables : Tables) (packet : SharedPacket)
    (beyond : Bytes) (hsize : packet.size + 4 ≤ tcpBufferSize)
    (hent : ∀ topic id, (flagOf tables.topicMap topic id).isSome → id ∈ tables.clients)
    (hreg : ∀ id fd, userOf tables.clients id = some fd → fd ∈ multi.tcpSockets) :
    ∃ tables' evs, sendNewsToSubscribers multi tables packet beyond = .ok (tables', evs) ∧
      (∃ rs : List (Bytes × ℤ), (rs.map Prod.fst).Nodup ∧
        (∀ id fd, (id, fd) ∈ rs ↔
          (flagOf tables.topicMap (getNewsTopic packet.data beyond) id).isSome ∧
            userOf tables.clients id = some fd) ∧
        evs.filterMap Event.send? = rs.map fun r => (r.2, wire packet.data)) ∧
      (∀ id, tables'.clients[id]? = tables.clients[id]?.map (Subscriber.store packet
        (∃ sf ∈ flagOf tables.topicMap (getNewsTopic packet.data beyond) id, sf ≠ 0))) ∧
      tables'.idsMap = tables.idsMap ∧
      ∀ topic id, flagOf tables'.topicMap topic id = flagOf tables.topicMap topic id := by
  set topic := getNewsTopic packet.data beyond with htopic
  set entries := (tables.topicMap.getD topic ∅).toList with hentries
  have hmem : ∀ id sf, (id, sf) ∈ entries ↔ flagOf tables.topicMap topic id = some sf :=
    fun id sf => Std.TreeMap.mem_toList_iff_getElem?_eq_some
  have hnd : (entries.map Prod.fst).Nodup := nodup_toList _
  obtain ⟨clients', hfan, hclients⟩ := fanOut_eq multi hsize tables.clients hnd
    (fun entry he => hent topic entry.1 (by rw [(hmem entry.1 entry.2).1 he]; rfl))
    fun entry _ fd hu => hreg entry.1 fd hu
  refine ⟨{ tables with topicMap := tables.topicMap.insertIfNew topic ∅, clients := clients' },
    .news topic packet :: entries.flatMap (outcome tables.clients packet), ?_,
    ⟨recipients tables.clients entries, ?_, fun id fd => ?_, ?_⟩, fun id => ?_, rfl,
    fun x id => ?_⟩
  · unfold sendNewsToSubscribers
    dsimp only
    rw [getD_insertIfNew_same, ← htopic, ← hentries, hfan]
  · exact hnd.sublist (recipients_fst _ _)
  · rw [mem_recipients, Option.isSome_iff_exists]
    simp only [hmem]
  · rw [List.filterMap_cons, sends_outcomes]
    rfl
  · rw [hclients, store_congr (q := ∃ sf ∈ flagOf tables.topicMap topic id, sf ≠ 0)]
    constructor
    · rintro ⟨⟨x, sf⟩, he, rfl, hsf⟩
      exact ⟨sf, (hmem x sf).1 he, hsf⟩
    · rintro ⟨sf, hflag, hsf⟩
      exact ⟨(id, sf), (hmem id sf).2 hflag, rfl, hsf⟩
  · rw [flagOf, flagOf, getD_insertIfNew_same]

/-- `A` is connected on 5 and `B` is not; both are subscribed to `t`, `B` with `sf`. -/
def twoSubscribers : Tables where
  topicMap := (∅ : TopicMap).insert [116]
    (((∅ : Std.TreeMap Bytes UInt8).insert [65] 0).insert [66] 1)
  clients := ((∅ : ClientMap).insert [65] ⟨5, .connected, []⟩).insert [66] ⟨6, .disconnected, []⟩
  idsMap := ∅

/-- The packet of `t` is stored for `B`. -/
theorem sendNewsToSubscribers_exact_two : ∃ tables' evs,
    sendNewsToSubscribers (MultiSocket.new.connect 5 default) twoSubscribers
      (getSendableNews [116] default) [0] = .ok (tables', evs) ∧
    tables'.clients[([66] : Bytes)]? =
      some ⟨6, .disconnected, [getSendableNews [116] default]⟩ := by
  have hent : ∀ topic id, (flagOf twoSubscribers.topicMap topic id).isSome →
      id ∈ twoSubscribers.clients := by
    intro topic id h
    rw [twoSubscribers, flagOf_insert] at h
    split_ifs at h with ht
    · rw [← Std.TreeMap.mem_iff_isSome_getElem?] at h
      simpa [twoSubscribers] using h
    · simp [flagOf] at h
  have hreg : ∀ id fd, userOf twoSubscribers.clients id = some fd →
      fd ∈ (MultiSocket.new.connect 5 default).tcpSockets := by
    intro id fd h
    rw [twoSubscribers, userOf_insert, userOf_insert] at h
    split_ifs at h with h66 hc h65
    · simp at hc
    · simp [MultiSocket.connect, ← Option.some.inj h]
    · simp [userOf, default] at h
  obtain ⟨tables', evs, hok, -, hclients, -⟩ := sendNewsToSubscribers_exact
    (MultiSocket.new.connect 5 default) twoSubscribers (getSendableNews [116] default) [0]
    (by decide) hent hreg
  refine ⟨tables', evs, hok, (hclients [66]).trans ?_⟩
  decide +kernel

end NewsServer
