import NewsServer.Proofs.Uplink

/-!
# News from the server to the screen

What the server sends to a subscriber is the answer to its `AUTH` and then news (`Announced`). Where
each datagram has a known type and the bytes this needs, and each step of the subscriber is orderly,
the lines it prints are those of the news that was sent to it, in order, up to some packet
(`prints_sent`), in any order of the steps of the server and its subscribers.
-/

namespace NewsServer

open Memory
open Sessions Registry

/-- A packet of news that was sent, and where to. -/
def Event.newsOn : Event → Option (ℤ × SharedPacket)
  | .forwarded _ fd packet => some (fd, packet)
  | .replayed _ fd packet => some (fd, packet)
  | _ => none

/-- What is sent for a frame, news apart. -/
def replyHead (buf : Bytes) (type : UInt8) : Option Bytes :=
  if type = typeAuth then some (wire buf)
  else if type = typeAuthDuplicate then some (wire [typeAuthDuplicate])
  else none

section Events

variable {multi : MultiSocket} {packet : SharedPacket} {entries : List (Bytes × UInt8)}
  {clients clients' : ClientMap} {evs : List Event} {c : ℕ}

theorem FannedOut.filterMap_tells (h : FannedOut multi packet entries clients clients' evs)
    (r : Registry ℤ Bytes) : evs.filterMap (tells Event.wire c r) =
      (evs.filterMap (tells Event.newsOn c r)).map (wire ·.data) := by
  induction h with
  | nil => rfl
  | skip _ _ _ _ ih => exact ih
  | store _ _ _ _ _ ih => exact ih
  | @forward id sf fd _ _ _ _ evs _ _ _ _ _ ih =>
    have hsplit : ∀ {α : Type} (f : Event → Option (ℤ × α)),
        (.sent fd (wire packet.data) :: .forwarded id fd packet :: evs).filterMap (tells f c r) =
          ([.sent fd (wire packet.data), .forwarded id fd packet] : List Event).filterMap
            (tells f c r) ++ evs.filterMap (tells f c r) := by
      intro α f
      rw [← List.filterMap_append]
      rfl
    rw [hsplit, hsplit, ih, List.map_append]
    refine congrArg (· ++ _) ?_
    by_cases hon : r.on fd = some c <;>
      simp [tells, Event.wire, Event.newsOn, hon, List.filterMap_cons]

/-- It is sent to clients of the topic that are connected, on their sockets. -/
theorem FannedOut.eq_of_newsOn (h : FannedOut multi packet entries clients clients' evs) {e : Event}
    (he : e ∈ evs) {fd : ℤ} {p : SharedPacket} (hp : e.newsOn = some (fd, p)) :
    (∃ id ∈ entries.map Prod.fst, userOf clients id = some fd) ∧ p = packet := by
  induction h with
  | nil => simp at he
  | @skip id _ _ _ _ _ _ hu _ _ ih =>
    obtain ⟨⟨x, hx, huser⟩, hp⟩ := ih he
    exact ⟨⟨x, List.mem_cons_of_mem _ hx, hu x ▸ huser⟩, hp⟩
  | @store id _ _ _ _ _ _ _ _ hu _ _ ih =>
    rcases List.mem_cons.1 he with rfl | he
    · simp [Event.newsOn] at hp
    obtain ⟨⟨x, hx, huser⟩, hp⟩ := ih he
    exact ⟨⟨x, List.mem_cons_of_mem _ hx, hu x ▸ huser⟩, hp⟩
  | @forward id _ _ _ _ _ _ _ huser _ hu _ _ ih =>
    rcases List.mem_cons.1 he with rfl | he
    · simp [Event.newsOn] at hp
    rcases List.mem_cons.1 he with rfl | he
    · obtain ⟨rfl, rfl⟩ := Prod.mk.inj (Option.some.inj hp)
      exact ⟨⟨id, List.mem_cons_self, huser⟩, rfl⟩
    obtain ⟨⟨x, hx, huser⟩, hp⟩ := ih he
    exact ⟨⟨x, List.mem_cons_of_mem _ hx, hu x ▸ huser⟩, hp⟩

theorem filterMap_newsOn_replays (r : Registry ℤ Bytes) (id : Bytes) (fd : ℤ)
    (queue : List SharedPacket) : (replays id fd queue).filterMap (tells Event.newsOn c r) =
      if r.on fd = some c then queue else [] := by
  induction queue with
  | nil => simp [replays]
  | cons packet queue ih =>
    rw [replays, List.flatMap_cons, List.filterMap_append, ← replays, ih]
    by_cases hon : r.on fd = some c <;> simp [tells, Event.newsOn, hon, List.filterMap_cons]

theorem replyTo_eq (t : Tables) (buf : Bytes) (type : UInt8) : replyTo t buf type =
    (replyHead buf type).toList ++
      (if type = typeAuth then queueOf t.clients (frameField buf) else []).map (wire ·.data) := by
  unfold replyTo replyHead
  split_ifs <;> rfl

theorem gather_newsOn_frame {m m' : MultiSocket} {t : Tables} {fd : ℤ} {buf : Bytes} {type : UInt8}
    {past evs : List Event} {r : Registry ℤ Bytes}
    (hans : Answered m t fd buf type m' evs) (hpast : past = [] ∨ past = [.pastPacket]) :
    gather note Event.newsOn c r (.frame fd buf type :: past ++ evs) =
      if r.on fd = some c then
        if type = typeAuth then queueOf t.clients (frameField buf) else []
      else [] := by
  have hpast' : ∀ es, gather note Event.newsOn c (note r (.frame fd buf type)) (past ++ es) =
      gather note Event.newsOn c (note r (.frame fd buf type)) es := by
    intro es
    rcases hpast with rfl | rfl <;> rfl
  rw [List.cons_append, gather, show tells Event.newsOn c r (.frame fd buf type) = none from rfl,
    Option.toList_none, List.nil_append, hpast']
  have hon := note_frame_on r fd buf type
  generalize note r (.frame fd buf type) = r' at hon
  cases hans with
  | confirmed =>
    have hkeep : ∀ e ∈ .sent fd (wire buf) ::
        replays (frameField buf) fd (queueOf t.clients (frameField buf)),
        ∀ r : Registry ℤ Bytes, (note r e).on = r.on := by
      refine List.forall_mem_cons.2 ⟨fun r => rfl, fun e he r => ?_⟩
      rw [note_of_ofNews (ofNews_of_mem_replays he)]
    rw [gather_of_on hkeep, List.filterMap_cons, filterMap_newsOn_replays, hon, if_pos rfl]
    rfl
  | declined =>
    have hne : typeAuthDuplicate ≠ typeAuth := by decide
    rw [gather_eq_nil (by simp [Event.newsOn]), if_neg hne, ite_self]
  | silent hne =>
    rw [gather, if_neg hne.1, ite_self]

end Events

/-- Nothing is sent for the frame of a command. -/
theorem CommandFrame.type_ne {t t' : Tables} {fd : ℤ} {buf : Bytes} {type : UInt8}
    (h : CommandFrame buf) (hp : Processed t fd buf type t') :
    type ≠ typeAuth ∧ type ≠ typeAuthDuplicate := by
  have hframe : frameType buf ≠ typeAuth ∧ frameType buf ≠ typeAuthDuplicate := by
    rcases h.type with h | h | h <;> rw [h] <;> decide
  cases hp with
  | accepted hauth => exact absurd hauth hframe.1
  | declined hauth => exact absurd hauth hframe.1
  | echoed htype => exact absurd htype hframe.2
  | other hne => exact hne

theorem Processed.exists_reply {t t' : Tables} {fd : ℤ} {buf : Bytes} {type : UInt8}
    (hp : Processed t fd buf type t') (hauth : frameType buf = typeAuth) :
    ∃ reply, (reply = buf ∨ reply = [typeAuthDuplicate]) ∧
      replyHead buf type = some (wire reply) := by
  cases hp with
  | accepted => exact ⟨buf, .inl rfl, rfl⟩
  | declined => exact ⟨_, .inr rfl, rfl⟩
  | echoed => exact ⟨_, .inr rfl, rfl⟩
  | other _ hframe => exact absurd hauth hframe.1

theorem mem_of_append_singleton_isPrefix {α : Type*} {xs ys : List α} {a b : α} (hxs : xs ≠ [])
    (h : xs ++ [b] <+: a :: ys) : b ∈ ys := by
  rcases xs with _ | ⟨x, xs⟩
  · exact absurd rfl hxs
  · exact ((List.cons_prefix_cons.1 h).2).subset (by simp)

/-- A subscriber can print the packet, and has room for it. -/
def SharedPacket.Printable (packet : SharedPacket) : Prop :=
  NewsFrame packet.data ∧ packet.data.length ≤ buflen

instance (packet : SharedPacket) : Decidable packet.Printable :=
  inferInstanceAs (Decidable (_ ∧ _))

namespace World

variable {w w' : World} {k : Kernel} {c : ℕ}

/-- The news that was sent to a connection. -/
def newsSent (w : World) (c : ℕ) : List SharedPacket :=
  gather note Event.newsOn c .empty w.trace

/-- What a step tells of a connection: the frames it handles, and the news it sends. -/
inductive Relayed (w : World) (k : Kernel) (w' : World) (c : ℕ) :
    List (Bytes × UInt8) → List SharedPacket → Prop
  | live {news : List SharedPacket} (h : ∀ packet ∈ news, w.Forwards k c ∧ packet = k.news) :
      Relayed w k w' c [] news
  | frame {fd : ℤ} {buf : Bytes} {type : UInt8} (hon : w.conn fd = some c)
      (hp : Processed w.server.tables fd buf type w'.server.tables) :
      Relayed w k w' c [(buf, type)] (if type = typeAuth then w'.queue (frameField buf) else [])

/-- What is sent to a connection is the answers to its frames, and news. -/
theorem relayed_of_next (h : w.Consistent) (hn : next w k = some w') (c : ℕ) :
    ∃ frames news, Relayed w k w' c frames news ∧ w'.answers c = w.answers c ++ frames ∧
      w'.sends c = w.sends c ++ (frames.filterMap (fun x => replyHead x.1 x.2) ++
        news.map (wire ·.data)) ∧ w'.newsSent c = w.newsSent c ++ news := by
  obtain ⟨hd, ht, -⟩ := h.does hn
  have happ : ∀ {α : Type} (f : Event → Option (ℤ × α)), gather note f c .empty w'.trace =
      gather note f c .empty w.trace ++ gather note f c w.registry (w.events k) := by
    intro α f
    rw [ht, gather_append, ← registry_eq]
  suffices hsuff : Relayed w k w' c (gather note Event.handled c w.registry (w.events k))
      (gather note Event.newsOn c w.registry (w.events k)) ∧
      gather note Event.wire c w.registry (w.events k) =
        (gather note Event.handled c w.registry (w.events k)).filterMap
          (fun x => replyHead x.1 x.2) ++
        (gather note Event.newsOn c w.registry (w.events k)).map (wire ·.data) by
    exact ⟨_, _, hsuff.1, happ _, (happ _).trans (by rw [hsuff.2]; rfl), happ _⟩
  generalize w.events k = evs at hd
  have hnil : (∀ e ∈ evs, e.handled = none) → (∀ e ∈ evs, e.wire = none) →
      (∀ e ∈ evs, e.newsOn = none) →
      Relayed w k w' c (gather note Event.handled c w.registry evs)
        (gather note Event.newsOn c w.registry evs) ∧ gather note Event.wire c w.registry evs =
        (gather note Event.handled c w.registry evs).filterMap (fun x => replyHead x.1 x.2) ++
        (gather note Event.newsOn c w.registry evs).map (wire ·.data) := by
    intro h₁ h₂ h₃
    rw [gather_eq_nil h₁, gather_eq_nil h₂, gather_eq_nil h₃]
    exact ⟨.live (by simp), rfl⟩
  generalize hw : w'.server = s' at hd
  cases hd with
  | poll => exact hnil (by simp) (by simp) (by simp)
  | select =>
    obtain ⟨fds, he, -⟩ := MultiSocket.passed_selectRound w.server.multi k.pass
    rw [he] at hnil ⊢
    exact hnil (by simp [Event.handled]) (by simp [Event.wire]) (by simp [Event.newsOn])
  | stdin => exact hnil (by simp) (by simp) (by simp)
  | @news fd buffer clients evs hat hfan =>
    have hnews : ∀ e ∈ Event.news k.topic k.news :: evs, e.OfNews :=
      List.forall_mem_cons.2 ⟨trivial, hfan.ofNews⟩
    have hhandled : ∀ e ∈ Event.news k.topic k.news :: evs, e.handled = none := by
      intro e he
      have := hnews e he
      cases e <;> first | rfl | exact absurd this id
    have hkeep : ∀ e ∈ Event.news k.topic k.news :: evs, ∀ r : Registry ℤ Bytes,
        (note r e).on = r.on := fun e he r => by rw [note_of_ofNews (hnews e he)]
    rw [gather_eq_nil hhandled, gather_of_on hkeep, gather_of_on hkeep]
    refine ⟨.live fun packet hpacket => ?_, hfan.filterMap_tells w.registry⟩
    obtain ⟨e, he, htells⟩ := List.mem_filterMap.1 hpacket
    obtain ⟨⟨fd', p⟩, hof, hite⟩ := Option.bind_eq_some_iff.1 htells
    rw [Option.ite_none_right_eq_some, Option.some.injEq] at hite
    obtain ⟨hon, rfl⟩ := hite
    rcases List.mem_cons.1 he with rfl | he
    · simp [Event.newsOn] at hof
    obtain ⟨⟨id, hid, huser⟩, rfl⟩ := hfan.eq_of_newsOn he hof
    refine ⟨⟨⟨fd, hat⟩, id, fd', ?_, huser, hon⟩, rfl⟩
    obtain ⟨⟨id', sf⟩, hentry, rfl⟩ := List.mem_map.1 hid
    rw [flagOf, Std.TreeMap.mem_toList_iff_getElem?_eq_some.1 hentry]
    rfl
  | accept =>
    exact hnil (by simp [Event.handled]) (by simp [Event.wire]) (by simp [Event.newsOn])
  | closed =>
    exact hnil (by simp [Event.handled]) (by simp [Event.wire]) (by simp [Event.newsOn])
  | idle => exact hnil (by simp) (by simp) (by simp)
  | @frame fd buf type tables multi past evs hat hin hsize hmem hp hans hpast =>
    obtain ⟨hframes, hsent⟩ := gather_frame (c := c) (r := w.registry) hans hpast
    have hqueue : w'.queue (frameField buf) = queueOf tables.clients (frameField buf) := by
      rw [queue, hw]
    rw [hframes, hsent, gather_newsOn_frame hans hpast, replyTo_eq]
    by_cases hon : w.registry.on fd = some c
    · simp only [if_pos hon]
      have htables : tables = w'.server.tables := by rw [hw]
      rw [htables] at hp
      rw [← hqueue]
      refine ⟨.frame hon hp, ?_⟩
      rcases hh : replyHead buf type <;> simp [hh]
    · simp only [if_neg hon]
      exact ⟨.live (by simp), rfl⟩

theorem Relayed.eq_nil {frames : List (Bytes × UInt8)} {news : List SharedPacket}
    (hr : Relayed w k w' c frames news) (hc : ∀ fd, w.conn fd ≠ some c) :
    frames = [] ∧ news = [] := by
  cases hr with
  | live h =>
    refine ⟨rfl, List.eq_nil_iff_forall_not_mem.2 fun packet hpacket => ?_⟩
    obtain ⟨⟨-, id, fd, -, -, hon⟩, -⟩ := h packet hpacket
    exact hc fd hon
  | frame hon => exact absurd hon (hc _)

theorem Does.at_of_mem_storedFor {s s' : Server} {evs : List Event} (hd : Does s k s' evs)
    {id : Bytes} {p : SharedPacket} (hp : p ∈ storedFor id evs) : ∃ fd, s.At fd .udp := by
  cases hd with
  | @news fd _ _ _ hat => exact ⟨fd, hat⟩
  | select =>
    obtain ⟨fds, he, -⟩ := MultiSocket.passed_selectRound s.multi k.pass
    simp [he, storedFor_closed] at hp
  | frame _ _ _ _ _ hans hpast =>
    rw [hans.storedFor_eq hpast] at hp
    simp at hp
  | _ => simp [storedFor] at hp

/-- All the news that was stored or sent can be printed. -/
structure PrintableNews (w : World) : Prop where
  stored : ∀ id, ∀ packet ∈ w.queue id, packet.Printable
  sent : ∀ c, ∀ packet ∈ w.newsSent c, packet.Printable

theorem PrintableNews.next (hp : w.PrintableNews) (h : w.Consistent)
    (hn : World.next w k = some w') (hk : (∃ fd, w.server.At fd .udp) → k.news.Printable) :
    w'.PrintableNews := by
  have hstored : ∀ id, ∀ packet ∈ w'.queue id, packet.Printable := by
    intro id packet hpacket
    have hd := (h.does hn).1
    rw [queue_next h hn] at hpacket
    rcases List.mem_append.1 hpacket with hold | hnew
    · exact hp.stored id packet hold
    · rw [hd.eq_of_mem_storedFor hnew]
      exact hk (Does.at_of_mem_storedFor hd hnew)
  refine ⟨hstored, fun c packet hpacket => ?_⟩
  obtain ⟨frames, news, hrelayed, -, -, hnews⟩ := relayed_of_next h hn c
  rw [hnews] at hpacket
  rcases List.mem_append.1 hpacket with hold | hnew
  · exact hp.sent c packet hold
  cases hrelayed with
  | live hlive =>
    obtain ⟨⟨hat, -⟩, rfl⟩ := hlive packet hnew
    exact hk hat
  | frame =>
    split_ifs at hnew
    · exact hstored _ packet hnew
    · simp at hnew

/-- What was sent to a connection is what its `AUTH` was answered, and then news. -/
inductive Announced (w : World) (c : ℕ) (auth : Bytes) : Prop
  | silent (ha : w.answers c = []) (hs : w.sends c = []) (hnews : w.newsSent c = [])
  | replied {reply : Bytes} (hreply : reply = auth ∨ reply = [typeAuthDuplicate])
      (ha : w.answers c ≠ []) (hs : w.sends c = wire reply :: (w.newsSent c).map (wire ·.data))

theorem Announced.next {auth : Bytes} {frames : List Bytes} (hann : w.Announced c auth)
    (h : w.Consistent) (hn : World.next w k = some w') (hauth : frameType auth = typeAuth)
    (hcommands : ∀ f ∈ frames, CommandFrame f)
    (hfirst : (w'.answers c).map Prod.fst <+: auth :: frames)
    (hearly : w.answers c = [] → ¬ w.Forwards k c) : w'.Announced c auth := by
  obtain ⟨new, news, hrelayed, ha, hs, hnews⟩ := relayed_of_next h hn c
  rw [ha] at hfirst
  cases hann with
  | silent ha₀ hs₀ hn₀ =>
    rw [ha₀, List.nil_append] at ha hfirst
    rw [hs₀, List.nil_append] at hs
    rw [hn₀, List.nil_append] at hnews
    cases hrelayed with
    | live hlive =>
      obtain rfl : news = [] :=
        List.eq_nil_iff_forall_not_mem.2 fun p hp => hearly ha₀ (hlive p hp).1
      exact .silent ha hs hnews
    | @frame fd buf type hon hp =>
      obtain ⟨rfl, -⟩ := List.cons_prefix_cons.1 hfirst
      have hne : w'.answers c ≠ [] := by simp [ha]
      obtain ⟨reply, hreply, hhead⟩ := hp.exists_reply hauth
      rw [List.filterMap_cons, hhead, List.filterMap_nil, ← hnews] at hs
      exact .replied hreply hne hs
  | @replied reply hreply ha₀ hs₀ =>
    have hne : w'.answers c ≠ [] := by simp [ha, ha₀]
    have hquiet : new.filterMap (fun x => replyHead x.1 x.2) = [] := by
      cases hrelayed with
      | live => rfl
      | @frame fd buf type hon hp =>
        rw [List.map_append] at hfirst
        have hmem := mem_of_append_singleton_isPrefix (by simpa using ha₀) hfirst
        obtain ⟨h₁, h₂⟩ := (hcommands buf hmem).type_ne hp
        simp [replyHead, h₁, h₂]
    refine .replied hreply hne ?_
    rw [hs, hs₀, hnews, hquiet, List.nil_append, List.cons_append, List.map_append]

theorem announced_of_accept (h : w.Consistent) (hn : World.next w k = some w') (hnum : w.Numbered)
    (hnews : w.newsSent w.registry.count = []) (auth : Bytes) :
    w'.Announced w.registry.count auth := by
  obtain ⟨frames, news, hrelayed, ha, hs, hnews'⟩ := relayed_of_next h hn w.registry.count
  obtain ⟨rfl, rfl⟩ := hrelayed.eq_nil fun fd hon => absurd (h.sound.lt hon) (lt_irrefl _)
  obtain ⟨ha₀, hs₀⟩ := hnum _ le_rfl
  exact .silent (ha.trans (by simp [ha₀])) (hs.trans (by simp [hs₀]))
    (hnews'.trans (by simp [hnews]))

theorem newsSent_of_next (h : w.Consistent) (hn : next w k = some w')
    (hc : ∀ fd, w.conn fd ≠ some c) : w'.newsSent c = w.newsSent c := by
  obtain ⟨frames, news, hrelayed, -, -, hnews⟩ := relayed_of_next h hn c
  obtain ⟨-, rfl⟩ := hrelayed.eq_nil hc
  rw [hnews, List.append_nil]

/-- Nothing was sent to connections there have not been. -/
theorem Run.newsSent_eq_nil {udp tcp : ℤ} {buffer : Bytes} {tr : List (World × Kernel)} {w : World}
    (h : Run udp tcp buffer tr w) : ∀ c ≥ w.registry.count, w.newsSent c = [] := by
  have hinv := Runs.Run.always (P := fun v : World => v.Consistent ∧
    ∀ c ≥ v.registry.count, v.newsSent c = [])
    ⟨consistent_start udp tcp buffer, fun _ _ => rfl⟩ ?_ h
  · exact hinv.2
  · rintro v k v' ⟨hv, hnil⟩ hn
    refine ⟨hv.next hn, fun c hc => ?_⟩
    have hle : v.registry.count ≤ c := (conn_next (c := c) hv hn).1.trans hc
    rw [newsSent_of_next hv hn fun fd hon => absurd (hv.sound.lt hon) hle.not_gt, hnil c hle]

end World

instance (c : Client) (line : Option Bytes) : Decidable (c.Understands line) :=
  let buffer := Client.readLine c.buffer line
  let command := overwrite buffer ((cstr buffer).length - 1) [0]
  decidable_of_iff ((cstr buffer).length ≠ 0 ∧ (cstr command).length ≠ 0 ∧
      (strncmpEq command Server.exitText 4 = true ∨
        ∃ x ∈ parseSubscriptionCmd c.type c.topic command maxCommandSize, x.1 = 0)) <|
    and_congr_right' <| and_congr_right' <| or_congr_right <| by
      constructor
      · rintro ⟨⟨status, type, topic⟩, hx, rfl⟩
        exact ⟨type, topic, hx⟩
      · rintro ⟨type, topic, hx⟩
        exact ⟨_, hx, rfl⟩

instance (c : Client) (k : ClientKernel) : Decidable (c.Orderly k) :=
  decidable_of_iff (_ ∧ _) ⟨fun h => ⟨h.1, h.2⟩, fun h => ⟨h.1, h.2⟩⟩

namespace Peer

/-- The news that was sent to it. -/
def news (p : Peer) (w : World) : List SharedPacket :=
  (p.conn.map w.newsSent).getD []

/-- A subscriber prints what it is sent. -/
structure Listens (R : RealText) (w : World) (p : Peer) : Prop where
  sound : p.terminal.client.multi.Sound
  got : p.got <+: p.told w
  announced : ∀ c ∈ p.conn, w.Announced c (authPacket p.id)
  follows : p.ending = none → Follows R p.got (newsLines p.terminal.shown) p.terminal.client
  lines : newsLines p.terminal.shown <+: (p.news w).map (frameLine R ·.data)

section Listens

variable {R : RealText} {w w' : World} {p : Peer} {c : ℕ}

theorem news_of_conn (hc : p.conn = some c) : p.news w = w.newsSent c := by
  rw [news, hc]
  rfl

theorem news_of_none (hc : p.conn = none) : p.news w = [] := by
  rw [news, hc]
  rfl

theorem printable_news (hw : w.PrintableNews) : ∀ packet ∈ p.news w, packet.Printable := by
  rcases hc : p.conn with _ | c
  · simp [news_of_none hc]
  · rw [news_of_conn hc]
    exact hw.sent c

/-- What was sent to a subscriber is nothing, or a reply and then news. -/
theorem Listens.told_eq (h : p.Listens R w) (hid : p.id.length < clientIdLen)
    (hw : w.PrintableNews) : p.told w = [] ∧ p.news w = [] ∨
      ∃ reply : Bytes, (reply ≠ [] ∧ reply.length ≤ maxPacketSize) ∧ p.told w =
        framing.enc reply ++ ((p.news w).map SharedPacket.data).flatMap framing.enc := by
  rcases hc : p.conn with _ | c
  · exact .inl ⟨told_of_none hc, news_of_none hc⟩
  have hprintable := printable_news (p := p) hw
  rw [told_of_conn hc]
  rw [news_of_conn hc] at hprintable ⊢
  cases h.announced c hc with
  | silent _ hs hnews => exact .inl ⟨by rw [hs]; rfl, hnews⟩
  | @replied reply hreply _ hs =>
    right
    have hlen : reply ≠ [] ∧ reply.length ≤ 12 := by
      rcases hreply with rfl | rfl
      · exact ⟨by simp [authPacket], (length_authPacket hid).le⟩
      · simp
    refine ⟨reply, ⟨hlen.1, hlen.2.trans (by decide)⟩, ?_⟩
    have hwire : (w.newsSent c).map (wire ·.data) =
        ((w.newsSent c).map SharedPacket.data).map framing.enc := by
      rw [List.map_map]
      refine List.map_congr_left fun packet hpacket => World.wire_eq_enc ?_
      exact (hprintable packet hpacket).2.trans (by decide)
    rw [hs, List.flatten_cons, World.wire_eq_enc (hlen.2.trans (by decide)), hwire,
      ← List.flatMap_def]

/-- What has come of it is frames that can be printed, and the beginning of another. -/
theorem Listens.frames (h : p.Listens R w) (hid : p.id.length < clientIdLen)
    (hw : w.PrintableNews) {rx : Bytes} (hrx : rx <+: p.told w) :
    ¬ framing.Oversize (framing.cut rx).2 ∧
      (framing.cut rx).1.tail <+: (p.news w).map SharedPacket.data ∧
      (rx = p.told w → (framing.cut rx).1.tail = (p.news w).map SharedPacket.data) := by
  rcases h.told_eq hid hw with ⟨htold, hnews⟩ | ⟨reply, hreply, htold⟩
  · rw [htold, List.prefix_nil] at hrx
    rw [hrx, hnews, framing.cut_nil]
    exact ⟨by simp [Framing.Oversize, framing], List.nil_prefix, fun _ => rfl⟩
  have hframes : ∀ f ∈ (p.news w).map SharedPacket.data, NewsFrame f := by
    intro f hf
    obtain ⟨packet, hpacket, rfl⟩ := List.mem_map.1 hf
    exact (printable_news hw packet hpacket).1
  rw [htold] at hrx
  obtain ⟨hpre, hbig⟩ := Terminal.frames_received hreply hframes hrx
  refine ⟨hbig, by simpa using List.IsPrefix.drop hpre 1, fun hall => ?_⟩
  · have hframed : ∀ f ∈ reply :: (p.news w).map SharedPacket.data,
        f ≠ [] ∧ f.length ≤ framing.limit := by
      refine List.forall_mem_cons.2 ⟨hreply, fun f hf => ?_⟩
      obtain ⟨-, hvalue, hle⟩ := hframes f hf
      have hpos : 0 < f.length := by omega
      exact ⟨List.ne_nil_of_length_pos hpos, hle.trans (by decide)⟩
    have hcut := framing.cut_enc hframed
    rw [List.flatMap_cons, ← htold, ← hall] at hcut
    rw [hcut, List.tail_cons]

/-- What a subscriber that has not ended has printed are the first ones of the frames that have
come. -/
theorem Listens.lines_of_follows {rx : Bytes} {lines : List Bytes} {c : Client}
    (h : Follows R rx lines c) : lines <+: (framing.cut rx).1.tail.map (frameLine R) ∧
      (c.waiting = [] → lines = (framing.cut rx).1.tail.map (frameLine R)) := by
  by_cases hpc : c.pc = .reply
  · obtain ⟨hcut, rfl⟩ := h.reply hpc
    refine ⟨List.nil_prefix, fun hwait => ?_⟩
    rw [hcut, hwait]
    rfl
  · obtain ⟨r, news, hcut, rfl⟩ := h.printed hpc
    rw [hcut, List.tail_cons, List.map_append]
    refine ⟨List.prefix_append _ _, fun hwait => ?_⟩
    rw [hwait, List.map_nil, List.append_nil]

theorem Listens.hear {k : Kernel} {frames : List Bytes} (h : p.Listens R w) (hw : w.Consistent)
    (hn : World.next w k = some w') (hlinked : (p.hear w k).Linked w' frames)
    (hearly : ∀ c ∈ p.conn, w.answers c = [] → ¬ w.Forwards k c) : (p.hear w k).Listens R w' := by
  refine ⟨h.sound, h.got.trans (told_next hw hn p), fun c hc => ?_, h.follows, h.lines.trans ?_⟩
  · exact (h.announced c hc).next hw hn rfl hlinked.commands (hlinked.handled hc) (hearly c hc)
  · refine List.IsPrefix.map _ ?_
    rcases hc : p.conn with _ | c
    · rw [news_of_none hc]
      exact List.nil_prefix
    · obtain ⟨_, news, -, -, -, hnews⟩ := World.relayed_of_next hw hn c
      rw [news_of_conn hc, news_of_conn (p := p.hear w k) hc, hnews]
      exact List.prefix_append _ _

theorem Listens.accepted {k : Kernel} (h : p.Listens R w) (hw : w.Consistent)
    (hn : World.next w k = some w') (hnum : w.Numbered)
    (hunsent : w.newsSent w.registry.count = []) (hconn : p.conn = none) :
    { p.hear w k with conn := some w.registry.count }.Listens R w' := by
  have hgot : p.got = [] := List.prefix_nil.1 (told_of_none hconn ▸ h.got)
  have hlines : newsLines p.terminal.shown = [] := by
    have := h.lines
    rwa [news_of_none hconn, List.map_nil, List.prefix_nil] at this
  refine ⟨h.sound, ?_, fun c hc => ?_, h.follows, ?_⟩
  · rw [show (Peer.got { p.hear w k with conn := some w.registry.count }) = p.got from rfl, hgot]
    exact List.nil_prefix
  · obtain rfl := Option.some.inj hc
    exact World.announced_of_accept hw hn hnum hunsent _
  · rw [show newsLines (Peer.terminal { p.hear w k with conn := some w.registry.count }).shown =
      newsLines p.terminal.shown from rfl, hlines]
    exact List.nil_prefix

theorem Listens.step {k : ClientKernel} (h : p.Listens R w) (hid : p.id.length < clientIdLen)
    (hw : w.PrintableNews) (hend : p.ending = none) (hdown : p.Downloads w k)
    (hk : p.terminal.client.Orderly k) : (p.step R k).Listens R w := by
  have hrx : p.got ++ p.terminal.client.received k <+: p.told w := by
    by_cases hv : p.terminal.client.Blocks ∧
        p.terminal.client.multi.Visits k.pass p.terminal.client.sockfdTcp
    · exact (hdown.received hv).isPrefix h.got
    · rw [Client.received, if_neg hv, List.append_nil]
      exact h.got
  rcases hs : p.terminal.client.step R k with e | ⟨c', evs⟩
  · rw [step_of_error hs]
    exact ⟨h.sound, hrx, h.announced, fun hno => by simp at hno, h.lines⟩
  have hturn := turn_of_step hs
  obtain ⟨as, hexec⟩ := hturn.exec
  have hframes : ∀ f ∈ (framing.cut p.got).1.tail, NewsFrame f ∧ f.length ≤ buflen := by
    intro f hf
    obtain ⟨packet, hpacket, rfl⟩ :=
      List.mem_map.1 ((h.frames hid hw h.got).2.1.subset hf)
    exact printable_news hw packet hpacket
  have hfollows := (h.follows hend).turn h.sound hk (h.frames hid hw hrx).1 hframes hturn
  rw [step_of_ok hs]
  refine ⟨h.sound.exec hexec, hrx, h.announced, fun _ => ?_, ?_⟩
  · rw [newsLines_append]
    exact hfollows
  · rw [newsLines_append]
    have hpre := (h.frames hid hw hrx).2.1.map (frameLine R)
    rw [List.map_map] at hpre
    exact (lines_of_follows hfollows).1.trans hpre

end Listens

end Peer

namespace Net

/-- A datagram that the step handles can be printed. -/
def Publishes (n : Net) : Move → Prop
  | .server k _ => (∃ fd, n.world.server.At fd .udp) → k.news.Printable
  | _ => True

instance (n : Net) : ∀ m, Decidable (n.Publishes m)
  | .server k _ =>
    inferInstanceAs (Decidable ((∃ fd, n.world.server.At fd .udp) → k.news.Printable))
  | .start .. => .isTrue trivial
  | .peer .. => .isTrue trivial

/-- A step of a subscriber is orderly. -/
def Orderly (n : Net) : Move → Prop
  | .peer i k => ∀ p ∈ n.peers[i]?, p.terminal.client.Orderly k
  | _ => True

instance (n : Net) : ∀ m, Decidable (n.Orderly m)
  | .peer i k => inferInstanceAs (Decidable (∀ p ∈ n.peers[i]?, p.terminal.client.Orderly k))
  | .start .. => .isTrue trivial
  | .server .. => .isTrue trivial

/-- What holds in every run in which no news comes early, all of it can be printed, and the steps of
the subscribers are orderly. -/
structure Downlinks (R : RealText) (n : Net) : Prop where
  printable : n.world.PrintableNews
  peers : ∀ p ∈ n.peers, p.Listens R n.world

section Step

variable {R : RealText} {udp tcp : ℤ} {buffer : Bytes} {tr : List (Net × Move)} {n n' : Net}
  {m : Move}

theorem downlinks_start : Downlinks R (start udp tcp buffer) where
  printable := ⟨by simp [start, World.queue, queueOf, World.start, Server.start, default],
    fun c => by simp [start, World.newsSent, World.start, Registry.gather]⟩
  peers := by simp [start]

theorem listens_of_start {id : Bytes} {sockfd : ℤ} {u : Uninit} {vars : Locals} {client : Client}
    {shown : List Shown} (hpos : 0 < sockfd)
    (h : Client.start id sockfd u vars = .ok (client, shown)) (w : World) :
    Peer.Listens R w ⟨id, ⟨client, shown⟩, none, none, [], []⟩ := by
  have hcoupled := coupled_of_start h w
  obtain ⟨-, hr⟩ := Client.start_eq_iff.1 h
  obtain ⟨rfl, rfl⟩ := Prod.mk.inj hr
  exact ⟨hcoupled.sound, List.nil_prefix, by simp, fun _ => follows_connected id hpos u vars,
    List.nil_prefix⟩

theorem pos_of_start {id : Bytes} {sockfd : ℤ} {u : Uninit} {vars : Locals}
    (hn : Net.next R n (.start id sockfd u vars) = some n') : 0 < sockfd := by
  simp only [Net.next] at hn
  split_ifs at hn with hpos
  exact hpos

theorem Downlinks.next (h : Downlinks R n) (hup : Uplinks udp tcp buffer tr n)
    (hup' : Uplinks udp tcp buffer (tr ++ [(n, m)]) n') (hearly : ¬ n.EarlyNews m)
    (hpub : n.Publishes m) (hk : n.Orderly m) (hn : Net.next R n m = some n') :
    Downlinks R n' := by
  obtain ⟨wtr, hrun⟩ := hup.world
  have hw := World.Run.consistent hrun
  have hturn := turn_of_next hn
  cases hturn with
  | start hs =>
    refine ⟨h.printable, ?_⟩
    rw [List.forall_mem_append, List.forall_mem_singleton]
    exact ⟨h.peers, listens_of_start (pos_of_start hn) hs n.world⟩
  | @server k i w _ haccepts hnext =>
    refine ⟨h.printable.next hw hnext hpub, fun p' hp' => ?_⟩
    obtain ⟨x, hx⟩ := List.mem_iff_getElem?.1 hp'
    obtain ⟨frames, hc'⟩ := hup'.peers x p' hx
    obtain ⟨p, hp, rfl | ⟨rfl, rfl⟩⟩ := getElem?_accept hx
    · have hmem := List.mem_of_getElem? hp
      exact (h.peers p hmem).hear hw hnext hc'.linked fun c hc hnil hfwd =>
        hearly ⟨p, hmem, c, hc, hnil, hfwd⟩
    · obtain ⟨-, q, hq, hconn⟩ := haccepts x rfl
      rw [Option.mem_def, hp, Option.some.injEq] at hq
      subst hq
      exact (h.peers p (List.mem_of_getElem? hp)).accepted hw hnext hup.numbered
        (World.Run.newsSent_eq_nil hrun _ le_rfl) hconn
  | @peer i k p hi hend hdown =>
    refine ⟨h.printable, fun p' hp' => ?_⟩
    rcases List.mem_or_eq_of_mem_set hp' with hp' | rfl
    · exact h.peers p' hp'
    · obtain ⟨frames, hc⟩ := hup.peers i p hi
      exact (h.peers p (List.mem_of_getElem? hi)).step hc.linked.idLength h.printable hend hdown
        (hk p hi)

end Step

section Runs

variable {R : RealText} {udp tcp : ℤ} {buffer : Bytes} {tr : List (Net × Move)} {n : Net}

theorem Run.downlinks (h : Run R udp tcp buffer tr n) (hearly : ∀ q ∈ tr, ¬ q.1.EarlyNews q.2)
    (hpub : ∀ q ∈ tr, q.1.Publishes q.2) (hk : ∀ q ∈ tr, q.1.Orderly q.2) : Downlinks R n := by
  induction h with
  | start => exact downlinks_start
  | @step tr n n' m h hn ih =>
    rw [List.forall_mem_append, List.forall_mem_singleton] at hearly hpub hk
    have hup := Run.uplinks h
    exact (ih hearly.1 hpub.1 hk.1).next hup (hup.next hn) hearly.2 hpub.2 hk.2 hn

/-- A subscriber that waits has printed all the news that was sent to it. -/
theorem Downlinks.lines_eq (h : Downlinks R n) {p : Peer} (hp : p ∈ n.peers)
    (hid : p.id.length < clientIdLen) (hend : p.ending = none) (hblocks : p.terminal.client.Blocks)
    (hall : p.got = p.told n.world) :
    newsLines p.terminal.shown = (p.news n.world).map (frameLine R ·.data) := by
  have hlistens := h.peers p hp
  have hwait : p.terminal.client.waiting = [] := by
    rcases hs : p.terminal.client.multi.tcpSockets[p.terminal.client.sockfdTcp]? with _ | sock
    · simp [Client.waiting, hs]
    · simp [Client.waiting, hs, hlistens.sound.packets_eq_nil hblocks.2 hs]
  rw [(Peer.Listens.lines_of_follows (hlistens.follows hend)).2 hwait,
    (hlistens.frames hid h.printable hlistens.got).2.2 hall, List.map_map]
  rfl

end Runs

/-- The datagram with `5` on the topic `a` comes in. -/
def oneDatagram : Kernel :=
  { Kernel.quiet with
    datagram := 97 :: List.replicate 50 0 ++ [0, 0, 0, 0, 5]
    saddr := ⟨word [10, 0, 0, 1], htons 80⟩ }

/-- `A` has subscribed to `a`, and this comes in and is printed. -/
def publishInputs : List Move :=
  commandInputs ++
    [.server .quiet none, .server (.ready {3} []) none, .server .quiet none,
      .server oneDatagram none,
      .peer 0 .quiet, .peer 0 (.chunk 3 (wire Terminal.oneFrame)), .peer 0 .quiet, .peer 0 .quiet,
      .peer 0 .quiet]

end Net

end NewsServer
