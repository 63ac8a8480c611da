import NewsServer.Proofs.SelectPass
import NewsServer.Lib.Runs

/-!
# The event queue loses entries behind drained sockets

`get_next_fd` hands out the front entry of any type but `SOCK_TCP` and pops it. Behind a `SOCK_TCP`
entry it pops until it finds a socket with a packet ready, whatever the types of the entries, so
an entry of another type met there is lost, or handed out and left in the queue. Every such entry
is handed out once and in order exactly when none is ever met there (`accounted_iff`).
-/

namespace NewsServer

namespace MultiSocket

/-- What `get_next_fd` leaves behind when there is no entry. No pass queues it. -/
def noEvent : RecvHolder := ⟨-1, sockNull⟩

/-- The entry is no `SOCK_TCP` one. -/
def special (e : RecvHolder) : Bool :=
  e.type ≠ sockTcp ∧ e ≠ noEvent

/-- The descriptor and the type `get_next_fd` answers with. -/
def answer (m : MultiSocket) : RecvHolder :=
  ⟨m.getNextFd.1, m.getNextFd.2.currentFdType⟩

/-- With a `SOCK_TCP` entry in front, no entry of another type comes before the first `SOCK_TCP`
one that has a packet ready. -/
def Clear (m : MultiSocket) : Prop :=
  ∀ h ∈ m.sockQueue.head?, h.type = sockTcp →
    ∀ e ∈ m.sockQueue.takeWhile (fun e => special e || m.stale e), special e = false

instance (m : MultiSocket) : Decidable m.Clear :=
  inferInstanceAs (Decidable (∀ h ∈ m.sockQueue.head?, h.type = sockTcp →
    ∀ e ∈ m.sockQueue.takeWhile (fun e => special e || m.stale e), special e = false))

/-- A call takes out of the queue nothing but its answer and `SOCK_TCP` entries whose socket is
gone or has no packet ready. -/
def DiscardsOnlyStale (m : MultiSocket) : Prop :=
  ∃ popped, m.sockQueue = popped ++ m.getNextFd.2.sockQueue ∧
    ∀ e ∈ popped, e = m.answer ∨ e = noEvent ∨ (e.type = sockTcp ∧ m.stale e)

theorem forall_takeWhile_or {α : Type*} (p q : α → Bool) : ∀ l : List α,
    (∀ e ∈ l.takeWhile (fun e => p e || q e), p e = false) ↔
      (∀ e ∈ l.takeWhile q, p e = false) ∧ ∀ e ∈ (l.dropWhile q).head?, p e = false
  | [] => by simp
  | a :: l => by
    have ih := forall_takeWhile_or p q l
    rcases hq : q a with _ | _ <;> rcases hp : p a with _ | _
    · simp [hq, hp]
    · simp [hq, hp]
    · simp only [List.takeWhile_cons, List.dropWhile_cons, hq, hp, Bool.or_true, ↓reduceIte,
        List.forall_mem_cons, true_and]
      exact ih
    · simp [hq, hp]

theorem clear_of_cons {m : MultiSocket} {h : RecvHolder} {q : List RecvHolder}
    (hq : m.sockQueue = h :: q) (ht : h.type = sockTcp) :
    m.Clear ↔ (∀ e ∈ (h :: q).takeWhile m.stale, special e = false) ∧
      ∀ e ∈ ((h :: q).dropWhile m.stale).head?, special e = false := by
  rw [← forall_takeWhile_or, Clear, hq]
  simp [ht]

theorem special_noEvent : special noEvent = false := by
  simp [special]

/-- What a call answers and what it leaves is what there was, of the entries that are no `SOCK_TCP`
ones, exactly if none of them is in the way. -/
theorem call_accounted_iff (m : MultiSocket) :
    [m.answer].filter special ++ m.getNextFd.2.sockQueue.filter special =
      m.sockQueue.filter special ↔ m.Clear := by
  rcases hq : m.sockQueue with _ | ⟨h, q⟩
  · have ha : m.answer = noEvent := by simp [answer, getNextFd, hq, noEvent]
    simp [ha, special_noEvent, getNextFd, hq, Clear]
  by_cases ht : h.type = sockTcp
  · rw [clear_of_cons hq ht]
    have hsplit : (h :: q).filter special = ((h :: q).takeWhile m.stale).filter special ++
        ((h :: q).dropWhile m.stale).filter special := by
      rw [← List.filter_append, List.takeWhile_append_dropWhile]
    rw [hsplit]
    rcases hd : (h :: q).dropWhile m.stale with _ | ⟨e, r⟩
    · have ha : m.answer = noEvent := by simp [answer, getNextFd, hq, ht, hd, noEvent]
      have hm : m.getNextFd.2.sockQueue = [] := by simp [getNextFd, hq, ht, hd]
      rw [ha, hm]
      simp [special_noEvent, List.filter_eq_nil_iff, eq_comm (a := ([] : List RecvHolder))]
    · have ha : m.answer = e := by simp [answer, getNextFd, hq, ht, hd]
      have hm : m.getNextFd.2.sockQueue = e :: r := by simp [getNextFd, hq, ht, hd]
      have hfresh := (getNextFd_of_fresh hq ht hd).2.1
      have hne : e ∉ (h :: q).takeWhile m.stale := fun hmem => by
        have := List.mem_takeWhile_imp hmem
        rw [hfresh] at this
        simp at this
      rw [ha, hm, List.append_cancel_right_eq, List.head?_cons]
      constructor
      · intro heq
        have hnone : special e = false := by
          by_contra hs
          apply hne
          have hmem : e ∈ ((h :: q).takeWhile m.stale).filter special := by
            rw [← heq]
            simpa using hs
          exact (List.mem_filter.1 hmem).1
        refine ⟨fun x hx => ?_, by simpa using hnone⟩
        by_contra hs
        have hmem : x ∈ ((h :: q).takeWhile m.stale).filter special :=
          List.mem_filter.2 ⟨hx, by simpa using hs⟩
        rw [← heq] at hmem
        simp [hnone] at hmem
      · rintro ⟨hskip, he⟩
        have hnone : special e = false := by simpa using he
        have hempty : ((h :: q).takeWhile m.stale).filter special = [] :=
          List.filter_eq_nil_iff.2 fun x hx => by simp [hskip x hx]
        rw [hempty]
        simp [hnone]
  · have ha : m.answer = h := by simp [answer, getNextFd, hq, ht]
    have hm : m.getNextFd.2.sockQueue = q := by simp [getNextFd, hq, ht]
    have hclear : m.Clear := by
      intro x hx
      rw [hq, List.head?_cons, Option.mem_some_iff] at hx
      exact fun hx' => absurd (hx ▸ hx') ht
    rw [ha, hm, ← List.filter_append]
    exact ⟨fun _ => hclear, fun _ => rfl⟩

theorem discardsOnlyStale_of_clear {m : MultiSocket} (hc : m.Clear) : m.DiscardsOnlyStale := by
  rcases hq : m.sockQueue with _ | ⟨h, q⟩
  · exact ⟨[], by simp [getNextFd, hq], by simp⟩
  by_cases ht : h.type = sockTcp
  · rw [clear_of_cons hq ht] at hc
    refine ⟨(h :: q).takeWhile m.stale, ?_, fun e he => .inr ?_⟩
    · rw [getNextFd_sockQueue_of_tcp hq ht, hq, List.takeWhile_append_dropWhile]
    · have hs := hc.1 e he
      have hstale : m.stale e = true := List.mem_takeWhile_imp he
      by_cases hn : e = noEvent
      · exact .inl hn
      · refine .inr ⟨?_, hstale⟩
        by_contra ht'
        simp [special, ht', hn] at hs
  · refine ⟨[h], by simp [getNextFd, hq, ht], fun e he => .inl ?_⟩
    rw [List.mem_singleton] at he
    simp [he, answer, getNextFd, hq, ht]

/-- The calls a program makes between two passes. -/
inductive Op
  | getNextFd
  | recv
  | send (sockfd : ℤ) (buf : Bytes)
  | accept (newsockfd : ℤ) (u : Uninit)
  | close (sockfd : ℤ)

/-- A call, and the entries handed out so far that are no `SOCK_TCP` ones. -/
def call (s : MultiSocket × List RecvHolder) : Op → Option (MultiSocket × List RecvHolder)
  | .getNextFd => some (s.1.getNextFd.2, s.2 ++ [s.1.answer].filter special)
  | .recv => some (s.1.recv.2.2.2, s.2)
  | .send sockfd buf => (s.1.send sockfd buf).toOption.map fun _ => s
  | .accept newsockfd u => (s.1.accept newsockfd u).toOption.map fun r => (r.1, s.2)
  | .close sockfd => some (s.1.close sockfd, s.2)

/-- The entries handed out and the ones still queued are the ones that were queued. -/
def Accounted (m₀ : MultiSocket) (s : MultiSocket × List RecvHolder) : Prop :=
  s.2 ++ s.1.sockQueue.filter special = m₀.sockQueue.filter special

theorem call_of_ne {s s' : MultiSocket × List RecvHolder} {op : Op} (hop : op ≠ .getNextFd)
    (h : call s op = some s') : s'.2 = s.2 ∧ s'.1.sockQueue = s.1.sockQueue := by
  cases op with
  | getNextFd => exact absurd rfl hop
  | recv =>
    simp only [call, Option.some.injEq] at h
    subst h
    exact ⟨rfl, recv_sockQueue s.1⟩
  | send sockfd buf =>
    simp only [call, Option.map_eq_some_iff] at h
    obtain ⟨r, -, rfl⟩ := h
    exact ⟨rfl, rfl⟩
  | accept newsockfd u =>
    simp only [call, Option.map_eq_some_iff] at h
    obtain ⟨r, hr, rfl⟩ := h
    unfold accept at hr
    split_ifs at hr
    · simp [Except.toOption] at hr
    · simp [Except.toOption] at hr
    · simp only [Except.toOption, Option.some.injEq] at hr
      subst hr
      exact ⟨rfl, rfl⟩
  | close sockfd =>
    simp only [call, Option.some.injEq] at h
    subst h
    exact ⟨rfl, rfl⟩

/-- In every sequence of calls, from every queue and every table of sockets, each entry that is no
`SOCK_TCP` one is handed out once, in order, with its type, and no other entry is dropped but
`SOCK_TCP` ones with nothing to give, exactly if no call of `get_next_fd` finds such an entry
behind a `SOCK_TCP` one and before a packet. -/
theorem accounted_iff (m₀ : MultiSocket) {tr : List ((MultiSocket × List RecvHolder) × Op)}
    {s : MultiSocket × List RecvHolder} (h : Runs.Run call (m₀, []) tr s) :
    ((∀ w ∈ Runs.states tr s, Accounted m₀ w) ∧
        ∀ q ∈ tr, q.2 = .getNextFd → q.1.1.DiscardsOnlyStale) ↔
      ∀ q ∈ tr, q.2 = .getNextFd → q.1.1.Clear := by
  have hiff := h.states_iff (I := fun _ => True) (P := Accounted m₀)
    (C := fun w op => op = .getNextFd → w.1.Clear) trivial (fun _ _ _ _ _ => trivial)
    (by simp [Accounted]) ?_ ?_
  · rw [hiff]
    exact ⟨And.left, fun hc => ⟨hc, fun q hq hop => discardsOnlyStale_of_clear (hc q hq hop)⟩⟩
  · intro w op w' _ hP hC hw
    by_cases hop : op = .getNextFd
    · subst hop
      simp only [call, Option.some.injEq] at hw
      subst hw
      rw [Accounted, List.append_assoc, (call_accounted_iff w.1).2 (hC rfl)]
      exact hP
    · obtain ⟨hlog, hqueue⟩ := call_of_ne hop hw
      rw [Accounted, hlog, hqueue]
      exact hP
  · intro w op w' _ hP hw hP' hop
    subst hop
    simp only [call, Option.some.injEq] at hw
    subst hw
    rw [Accounted, List.append_assoc] at hP'
    rw [← call_accounted_iff]
    exact List.append_cancel_left (hP'.trans hP.symm)

/-- After a pass in which the peer of 5 sends a packet of one byte and the peer of 6 closes. -/
def packetThenClose : MultiSocket :=
  (twoConnections.selectRound
    ⟨{5, 6}, fun fd => if fd = 5 then some [0, 0, 0, 1, 65] else some [], 0⟩).1

/-- The packet is read, and the next call pops the `SOCK_CLOSE` of 6 and answers with nothing. -/
theorem not_accounted_close : ∃ tr s, Runs.Run call (packetThenClose, []) tr s ∧
    tr.map Prod.snd = [.getNextFd, .recv, .getNextFd] ∧
      ⟨6, sockClose⟩ ∈ packetThenClose.sockQueue ∧ s.1.answer = noEvent ∧ s.1.sockQueue = [] ∧
        ¬ Accounted packetThenClose s := by
  have hqueue : ⟨6, sockClose⟩ ∈ packetThenClose.sockQueue := by decide +kernel
  have hlost : ∃ s ∈ Runs.exec call (packetThenClose, []) [.getNextFd, .recv, .getNextFd],
      s.1.answer = noEvent ∧ s.1.sockQueue = [] ∧
        ¬ (s.2 ++ s.1.sockQueue.filter special = packetThenClose.sockQueue.filter special) := by
    decide +kernel
  obtain ⟨tr, s, hr, htr, hlost⟩ := Runs.exists_run_of_exec hlost
  exact ⟨tr, s, hr, htr, hqueue, hlost⟩

/-- After a pass in which somebody connects, the peer of 5 closes, that of 6 sends two packets and
that of 8 one. -/
def mixedQueue : MultiSocket :=
  ({ twoConnections with
    sockfdTcp := 4
    readFds := {4, 5, 6, 8}
    fdmax := 8
    tcpSockets := twoConnections.tcpSockets.insert 8 (.new 8 default) }.selectRound
      ⟨{4, 5, 6, 8}, fun fd =>
        if fd = 5 then some []
        else if fd = 6 then some [0, 0, 0, 1, 65, 0, 0, 0, 1, 66]
        else some [0, 0, 0, 1, 67], 0⟩).1

/-- The server closes 6 before it has read its second packet. -/
def mixedCalls : List Op :=
  [.getNextFd, .accept 7 default, .getNextFd, .getNextFd, .recv, .getNextFd, .close 6, .getNextFd,
    .recv, .getNextFd]

theorem accounted_iff_mixed : ∃ tr s, Runs.Run call (mixedQueue, []) tr s ∧
    tr.map Prod.snd = mixedCalls ∧
    mixedQueue.sockQueue = [⟨4, sockConnect⟩, ⟨5, sockClose⟩, ⟨6, sockTcp⟩, ⟨8, sockTcp⟩] ∧
    s.2 = [⟨4, sockConnect⟩, ⟨5, sockClose⟩] ∧ s.1.sockQueue = [] ∧
    (∀ w ∈ Runs.states tr s, Accounted mixedQueue w) ∧
      ∀ q ∈ tr, q.2 = .getNextFd → q.1.1.DiscardsOnlyStale := by
  have hqueue : mixedQueue.sockQueue =
      [⟨4, sockConnect⟩, ⟨5, sockClose⟩, ⟨6, sockTcp⟩, ⟨8, sockTcp⟩] := by
    decide +kernel
  have hrec : ∃ x ∈ Runs.exec (Runs.record call) ([], (mixedQueue, [])) mixedCalls,
      (∀ q ∈ x.1, q.1.1.Clear) ∧ x.2.2 = [⟨4, sockConnect⟩, ⟨5, sockClose⟩] ∧
        x.2.1.sockQueue = [] := by
    decide +kernel
  obtain ⟨tr, s, hr, htr, hclear, hanswers, hempty⟩ := Runs.exists_run_of_record
    (P := fun (tr : List ((MultiSocket × List RecvHolder) × Op)) s => (∀ q ∈ tr, q.1.1.Clear) ∧
      s.2 = [⟨4, sockConnect⟩, ⟨5, sockClose⟩] ∧ s.1.sockQueue = []) hrec
  have hboth := (accounted_iff mixedQueue hr).2 fun q hq _ => hclear q hq
  exact ⟨tr, s, hr, htr, hqueue, hanswers, hempty, hboth⟩

end MultiSocket

end NewsServer
