import NewsServer.MultiSocket
import NewsServer.Proofs.Decoder

/-!
# The events of a pass

A pass visits the ready descriptors in order, and what a visit does to the sockets depends on
nothing but the descriptor's own socket. The type it queues does too, unless a socket is left open
with no packet ready: then nothing assigns `fd_type`, and the entry gets the type of the descriptor
before it, or what the local started with (`eventTyped_iff`). That is the case where the bytes that
came in complete no frame (`unfinished_iff`).
-/

namespace NewsServer

namespace MultiSocket

open BufferedTcpSocket (read_spec ReadResult recv_of_ne_nil packetReady_eq_false)

theorem recv_of_none {m : MultiSocket} (h : m.tcpSockets[m.currSockfd]? = none) :
    m.recv = (2 ^ 64 - 1, .unbufferedSocket, [], m) := by
  simp only [recv, h]

theorem recv_of_not_ready {m : MultiSocket} {sock : BufferedTcpSocket}
    (hs : m.tcpSockets[m.currSockfd]? = some sock) (hr : sock.packetReady = false) :
    m.recv = (0, .packetNotReady, [], m) := by
  simp [recv, hs, hr]

theorem recv_sockQueue (m : MultiSocket) : m.recv.2.2.2.sockQueue = m.sockQueue := by
  unfold recv
  split
  · rfl
  · split <;> rfl

/-- Behind a `SOCK_TCP` entry a call drops the stale ones. -/
theorem getNextFd_sockQueue_of_tcp {m : MultiSocket} {e : RecvHolder} {rest : List RecvHolder}
    (hq : m.sockQueue = e :: rest) (ht : e.type = sockTcp) :
    m.getNextFd.2.sockQueue = (e :: rest).dropWhile m.stale := by
  rcases hd : (e :: rest).dropWhile m.stale with _ | ⟨x, r⟩ <;> simp [getNextFd, hq, ht, hd]

theorem getNextFd_of_ne_tcp {m : MultiSocket} {e : RecvHolder} {rest : List RecvHolder}
    (hq : m.sockQueue = e :: rest) (ht : e.type ≠ sockTcp) :
    m.getNextFd.1 = e.fd ∧ m.getNextFd.2.sockQueue = rest ∧
      m.getNextFd.2.currentFdType = e.type := by
  simp [getNextFd, hq, ht]

/-- Behind a `SOCK_TCP` entry the first entry that is not stale is handed out. -/
theorem getNextFd_of_fresh {m : MultiSocket} {e x : RecvHolder} {rest r : List RecvHolder}
    (hq : m.sockQueue = e :: rest) (ht : e.type = sockTcp)
    (hd : (e :: rest).dropWhile m.stale = x :: r) :
    x ∈ e :: rest ∧ m.stale x = false ∧ m.getNextFd.1 = x.fd ∧
      m.getNextFd.2.currentFdType = x.type ∧ m.getNextFd.2.currSockfd = x.fd := by
  refine ⟨(List.dropWhile_sublist m.stale).subset (by rw [hd]; simp), ?_, ?_⟩
  · have hfresh := List.head?_dropWhile_not m.stale (e :: rest)
    rw [hd, List.head?_cons] at hfresh
    simpa using hfresh
  · simp [getNextFd, hq, ht, hd]

theorem getNextFd_frame (m : MultiSocket) : m.getNextFd.2 = { m with
    sockQueue := m.getNextFd.2.sockQueue
    currentFdType := m.getNextFd.2.currentFdType
    currSockfd := m.getNextFd.2.currSockfd } := by
  unfold getNextFd
  split
  · rfl
  · split
    · rfl
    · split <;> rfl

theorem getNextFd_tcpSockets (m : MultiSocket) : m.getNextFd.2.tcpSockets = m.tcpSockets := by
  rw [getNextFd_frame]

theorem mem_descriptors {fdmax fd : ℤ} : fd ∈ descriptors fdmax ↔ 0 ≤ fd ∧ fd ≤ fdmax := by
  simp only [descriptors, List.mem_map, List.mem_range]
  constructor
  · rintro ⟨n, hn, rfl⟩
    simp only [Int.ofNat_eq_natCast]
    omega
  · rintro ⟨h0, hle⟩
    exact ⟨fd.toNat, by omega, by simp [h0]⟩

theorem nodup_descriptors (fdmax : ℤ) : (descriptors fdmax).Nodup :=
  List.nodup_range.map fun _ _ h => by simpa using h

/-- The pass closes the socket, when `::recv` gives `got`. -/
def Closes (sock : BufferedTcpSocket) (got : Option Bytes) : Prop :=
  (sock.recv got).1 ≤ 0 ∨ (sock.recv got).2.1 = .packetTooBig

instance (sock : BufferedTcpSocket) (got : Option Bytes) : Decidable (Closes sock got) :=
  inferInstanceAs (Decidable (_ ∨ _))

/-- The socket stays open, and has no packet ready. -/
def Unfinished (m : MultiSocket) (p : Pass) (fd : ℤ) : Prop :=
  ∃ sock, m.tcpSockets[fd]? = some sock ∧ ¬ Closes sock (p.got fd) ∧
    (sock.recv (p.got fd)).2.2.packetReady = false

instance (m : MultiSocket) (p : Pass) (fd : ℤ) : Decidable (m.Unfinished p fd) :=
  decidable_of_iff (∃ sock ∈ m.tcpSockets[fd]?, ¬ Closes sock (p.got fd) ∧
    (sock.recv (p.got fd)).2.2.packetReady = false) Iff.rfl

section Visit

variable {m : MultiSocket} {p : Pass} {fd t : ℤ}

theorem visit_of_closes {sock : BufferedTcpSocket} (hs : m.tcpSockets[fd]? = some sock)
    (hc : Closes sock (p.got fd)) :
    m.visit p fd t = (sockClose, { m with
      readFds := m.readFds.erase fd
      tcpSockets := (m.tcpSockets.insert fd (sock.recv (p.got fd)).2.2).erase fd },
      [.closed fd]) := by
  simp only [visit, hs]
  exact if_pos hc

theorem visit_of_open {sock : BufferedTcpSocket} (hs : m.tcpSockets[fd]? = some sock)
    (hc : ¬ Closes sock (p.got fd)) :
    m.visit p fd t = (if (sock.recv (p.got fd)).2.2.packetReady then sockTcp else t,
      { m with tcpSockets := m.tcpSockets.insert fd (sock.recv (p.got fd)).2.2 }, []) := by
  simp only [visit, hs]
  refine (if_neg hc).trans ?_
  split_ifs <;> rfl

theorem visit_of_none (hs : m.tcpSockets[fd]? = none) :
    m.visit p fd t = (if fd = m.sockfdTcp then sockConnect
      else if fd = m.sockfdUdp then sockUdp else fdUnbuffered, m, []) := by
  simp only [visit, hs]
  split_ifs <;> rfl

theorem visit_frame (p : Pass) (t : ℤ) (m : MultiSocket) {fd x : ℤ} (hx : x ≠ fd) :
    (m.visit p fd t).2.1.tcpSockets[x]? = m.tcpSockets[x]? := by
  rcases hs : m.tcpSockets[fd]? with _ | sock
  · rw [visit_of_none hs]
  · by_cases hc : Closes sock (p.got fd)
    · rw [visit_of_closes hs hc]
      simp [Std.TreeMap.getElem?_erase, Std.TreeMap.getElem?_insert, hx.symm]
    · rw [visit_of_open hs hc]
      simp [Std.TreeMap.getElem?_insert, hx.symm]

theorem visit_fixed (p : Pass) (fd t : ℤ) (m : MultiSocket) :
    (m.visit p fd t).2.1.sockfdTcp = m.sockfdTcp ∧ (m.visit p fd t).2.1.sockfdUdp = m.sockfdUdp ∧
      (m.visit p fd t).2.1.sockQueue = m.sockQueue := by
  rcases hs : m.tcpSockets[fd]? with _ | sock
  · rw [visit_of_none hs]
    exact ⟨rfl, rfl, rfl⟩
  · by_cases hc : Closes sock (p.got fd)
    · rw [visit_of_closes hs hc]
      exact ⟨rfl, rfl, rfl⟩
    · rw [visit_of_open hs hc]
      exact ⟨rfl, rfl, rfl⟩

/-- What a visit does depends on the descriptor's own socket alone. -/
theorem visit_congr (p : Pass) (t₁ t₂ : ℤ) {m₁ m₂ : MultiSocket}
    (hs : m₁.tcpSockets[fd]? = m₂.tcpSockets[fd]?) :
    (m₁.visit p fd t₁).2.1.tcpSockets[fd]? = (m₂.visit p fd t₂).2.1.tcpSockets[fd]? ∧
      (m₁.visit p fd t₁).2.2 = (m₂.visit p fd t₂).2.2 := by
  rcases h₂ : m₂.tcpSockets[fd]? with _ | sock
  · rw [visit_of_none (hs.trans h₂), visit_of_none h₂]
    exact ⟨hs, rfl⟩
  · by_cases hc : Closes sock (p.got fd)
    · rw [visit_of_closes (hs.trans h₂) hc, visit_of_closes h₂ hc]
      exact ⟨by simp, rfl⟩
    · rw [visit_of_open (hs.trans h₂) hc, visit_of_open h₂ hc]
      exact ⟨by simp, rfl⟩

theorem visit_type_congr (p : Pass) (t : ℤ) {m₁ m₂ : MultiSocket}
    (hs : m₁.tcpSockets[fd]? = m₂.tcpSockets[fd]?) (ht : m₁.sockfdTcp = m₂.sockfdTcp)
    (hu : m₁.sockfdUdp = m₂.sockfdUdp) : (m₁.visit p fd t).1 = (m₂.visit p fd t).1 := by
  rcases h₂ : m₂.tcpSockets[fd]? with _ | sock
  · rw [visit_of_none (hs.trans h₂), visit_of_none h₂, ht, hu]
  · by_cases hc : Closes sock (p.got fd)
    · rw [visit_of_closes (hs.trans h₂) hc, visit_of_closes h₂ hc]
    · rw [visit_of_open (hs.trans h₂) hc, visit_of_open h₂ hc]

theorem eq_of_closed_mem_visit {x : ℤ} (h : .closed x ∈ (m.visit p fd t).2.2) : x = fd := by
  rcases hs : m.tcpSockets[fd]? with _ | sock
  · simp [visit_of_none hs] at h
  · by_cases hc : Closes sock (p.got fd)
    · simpa [visit_of_closes hs hc] using h
    · simp [visit_of_open hs hc] at h

end Visit

/-- What holds at the start of a pass, and is kept when a descriptor is visited and its entry
queued, holds at the end. -/
theorem passLoop_invariant (p : Pass) (selected : Finset ℤ) {P : MultiSocket → List Event → Prop}
    (hvisit : ∀ fd t m evs, P m evs → P
      { (m.visit p fd t).2.1 with sockQueue := m.sockQueue ++ [⟨fd, (m.visit p fd t).1⟩] }
      (evs ++ (m.visit p fd t).2.2)) :
    ∀ (fds : List ℤ) (t : ℤ) (m : MultiSocket) (evs : List Event), P m evs →
      P (passLoop p selected fds t m).1 (evs ++ (passLoop p selected fds t m).2)
  | [], t, m, evs, h => by simpa [passLoop] using h
  | fd :: fds, t, m, evs, h => by
    by_cases hfd : fd ∈ selected
    · have ih := passLoop_invariant p selected hvisit fds (m.visit p fd t).1 _ _
        (hvisit fd t m evs h)
      have hq := (visit_fixed p fd t m).2.2
      simp only [passLoop, hfd, ↓reduceIte, hq]
      rwa [List.append_assoc] at ih
    · have ih := passLoop_invariant p selected hvisit fds t m evs h
      simpa only [passLoop, hfd, ↓reduceIte] using ih

/-- The entries a pass over `fds` queues, its visits starting with `t` in `fd_type`. -/
def entries (m : MultiSocket) (p : Pass) (selected : Finset ℤ) : List ℤ → ℤ → List RecvHolder
  | [], _ => []
  | fd :: fds, t =>
    if fd ∈ selected then
      ⟨fd, (m.visit p fd t).1⟩ :: entries m p selected fds (m.visit p fd t).1
    else
      entries m p selected fds t

section Pass

variable (m : MultiSocket) (p : Pass) (selected : Finset ℤ)

theorem mem_of_mem_entries : ∀ (fds : List ℤ) (t : ℤ), ∀ e ∈ entries m p selected fds t,
    e.fd ∈ fds ∧ e.fd ∈ selected ∧ ∃ t, e.type = (m.visit p e.fd t).1
  | [], t, e, he => by simp [entries] at he
  | fd :: fds, t, e, he => by
    by_cases hfd : fd ∈ selected
    · simp only [entries, hfd, ↓reduceIte, List.mem_cons] at he
      rcases he with rfl | he
      · exact ⟨List.mem_cons_self, hfd, t, rfl⟩
      · obtain ⟨hmem, hrest⟩ := mem_of_mem_entries fds _ e he
        exact ⟨List.mem_cons_of_mem _ hmem, hrest⟩
    · simp only [entries, hfd, ↓reduceIte] at he
      obtain ⟨hmem, hrest⟩ := mem_of_mem_entries fds _ e he
      exact ⟨List.mem_cons_of_mem _ hmem, hrest⟩

/-- A pass that reads one descriptor starts its visit with what `fd_type` starts with. -/
theorem mem_entries_of_only {fd : ℤ} : ∀ (fds : List ℤ) (t : ℤ), fds.Nodup →
    (∀ x ∈ fds, x ∈ selected → x = fd) → ∀ e ∈ entries m p selected fds t,
      e = ⟨fd, (m.visit p fd t).1⟩
  | [], t, _, _, e, he => by simp [entries] at he
  | x :: fds, t, hnd, honly, e, he => by
    obtain ⟨hx, hnd⟩ := List.nodup_cons.1 hnd
    have honly' := fun y hy => honly y (List.mem_cons_of_mem _ hy)
    by_cases hsel : x ∈ selected
    · simp only [entries, hsel, ↓reduceIte, List.mem_cons] at he
      obtain rfl := honly x List.mem_cons_self hsel
      rcases he with rfl | he
      · rfl
      · obtain ⟨hmem, hsel', -⟩ := mem_of_mem_entries m p selected fds _ e he
        exact absurd (honly' e.fd hmem hsel' ▸ hmem) hx
    · simp only [entries, hsel, ↓reduceIte] at he
      exact mem_entries_of_only fds t hnd honly' e he

theorem exists_entry {fd : ℤ} (hsel : fd ∈ selected) : ∀ (fds : List ℤ) (t : ℤ), fd ∈ fds →
    ∃ type, ⟨fd, type⟩ ∈ entries m p selected fds t
  | [], t, h => by simp at h
  | x :: fds, t, h => by
    rw [List.mem_cons] at h
    rcases h with rfl | h
    · refine ⟨(m.visit p fd t).1, ?_⟩
      simp [entries, hsel]
    · by_cases hx : x ∈ selected
      · obtain ⟨type, he⟩ := exists_entry hsel fds (m.visit p x t).1 h
        refine ⟨type, ?_⟩
        simp [entries, hx, he]
      · obtain ⟨type, he⟩ := exists_entry hsel fds t h
        refine ⟨type, ?_⟩
        simp [entries, hx, he]

variable {m}

theorem passLoop_of_mem {fd : ℤ} (hfd : fd ∈ selected) (fds : List ℤ) (t : ℤ) :
    ∃ m', passLoop p selected (fd :: fds) t m =
        ((passLoop p selected fds (m.visit p fd t).1 m').1,
          (m.visit p fd t).2.2 ++ (passLoop p selected fds (m.visit p fd t).1 m').2) ∧
      m'.tcpSockets = (m.visit p fd t).2.1.tcpSockets ∧ m'.sockfdTcp = m.sockfdTcp ∧
        m'.sockfdUdp = m.sockfdUdp ∧ m'.sockQueue = m.sockQueue ++ [⟨fd, (m.visit p fd t).1⟩] := by
  obtain ⟨ht, hu, hq⟩ := visit_fixed p fd t m
  refine ⟨{ (m.visit p fd t).2.1 with
    sockQueue := (m.visit p fd t).2.1.sockQueue ++ [⟨fd, (m.visit p fd t).1⟩] },
    by simp only [passLoop, hfd, ↓reduceIte], rfl, ht, hu, ?_⟩
  rw [hq]

theorem passLoop_of_notMem {fd : ℤ} (hfd : fd ∉ selected) (fds : List ℤ) (t : ℤ) :
    passLoop p selected (fd :: fds) t m = passLoop p selected fds t m := by
  simp only [passLoop, hfd, ↓reduceIte]

theorem passLoop_sockQueue {m₀ : MultiSocket} : ∀ (fds : List ℤ) (t : ℤ) {m : MultiSocket},
    fds.Nodup → (∀ fd ∈ fds, m.tcpSockets[fd]? = m₀.tcpSockets[fd]?) →
    m.sockfdTcp = m₀.sockfdTcp → m.sockfdUdp = m₀.sockfdUdp →
    (passLoop p selected fds t m).1.sockQueue = m.sockQueue ++ entries m₀ p selected fds t
  | [], t, m, _, _, _, _ => by simp [passLoop, entries]
  | fd :: fds, t, m, hnd, hs, ht, hu => by
    obtain ⟨hfd, hnd⟩ := List.nodup_cons.1 hnd
    obtain ⟨hs₀, hs⟩ := List.forall_mem_cons.1 hs
    by_cases hsel : fd ∈ selected
    · obtain ⟨m', he, hs', ht', hu', hq'⟩ := passLoop_of_mem (m := m) p selected hsel fds t
      have htype := visit_type_congr p t hs₀ ht hu
      have hsock : ∀ x ∈ fds, m'.tcpSockets[x]? = m₀.tcpSockets[x]? := by
        intro x hx
        rw [hs', visit_frame p t m (ne_of_mem_of_not_mem hx hfd), hs x hx]
      rw [he]
      simp only [entries, hsel, ↓reduceIte]
      rw [passLoop_sockQueue fds _ hnd hsock (ht'.trans ht) (hu'.trans hu), hq', htype,
        List.append_assoc, List.singleton_append]
    · rw [passLoop_of_notMem p selected hsel]
      simp only [entries, hsel, ↓reduceIte]
      exact passLoop_sockQueue fds t hnd hs ht hu

theorem passLoop_frame {x : ℤ} : ∀ (fds : List ℤ) (t : ℤ) {m : MultiSocket},
    (x ∈ selected → x ∉ fds) →
    (passLoop p selected fds t m).1.tcpSockets[x]? = m.tcpSockets[x]? ∧
      .closed x ∉ (passLoop p selected fds t m).2
  | [], t, m, _ => by simp [passLoop]
  | fd :: fds, t, m, hx => by
    have hx' : x ∈ selected → x ∉ fds := fun h hmem => hx h (List.mem_cons_of_mem _ hmem)
    by_cases hsel : fd ∈ selected
    · have hne : x ≠ fd := by
        rintro rfl
        exact hx hsel List.mem_cons_self
      obtain ⟨m', he, hs', -, -, -⟩ := passLoop_of_mem (m := m) p selected hsel fds t
      obtain ⟨hsock, hev⟩ := passLoop_frame fds (m.visit p fd t).1 (m := m') hx'
      rw [he]
      refine ⟨by rw [hsock, hs', visit_frame p t m hne], fun h => ?_⟩
      rw [List.mem_append] at h
      exact h.elim (fun h => hne (eq_of_closed_mem_visit h)) hev
    · rw [passLoop_of_notMem p selected hsel]
      exact passLoop_frame fds t hx'

theorem passLoop_at (m₀ : MultiSocket) {x : ℤ} (hsel : x ∈ selected) (t₀ : ℤ) :
    ∀ (fds : List ℤ) (t : ℤ) (m : MultiSocket), fds.Nodup → x ∈ fds →
      m.tcpSockets[x]? = m₀.tcpSockets[x]? →
      (passLoop p selected fds t m).1.tcpSockets[x]? = (m₀.visit p x t₀).2.1.tcpSockets[x]? ∧
        (.closed x ∈ (passLoop p selected fds t m).2 ↔ .closed x ∈ (m₀.visit p x t₀).2.2)
  | [], _, _, _, hx, _ => by simp at hx
  | fd :: fds, t, m, hnd, hx, hs => by
    obtain ⟨hfd, hnd⟩ := List.nodup_cons.1 hnd
    by_cases hne : x = fd
    · subst hne
      obtain ⟨m', he, hs', -, -, -⟩ := passLoop_of_mem (m := m) p selected hsel fds t
      obtain ⟨hsock, hev⟩ := passLoop_frame p selected fds (m.visit p x t).1 (m := m')
        fun _ => hfd
      obtain ⟨hsock₀, hev₀⟩ := visit_congr p t t₀ hs
      rw [he]
      refine ⟨by rw [← hsock₀, ← hs', ← hsock], ?_⟩
      rw [List.mem_append, or_iff_left hev, hev₀]
    · have hx' : x ∈ fds := (List.mem_cons.1 hx).resolve_left hne
      by_cases hsel' : fd ∈ selected
      · obtain ⟨m', he, hs', -, -, -⟩ := passLoop_of_mem (m := m) p selected hsel' fds t
        obtain ⟨hsock, hev⟩ := passLoop_at m₀ hsel t₀ fds (m.visit p fd t).1 m'
          hnd hx' (by rw [hs', visit_frame p t m hne, hs])
        rw [he]
        refine ⟨hsock, ?_⟩
        rw [List.mem_append, or_iff_right fun h => hne (eq_of_closed_mem_visit h), hev]
      · rw [passLoop_of_notMem p selected hsel']
        exact passLoop_at m₀ hsel t₀ fds t m hnd hx' hs

end Pass

/-- A pass changes no listening socket and no bound, and of what it watches it drops the sockets it
closes. -/
theorem selectRound_watched (m : MultiSocket) (p : Pass) :
    (m.selectRound p).1.fdmax = m.fdmax ∧ (m.selectRound p).1.readFds ⊆ m.readFds ∧
      (∀ x ∈ (m.selectRound p).1.readFds, x ∈ m.tcpSockets →
        x ∈ (m.selectRound p).1.tcpSockets) ∧
      ∀ x ∈ m.readFds, x ∈ (m.selectRound p).1.tcpSockets → x ∈ (m.selectRound p).1.readFds := by
  refine passLoop_invariant p (m.readFds ∩ p.ready) (P := fun m' _ => m'.fdmax = m.fdmax ∧
    m'.readFds ⊆ m.readFds ∧ (∀ x ∈ m'.readFds, x ∈ m.tcpSockets → x ∈ m'.tcpSockets) ∧
      ∀ x ∈ m.readFds, x ∈ m'.tcpSockets → x ∈ m'.readFds) (fun fd t m' evs h => ?_) _ p.fdType
    m [] ⟨rfl, subset_rfl, fun _ _ h => h, fun _ h _ => h⟩
  obtain ⟨hmax, hread, hmem, hkeep⟩ := h
  rcases hs : m'.tcpSockets[fd]? with _ | sock
  · rw [visit_of_none hs]
    exact ⟨hmax, hread, hmem, hkeep⟩
  by_cases hc : Closes sock (p.got fd)
  · rw [visit_of_closes hs hc]
    refine ⟨hmax, (Finset.erase_subset _ _).trans hread, fun x hx hx' => ?_, fun x hx hx' => ?_⟩
    · obtain ⟨hne, hx⟩ := Finset.mem_erase.1 hx
      simp [Std.TreeMap.mem_erase, Std.TreeMap.mem_insert, hmem x hx hx', hne.symm]
    · simp only [Std.TreeMap.mem_erase, Std.TreeMap.mem_insert, Std.compare_eq_iff_eq, ne_eq] at hx'
      obtain ⟨hne, hx'⟩ := hx'
      exact Finset.mem_erase.2 ⟨fun h => hne h.symm, hkeep x hx (hx'.resolve_left hne)⟩
  · rw [visit_of_open hs hc]
    refine ⟨hmax, hread, fun x hx hx' => ?_, fun x hx hx' => ?_⟩
    · simp [Std.TreeMap.mem_insert, hmem x hx hx']
    · simp only [Std.TreeMap.mem_insert, Std.compare_eq_iff_eq] at hx'
      rcases hx' with rfl | hx'
      · refine hkeep fd hx ?_
        rw [Std.TreeMap.mem_iff_isSome_getElem?, hs]
        rfl
      · exact hkeep x hx hx'

/-- Some of the sockets of `m` were closed, each with a `SOCK_CLOSE` queued, to get `m'`. -/
def Passed (m m' : MultiSocket) (evs : List Event) : Prop :=
  ∃ fds : List ℤ, evs = fds.map .closed ∧
    (∀ fd, fd ∈ m'.tcpSockets ↔ fd ∈ m.tcpSockets ∧ fd ∉ fds) ∧
    (∀ fd ∈ fds, ⟨fd, sockClose⟩ ∈ m'.sockQueue) ∧ m.sockQueue <+: m'.sockQueue

theorem Passed.visit {m m' : MultiSocket} {evs : List Event} (h : Passed m m' evs) (p : Pass)
    (fd t : ℤ) : Passed m
      { (m'.visit p fd t).2.1 with sockQueue := m'.sockQueue ++ [⟨fd, (m'.visit p fd t).1⟩] }
      (evs ++ (m'.visit p fd t).2.2) := by
  obtain ⟨fds, rfl, hmem, hclose, hpre⟩ := h
  have hpre' : ∀ e, m.sockQueue <+: m'.sockQueue ++ [e] := fun e =>
    hpre.trans (List.prefix_append _ _)
  have hclose' : ∀ e, ∀ x ∈ fds, ⟨x, sockClose⟩ ∈ m'.sockQueue ++ [e] := fun e x hx =>
    List.mem_append_left _ (hclose x hx)
  rcases hs : m'.tcpSockets[fd]? with _ | sock
  · rw [visit_of_none hs]
    exact ⟨fds, List.append_nil _, hmem, hclose' _, hpre' _⟩
  have hfd : fd ∈ m'.tcpSockets := by
    rw [Std.TreeMap.mem_iff_isSome_getElem?, hs]
    rfl
  by_cases hc : Closes sock (p.got fd)
  · rw [visit_of_closes hs hc]
    refine ⟨fds ++ [fd], by simp, fun x => ?_, fun x hx => ?_, hpre' _⟩
    · simp only [Std.TreeMap.mem_erase, Std.TreeMap.mem_insert, Std.compare_eq_iff_eq, ne_eq,
        List.mem_append, List.mem_singleton, hmem]
      grind
    · rw [List.mem_append, List.mem_singleton] at hx
      rcases hx with hx | rfl
      · exact hclose' _ x hx
      · exact List.mem_append_right _ List.mem_cons_self
  · rw [visit_of_open hs hc]
    refine ⟨fds, List.append_nil _, fun x => ?_, hclose' _, hpre' _⟩
    simp only [Std.TreeMap.mem_insert, Std.compare_eq_iff_eq, ← hmem]
    exact ⟨fun h => h.elim (fun h => h ▸ hfd) id, .inr⟩

theorem passed_selectRound (m : MultiSocket) (p : Pass) :
    Passed m (m.selectRound p).1 (m.selectRound p).2 :=
  passLoop_invariant p (m.readFds ∩ p.ready) (P := Passed m)
    (fun fd t _ _ h => h.visit p fd t) _ p.fdType m []
    ⟨[], rfl, by simp, by simp, List.prefix_rfl⟩

/-- The entries a pass over `selected` adds to the queue. -/
def pushed (m : MultiSocket) (p : Pass) (selected : Finset ℤ) : List RecvHolder :=
  (m.thisMethodDoesSomethingImportantWithTheFileDescriptors p selected).1.sockQueue.drop
    m.sockQueue.length

/-- The type of the entry is the one of its descriptor. -/
structure EventTyped (m : MultiSocket) (p : Pass) (selected : Finset ℤ) (e : RecvHolder) :
    Prop where
  type_mem : e.type ∈ [sockClose, sockTcp, sockConnect, sockUdp, fdUnbuffered]
  close : e.type = sockClose →
    .closed e.fd ∈ (m.thisMethodDoesSomethingImportantWithTheFileDescriptors p selected).2
  tcp : e.type = sockTcp →
    (m.thisMethodDoesSomethingImportantWithTheFileDescriptors p selected).1.hasPacket e.fd
  connect : e.type = sockConnect → e.fd ∉ m.tcpSockets ∧ e.fd = m.sockfdTcp
  udp : e.type = sockUdp → e.fd ∉ m.tcpSockets ∧ e.fd = m.sockfdUdp
  unbuffered : e.type = fdUnbuffered →
    e.fd ∉ m.tcpSockets ∧ e.fd ≠ m.sockfdTcp ∧ e.fd ≠ m.sockfdUdp

theorem pushed_eq (m : MultiSocket) (p : Pass) (selected : Finset ℤ) :
    pushed m p selected = entries m p selected (descriptors m.fdmax) p.fdType := by
  rw [pushed, thisMethodDoesSomethingImportantWithTheFileDescriptors,
    passLoop_sockQueue p selected _ _ (nodup_descriptors _) (fun _ _ => rfl) rfl rfl,
    List.drop_left]

theorem eventTyped_of_not_unfinished {m : MultiSocket} {p : Pass} {selected : Finset ℤ}
    {e : RecvHolder} (hsel : e.fd ∈ selected) (hmem : e.fd ∈ descriptors m.fdmax) {t : ℤ}
    (he : e.type = (m.visit p e.fd t).1) (hf : ¬ m.Unfinished p e.fd) :
    EventTyped m p selected e := by
  obtain ⟨hsock, hev⟩ := passLoop_at p selected m hsel t _ p.fdType m
    (nodup_descriptors _) hmem rfl
  rcases hs : m.tcpSockets[e.fd]? with _ | sock
  · have hnot : e.fd ∉ m.tcpSockets := by
      rw [Std.TreeMap.mem_iff_isSome_getElem?, hs]
      simp
    rw [visit_of_none hs] at he
    dsimp only at he
    split_ifs at he with ht hu
    · have hnot' := ht ▸ hnot
      constructor <;> simp [he, sockClose, sockTcp, sockConnect, sockUdp, fdUnbuffered, hnot', ht]
    · have hnot' := hu ▸ hnot
      constructor <;> simp [he, sockClose, sockTcp, sockConnect, sockUdp, fdUnbuffered, hnot', hu]
    · constructor <;>
        simp [he, sockClose, sockTcp, sockConnect, sockUdp, fdUnbuffered, hnot, ht, hu]
  · by_cases hc : Closes sock (p.got e.fd)
    · rw [visit_of_closes hs hc] at he hev
      have hclosed := hev.2 List.mem_cons_self
      constructor
      · simp [he]
      · exact fun _ => hclosed
      all_goals simp [he, sockClose, sockTcp, sockConnect, sockUdp, fdUnbuffered]
    · have hr : (sock.recv (p.got e.fd)).2.2.packetReady = true := by
        by_contra hr
        exact hf ⟨sock, hs, hc, by simpa using hr⟩
      rw [visit_of_open hs hc, hr] at he
      rw [visit_of_open hs hc] at hsock
      constructor
      · simp [he]
      · simp [he, sockClose, sockTcp]
      · intro _
        simp only [Std.TreeMap.getElem?_insert_self] at hsock
        simp only [hasPacket, thisMethodDoesSomethingImportantWithTheFileDescriptors, hsock, hr]
      all_goals simp [he, sockTcp, sockConnect, sockUdp, fdUnbuffered]

/-- A socket left open with no packet ready has no type of its own. -/
theorem not_eventTyped_of_unfinished {m : MultiSocket} {p : Pass} {selected : Finset ℤ}
    {e : RecvHolder} (hsel : e.fd ∈ selected) (hmem : e.fd ∈ descriptors m.fdmax)
    (hf : m.Unfinished p e.fd) : ¬ EventTyped m p selected e := by
  obtain ⟨sock, hs, hc, hr⟩ := hf
  obtain ⟨hsock, hev⟩ := passLoop_at p selected m hsel 0 _ p.fdType m
    (nodup_descriptors _) hmem rfl
  rw [visit_of_open hs hc] at hsock hev
  have hin : e.fd ∈ m.tcpSockets := by
    rw [Std.TreeMap.mem_iff_isSome_getElem?, hs]
    rfl
  intro h
  have htype := h.type_mem
  simp only [List.mem_cons, List.not_mem_nil, or_false] at htype
  rcases htype with ht | ht | ht | ht | ht
  · have hclosed := hev.1 (h.close ht)
    simp at hclosed
  · have hready := h.tcp ht
    simp only [Std.TreeMap.getElem?_insert_self] at hsock
    simp only [hasPacket, thisMethodDoesSomethingImportantWithTheFileDescriptors, hsock, hr,
      Bool.false_eq_true] at hready
  · exact (h.connect ht).1 hin
  · exact (h.udp ht).1 hin
  · exact (h.unbuffered ht).1 hin

/-- From every state and for every result of the `::recv`s, the entries of a pass have the types of
their descriptors, whatever `fd_type` starts with, exactly if no socket that the pass reads is left
open with no packet ready. -/
theorem eventTyped_iff (m : MultiSocket) (p : Pass) (selected : Finset ℤ) :
    (∀ fdType, ∀ e ∈ pushed m { p with fdType } selected,
        EventTyped m { p with fdType } selected e) ↔
      ∀ fd ∈ selected, 0 ≤ fd → fd ≤ m.fdmax → ¬ m.Unfinished p fd := by
  constructor
  · intro h fd hsel h0 hle hf
    have hmem := mem_descriptors.2 ⟨h0, hle⟩
    obtain ⟨type, he⟩ := exists_entry m p selected hsel (descriptors m.fdmax) p.fdType hmem
    rw [← pushed_eq] at he
    exact not_eventTyped_of_unfinished hsel hmem hf (h p.fdType _ he)
  · intro h fdType e he
    rw [pushed_eq] at he
    obtain ⟨hmem, hsel, t, ht⟩ := mem_of_mem_entries _ _ _ _ _ e he
    obtain ⟨h0, hle⟩ := mem_descriptors.1 hmem
    exact eventTyped_of_not_unfinished hsel hmem ht (h e.fd hsel h0 hle)

/-- A socket is left open with no packet ready exactly if bytes come in, none was ready before, and
what the socket has read of the frame at hand is no complete frame, and no header that is too big.
-/
theorem unfinished_iff {m : MultiSocket} {p : Pass} {fd : ℤ} {sock : BufferedTcpSocket}
    (hs : m.tcpSockets[fd]? = some sock) (hwf : sock.Wf) :
    m.Unfinished p fd ↔ ∃ bytes, p.got fd = some bytes ∧ bytes ≠ [] ∧ sock.packets = [] ∧
      framing.next? (sock.pending ++ bytes.take tcpBufferSize) = none ∧
      ¬ framing.Oversize (sock.pending ++ bytes.take tcpBufferSize) := by
  have hun : m.Unfinished p fd ↔
      ¬ Closes sock (p.got fd) ∧ (sock.recv (p.got fd)).2.2.packetReady = false := by
    simp [Unfinished, hs]
  rw [hun, Closes]
  rcases hg : p.got fd with _ | bytes
  · simp [BufferedTcpSocket.recv]
  by_cases hnil : bytes = []
  · subst hnil
    simp [BufferedTcpSocket.recv]
  have hpos := BufferedTcpSocket.length_take_pos hnil
  have hread := read_spec hwf (bytes.take tcpBufferSize)
  simp only [Option.some.injEq, exists_eq_left', hnil, ne_eq, not_false_eq_true, true_and]
  rw [recv_of_ne_nil sock hnil, packetReady_eq_false]
  unfold ReadResult at hread
  split_ifs at hread with hbig
  · rw [if_pos hread.1]
    constructor
    · intro h
      exact absurd (.inl le_rfl) h.1
    · rintro ⟨-, hnone, hsmall⟩
      rw [Framing.cut_of_none _ hnone] at hbig
      exact absurd hbig hsmall
  · obtain ⟨hret, -, hpk, -⟩ := hread
    rw [if_neg (by rw [hret]; simp), hpk, List.append_eq_nil_iff, Framing.cut_fst_eq_nil_iff]
    constructor
    · rintro ⟨-, hq, hnone⟩
      rw [Framing.cut_of_none _ hnone] at hbig
      exact ⟨hq, hnone, hbig⟩
    · rintro ⟨hq, hnone, -⟩
      refine ⟨?_, hq, hnone⟩
      rintro (hle | htoo)
      · dsimp only at hle
        omega
      · simp at htoo

/-- Two new connections, on 5 and 6. -/
def twoConnections : MultiSocket :=
  { new with
    readFds := {5, 6}
    fdmax := 6
    tcpSockets := (new.tcpSockets.insert 5 (.new 5 default)).insert 6 (.new 6 default) }

/-- The peer of 5 closes, and one byte of a header comes in on 6: both get a `SOCK_CLOSE`. -/
theorem not_eventTyped_partial :
    let p : Pass := ⟨{5, 6}, fun fd => if fd = 5 then some [] else some [0], 0⟩
    ¬ ∀ e ∈ pushed twoConnections p {5, 6}, EventTyped twoConnections p {5, 6} e := by
  intro p h
  have hmem : ⟨6, sockClose⟩ ∈ pushed twoConnections p {5, 6} := by decide +kernel
  have hopen : .closed 6 ∉
      (twoConnections.thisMethodDoesSomethingImportantWithTheFileDescriptors p {5, 6}).2 := by
    decide +kernel
  exact hopen ((h _ hmem).close rfl)

end MultiSocket

end NewsServer
