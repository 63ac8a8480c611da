import Mathlib

/-!
# Logins over handles that are used again

A service numbers its connections as they come. An open connection has a handle, and a handle whose
connection is closed may be given to a later one. A connection logs in under a name. For a handle
the service keeps the name that is bound to it, and for a name the handle it is in use on, and it
releases both when it is told of the end of a connection, which can be late, or never.

`Genuine` says that what is kept for the handle of an open connection is what that connection
logged in as. `InUse` says that the names of open connections are in use, so no name has two of
them (`Unique`). `Tracked` says that what is kept for a handle is of its open connection, or is
about to be released.
-/

namespace Sessions

/-- The registry of a service, for handles `H` and names `N`. -/
structure Registry (H N : Type*) where
  /-- How many connections there have been. -/
  count : ℕ
  /-- The connection that is open on a handle. -/
  on : H → Option ℕ
  /-- The logins there have been, oldest first. -/
  logins : List (ℕ × N)
  /-- The name bound to a handle. -/
  bound : H → Option N
  /-- The handle a name is in use on. -/
  user : N → Option H

namespace Registry

variable {H N : Type*}

def empty : Registry H N where
  count := 0
  on := fun _ => none
  logins := []
  bound := fun _ => none
  user := fun _ => none

section Operations

variable [DecidableEq H]

def accept (r : Registry H N) (h : H) : Registry H N :=
  { r with count := r.count + 1, on := Function.update r.on h (some r.count) }

/-- The connection on `h` is closed. The service keeps what it has for `h`. -/
def drop (r : Registry H N) (h : H) : Registry H N :=
  { r with on := Function.update r.on h none }

variable [DecidableEq N]

/-- The connection `c`, on `h`, logs in as `n`. -/
def login (r : Registry H N) (c : ℕ) (h : H) (n : N) : Registry H N :=
  { r with
    logins := r.logins ++ [(c, n)]
    bound := Function.update r.bound h (some n)
    user := Function.update r.user n (some h) }

/-- Forget what is kept for `h`; where nothing is, the name is taken to be `n₀`. -/
def release (r : Registry H N) (n₀ : N) (h : H) : Registry H N :=
  { r with
    bound := Function.update r.bound h none
    user := Function.update r.user ((r.bound h).getD n₀) none }

end Operations

/-- The connection that logged in as `n` last. -/
def owner [DecidableEq N] (r : Registry H N) (n : N) : Option ℕ :=
  (r.logins.reverse.find? fun l => l.2 = n).map Prod.fst

variable {r : Registry H N} {c : ℕ} {h : H} {n n₀ : N}

theorem owner_login [DecidableEq H] [DecidableEq N] (n' : N) :
    (r.login c h n).owner n' = if n = n' then some c else r.owner n' := by
  simp only [owner, login, List.reverse_append, List.reverse_cons, List.reverse_nil,
    List.nil_append, List.singleton_append, List.find?_cons]
  by_cases hn : n = n' <;> simp [hn]

/-! ## What is always so -/

/-- No connection is open on two handles, and every number is one of a connection there has been. -/
structure Sound (r : Registry H N) : Prop where
  inj : ∀ {h h' : H} {c : ℕ}, r.on h = some c → r.on h' = some c → h = h'
  lt : ∀ {h : H} {c : ℕ}, r.on h = some c → c < r.count
  login_lt : ∀ {c : ℕ} {n : N}, (c, n) ∈ r.logins → c < r.count

theorem sound_empty : Sound (empty : Registry H N) := by
  constructor <;> simp [empty]

section Sound

variable [DecidableEq H]

theorem Sound.accept (hr : Sound r) (h : H) : Sound (r.accept h) := by
  refine ⟨fun {a b c} ha hb => ?_, fun {a c} ha => ?_, fun hl => ?_⟩
  · simp only [Registry.accept, Function.update_apply] at ha hb
    split_ifs at ha hb with h₁ h₂ h₂
    · exact h₁.trans h₂.symm
    · rw [← ha] at hb
      exact absurd (hr.lt hb) (lt_irrefl _)
    · rw [← hb] at ha
      exact absurd (hr.lt ha) (lt_irrefl _)
    · exact hr.inj ha hb
  · simp only [Registry.accept, Function.update_apply] at ha ⊢
    split_ifs at ha with h₁
    · rw [Option.some.injEq] at ha
      omega
    · exact (hr.lt ha).trans (Nat.lt_succ_self _)
  · exact (hr.login_lt hl).trans (Nat.lt_succ_self _)

theorem on_of_on_drop {a : H} (ha : (r.drop h).on a = some c) : a ≠ h ∧ r.on a = some c := by
  simp only [drop, Function.update_apply] at ha
  split_ifs at ha with h₁
  exact ⟨h₁, ha⟩

theorem Sound.drop (hr : Sound r) (h : H) : Sound (r.drop h) :=
  ⟨fun ha hb => hr.inj (on_of_on_drop ha).2 (on_of_on_drop hb).2,
    fun ha => hr.lt (on_of_on_drop ha).2, hr.login_lt⟩

variable [DecidableEq N]

theorem Sound.login (hr : Sound r) (hon : r.on h = some c) (n : N) : Sound (r.login c h n) := by
  refine ⟨hr.inj, hr.lt, fun hl => ?_⟩
  simp only [Registry.login, List.mem_append, List.mem_singleton, Prod.mk.injEq] at hl
  rcases hl with hl | ⟨rfl, -⟩
  · exact hr.login_lt hl
  · exact hr.lt hon

theorem Sound.release (hr : Sound r) (n₀ : N) (h : H) : Sound (r.release n₀ h) :=
  ⟨hr.inj, hr.lt, hr.login_lt⟩

end Sound

/-! ## Handles and the connections open on them -/

/-- What is kept for the handle of an open connection is what the connection logged in as. -/
def Genuine (r : Registry H N) : Prop :=
  ∀ h n c, r.bound h = some n ∨ r.user n = some h → r.on h = some c → (c, n) ∈ r.logins

theorem genuine_empty : Genuine (empty : Registry H N) := by
  simp [Genuine, empty]

section Genuine

variable [DecidableEq H]

/-- A new connection gets its handle clean exactly if nothing was kept for the handle. -/
theorem genuine_accept_iff (hr : Sound r) (hg : Genuine r) (h : H) :
    Genuine (r.accept h) ↔ r.bound h = none ∧ ∀ n, r.user n ≠ some h := by
  have hnew : ∀ n, (r.count, n) ∉ r.logins := fun n hn => lt_irrefl _ (hr.login_lt hn)
  have hon : (r.accept h).on h = some r.count := Function.update_self ..
  constructor
  · intro hg'
    refine ⟨?_, fun n hn => hnew n (hg' h n _ (.inr hn) hon)⟩
    rw [Option.eq_none_iff_forall_not_mem]
    exact fun n hn => hnew n (hg' h n _ (.inl hn) hon)
  · rintro ⟨hb, hu⟩ a n c hk ha
    simp only [Registry.accept, Function.update_apply] at hk ha ⊢
    split_ifs at ha with h₁
    · subst h₁
      rcases hk with hk | hk
      · rw [hb] at hk
        simp at hk
      · exact absurd hk (hu n)
    · exact hg a n c hk ha

theorem Genuine.drop (hg : Genuine r) (h : H) : Genuine (r.drop h) :=
  fun a n c hk ha => hg a n c hk (on_of_on_drop ha).2

variable [DecidableEq N]

theorem Genuine.login (hg : Genuine r) (hon : r.on h = some c) (n : N) :
    Genuine (r.login c h n) := by
  intro a m d hk ha
  simp only [Registry.login, Function.update_apply] at hk ha ⊢
  rw [List.mem_append, List.mem_singleton]
  by_cases hah : a = h
  · subst hah
    rw [hon, Option.some.injEq] at ha
    subst ha
    by_cases hmn : m = n
    · exact .inr (by rw [hmn])
    · left
      rcases hk with hk | hk
      · rw [if_pos rfl, Option.some.injEq] at hk
        exact absurd hk.symm hmn
      · rw [if_neg hmn] at hk
        exact hg a m c (.inr hk) hon
  · left
    rcases hk with hk | hk
    · rw [if_neg hah] at hk
      exact hg a m d (.inl hk) ha
    · split_ifs at hk with hmn
      · rw [Option.some.injEq] at hk
        exact absurd hk.symm hah
      · exact hg a m d (.inr hk) ha

theorem bound_of_release {a : H} (hb : (r.release n₀ h).bound a = some n) :
    a ≠ h ∧ r.bound a = some n := by
  simp only [release, Function.update_apply] at hb
  split_ifs at hb with h₁
  exact ⟨h₁, hb⟩

theorem user_of_release {a : H} (hu : (r.release n₀ h).user n = some a) :
    n ≠ (r.bound h).getD n₀ ∧ r.user n = some a := by
  simp only [release, Function.update_apply] at hu
  split_ifs at hu with h₁
  exact ⟨h₁, hu⟩

theorem Genuine.release (hg : Genuine r) (n₀ : N) (h : H) : Genuine (r.release n₀ h) := by
  rintro a n c (hb | hu) ha
  · exact hg a n c (.inl (bound_of_release hb).2) ha
  · exact hg a n c (.inr (user_of_release hu).2) ha

end Genuine

/-! ## Names and the connections logged in under them -/

/-- Every name an open connection has logged in as is in use. -/
def InUse (r : Registry H N) : Prop :=
  ∀ h n c, r.on h = some c → (c, n) ∈ r.logins → (r.user n).isSome

/-- No two open connections have logged in under one name. -/
def Unique (r : Registry H N) : Prop :=
  ∀ h h' n c c', r.on h = some c → r.on h' = some c' → (c, n) ∈ r.logins → (c', n) ∈ r.logins →
    c = c'

theorem inUse_empty : InUse (empty : Registry H N) := by
  simp [InUse, empty]

theorem unique_empty : Unique (empty : Registry H N) := by
  simp [Unique, empty]

section Unique

variable [DecidableEq H]

theorem InUse.accept (hr : Sound r) (hu : InUse r) (h : H) : InUse (r.accept h) := by
  intro a n c ha hl
  simp only [Registry.accept, Function.update_apply] at ha hl ⊢
  split_ifs at ha with h₁
  · rw [Option.some.injEq] at ha
    exact absurd (ha ▸ hr.login_lt hl) (lt_irrefl _)
  · exact hu a n c ha hl

theorem InUse.drop (hu : InUse r) (h : H) : InUse (r.drop h) :=
  fun a n c ha hl => hu a n c (on_of_on_drop ha).2 hl

theorem Unique.accept (hr : Sound r) (hu : Unique r) (h : H) : Unique (r.accept h) := by
  intro a b n c d ha hb hc hd
  have hnew : ∀ n, (r.count, n) ∉ r.logins := fun n hn => lt_irrefl _ (hr.login_lt hn)
  simp only [Registry.accept, Function.update_apply] at ha hb hc hd
  split_ifs at ha hb with h₁ h₂ h₂
  · exact Option.some.inj (ha.symm.trans hb)
  · rw [Option.some.injEq] at ha
    exact absurd (ha ▸ hc) (hnew n)
  · rw [Option.some.injEq] at hb
    exact absurd (hb ▸ hd) (hnew n)
  · exact hu a b n c d ha hb hc hd

theorem Unique.drop (hu : Unique r) (h : H) : Unique (r.drop h) :=
  fun a b n c d ha hb => hu a b n c d (on_of_on_drop ha).2 (on_of_on_drop hb).2

variable [DecidableEq N]

theorem InUse.login (hu : InUse r) (c : ℕ) (h : H) (n : N) : InUse (r.login c h n) := by
  intro a m d ha hl
  simp only [Registry.login, Function.update_apply, List.mem_append, List.mem_singleton,
    Prod.mk.injEq] at ha hl ⊢
  split_ifs with hmn
  · rfl
  · exact hu a m d ha (hl.resolve_right fun hl => hmn hl.2)

/-- A release keeps the names of open connections in use exactly if none of them is logged in under
the name it forgets. -/
theorem inUse_release_iff (hu : InUse r) (n₀ : N) (h : H) : InUse (r.release n₀ h) ↔
    ∀ a c, r.on a = some c → (c, (r.bound h).getD n₀) ∉ r.logins := by
  constructor
  · intro hu' a c ha hl
    have := hu' a _ c ha hl
    simp [Registry.release] at this
  · intro hfree a m d ha hl
    simp only [Registry.release, Function.update_apply] at ha hl ⊢
    split_ifs with hmn
    · subst hmn
      exact absurd hl (hfree a d ha)
    · exact hu a m d ha hl

theorem Unique.login (hu : Unique r) (hi : InUse r) (hn : r.user n = none) (c : ℕ) (h : H) :
    Unique (r.login c h n) := by
  intro a b m d e ha hb hd he
  have hnone : ∀ a d, r.on a = some d → (d, n) ∉ r.logins := fun a d ha hl => by
    have := hi a n d ha hl
    rw [hn] at this
    simp at this
  simp only [Registry.login, List.mem_append, List.mem_singleton, Prod.mk.injEq] at ha hb hd he
  rcases hd with hd | ⟨rfl, rfl⟩ <;> rcases he with he | ⟨rfl, hm⟩
  · exact hu a b m d e ha hb hd he
  · exact absurd (hm ▸ hd) (hnone a d ha)
  · exact absurd he (hnone b e hb)
  · rfl

end Unique

/-! ## What is kept for a handle after its connection -/

/-- The handle a name is in use on is bound to the name. -/
def Linked (r : Registry H N) : Prop :=
  ∀ h n, r.user n = some h → r.bound h = some n

theorem linked_empty : Linked (empty : Registry H N) := by
  simp [Linked, empty]

section Tracked

variable [DecidableEq N] {closing closing' : H → Prop}

/-- A handle that is bound to a name is about to be released (`closing`), or its open connection
logged in as the name, last of all if the name is in use on it. -/
def Tracked (r : Registry H N) (closing : H → Prop) : Prop :=
  ∀ h n, r.bound h = some n → closing h ∨ ∃ c, r.on h = some c ∧ (c, n) ∈ r.logins ∧
    (r.user n = some h → r.owner n = some c)

theorem tracked_empty : Tracked (empty : Registry H N) closing := by
  simp [Tracked, empty]

/-- What is bound may lose its place among what is about to be released if it is not bound. -/
theorem Tracked.of_imp (ht : Tracked r closing)
    (hc : ∀ h, (r.bound h).isSome → closing h → closing' h) : Tracked r closing' := by
  intro a n hb
  refine (ht a n hb).imp_left (hc a ?_)
  rw [hb]
  rfl

/-- When nothing is about to be released, a handle with no open connection is not bound, a handle
with one is bound to nothing but a name the connection logged in as, and a name is in use for the
connection that logged in as it last, which is open. -/
theorem Tracked.settled (ht : Tracked r closing) (hl : Linked r) (hc : ∀ h, ¬ closing h) :
    (∀ h, r.on h = none → r.bound h = none) ∧
      (∀ h n c, r.bound h = some n → r.on h = some c → (c, n) ∈ r.logins) ∧
      ∀ h n, r.user n = some h → ∃ c, r.on h = some c ∧ r.owner n = some c := by
  have hopen : ∀ h n, r.bound h = some n → ∃ c, r.on h = some c ∧ (c, n) ∈ r.logins ∧
      (r.user n = some h → r.owner n = some c) := fun h n hb =>
    (ht h n hb).resolve_left (hc h)
  refine ⟨fun h hon => ?_, fun h n c hb hon => ?_, fun h n hu => ?_⟩
  · rw [Option.eq_none_iff_forall_not_mem]
    intro n hb
    obtain ⟨c, hc, -⟩ := hopen h n hb
    rw [hon] at hc
    simp at hc
  · obtain ⟨d, hd, hmem, -⟩ := hopen h n hb
    rw [hon, Option.some.injEq] at hd
    exact hd ▸ hmem
  · obtain ⟨c, hon, -, ho⟩ := hopen h n (hl h n hu)
    exact ⟨c, hon, ho hu⟩

variable [DecidableEq H]

theorem Linked.login (hl : Linked r) (hfree : ∀ m, r.user m ≠ some h) (c : ℕ) (n : N) :
    Linked (r.login c h n) := by
  intro a m hu
  simp only [Registry.login, Function.update_apply] at hu ⊢
  split_ifs at hu with hmn
  · rw [Option.some.injEq] at hu
    rw [if_pos hu.symm, hmn]
  · have hah : a ≠ h := by
      rintro rfl
      exact hfree m hu
    rw [if_neg hah]
    exact hl a m hu

theorem Linked.release (hl : Linked r) (n₀ : N) (h : H) : Linked (r.release n₀ h) := by
  intro a m hu
  obtain ⟨hne, hu⟩ := user_of_release hu
  have hb := hl a m hu
  have hah : a ≠ h := by
    rintro rfl
    rw [hb] at hne
    exact hne rfl
  simpa [Registry.release, Function.update_apply, hah] using hb

theorem Tracked.accept (ht : Tracked r closing) (hfresh : r.on h = none) :
    Tracked (r.accept h) closing := by
  intro a n hb
  refine (ht a n hb).imp_right ?_
  rintro ⟨c, hon, hrest⟩
  have hah : a ≠ h := by
    rintro rfl
    rw [hfresh] at hon
    simp at hon
  exact ⟨c, by simpa [Registry.accept, Function.update_apply, hah] using hon, hrest⟩

theorem Tracked.drop (ht : Tracked r closing) (hh : (r.bound h).isSome → closing h) :
    Tracked (r.drop h) closing := by
  intro a n hb
  by_cases hah : a = h
  · subst hah
    exact .inl (hh (by rw [show r.bound a = some n from hb]; rfl))
  · refine (ht a n hb).imp_right ?_
    rintro ⟨c, hon, hrest⟩
    exact ⟨c, by simpa [Registry.drop, Function.update_apply, hah] using hon, hrest⟩

theorem Tracked.login (ht : Tracked r closing) (hon : r.on h = some c) (n : N) :
    Tracked (r.login c h n) closing := by
  intro a m hb
  simp only [owner_login]
  simp only [Registry.login, Function.update_apply, List.mem_append, List.mem_singleton,
    Prod.mk.injEq] at hb ⊢
  split_ifs at hb with hah
  · rw [Option.some.injEq] at hb
    subst hah hb
    exact .inr ⟨c, hon, .inr ⟨rfl, rfl⟩, fun _ => if_pos rfl⟩
  · refine (ht a m hb).imp_right ?_
    rintro ⟨d, hd, hl, ho⟩
    refine ⟨d, hd, .inl hl, fun hu => ?_⟩
    split_ifs at hu with hmn
    · rw [Option.some.injEq] at hu
      exact absurd hu.symm hah
    · rw [if_neg (Ne.symm hmn)]
      exact ho hu

theorem Tracked.release (ht : Tracked r closing) (n₀ : N) (h : H)
    (hc : ∀ a, a ≠ h → (r.bound a).isSome → closing a → closing' a) :
    Tracked (r.release n₀ h) closing' := by
  intro a n hb
  obtain ⟨hah, hb⟩ := bound_of_release hb
  refine (ht a n hb).imp (hc a hah (by rw [hb]; rfl)) ?_
  rintro ⟨c, hon, hl, ho⟩
  exact ⟨c, hon, hl, fun hu => ho (user_of_release hu).2⟩

end Tracked

/-! ## What events tell of a connection -/

section Gather

variable {E α : Type*} (note : Registry H N → E → Registry H N) (f : E → Option (H × α)) (c : ℕ)

/-- What an event tells of the connection `c`, where `f` gives the handle the event is about. -/
def tells (r : Registry H N) (e : E) : Option α :=
  (f e).bind fun x => if r.on x.1 = some c then some x.2 else none

/-- What the events tell of the connection `c`. -/
def gather : Registry H N → List E → List α
  | _, [] => []
  | r, e :: es => (tells f c r e).toList ++ gather (note r e) es

variable {note f c}

theorem gather_append : ∀ (es es' : List E) (r : Registry H N),
    gather note f c r (es ++ es') = gather note f c r es ++ gather note f c (es.foldl note r) es'
  | [], _, _ => rfl
  | e :: es, es', r => by
    rw [List.cons_append, gather, gather, gather_append es es', List.append_assoc, List.foldl_cons]

theorem gather_eq_nil : ∀ {es : List E} {r : Registry H N}, (∀ e ∈ es, f e = none) →
    gather note f c r es = []
  | [], _, _ => rfl
  | e :: es, r, h => by
    obtain ⟨he, hes⟩ := List.forall_mem_cons.1 h
    rw [gather, gather_eq_nil hes, tells, he]
    rfl

/-- Where no connection comes or goes, the registry at the beginning tells it all. -/
theorem gather_of_on : ∀ {es : List E} {r : Registry H N},
    (∀ e ∈ es, ∀ r : Registry H N, (note r e).on = r.on) →
      gather note f c r es = es.filterMap (tells f c r)
  | [], _, _ => rfl
  | e :: es, r, h => by
    obtain ⟨he, hes⟩ := List.forall_mem_cons.1 h
    have htells : tells f c (note r e) = tells f c r := by
      funext x
      rw [tells, tells, he r]
    rw [gather, gather_of_on hes, htells, List.filterMap_cons]
    cases tells f c r e <;> rfl

end Gather

end Registry

end Sessions
