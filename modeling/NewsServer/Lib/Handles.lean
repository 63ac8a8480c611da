import NewsServer.Lib.Runs

/-!
# Calls on handles

A table has the handles that are open. A handle is opened when it is not open, and used or closed
when it is; any other call fails. Where no call fails, every handle is closed as often as it was
opened, but for the ones that are open at the end (`count_eq`).
-/

namespace Handles

inductive Call (H : Type*)
  | opens (h : H)
  | uses (h : H)
  | closes (h : H)
  deriving DecidableEq

variable {H : Type*} [DecidableEq H] {o o' : Finset H} {h : H}

/-- The table after a call, if it does not fail. -/
def call (o : Finset H) : Call H → Option (Finset H)
  | .opens h => if h ∈ o then none else some (insert h o)
  | .uses h => if h ∈ o then some o else none
  | .closes h => if h ∈ o then some (o.erase h) else none

/-- The table after the calls, if none fails. -/
def calls (o : Finset H) (cs : List (Call H)) : Option (Finset H) :=
  Runs.exec call o cs

@[simp] theorem calls_nil (o : Finset H) : calls o [] = some o := rfl

theorem calls_cons (o : Finset H) (c : Call H) (cs : List (Call H)) :
    calls o (c :: cs) = (call o c).bind fun o' => calls o' cs :=
  Runs.exec_cons o c cs

@[simp] theorem calls_singleton (o : Finset H) (c : Call H) : calls o [c] = call o c := by
  rcases hc : call o c with _ | o' <;> simp [calls_cons, hc]

theorem calls_append (o : Finset H) (cs ds : List (Call H)) :
    calls o (cs ++ ds) = (calls o cs).bind fun o' => calls o' ds :=
  Runs.exec_append o cs ds

theorem calls_trans {cs ds : List (Call H)} (hc : calls o cs = some o') :
    calls o (cs ++ ds) = calls o' ds := by
  rw [calls_append, hc, Option.bind_some]

@[simp] theorem call_opens (hh : h ∉ o) : call o (.opens h) = some (insert h o) :=
  if_neg hh

@[simp] theorem call_uses (hh : h ∈ o) : call o (.uses h) = some o :=
  if_pos hh

@[simp] theorem call_closes (hh : h ∈ o) : call o (.closes h) = some (o.erase h) :=
  if_pos hh

/-- Calls that use open handles change nothing. -/
theorem calls_of_uses : ∀ {cs : List (Call H)}, (∀ c ∈ cs, ∃ h ∈ o, c = .uses h) →
    calls o cs = some o
  | [], _ => rfl
  | c :: cs, huses => by
    obtain ⟨⟨h, hh, rfl⟩, hrest⟩ := List.forall_mem_cons.1 huses
    rw [calls_cons, call_uses hh, Option.bind_some, calls_of_uses hrest]

theorem calls_uses {hs : List H} (hmem : ∀ h ∈ hs, h ∈ o) : calls o (hs.map .uses) = some o := by
  refine calls_of_uses fun c hc => ?_
  obtain ⟨h, hh, rfl⟩ := List.mem_map.1 hc
  exact ⟨h, hmem h hh, rfl⟩

/-- Handles that are open can be closed, each once. -/
theorem calls_closes : ∀ {hs : List H} {o : Finset H}, hs.Nodup → (∀ h ∈ hs, h ∈ o) →
    calls o (hs.map .closes) = some (o \ hs.toFinset)
  | [], o, _, _ => by simp
  | h :: hs, o, hnd, hmem => by
    obtain ⟨hnot, hnd⟩ := List.nodup_cons.1 hnd
    obtain ⟨hh, hmem⟩ := List.forall_mem_cons.1 hmem
    have hmem' : ∀ x ∈ hs, x ∈ o.erase h := fun x hx =>
      Finset.mem_erase.2 ⟨fun heq => hnot (heq ▸ hx), hmem x hx⟩
    rw [List.map_cons, calls_cons, call_closes hh, Option.bind_some, calls_closes hnd hmem',
      List.toFinset_cons, Finset.sdiff_insert, Finset.erase_sdiff_comm]

theorem count_call {c : Call H} (hc : call o c = some o') (h : H) :
    [c].count (.opens h) + (if h ∈ o then 1 else 0) =
      [c].count (.closes h) + if h ∈ o' then 1 else 0 := by
  cases c with
  | opens x =>
    simp only [call, Option.ite_none_left_eq_some, Option.some.injEq] at hc
    obtain ⟨hx, rfl⟩ := hc
    by_cases hxh : x = h
    · subst hxh
      simp [hx]
    · simp [hxh, Ne.symm hxh]
  | uses x =>
    simp only [call, Option.ite_none_right_eq_some, Option.some.injEq] at hc
    obtain ⟨-, rfl⟩ := hc
    simp
  | closes x =>
    simp only [call, Option.ite_none_right_eq_some, Option.some.injEq] at hc
    obtain ⟨hx, rfl⟩ := hc
    by_cases hxh : x = h
    · subst hxh
      simp [hx]
    · simp [hxh, Ne.symm hxh]

theorem count_eq : ∀ {cs : List (Call H)} {o : Finset H}, calls o cs = some o' → ∀ h : H,
    cs.count (.opens h) + (if h ∈ o then 1 else 0) =
      cs.count (.closes h) + if h ∈ o' then 1 else 0
  | [], o, hc, h => by
    obtain rfl := Option.some.inj hc
    rfl
  | c :: cs, o, hc, h => by
    rw [calls_cons, Option.bind_eq_some_iff] at hc
    obtain ⟨o₁, hc₁, hcs⟩ := hc
    have hone := count_call hc₁ h
    have hrest := count_eq hcs h
    rw [← List.singleton_append, List.count_append, List.count_append]
    omega

end Handles
