import NewsServer.Lib.Runs

/-!
# Registers and their histories

A machine keeps a value for each key. If a step writes at most one key, and leaves the values of the
others, then what is kept for a key is what was last written to it (`Run.read_eq`).
-/

namespace Registers

variable {κ α : Type*} [DecidableEq κ]

/-- The value that was last written to a key. -/
def lastWrite (key : κ) (writes : List (κ × α)) : Option α :=
  (writes.reverse.find? (·.1 = key)).map Prod.snd

@[simp] theorem lastWrite_nil (key : κ) : lastWrite key ([] : List (κ × α)) = none := rfl

theorem lastWrite_concat (key : κ) (writes : List (κ × α)) (w : κ × α) :
    lastWrite key (writes ++ [w]) = if w.1 = key then some w.2 else lastWrite key writes := by
  rw [lastWrite, List.reverse_concat, List.find?_cons]
  by_cases h : w.1 = key
  · simp [h]
  · simp [h, lastWrite]

/-- In a run of a machine whose steps write at most one key each, what is read of a key is what was
last written to it. -/
theorem Run.read_eq {σ ι β : Type*} {f : σ → ι → Option σ} {s₀ : σ} {I : σ → Prop}
    (read : σ → κ → β) (write : σ → ι → Option (κ × α)) (value : Option α → β)
    (hI : I s₀) (hIstep : ∀ s i s', I s → f s i = some s' → I s')
    (h0 : ∀ key, read s₀ key = value none)
    (hkeep : ∀ s i s', I s → f s i = some s' → write s i = none → ∀ key, read s' key = read s key)
    (hwrite : ∀ s i s' w, I s → f s i = some s' → write s i = some w → ∀ key,
      read s' key = if w.1 = key then value (some w.2) else read s key)
    {tr : List (σ × ι)} {s : σ} (h : Runs.Run f s₀ tr s) (key : κ) :
    read s key = value (lastWrite key (tr.filterMap fun q => write q.1 q.2)) := by
  induction h with
  | start => exact h0 key
  | @step tr s s' i hr hs ih =>
    have hIs : I s := hr.always hI hIstep
    rw [List.filterMap_append, List.filterMap_cons, List.filterMap_nil]
    rcases hw : write s i with _ | w
    · rw [List.append_nil, hkeep s i s' hIs hs hw, ih]
    · rw [lastWrite_concat, hwrite s i s' w hIs hs hw, ih]
      split_ifs <;> rfl

end Registers
