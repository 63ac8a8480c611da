import Mathlib

/-!
# Loops

A round of a loop goes to the next state, leaves the loop with a result, or fails. `Heads` are the
states in which rounds begin, and `Ends` says that after finitely many rounds, none of which fails,
the loop is left with a result.

A loop whose rounds keep an invariant, do not fail under it and go down in a well-founded order
ends (`exists_ends`). What it ends with is proved from the last round backwards (`Ends.post`).
-/

namespace Loops

variable {σ ρ : Type*} {body : σ → Option (σ ⊕ ρ)}

/-- The states in which a round begins. -/
def Heads (body : σ → Option (σ ⊕ ρ)) : σ → σ → Prop :=
  Relation.ReflTransGen fun s s' => body s = some (.inl s')

/-- The loop ends with a result, and no round fails. -/
inductive Ends (body : σ → Option (σ ⊕ ρ)) : σ → ρ → Prop
  | stop {s : σ} {r : ρ} (h : body s = some (.inr r)) : Ends body s r
  | round {s s' : σ} {r : ρ} (h : body s = some (.inl s')) (hr : Ends body s' r) : Ends body s r

section Invariant

variable {I : σ → Prop} (hI : ∀ s s', I s → body s = some (.inl s') → I s')
include hI

theorem Heads.invariant {s₀ s : σ} (h : Heads body s₀ s) (h0 : I s₀) : I s := by
  induction h with
  | refl => exact h0
  | tail _ hs ih => exact hI _ _ ih hs

/-- A loop that goes down ends. -/
theorem exists_ends {α : Type*} [Preorder α] [WellFoundedLT α] (μ : σ → α)
    (hsafe : ∀ s, I s → body s ≠ none)
    (hdown : ∀ s s', I s → body s = some (.inl s') → μ s' < μ s) {s : σ} (h : I s) :
    ∃ r, Ends body s r := by
  induction s using (InvImage.wf μ wellFounded_lt).induction with
  | _ s ih =>
    rcases hs : body s with _ | s' | r
    · exact absurd hs (hsafe s h)
    · obtain ⟨r, hr⟩ := ih s' (hdown s s' h hs) (hI s s' h hs)
      exact ⟨r, .round hs hr⟩
    · exact ⟨r, .stop hs⟩

/-- What holds where the loop is left, and before a round if it holds after it, holds of where the
loop began. -/
theorem Ends.post {Q : σ → ρ → Prop} (hstop : ∀ s r, I s → body s = some (.inr r) → Q s r)
    (hround : ∀ s s' r, I s → body s = some (.inl s') → Q s' r → Q s r) {s : σ} {r : ρ}
    (h : Ends body s r) (h0 : I s) : Q s r := by
  induction h with
  | stop hs => exact hstop _ _ h0 hs
  | round hs _ ih => exact hround _ _ _ h0 hs (ih (hI _ _ h0 hs))

end Invariant

end Loops
