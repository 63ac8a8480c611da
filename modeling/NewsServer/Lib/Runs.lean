import Mathlib

/-!
# Runs of a machine

A machine takes a state and an input to the next state, or to none. A run is the steps it has
taken, each with the state it was taken in, and the state it has reached.

What every step keeps holds of every state of a run (`invariant`). When a step keeps it exactly if
it meets a condition, it holds of every state of a run exactly if every step meets the condition
(`states_iff`).
-/

namespace Runs

variable {σ ι : Type*} (f : σ → ι → Option σ)

/-- The runs from `s₀`. -/
inductive Run (s₀ : σ) : List (σ × ι) → σ → Prop
  | start : Run s₀ [] s₀
  | step {tr : List (σ × ι)} {s s' : σ} {i : ι} :
      Run s₀ tr s → f s i = some s' → Run s₀ (tr ++ [(s, i)]) s'

/-- The states of a run, the one it has reached included. -/
def states (tr : List (σ × ι)) (s : σ) : List σ :=
  tr.map Prod.fst ++ [s]

/-- Feed a list of inputs. -/
def exec (s₀ : σ) (is : List ι) : Option σ :=
  is.foldlM f s₀

variable {f} {s₀ : σ}

theorem states_concat (tr : List (σ × ι)) (s s' : σ) (i : ι) :
    states (tr ++ [(s, i)]) s' = states tr s ++ [s'] := by
  simp [states]

theorem mem_states_self (tr : List (σ × ι)) (s : σ) : s ∈ states tr s := by
  simp [states]

theorem mem_states_of_mem {tr : List (σ × ι)} {q : σ × ι} (hq : q ∈ tr) (s : σ) :
    q.1 ∈ states tr s :=
  List.mem_append_left _ (List.mem_map_of_mem hq)

/-- Every state of a run is reached by a run, whose steps are the first ones of it. -/
theorem Run.of_mem_states {tr : List (σ × ι)} {s : σ} (h : Run f s₀ tr s) :
    ∀ w ∈ states tr s, ∃ tr', tr' <+: tr ∧ Run f s₀ tr' w := by
  induction h with
  | start =>
    intro w hw
    simp only [states, List.map_nil, List.nil_append, List.mem_singleton] at hw
    subst hw
    exact ⟨[], List.prefix_rfl, .start⟩
  | @step tr s s' i h hs ih =>
    intro w hw
    rw [states_concat, List.mem_append, List.mem_singleton] at hw
    rcases hw with hw | rfl
    · obtain ⟨tr', hp, hr⟩ := ih w hw
      exact ⟨tr', hp.trans (List.prefix_append _ _), hr⟩
    · exact ⟨_, List.prefix_rfl, h.step hs⟩

/-- The steps before one of a run are a run to the state it was taken in. -/
theorem Run.of_append {tr₁ tr₂ : List (σ × ι)} {q : σ × ι} {s : σ}
    (h : Run f s₀ (tr₁ ++ q :: tr₂) s) : Run f s₀ tr₁ q.1 := by
  induction tr₂ using List.reverseRecOn generalizing s with
  | nil =>
    generalize htr : tr₁ ++ [q] = tr at h
    cases h with
    | start => simp at htr
    | step h hs =>
      obtain ⟨rfl, hq⟩ := List.append_inj' htr rfl
      rw [List.singleton_inj.1 hq]
      exact h
  | append_singleton tr₂ q' ih =>
    generalize htr : tr₁ ++ q :: (tr₂ ++ [q']) = tr at h
    cases h with
    | start => simp at htr
    | step h hs =>
      rw [← List.cons_append, ← List.append_assoc] at htr
      obtain ⟨rfl, -⟩ := List.append_inj' htr rfl
      exact ih h

theorem Run.exists_next {tr : List (σ × ι)} {s : σ} (h : Run f s₀ tr s) :
    ∀ q ∈ tr, ∃ s', f q.1 q.2 = some s' := by
  induction h with
  | start => simp
  | step _ hs ih =>
    simp only [List.forall_mem_append, List.forall_mem_singleton]
    exact ⟨ih, _, hs⟩

/-- What holds at the start and is kept by every step that meets `C` holds at the end of every run
whose steps meet it. -/
theorem Run.invariant {P : σ → Prop} {C : σ → ι → Prop} (h0 : P s₀)
    (hstep : ∀ s i s', P s → C s i → f s i = some s' → P s') {tr : List (σ × ι)} {s : σ}
    (h : Run f s₀ tr s) (hC : ∀ q ∈ tr, C q.1 q.2) : P s := by
  induction h with
  | start => exact h0
  | step _ hs ih =>
    have hs' := hC _ List.mem_concat_self
    exact hstep _ _ _ (ih fun q hq => hC q (List.mem_append_left _ hq)) hs' hs

/-- A run whose steps all lower a measure, but for what they cost, is no longer than the measure at
its start and the costs. -/
theorem Run.length_add_le {I : σ → Prop} {C : σ → ι → Prop} (μ : σ → ℕ) (cost : σ → ι → ℕ)
    (hI : I s₀) (hIstep : ∀ s i s', I s → f s i = some s' → I s')
    (hdown : ∀ s i s', I s → C s i → f s i = some s' → μ s' < μ s + cost s i)
    {tr : List (σ × ι)} {s : σ} (h : Run f s₀ tr s) (hC : ∀ q ∈ tr, C q.1 q.2) :
    tr.length + μ s ≤ μ s₀ + (tr.map fun q => cost q.1 q.2).sum := by
  have hinv : I s ∧ tr.length + μ s ≤ μ s₀ + (tr.map fun q => cost q.1 q.2).sum := by
    induction h with
    | start => exact ⟨hI, by simp⟩
    | @step tr s s' i h hs ih =>
      obtain ⟨hIs, hle⟩ := ih fun q hq => hC q (List.mem_append_left _ hq)
      have hlt := hdown s i s' hIs (hC _ List.mem_concat_self) hs
      refine ⟨hIstep s i s' hIs hs, ?_⟩
      rw [List.length_append, List.length_singleton, List.map_append, List.sum_append,
        List.map_singleton, List.sum_singleton]
      dsimp only
      omega
  exact hinv.2

theorem Run.always {P : σ → Prop} (h0 : P s₀)
    (hstep : ∀ s i s', P s → f s i = some s' → P s') {tr : List (σ × ι)} {s : σ}
    (h : Run f s₀ tr s) : P s :=
  h.invariant (C := fun _ _ => True) h0 (fun s i s' hP _ hs => hstep s i s' hP hs)
    fun _ _ => trivial

theorem Run.invariant_states {P : σ → Prop} {C : σ → ι → Prop} (h0 : P s₀)
    (hstep : ∀ s i s', P s → C s i → f s i = some s' → P s') {tr : List (σ × ι)} {s : σ}
    (h : Run f s₀ tr s) (hC : ∀ q ∈ tr, C q.1 q.2) : ∀ w ∈ states tr s, P w := by
  intro w hw
  obtain ⟨tr', hp, hr⟩ := h.of_mem_states w hw
  exact hr.invariant h0 hstep fun q hq => hC q (hp.subset hq)

/-- If, where `I` holds, a step into a state where `P` holds has met `C`, and a step that meets `C`
keeps `P`, then `P` holds of every state of a run exactly if every step of it meets `C`. Here `I` is
kept by the steps that meet `E`, and every step of the run does. -/
theorem Run.states_iff_of {I P : σ → Prop} {C E : σ → ι → Prop} (hI : I s₀)
    (hIstep : ∀ s i s', I s → E s i → f s i = some s' → I s') (hP : P s₀)
    (hkeep : ∀ s i s', I s → P s → E s i → C s i → f s i = some s' → P s')
    (hbreak : ∀ s i s', I s → P s → E s i → f s i = some s' → P s' → C s i)
    {tr : List (σ × ι)} {s : σ} (h : Run f s₀ tr s) (hE : ∀ q ∈ tr, E q.1 q.2) :
    (∀ w ∈ states tr s, P w) ↔ ∀ q ∈ tr, C q.1 q.2 := by
  induction h with
  | start => simpa [states] using hP
  | @step tr s s' i h hs ih =>
    rw [List.forall_mem_append, List.forall_mem_singleton] at hE
    have hIs : I s := h.invariant hI hIstep hE.1
    simp only [states_concat, List.forall_mem_append, List.forall_mem_singleton]
    rw [ih hE.1]
    constructor
    · rintro ⟨htr, hP'⟩
      exact ⟨htr, hbreak s i s' hIs ((ih hE.1).2 htr s (mem_states_self tr s)) hE.2 hs hP'⟩
    · rintro ⟨htr, hC⟩
      exact ⟨htr, hkeep s i s' hIs ((ih hE.1).2 htr s (mem_states_self tr s)) hE.2 hC hs⟩

theorem Run.states_iff {I P : σ → Prop} {C : σ → ι → Prop} (hI : I s₀)
    (hIstep : ∀ s i s', I s → f s i = some s' → I s') (hP : P s₀)
    (hkeep : ∀ s i s', I s → P s → C s i → f s i = some s' → P s')
    (hbreak : ∀ s i s', I s → P s → f s i = some s' → P s' → C s i)
    {tr : List (σ × ι)} {s : σ} (h : Run f s₀ tr s) :
    (∀ w ∈ states tr s, P w) ↔ ∀ q ∈ tr, C q.1 q.2 :=
  h.states_iff_of (E := fun _ _ => True) hI (fun s i s' hs _ => hIstep s i s' hs) hP
    (fun s i s' hs hp _ => hkeep s i s' hs hp) (fun s i s' hs hp _ => hbreak s i s' hs hp)
    fun _ _ => trivial

/-- Every step that feeding the inputs takes meets `C`. -/
def Meets (f : σ → ι → Option σ) (C : σ → ι → Prop) : σ → List ι → Prop
  | _, [] => True
  | s, i :: is => C s i ∧ ∀ s' ∈ f s i, Meets f C s' is

instance Meets.decidable (f : σ → ι → Option σ) (C : σ → ι → Prop) [∀ s i, Decidable (C s i)] :
    ∀ (s : σ) (is : List ι), Decidable (Meets f C s is)
  | _, [] => .isTrue trivial
  | _, _ :: is =>
    have : ∀ s', Decidable (Meets f C s' is) := fun s' => Meets.decidable f C s' is
    inferInstanceAs (Decidable (_ ∧ _))

theorem meets_concat {C : σ → ι → Prop} {i : ι} : ∀ {s₀ : σ} {is : List ι},
    Meets f C s₀ (is ++ [i]) → Meets f C s₀ is ∧ ∀ s, exec f s₀ is = some s → C s i
  | s₀, [], h => by
    refine ⟨trivial, fun s hs => ?_⟩
    simp only [exec, List.foldlM_nil, Option.pure_def, Option.some.injEq] at hs
    exact hs ▸ h.1
  | s₀, j :: is, h => by
    obtain ⟨hj, hrest⟩ := h
    refine ⟨⟨hj, fun s' hs' => (meets_concat (hrest s' hs')).1⟩, fun s hs => ?_⟩
    simp only [exec, List.foldlM_cons, Option.bind_eq_bind, Option.bind_eq_some_iff] at hs
    obtain ⟨s', hs', hs⟩ := hs
    exact (meets_concat (hrest s' hs')).2 s hs

theorem exists_run_of_exec_eq {C : σ → ι → Prop} {is : List ι} {s : σ} (h : exec f s₀ is = some s)
    (hC : Meets f C s₀ is) :
    ∃ tr, Run f s₀ tr s ∧ tr.map Prod.snd = is ∧ ∀ q ∈ tr, C q.1 q.2 := by
  induction is using List.reverseRecOn generalizing s with
  | nil =>
    simp only [exec, List.foldlM_nil, Option.pure_def, Option.some.injEq] at h
    exact ⟨[], h ▸ .start, rfl, by simp⟩
  | append_singleton is i ih =>
    obtain ⟨hC, hlast⟩ := meets_concat hC
    unfold Runs.exec at h ih hlast
    rw [List.foldlM_append] at h
    rcases hi : is.foldlM f s₀ with _ | s₁ <;> rw [hi] at h
    · simp at h
    · obtain ⟨tr, hr, rfl, htr⟩ := ih hi hC
      refine ⟨tr ++ [(s₁, i)], hr.step (by simpa using h), by simp, ?_⟩
      simp only [List.forall_mem_append, List.forall_mem_singleton]
      exact ⟨htr, hlast s₁ hi⟩

/-- Feeding inputs whose steps meet `C` is a run whose steps meet it. -/
theorem exists_run_of_meets {C : σ → ι → Prop} {P : σ → Prop} {is : List ι}
    (h : ∃ s ∈ exec f s₀ is, P s) (hC : Meets f C s₀ is) :
    ∃ tr s, Run f s₀ tr s ∧ tr.map Prod.snd = is ∧ (∀ q ∈ tr, C q.1 q.2) ∧ P s := by
  obtain ⟨s, hs, hP⟩ := h
  obtain ⟨tr, hr, htr, hC⟩ := exists_run_of_exec_eq hs hC
  exact ⟨tr, s, hr, htr, hC, hP⟩

theorem meets_true : ∀ (is : List ι) (s : σ), Meets f (fun _ _ => True) s is
  | [], _ => trivial
  | _ :: is, _ => ⟨trivial, fun s' _ => meets_true is s'⟩

/-- Feeding inputs that the machine takes is a run. -/
theorem exists_run_of_exec {P : σ → Prop} {is : List ι} (h : ∃ s ∈ exec f s₀ is, P s) :
    ∃ tr s, Run f s₀ tr s ∧ tr.map Prod.snd = is ∧ P s := by
  obtain ⟨tr, s, hr, htr, -, hP⟩ := exists_run_of_meets h (meets_true is s₀)
  exact ⟨tr, s, hr, htr, hP⟩

theorem exec_cons (s : σ) (i : ι) (is : List ι) :
    exec f s (i :: is) = (f s i).bind fun s' => exec f s' is := by
  rw [exec, List.foldlM_cons]
  rfl

theorem exec_concat (s : σ) (is : List ι) (i : ι) :
    exec f s (is ++ [i]) = (exec f s is).bind fun s' => f s' i := by
  simp only [exec, List.foldlM_append, List.foldlM_cons, List.foldlM_nil, bind_pure]
  rfl

theorem exec_append (s : σ) (is js : List ι) :
    exec f s (is ++ js) = (exec f s is).bind fun s' => exec f s' js := by
  simp only [exec, List.foldlM_append]
  rfl

/-- A machine that keeps the steps it has taken. -/
def record (f : σ → ι → Option σ) (x : List (σ × ι) × σ) (i : ι) : Option (List (σ × ι) × σ) :=
  (f x.2 i).map fun s => (x.1 ++ [(x.2, i)], s)

theorem run_of_record {is : List ι} {x : List (σ × ι) × σ}
    (h : exec (record f) ([], s₀) is = some x) : Run f s₀ x.1 x.2 ∧ x.1.map Prod.snd = is := by
  induction is using List.reverseRecOn generalizing x with
  | nil =>
    obtain rfl := Option.some.inj h
    exact ⟨.start, rfl⟩
  | append_singleton is i ih =>
    rw [exec_concat, Option.bind_eq_some_iff] at h
    obtain ⟨y, hy, hi⟩ := h
    obtain ⟨hr, htr⟩ := ih hy
    obtain ⟨s, hs, rfl⟩ := Option.map_eq_some_iff.1 hi
    exact ⟨hr.step hs, by simp [htr]⟩

/-- What holds of the steps that feeding the inputs takes holds of a run. -/
theorem exists_run_of_record {P : List (σ × ι) → σ → Prop} {is : List ι}
    (h : ∃ x ∈ exec (record f) ([], s₀) is, P x.1 x.2) :
    ∃ tr s, Run f s₀ tr s ∧ tr.map Prod.snd = is ∧ P tr s := by
  obtain ⟨x, hx, hP⟩ := h
  obtain ⟨hr, htr⟩ := run_of_record hx
  exact ⟨x.1, x.2, hr, htr, hP⟩

/-! ## Two machines -/

section Two

variable {τ κ : Type*} {g : τ → κ → Option τ}

/-- Machines in related states, fed related inputs whose steps meet `C` and `D`, stop together, or
end in related states, if a step on related inputs does. -/
theorem exec_rel {R : σ → τ → Prop} {S : ι → κ → Prop} {C : σ → ι → Prop} {D : τ → κ → Prop}
    (hstep : ∀ s t i k, R s t → S i k → C s i → D t k → Option.Rel R (f s i) (g t k)) :
    ∀ {is : List ι} {ks : List κ} {s : σ} {t : τ}, List.Forall₂ S is ks → R s t →
      Meets f C s is → Meets g D t ks → Option.Rel R (exec f s is) (exec g t ks)
  | [], _, s, t, .nil, hR, _, _ => .some hR
  | i :: is, k :: ks, s, t, .cons hi his, hR, hC, hD => by
    have hrel := hstep s t i k hR hi hC.1 hD.1
    rw [exec_cons, exec_cons]
    rcases hf : f s i with _ | s' <;> rcases hg : g t k with _ | t' <;> rw [hf, hg] at hrel
    · exact .none
    · cases hrel
    · cases hrel
    · cases hrel with
      | some hR' => exact exec_rel hstep his hR' (hC.2 s' hf) (hD.2 t' hg)

end Two

end Runs
