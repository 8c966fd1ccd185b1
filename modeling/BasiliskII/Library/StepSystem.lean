import Mathlib.Data.List.Basic

/-!
# Runs of a labelled step function

A step function says what a label does to a state, or that the label is not
enabled there. A guard restricts the steps a run may take. The one induction
principle of this file is `Run.invariant`: what every guarded step preserves,
every guarded run preserves.
-/
namespace StepSystem

variable {σ τ ℓ : Type*}

/-- The runs of `step` all of whose steps meet `guard`. -/
inductive Run (step : σ → ℓ → Option σ) (guard : σ → ℓ → Prop) : σ → List ℓ → σ → Prop
  | done (s : σ) : Run step guard s [] s
  | next {s t u : σ} {l : ℓ} {ls : List ℓ} :
      guard s l → step s l = some t → Run step guard t ls u → Run step guard s (l :: ls) u

/-- Any run at all. -/
def Free (_ : σ) (_ : ℓ) : Prop := True

/-- A state some guarded run reaches. -/
def Reachable (step : σ → ℓ → Option σ) (guard : σ → ℓ → Prop) (start s : σ) : Prop :=
  ∃ ls, Run step guard start ls s

variable {step : σ → ℓ → Option σ} {guard : σ → ℓ → Prop} {ls : List ℓ}

/-- A property every guarded step preserves holds at the end of every guarded run. -/
theorem Run.invariant {P : σ → Prop}
    (preserved : ∀ s l t, P s → guard s l → step s l = some t → P t) {s t : σ}
    (run : Run step guard s ls t) (initial : P s) : P t := by
  induction run with
  | done => exact initial
  | next allowed taken _ ih => exact ih (preserved _ _ _ initial allowed taken)

theorem Reachable.invariant {P : σ → Prop} {start s : σ}
    (reached : Reachable step guard start s) (initial : P start)
    (preserved : ∀ s l t, P s → guard s l → step s l = some t → P t) : P s := by
  obtain ⟨ls, run⟩ := reached
  exact run.invariant preserved initial

/-- A weaker guard has more runs. -/
theorem Reachable.weaken {guard' : σ → ℓ → Prop} {start s : σ}
    (reached : Reachable step guard start s) (weaker : ∀ s l, guard s l → guard' s l) :
    Reachable step guard' start s := by
  obtain ⟨ls, run⟩ := reached
  refine ⟨ls, ?_⟩
  induction run with
  | done => exact .done _
  | next allowed taken _ ih => exact .next (weaker _ _ allowed) taken ih

/-- Two guards that allow the same steps where an invariant holds have the same runs from there. -/
theorem Run.guard_congr {Inv : σ → Prop} {guard' : σ → ℓ → Prop}
    (preserved : ∀ s l t, Inv s → guard s l → step s l = some t → Inv t)
    (same : ∀ s l t, Inv s → step s l = some t → (guard s l ↔ guard' s l)) {s t : σ}
    (initial : Inv s) : Run step guard s ls t ↔ Run step guard' s ls t := by
  constructor
  · intro run
    induction run with
    | done => exact .done _
    | next allowed taken _ ih =>
      exact .next ((same _ _ _ initial taken).mp allowed) taken
        (ih (preserved _ _ _ initial allowed taken))
  · intro run
    induction run with
    | done => exact .done _
    | next allowed taken _ ih =>
      have allowed := (same _ _ _ initial taken).mpr allowed
      exact .next allowed taken (ih (preserved _ _ _ initial allowed taken))

/-- Where only a guarded step keeps a state good, a run meets the guard exactly when every
state it passes through is good. -/
theorem Run.guarded_iff {Inv Good : σ → Prop}
    (preserved : ∀ s l t, Inv s → guard s l → step s l = some t → Inv t)
    (good : ∀ s, Inv s → Good s) (forced : ∀ s l t, Inv s → step s l = some t → Good t → guard s l)
    {s t : σ} (initial : Inv s) (run : Run step Free s ls t) :
    Run step guard s ls t ↔ ∀ ms u, ms <+: ls → Run step Free s ms u → Good u := by
  constructor
  · intro guarded
    induction guarded with
    | done =>
      intro ms u part taken
      cases List.prefix_nil.mp part
      cases taken
      exact good _ initial
    | @next s t u l ls allowed taken rest ih =>
      intro ms v part run'
      cases run with
      | next _ taken' rest' =>
        cases taken.symm.trans taken'
        cases run' with
        | done => exact good _ initial
        | next _ first further =>
          obtain ⟨same, part'⟩ := List.cons_prefix_cons.mp part
          subst same
          cases taken.symm.trans first
          exact ih (preserved _ _ _ initial allowed taken) rest' _ v part' further
  · intro allGood
    induction run with
    | done => exact .done _
    | @next s t u l ls _ taken rest ih =>
      have first : Good t := allGood [l] t (by simp) (.next trivial taken (.done t))
      have allowed : guard s l := forced _ _ _ initial taken first
      refine .next allowed taken (ih (preserved _ _ _ initial allowed taken) ?_)
      intro ms v part run'
      exact allGood (l :: ms) v (by simpa using part) (.next trivial taken run')

/-- Execute a list of labels; `none` when one of them is not enabled. -/
def exec (step : σ → ℓ → Option σ) : σ → List ℓ → Option σ
  | s, [] => some s
  | s, l :: ls => (step s l).bind fun t => exec step t ls

theorem exec_append (s : σ) (ls ms : List ℓ) :
    exec step s (ls ++ ms) = (exec step s ls).bind fun t => exec step t ms := by
  induction ls generalizing s with
  | nil => rfl
  | cons l ls ih =>
    simp only [List.cons_append, exec]
    cases step s l with
    | none => rfl
    | some t => exact ih t

/-- The execution of labels that the guard allows anywhere is a run. -/
theorem run_of_exec_allowed {s t : σ} (executed : exec step s ls = some t)
    (allowed : ∀ l ∈ ls, ∀ u, guard u l) : Run step guard s ls t := by
  induction ls generalizing s with
  | nil =>
    cases executed
    exact .done _
  | cons l ls ih =>
    obtain ⟨u, taken, rest⟩ := Option.bind_eq_some_iff.mp executed
    exact .next (allowed l (.head _) s) taken (ih rest fun m member => allowed m (.tail _ member))

/-- Execution decides the unguarded runs. -/
theorem run_of_exec {s t : σ} (executed : exec step s ls = some t) : Run step Free s ls t :=
  run_of_exec_allowed executed fun _ _ _ => trivial

/-- Execution that stops at the first step the guard does not allow. -/
def guarded (step : σ → ℓ → Option σ) (guard : σ → ℓ → Prop) [∀ s l, Decidable (guard s l)]
    (s : σ) (l : ℓ) : Option σ :=
  if guard s l then step s l else none

theorem run_of_guarded_exec [∀ s l, Decidable (guard s l)] {s t : σ}
    (executed : exec (guarded step guard) s ls = some t) : Run step guard s ls t := by
  induction ls generalizing s with
  | nil =>
    cases executed
    exact .done _
  | cons l ls ih =>
    obtain ⟨u, taken, rest⟩ := Option.bind_eq_some_iff.mp executed
    unfold guarded at taken
    split at taken
    next allowed => exact .next allowed taken (ih rest)
    · cases taken

end StepSystem
