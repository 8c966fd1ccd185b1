import Mathlib.Data.List.Basic
import Mathlib.Logic.Function.Iterate

/-!
# A cursor along a chain of links

A walk goes from place to place by their links. It stops at the first place
that passes a test, or behind a place with a null link, and never looks whether
the place it begins at is null. Repeated walks keep a cursor and begin behind
it. They list the places of a chain that pass, and then go on from the null
place: `yields_iff_quiet` says when nothing comes of that.
-/
namespace LinkCursor

variable {α β : Type*} (next : α → α) (null : α) (test : α → Prop) (value : α → β) (zero : β)

/-- The places from a link to the null link. -/
inductive Chain : α → List α → Prop
  | null : Chain null []
  | place {p : α} {ps : List α} : p ≠ null → Chain (next p) ps → Chain p (p :: ps)

/-- A walk from a place ends at a place that passes, or at none. -/
inductive Walks : α → Option α → Prop
  | found {p : α} : test p → Walks p (some p)
  | ended {p : α} : ¬ test p → next p = null → Walks p none
  | onward {p : α} {r : Option α} : ¬ test p → next p ≠ null → Walks (next p) r → Walks p r

/-- Where the next walk begins. -/
def behind (r : Option α) : α := next (r.getD null)

/-- The results of one walk after the other, the first from a given place. -/
inductive Results : α → List (Option α) → Prop
  | nil (p : α) : Results p []
  | cons {p : α} {r : Option α} {rs : List (Option α)} :
      Walks next null test p r → Results (behind next null r) rs → Results p (r :: rs)

def answer (r : Option α) : β := r.elim zero value

/-- The walks answer with these values, and with zero ever after. -/
def Yields (p : α) (vs : List β) : Prop :=
  ∀ n, ∃ rs, Results next null test p rs ∧
    rs.map (answer value zero) = (vs ++ List.replicate n zero).take n

variable {next null test value zero} {p : α}

theorem Walks.unique {r r' : Option α} (walks : Walks next null test p r)
    (again : Walks next null test p r') : r = r' := by
  induction walks with
  | found pass =>
    cases again with
    | found => rfl
    | ended fail => exact absurd pass fail
    | onward fail => exact absurd pass fail
  | ended fail last =>
    cases again with
    | found pass => exact absurd pass fail
    | ended => rfl
    | onward _ linked => exact absurd last linked
  | onward fail linked _ ih =>
    cases again with
    | found pass => exact absurd pass fail
    | ended _ last => exact absurd last linked
    | onward _ _ rest => exact ih rest

theorem walks_onward_iff {r : Option α} (fail : ¬ test p) (linked : next p ≠ null) :
    Walks next null test p r ↔ Walks next null test (next p) r := by
  constructor
  · intro walks
    cases walks with
    | found pass => exact absurd pass fail
    | ended _ last => exact absurd last linked
    | onward _ _ rest => exact rest
  · exact fun rest => .onward fail linked rest

variable {vs : List β}

/-- The first walk answers with the first value, and the others with the rest. -/
theorem yields_iff :
    Yields next null test value zero p vs ↔
      ∃ r, Walks next null test p r ∧ answer value zero r = vs.headD zero ∧
        Yields next null test value zero (behind next null r) vs.tail := by
  have first : ∀ n, (vs ++ List.replicate (n + 1) zero).take (n + 1) =
      vs.headD zero :: (vs.tail ++ List.replicate n zero).take n := by
    intro n
    cases vs with
    | nil => simp [List.replicate_succ]
    | cons v vs =>
      simp only [List.cons_append, List.take_succ_cons, List.headD_cons, List.tail_cons]
      rw [List.replicate_succ', ← List.append_assoc, List.take_append_of_le_length (by simp)]
  constructor
  · intro yields
    -- One call shows what the first walk answers; all longer runs begin with the same walk.
    obtain ⟨rs, results, answers⟩ := yields 1
    rw [first 0] at answers
    cases results with
    | nil => cases answers
    | @cons _ r _ walks _ =>
      refine ⟨r, walks, (List.cons.inj answers).1, fun n => ?_⟩
      obtain ⟨rs', results', answers'⟩ := yields (n + 1)
      rw [first n] at answers'
      cases results' with
      | nil => cases answers'
      | cons walks' rest =>
        cases walks.unique walks'
        exact ⟨_, rest, (List.cons.inj answers').2⟩
  · rintro ⟨r, walks, value_first, rest⟩ n
    cases n with
    | zero => exact ⟨[], .nil p, rfl⟩
    | succ n =>
      obtain ⟨rs, results, answers⟩ := rest n
      refine ⟨r :: rs, .cons walks results, ?_⟩
      rw [first n, List.map_cons, value_first, answers]

theorem yields_onward_iff (fail : ¬ test p) (linked : next p ≠ null) :
    Yields next null test value zero p vs ↔ Yields next null test value zero (next p) vs := by
  rw [yields_iff, yields_iff]
  simp only [walks_onward_iff fail linked]

theorem yields_found_iff (pass : test p) :
    Yields next null test value zero p vs ↔
      value p = vs.headD zero ∧ Yields next null test value zero (next p) vs.tail := by
  rw [yields_iff]
  constructor
  · rintro ⟨r, walks, first, rest⟩
    cases walks.unique (.found pass)
    exact ⟨first, rest⟩
  · rintro ⟨first, rest⟩
    exact ⟨some p, .found pass, first, rest⟩

theorem yields_ended_iff (fail : ¬ test p) (last : next p = null) :
    Yields next null test value zero p vs ↔
      zero = vs.headD zero ∧ Yields next null test value zero (next null) vs.tail := by
  rw [yields_iff]
  constructor
  · rintro ⟨r, walks, first, rest⟩
    cases walks.unique (.ended fail last)
    exact ⟨first, rest⟩
  · rintro ⟨first, rest⟩
    exact ⟨none, .ended fail last, first, rest⟩

/-! ### Behind the chain -/

section Behind

variable [DecidableEq α] [DecidablePred test] (next null test value zero)

/-- The place looked at after this one, by the same walk or the next. -/
def lookedAfter (p : α) : α := if ¬ test p ∧ next p = null then next null else next p

/-- A walk stops at the place. -/
def Stops (p : α) : Prop := test p ∨ next p = null

/-- Of the places that are looked at from `p` on none has a value to answer with, and walks stop at
them again and again. -/
structure Quiet (p : α) : Prop where
  silent : ∀ n, test ((lookedAfter next null test)^[n] p) →
    value ((lookedAfter next null test)^[n] p) = zero
  stops : ∀ n, ∃ k, Stops next null test ((lookedAfter next null test)^[n + k] p)

variable {next null test value zero} {p : α}

theorem Quiet.later (quiet : Quiet next null test value zero p) :
    Quiet next null test value zero (lookedAfter next null test p) := by
  constructor
  · intro n
    have silent := quiet.silent (n + 1)
    rwa [Function.iterate_succ_apply] at silent
  · intro n
    obtain ⟨k, stop⟩ := quiet.stops (n + 1)
    refine ⟨k, ?_⟩
    rw [← Function.iterate_succ_apply]
    rwa [show (n + k).succ = n + 1 + k by omega]

theorem lookedAfter_found (pass : test p) : lookedAfter next null test p = next p :=
  if_neg fun fail => fail.1 pass

theorem lookedAfter_ended (fail : ¬ test p) (last : next p = null) :
    lookedAfter next null test p = next null :=
  if_pos ⟨fail, last⟩

theorem lookedAfter_onward (linked : next p ≠ null) : lookedAfter next null test p = next p :=
  if_neg fun ended => linked ended.2

/-- Nothing comes of the walks from `p` on if nothing comes of the first place, and of the rest. -/
theorem yields_nil_iff :
    Yields next null test value zero p [] ↔
      (test p → value p = zero) ∧
        Yields next null test value zero (lookedAfter next null test p) [] := by
  by_cases pass : test p
  · rw [yields_found_iff pass, lookedAfter_found pass]
    simp only [pass, true_imp_iff, List.headD_nil, List.tail_nil]
  · by_cases last : next p = null
    · rw [yields_ended_iff pass last, lookedAfter_ended pass last]
      simp only [pass, false_imp_iff, List.headD_nil, List.tail_nil]
    · rw [yields_onward_iff pass last, lookedAfter_onward last]
      simp only [pass, false_imp_iff, true_and]

theorem Walks.stops {r : Option α} (walks : Walks next null test p r) :
    ∃ k, Stops next null test ((lookedAfter next null test)^[k] p) := by
  induction walks with
  | found pass => exact ⟨0, .inl pass⟩
  | ended _ last => exact ⟨0, .inr last⟩
  | @onward p _ _ linked _ ih =>
    obtain ⟨k, stop⟩ := ih
    refine ⟨k + 1, ?_⟩
    rwa [Function.iterate_succ_apply, lookedAfter_onward linked]

theorem Quiet.walks_here (quiet : Quiet next null test value zero p) (stop : Stops next null test p) :
    ∃ r, Walks next null test p r ∧ answer value zero r = zero ∧
      Quiet next null test value zero (behind next null r) := by
  have later := quiet.later
  by_cases pass : test p
  · rw [lookedAfter_found pass] at later
    exact ⟨some p, .found pass, quiet.silent 0 pass, later⟩
  · have last : next p = null := stop.resolve_left pass
    rw [lookedAfter_ended pass last] at later
    exact ⟨none, .ended pass last, rfl, later⟩

/-- From a quiet place the next walk comes to an end, finds nothing, and leaves a quiet place. -/
theorem Quiet.walks (quiet : Quiet next null test value zero p) :
    ∃ r, Walks next null test p r ∧ answer value zero r = zero ∧
      Quiet next null test value zero (behind next null r) := by
  obtain ⟨k, stop⟩ := quiet.stops 0
  rw [Nat.zero_add] at stop
  -- Induction on how far the place is where the walk stops.
  induction k generalizing p with
  | zero => exact quiet.walks_here stop
  | succ k ih =>
    by_cases here : Stops next null test p
    · exact quiet.walks_here here
    · obtain ⟨fail, linked⟩ := not_or.mp here
      have later := quiet.later
      rw [Function.iterate_succ_apply] at stop
      rw [lookedAfter_onward linked] at stop later
      obtain ⟨r, walks, nothing, rest⟩ := ih later stop
      exact ⟨r, .onward fail linked walks, nothing, rest⟩

theorem yields_nil_iff_quiet :
    Yields next null test value zero p [] ↔ Quiet next null test value zero p := by
  constructor
  · intro yields
    -- Nothing comes of any place that is looked at later.
    have all : ∀ n, Yields next null test value zero ((lookedAfter next null test)^[n] p) [] := by
      intro n
      induction n with
      | zero => exact yields
      | succ n ih =>
        rw [Function.iterate_succ_apply']
        exact (yields_nil_iff.mp ih).2
    constructor
    · exact fun n => (yields_nil_iff.mp (all n)).1
    · intro n
      obtain ⟨r, walks, -⟩ := yields_iff.mp (all n)
      obtain ⟨k, stop⟩ := walks.stops
      refine ⟨k, ?_⟩
      rwa [Nat.add_comm, Function.iterate_add_apply]
  · intro quiet n
    induction n generalizing p with
    | zero => exact ⟨[], .nil p, rfl⟩
    | succ n ih =>
      obtain ⟨r, walks, nothing, rest⟩ := quiet.walks
      obtain ⟨rs, results, answers⟩ := ih rest
      refine ⟨r :: rs, .cons walks results, ?_⟩
      rw [List.map_cons, nothing, answers]
      simp [List.replicate_succ]

variable (next null test)

/-- The place the walks go on from when the chain is at its end: the null place itself if the last
place passes, or if there is none, and else what the null place links to. -/
def overrun (ps : List α) : α :=
  if ∀ p ∈ ps.getLast?, test p then null else next null

variable {next null test}

omit [DecidableEq α] in
theorem overrun_cons {ps : List α} (more : ps ≠ []) :
    overrun next null test (p :: ps) = overrun next null test ps := by
  rw [overrun, overrun, List.getLast?_cons, List.getLast?_eq_some_getLast more]
  rfl

/-- The walks list the places of a chain that pass, and then nothing, exactly if the place they go
on from is quiet. -/
theorem yields_iff_quiet {ps : List α} (chain : Chain next null p ps) :
    Yields next null test value zero p ((ps.filter fun q => test q).map value) ↔
      Quiet next null test value zero (overrun next null test ps) := by
  -- Induction on the chain; a place is passed over, found, or the last.
  induction chain with
  | null =>
    rw [List.filter_nil, List.map_nil, yields_nil_iff_quiet]
    simp [overrun]
  | @place p ps here chain ih =>
    cases ps with
    | nil =>
      have last : next p = null := by
        cases chain
        rfl
      by_cases pass : test p
      · rw [yields_found_iff pass, last]
        simp [pass, overrun, yields_nil_iff_quiet]
      · rw [yields_ended_iff pass last]
        simp [pass, overrun, yields_nil_iff_quiet]
    | cons q qs =>
      rw [overrun_cons (List.cons_ne_nil q qs), ← ih]
      by_cases pass : test p
      · rw [yields_found_iff pass]
        simp [pass]
      · have linked : next p ≠ null := by
          cases chain
          assumption
        rw [yields_onward_iff pass linked, List.filter_cons_of_neg (by simpa using pass)]

end Behind

end LinkCursor
