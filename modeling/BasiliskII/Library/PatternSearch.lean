import Mathlib.Order.Bounds.Basic

/-!
# Looking for a pattern in a text

A pattern occurs where all of it stands in the text. A comparison that would
leave the text fails, and so does the scan that makes it. As long as no
comparison fails, a scan over a range of places ends at the least of them where
its test holds.
-/
namespace PatternSearch

variable {α : Type*} {text pattern : List α} {i : Nat}

/-- The pattern stands at `i`, from its first entry to its last. -/
def OccursAt (text pattern : List α) (i : Nat) : Prop :=
  i + pattern.length ≤ text.length ∧ (text.drop i).take pattern.length = pattern

instance [DecidableEq α] (text pattern : List α) (i : Nat) : Decidable (OccursAt text pattern i) :=
  inferInstanceAs (Decidable (_ ∧ _))

/-- Compare the pattern with the text at a place, which may lie in front of the text. -/
def compare [DecidableEq α] (text pattern : List α) (place : Int) : Option Bool :=
  if 0 ≤ place ∧ place + pattern.length ≤ text.length then
    some ((text.drop place.toNat).take pattern.length = pattern)
  else none

/-- Test the places from `i` on, until one passes or all of them have been tested. -/
def scan (test : Nat → Option Bool) : Nat → Nat → Option (Option Nat)
  | 0, _ => some none
  | rounds + 1, i =>
    match test i with
    | none => none
    | some true => some (some i)
    | some false => scan test rounds (i + 1)

theorem compare_inside [DecidableEq α] (inside : i + pattern.length ≤ text.length) :
    compare text pattern i = some (decide (OccursAt text pattern i)) := by
  rw [compare, if_pos (by omega), Int.toNat_natCast]
  simp only [OccursAt, inside, true_and]

theorem compare_outside [DecidableEq α] {place : Int}
    (outside : place < 0 ∨ (text.length : Int) < place + pattern.length) :
    compare text pattern place = none :=
  if_neg (by omega)

theorem scan_fails {test : Nat → Option Bool} {rounds : Nat} (some_left : 0 < rounds)
    (fails : test i = none) : scan test rounds i = none := by
  cases rounds with
  | zero => omega
  | succ rounds => simp only [scan, fails]

/-- A scan none of whose tests fails ends at the least place that passes, or at none. -/
theorem scan_spec {P : Nat → Prop} [DecidablePred P] {test : Nat → Option Bool} {rounds : Nat}
    (tests : ∀ j, i ≤ j → j < i + rounds → test j = some (decide (P j))) :
    (∃ k, scan test rounds i = some (some k) ∧ k < i + rounds ∧ IsLeast {j | i ≤ j ∧ P j} k) ∨
      (scan test rounds i = some none ∧ ∀ j, i ≤ j → j < i + rounds → ¬ P j) := by
  -- Induction on the rounds left; the places before `i` are no concern of the rest.
  induction rounds generalizing i with
  | zero => exact .inr ⟨rfl, fun j low high => absurd high (by omega)⟩
  | succ rounds ih =>
    have here := tests i (Nat.le_refl i) (by omega)
    by_cases passes : P i
    · left
      refine ⟨i, by simp [scan, here, passes], by omega, ⟨Nat.le_refl i, passes⟩, ?_⟩
      exact fun j member => member.1
    · have step : scan test (rounds + 1) i = scan test rounds (i + 1) := by
        simp [scan, here, passes]
      have later : ∀ {j}, i ≤ j → P j → i + 1 ≤ j := by
        intro j low holds
        rcases Nat.lt_or_eq_of_le low with after | rfl
        · exact after
        · exact absurd holds passes
      rw [step]
      have rest := ih (i := i + 1) fun j low high => tests j (by omega) (by omega)
      rcases rest with ⟨k, found, below, ⟨low, holds⟩, least⟩ | ⟨missed, nowhere⟩
      · refine .inl ⟨k, found, by omega, ⟨by omega, holds⟩, ?_⟩
        exact fun j member => least ⟨later member.1 member.2, member.2⟩
      · exact .inr ⟨missed, fun j low high holds =>
          nowhere j (later low holds) (by omega) holds⟩

end PatternSearch
