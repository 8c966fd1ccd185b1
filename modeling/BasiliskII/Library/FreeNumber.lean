import Mathlib.Order.Interval.Finset.Nat

/-!
# Free numbers

The search for the first free number from some number on, and how many numbers below a limit are
free. Whoever takes the number that the search finds leaves one free number less.
-/
namespace FreeNumber

/-- The first free number from `n` on, or `n + fuel` if none of the numbers before it is free. -/
def search (free : Nat → Bool) : Nat → Nat → Nat
  | 0, n => n
  | fuel + 1, n => if free n then n else search free fuel (n + 1)

/-- The free numbers from 1 on that are below the limit. -/
def room (free : Nat → Bool) (limit : Nat) : Nat :=
  ((Finset.Ico 1 limit).filter fun n => free n = true).card

theorem search_spec (free : Nat → Bool) (fuel n : Nat) :
    n ≤ search free fuel n ∧ search free fuel n ≤ n + fuel ∧
      (search free fuel n < n + fuel → free (search free fuel n) = true) ∧
      ∀ k, n ≤ k → k < search free fuel n → free k = false := by
  -- A number that is taken is passed, and the search begins again behind it.
  induction fuel generalizing n with
  | zero =>
    refine ⟨Nat.le_refl _, Nat.le_refl _, fun below => absurd below (Nat.lt_irrefl _), ?_⟩
    intro k above below
    exact absurd below (Nat.not_lt.mpr above)
  | succ fuel ih =>
    rw [search]
    split
    next found =>
      refine ⟨Nat.le_refl _, by omega, fun _ => found, ?_⟩
      intro k above below
      exact absurd below (Nat.not_lt.mpr above)
    next taken =>
      obtain ⟨above, below, found, least⟩ := ih (n + 1)
      refine ⟨by omega, by omega, fun inside => found (by omega), fun k from_n before => ?_⟩
      by_cases first : k = n
      · rw [first]
        simpa using taken
      · exact least k (by omega) before

section
variable (free : Nat → Bool) {limit : Nat} (some_number : 1 ≤ limit)
include some_number

/-- The search ends below the limit iff there is a free number. -/
theorem search_lt_iff : search free (limit - 1) 1 < limit ↔ 0 < room free limit := by
  obtain ⟨above, below, found, least⟩ := search_spec free (limit - 1) 1
  rw [room, Finset.card_pos]
  constructor
  · intro inside
    refine ⟨search free (limit - 1) 1, ?_⟩
    rw [Finset.mem_filter, Finset.mem_Ico]
    exact ⟨⟨above, inside⟩, found (by omega)⟩
  · rintro ⟨n, member⟩
    rw [Finset.mem_filter, Finset.mem_Ico] at member
    obtain ⟨⟨positive, inside⟩, isFree⟩ := member
    by_contra behind
    rw [least n positive (by omega)] at isFree
    cases isFree

/-- Taking the number found leaves one free number less. -/
theorem room_taken (some_room : 0 < room free limit) {free' : Nat → Bool}
    (taken : ∀ n, free' n = true ↔ free n = true ∧ n ≠ search free (limit - 1) 1) :
    room free' limit + 1 = room free limit := by
  have inside := (search_lt_iff free some_number).mpr some_room
  obtain ⟨above, _, found, _⟩ := search_spec free (limit - 1) 1
  have member : search free (limit - 1) 1 ∈
      (Finset.Ico 1 limit).filter fun n => free n = true := by
    rw [Finset.mem_filter, Finset.mem_Ico]
    exact ⟨⟨above, inside⟩, found (by omega)⟩
  have erased : (Finset.Ico 1 limit).filter (fun n => free' n = true) =
      ((Finset.Ico 1 limit).filter fun n => free n = true).erase (search free (limit - 1) 1) := by
    ext n
    simp only [Finset.mem_filter, Finset.mem_erase, taken]
    grind
  rw [room, room, erased, Finset.card_erase_add_one member]

end

end FreeNumber
