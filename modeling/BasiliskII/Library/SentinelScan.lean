import Mathlib.Data.List.Basic

/-!
# Scans that a sentinel stops

A scan goes over the entries of a table from an index on as long as they pass a
test, four at a time and then one at a time. It reads nothing behind the first
entry that does not pass, so a sentinel keeps it inside the table. Reading past
the end is a failure.
-/
namespace SentinelScan

variable {α : Type*} (test : α → Bool) (xs : List α)

/-- The entry at `i` is there and passes. -/
def Passes (i : Nat) : Prop := ∃ x, xs[i]? = some x ∧ test x = true

/-- The entry at `i` is there and does not pass. -/
def Stops (i : Nat) : Prop := ∃ x, xs[i]? = some x ∧ test x = false

/-- Whether the `n` entries from `i` on pass; the first that does not decides. -/
def allFrom (i : Nat) : Nat → Option Bool
  | 0 => some true
  | n + 1 =>
    match xs[i]? with
    | none => none
    | some x => if test x then allFrom (i + 1) n else some false

def skipOne (i : Nat) : Option Nat :=
  if inside : i < xs.length then
    if test xs[i] then skipOne (i + 1) else some i
  else none
termination_by xs.length - i

variable {test xs}

theorem Passes.inside {i : Nat} (passes : Passes test xs i) : i < xs.length := by
  obtain ⟨x, here, _⟩ := passes
  exact (List.getElem?_eq_some_iff.mp here).1

theorem Passes.not_stops {i : Nat} (passes : Passes test xs i) : ¬Stops test xs i := by
  obtain ⟨x, here, pass⟩ := passes
  rintro ⟨y, here', stop⟩
  cases here.symm.trans here'
  rw [pass] at stop
  cases stop

theorem allFrom_true {i n : Nat} (all : allFrom test xs i n = some true) :
    ∀ k, i ≤ k → k < i + n → Passes test xs k := by
  induction n generalizing i with
  | zero =>
    intro k lower upper
    omega
  | succ n ih =>
    intro k lower upper
    simp only [allFrom] at all
    split at all
    · cases all
    next x here =>
      split at all
      next pass =>
        by_cases first : k = i
        · exact first ▸ ⟨x, here, pass⟩
        · exact ih all k (by omega) (by omega)
      · cases all

/-- With a sentinel ahead the test of a row of entries does not fail. -/
theorem allFrom_isSome {i j n : Nat} (ahead : i ≤ j) (stops : Stops test xs j) :
    ∃ all, allFrom test xs i n = some all := by
  induction n generalizing i with
  | zero => exact ⟨true, rfl⟩
  | succ n ih =>
    obtain ⟨y, sentinel, stop⟩ := stops
    have inside := (List.getElem?_eq_some_iff.mp sentinel).1
    have here : xs[i]? = some xs[i] := List.getElem?_eq_getElem (by omega)
    simp only [allFrom, here]
    split
    next pass =>
      have further : i ≠ j := by
        intro same
        subst same
        cases here.symm.trans sentinel
        rw [pass] at stop
        cases stop
      exact ih (by omega)
    · exact ⟨false, rfl⟩

variable (test xs)

def skipFour (i : Nat) : Option Nat :=
  match all : allFrom test xs i 4 with
  | none => none
  | some false => some i
  | some true => skipFour (i + 4)
termination_by xs.length - i
decreasing_by
  have inside := (allFrom_true all i (Nat.le_refl i) (by omega)).inside
  omega

/-- The index of the first entry from `i` on that does not pass. -/
def scan (i : Nat) : Option Nat := (skipFour test xs i).bind (skipOne test xs)

variable {test xs}

theorem skipFour_spec {i j : Nat} (ahead : i ≤ j) (stops : Stops test xs j) :
    ∃ k, skipFour test xs i = some k ∧ i ≤ k ∧ k ≤ j ∧ ∀ l, i ≤ l → l < k → Passes test xs l := by
  induction i using skipFour.induct test xs with
  | case1 i failed =>
    obtain ⟨all, tested⟩ := allFrom_isSome (n := 4) ahead stops
    cases failed.symm.trans tested
  | case2 i differs =>
    refine ⟨i, ?_, Nat.le_refl i, ahead, by omega⟩
    rw [skipFour]
    split <;> simp_all
  | case3 i all ih =>
    have passed := allFrom_true all
    have further : i + 4 ≤ j := by
      by_contra short
      exact (passed j ahead (by omega)).not_stops stops
    obtain ⟨k, rest, lower, upper, before⟩ := ih further
    refine ⟨k, ?_, by omega, upper, fun l from_i below => ?_⟩
    · rw [skipFour]
      split <;> simp_all
    · by_cases early : l < i + 4
      · exact passed l from_i early
      · exact before l (by omega) below

theorem skipOne_spec {i j : Nat} (ahead : i ≤ j) (stops : Stops test xs j) :
    ∃ k, skipOne test xs i = some k ∧ i ≤ k ∧ Stops test xs k ∧
      ∀ l, i ≤ l → l < k → Passes test xs l := by
  induction i using skipOne.induct test xs with
  | case1 i inside pass ih =>
    have here : Passes test xs i := ⟨xs[i], List.getElem?_eq_getElem inside, pass⟩
    have further : i ≠ j := by
      rintro rfl
      exact here.not_stops stops
    obtain ⟨k, rest, lower, stop, before⟩ := ih (by omega)
    refine ⟨k, ?_, by omega, stop, fun l from_i below => ?_⟩
    · rw [skipOne, dif_pos inside, if_pos pass, rest]
    · by_cases first : l = i
      · exact first ▸ here
      · exact before l (by omega) below
  | case2 i inside stop =>
    refine ⟨i, ?_, Nat.le_refl i, ⟨xs[i], List.getElem?_eq_getElem inside, by simpa using stop⟩,
      by omega⟩
    rw [skipOne, dif_pos inside, if_neg stop]
  | case3 i outside =>
    obtain ⟨x, sentinel, _⟩ := stops
    have inside := (List.getElem?_eq_some_iff.mp sentinel).1
    omega

/-- The scan comes to a stop, at the first entry that does not pass. -/
theorem scan_spec {i j : Nat} (ahead : i ≤ j) (stops : Stops test xs j) :
    ∃ k, scan test xs i = some k ∧ i ≤ k ∧ k ≤ j ∧ Stops test xs k ∧
      ∀ l, i ≤ l → l < k → Passes test xs l := by
  obtain ⟨m, fours, lower, upper, before⟩ := skipFour_spec ahead stops
  obtain ⟨k, ones, further, stop, between⟩ := skipOne_spec upper stops
  have passed : ∀ l, i ≤ l → l < k → Passes test xs l := by
    intro l from_i below
    by_cases early : l < m
    · exact before l from_i early
    · exact between l (by omega) below
  refine ⟨k, ?_, by omega, ?_, stop, passed⟩
  · rw [scan, fours, Option.bind_some, ones]
  · by_contra beyond
    exact (passed j ahead (by omega)).not_stops stops

/-- In a text with a sentinel behind it a scan stops where the entries stop to pass. -/
theorem skipOne_append {text : List α} {last : α} (stop : test last = false) {i : Nat}
    (inside : i ≤ text.length) : skipOne test (text ++ [last]) i =
      some (i + ((text.drop i).takeWhile test).length) := by
  rw [skipOne, dif_pos (by rw [List.length_append]; exact Nat.lt_succ_of_le inside)]
  by_cases more : i < text.length
  · rw [List.getElem_append_left more, List.drop_eq_getElem_cons more]
    split
    next pass =>
      have further := skipOne_append stop (show i + 1 ≤ text.length from more)
      rw [List.takeWhile_cons_of_pos pass, further, List.length_cons]
      exact congrArg some (by omega)
    next stops =>
      rw [List.takeWhile_cons_of_neg stops]
      rfl
  · obtain rfl : i = text.length := Nat.le_antisymm inside (Nat.le_of_not_lt more)
    rw [List.getElem_append_right (Nat.le_refl _)]
    simp only [Nat.sub_self, List.getElem_cons_zero]
    rw [if_neg (Bool.eq_false_iff.mp stop), List.drop_length]
    rfl
termination_by text.length - i

end SentinelScan

/-!
## Lists with an end marker

The part of a list up to its first end marker, the marker included; the whole list where there is
none. A search that stops at the marker sees nothing behind it.
-/
namespace EndMarker

variable {α : Type*} (isEnd : α → Bool)

def through : List α → List α
  | [] => []
  | x :: xs => if isEnd x then [x] else x :: through xs

/-- The list has an end marker. -/
def Ended (xs : List α) : Prop := ∃ x ∈ xs, isEnd x = true

instance (xs : List α) : Decidable (Ended isEnd xs) :=
  inferInstanceAs (Decidable (∃ x ∈ xs, isEnd x = true))

variable {isEnd}

theorem not_ended_nil : ¬ Ended isEnd [] := by
  rintro ⟨x, member, _⟩
  cases member

theorem ended_cons (x : α) (xs : List α) :
    Ended isEnd (x :: xs) ↔ isEnd x = true ∨ Ended isEnd xs := by
  simp [Ended]

/-- Only the last one is an end marker. -/
theorem not_end_of_through {xs before after : List α} {x : α}
    (parts : through isEnd xs = before ++ x :: after) :
    (∀ y ∈ before, isEnd y = false) ∧ (after ≠ [] → isEnd x = false) := by
  induction xs generalizing before with
  | nil => simp [through] at parts
  | cons z zs ih =>
    rw [through] at parts
    split at parts
    next last =>
      cases before with
      | nil =>
        obtain ⟨-, rfl⟩ := List.cons.inj parts
        exact ⟨by simp, fun some => absurd rfl some⟩
      | cons y ys =>
        have tail := (List.cons.inj parts).2
        simp at tail
    next goesOn =>
      have goesOn : isEnd z = false := by simpa using goesOn
      cases before with
      | nil =>
        obtain ⟨rfl, _⟩ := List.cons.inj parts
        exact ⟨by simp, fun _ => goesOn⟩
      | cons y ys =>
        obtain ⟨rfl, tail⟩ := List.cons.inj parts
        obtain ⟨others, middle⟩ := ih tail
        refine ⟨fun w member => ?_, middle⟩
        rcases List.mem_cons.mp member with rfl | member
        · exact goesOn
        · exact others w member

/-- A search for something that an end marker counts as looks at the part through it only. -/
theorem find?_through {p : α → Bool} (counts : ∀ x, isEnd x = true → p x = true) (xs : List α) :
    (through isEnd xs).find? p = xs.find? p := by
  induction xs with
  | nil => rfl
  | cons x xs ih =>
    rw [through]
    split
    next last => simp [counts x last]
    next goesOn =>
      simp only [List.find?_cons]
      split
      · rfl
      · exact ih

end EndMarker

/-!
## Pieces of a list between delimiters

A delimiter ends a piece, and the end of the list ends the last one. So a
delimiter at the very end begins no further piece.
-/
namespace Delimited

variable {α : Type} [DecidableEq α]

def pieces (d : α) : List α → List (List α)
  | [] => []
  | b :: bs =>
    if b = d then [] :: pieces d bs
    else
      match pieces d bs with
      | [] => [[b]]
      | head :: tail => (b :: head) :: tail

variable {d : α} {s : List α}

/-- The first piece, and those of the list behind its delimiter. -/
theorem pieces_eq (some_left : s ≠ []) :
    pieces d s =
      s.takeWhile (· ≠ d) :: pieces d (s.drop ((s.takeWhile (· ≠ d)).length + 1)) := by
  induction s with
  | nil => exact absurd rfl some_left
  | cons b bs ih =>
    by_cases delimiter : b = d
    · simp [pieces, delimiter]
    · cases bs with
      | nil => simp [pieces, delimiter]
      | cons c cs =>
        have first : (b :: c :: cs).takeWhile (· ≠ d) = b :: (c :: cs).takeWhile (· ≠ d) :=
          List.takeWhile_cons_of_pos (by simpa using delimiter)
        rw [pieces, if_neg delimiter, ih (List.cons_ne_nil _ _), first]
        rfl

theorem length_pieces_le (d : α) (s : List α) : (pieces d s).length ≤ s.length := by
  induction s with
  | nil => exact Nat.le_refl _
  | cons b bs ih =>
    rw [pieces]
    split
    · exact Nat.succ_le_succ ih
    · split
      · exact Nat.succ_le_succ (Nat.zero_le _)
      next tail equal =>
        rw [equal] at ih
        exact Nat.le_succ_of_le ih

end Delimited
