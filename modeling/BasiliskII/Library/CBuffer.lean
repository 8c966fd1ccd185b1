import Mathlib.Data.List.GetD
import Mathlib.Logic.Function.Basic

/-!
# Zero-terminated strings in a buffer

A buffer is read by index, and nothing but a zero byte ends a string in it.
The lemmas say where a string stands, how far a scan runs over it, and what is
left of it when a byte is overwritten by the terminator.
-/
namespace CBuffer

abbrev Buffer := Nat → UInt8

/-- The first index from `p` on whose byte fails the test; `p + n` after `n` that pass it. The
scan reads every byte up to its result. -/
def scan (test : UInt8 → Bool) (b : Buffer) : Nat → Nat → Nat
  | 0, p => p
  | n + 1, p => if test (b p) then scan test b n (p + 1) else p

/-- The string `s` and its terminator stand at `p`. -/
def Holds (b : Buffer) (p : Nat) (s : List UInt8) : Prop := ∀ i ≤ s.length, b (p + i) = s.getD i 0

/-- The bytes from `p` on up to the next zero, at most `n` of them. -/
def stringAt (b : Buffer) (n p : Nat) : List UInt8 :=
  (List.range (scan (· ≠ 0) b n p - p)).map fun i => b (p + i)

variable {b : Buffer} {test : UInt8 → Bool} {p n : Nat} {s t : List UInt8}

theorem scan_le (test : UInt8 → Bool) (b : Buffer) (n p : Nat) : scan test b n p ≤ p + n := by
  induction n generalizing p with
  | zero => exact Nat.le_refl _
  | succ n ih =>
    rw [scan]
    split
    · have := ih (p + 1)
      omega
    · exact Nat.le_add_right _ _

theorem le_scan {q : Nat} (passes : ∀ i, p ≤ i → i < q → test (b i)) (within : q ≤ p + n) :
    q ≤ scan test b n p := by
  induction n generalizing p with
  | zero => exact within
  | succ n ih =>
    rw [scan]
    by_cases here : p < q
    · rw [if_pos (passes p (Nat.le_refl _) here)]
      exact ih (fun i low high => passes i (by omega) high) (by omega)
    · have := scan_le test b n (p + 1)
      split
      · exact ih (fun i low high => absurd high (by omega)) (by omega)
      · omega

theorem scan_eq {q : Nat} (behind : p ≤ q) (passes : ∀ i, p ≤ i → i < q → test (b i))
    (stops : test (b q) = false) (within : q < p + n) : scan test b n p = q := by
  induction n generalizing p with
  | zero => omega
  | succ n ih =>
    rw [scan]
    rcases Nat.eq_or_lt_of_le behind with rfl | later
    · rw [if_neg (by simp [stops])]
    · rw [if_pos (passes p (Nat.le_refl _) later)]
      exact ih later (fun i low high => passes i (by omega) high) (by omega)

theorem Holds.append (holds : Holds b p (s ++ t)) : Holds b (p + s.length) t := by
  intro i inside
  have := holds (s.length + i) (by simpa using inside)
  rwa [← Nat.add_assoc, List.getD_append_right _ _ _ _ (Nat.le_add_right _ _),
    Nat.add_sub_cancel_left] at this

theorem Holds.getElem (holds : Holds b p s) {i : Nat} (inside : i < s.length) :
    b (p + i) = s[i] := by
  rw [holds i (Nat.le_of_lt inside), List.getD_eq_getElem _ _ inside]

theorem Holds.end_zero (holds : Holds b p s) : b (p + s.length) = 0 := by
  rw [holds _ (Nat.le_refl _), List.getD_eq_default _ _ (Nat.le_refl _)]

theorem Holds.of_zero (holds : Holds b p (s ++ 0 :: t)) : Holds b p s := by
  intro i inside
  rw [holds i (by simp; omega)]
  rcases Nat.eq_or_lt_of_le inside with rfl | before
  · simp
  · rw [List.getD_append _ _ _ _ before]

/-- A string ends at its first zero. -/
theorem Holds.text (holds : Holds b p s) : Holds b p (s.takeWhile (· ≠ 0)) := by
  have parts := List.takeWhile_append_dropWhile (p := (· ≠ 0)) (l := s)
  cases rest : s.dropWhile (· ≠ 0) with
  | nil =>
    rw [rest, List.append_nil] at parts
    rwa [parts]
  | cons c t =>
    have stopped := List.head?_dropWhile_not (· ≠ 0) s
    rw [rest] at stopped
    obtain rfl : c = 0 := by simpa using stopped
    rw [rest] at parts
    rw [← parts] at holds
    exact holds.of_zero

/-- Overwriting a byte with the terminator leaves two strings. -/
theorem Holds.split {c : UInt8} (holds : Holds b p (s ++ c :: t)) :
    Holds (Function.update b (p + s.length) 0) p s ∧
      Holds (Function.update b (p + s.length) 0) (p + s.length + 1) t := by
  constructor
  · intro i inside
    rcases Nat.eq_or_lt_of_le inside with rfl | before
    · rw [Function.update_self, List.getD_eq_default _ _ (Nat.le_refl _)]
    · rw [Function.update_of_ne (by omega), holds i (by simp; omega),
        List.getD_append _ _ _ _ before]
  · intro i inside
    have tail : Holds b (p + (s ++ [c]).length) t := Holds.append (by simpa using holds)
    rw [Function.update_of_ne (by omega), ← tail i inside]
    simp [Nat.add_assoc]

/-- A scan over a string stops where the test first fails, at its terminator at the latest. -/
theorem Holds.scan_append (holds : Holds b p (s ++ t)) (passes : ∀ c ∈ s, test c)
    (stops : test (t.getD 0 0) = false) (within : s.length < n) :
    scan test b n p = p + s.length := by
  refine scan_eq (Nat.le_add_right _ _) ?_ ?_ (by omega)
  · intro i low high
    have inside : i - p < s.length := by omega
    have read := holds (i - p) (by simp; omega)
    rw [Nat.add_sub_cancel' low, List.getD_append _ _ _ _ inside,
      List.getD_eq_getElem _ _ inside] at read
    rw [read]
    exact passes _ (List.getElem_mem inside)
  · have := holds.append 0 (Nat.zero_le _)
    rw [Nat.add_zero] at this
    rw [this, stops]

theorem Holds.strlen (holds : Holds b p s) (plain : 0 ∉ s) (within : s.length < n) :
    scan (· ≠ 0) b n p = p + s.length := by
  refine Holds.scan_append (t := []) (by simpa using holds) ?_ (by simp) within
  intro c member
  simpa using fun zero : c = 0 => plain (zero ▸ member)

theorem Holds.stringAt (holds : Holds b p s) (plain : 0 ∉ s) (within : s.length < n) :
    CBuffer.stringAt b n p = s := by
  rw [CBuffer.stringAt, holds.strlen plain within, Nat.add_sub_cancel_left]
  apply List.ext_getElem
  · simp
  · intro i _ inside
    simpa using holds.getElem inside

end CBuffer
