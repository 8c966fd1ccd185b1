import Mathlib.Tactic.Ring

/-!
# Restoring division

Shift-subtract division of a two-word dividend by a one-word divisor, on
natural numbers below `2 ^ w`. One step moves the top bit of the low word into
the partial remainder, which doubles; the divisor is subtracted when it fits.
The invariant is that `(quot * d + rem) * 2 ^ w + low` doubles at each step.
-/
namespace RestoringDivision

structure State where
  rem : Nat
  low : Nat
  quot : Nat

variable {w d : Nat}

def step (w d : Nat) (s : State) : State :=
  let rem := 2 * s.rem + s.low / 2 ^ (w - 1)
  let low := 2 * s.low % 2 ^ w
  if d ≤ rem then ⟨rem - d, low, 2 * s.quot + 1⟩ else ⟨rem, low, 2 * s.quot⟩

/-- The number the state stands for, as a multiple of the part already divided. -/
def State.value (w d : Nat) (s : State) : Nat := (s.quot * d + s.rem) * 2 ^ w + s.low

/-- The partial remainder is below the divisor and the low word is one word. -/
structure State.Reduced (w d : Nat) (s : State) : Prop where
  rem_lt : s.rem < d
  low_lt : s.low < 2 ^ w

/-- The low word, doubled, is the bit that leaves it and the word that stays. -/
theorem double_low (positive : 0 < w) {low : Nat} (bounded : low < 2 ^ w) :
    low / 2 ^ (w - 1) * 2 ^ w + 2 * low % 2 ^ w = 2 * low ∧ low / 2 ^ (w - 1) ≤ 1 := by
  have word : 2 ^ w = 2 * 2 ^ (w - 1) := by
    rw [← Nat.pow_succ', Nat.succ_eq_add_one, Nat.sub_add_cancel positive]
  have top : low / 2 ^ (w - 1) = 2 * low / 2 ^ w := by
    rw [word, Nat.mul_div_mul_left _ _ (by decide)]
  constructor
  · rw [top, Nat.mul_comm]
    exact Nat.div_add_mod _ _
  · apply Nat.le_of_lt_succ
    apply Nat.div_lt_of_lt_mul
    omega

theorem step_reduced (positive : 0 < w) {s : State} (reduced : s.Reduced w d) :
    (step w d s).Reduced w d := by
  obtain ⟨_, bit⟩ := double_low positive reduced.low_lt
  have rem_lt := reduced.rem_lt
  have low_lt : 2 * s.low % 2 ^ w < 2 ^ w := Nat.mod_lt _ (Nat.two_pow_pos w)
  simp only [step]
  split
  · exact ⟨by simp only; omega, low_lt⟩
  · exact ⟨by simp only; omega, low_lt⟩

theorem step_value (positive : 0 < w) {s : State} (reduced : s.Reduced w d) :
    (step w d s).value w d = 2 * s.value w d := by
  obtain ⟨shifted, _⟩ := double_low positive reduced.low_lt
  have whole : (2 * s.rem + s.low / 2 ^ (w - 1)) * 2 ^ w + 2 * s.low % 2 ^ w =
      2 * (s.rem * 2 ^ w + s.low) := by
    rw [Nat.add_mul, Nat.add_assoc, shifted]
    ring
  simp only [step]
  split
  next fits =>
    -- What is subtracted from the remainder is added with the new quotient bit.
    obtain ⟨rest, split_rem⟩ := Nat.exists_eq_add_of_le fits
    simp only [State.value, split_rem, Nat.add_sub_cancel_left] at whole ⊢
    calc ((2 * s.quot + 1) * d + rest) * 2 ^ w + 2 * s.low % 2 ^ w
        = 2 * s.quot * d * 2 ^ w + ((d + rest) * 2 ^ w + 2 * s.low % 2 ^ w) := by ring
      _ = 2 * ((s.quot * d + s.rem) * 2 ^ w + s.low) := by rw [whole]; ring
  · simp only [State.value]
    calc (2 * s.quot * d + (2 * s.rem + s.low / 2 ^ (w - 1))) * 2 ^ w + 2 * s.low % 2 ^ w
        = 2 * s.quot * d * 2 ^ w +
          ((2 * s.rem + s.low / 2 ^ (w - 1)) * 2 ^ w + 2 * s.low % 2 ^ w) := by ring
      _ = 2 * ((s.quot * d + s.rem) * 2 ^ w + s.low) := by rw [whole]; ring

theorem step_quot (s : State) : (step w d s).quot ≤ 2 * s.quot + 1 := by
  simp only [step]
  split <;> simp

/-- What any number of steps preserves. -/
theorem iterate_invariant (positive : 0 < w) {s : State} (reduced : s.Reduced w d)
    (fresh : s.quot = 0) (n : Nat) :
    ((step w d)^[n] s).Reduced w d ∧
      ((step w d)^[n] s).value w d = 2 ^ n * s.value w d ∧
      ((step w d)^[n] s).quot < 2 ^ n := by
  induction n with
  | zero => exact ⟨reduced, by simp, by simp [fresh]⟩
  | succ n ih =>
    obtain ⟨before, value, quot⟩ := ih
    rw [Function.iterate_succ_apply']
    refine ⟨step_reduced positive before, ?_, ?_⟩
    · rw [step_value positive before, value]
      ring
    · have := step_quot (w := w) (d := d) ((step w d)^[n] s)
      omega

/-- After one step for each bit of the low word, quotient and remainder are those of the whole
dividend. -/
theorem iterate_divides (positive : 0 < w) {hi lo : Nat} (above : hi < d) (word : lo < 2 ^ w) :
    ((step w d)^[w] ⟨hi, lo, 0⟩).quot = (hi * 2 ^ w + lo) / d ∧
      ((step w d)^[w] ⟨hi, lo, 0⟩).rem = (hi * 2 ^ w + lo) % d := by
  obtain ⟨reduced, value, _⟩ := iterate_invariant positive (s := ⟨hi, lo, 0⟩) ⟨above, word⟩ rfl w
  generalize (step w d)^[w] ⟨hi, lo, 0⟩ = s at reduced value
  simp only [State.value, Nat.zero_mul, Nat.zero_add] at value
  have exact_value : s.quot * d + s.rem = hi * 2 ^ w + lo := by
    -- The low word is a multiple of `2 ^ w` now, so it is zero.
    have quotients := congrArg (· / 2 ^ w) value
    simpa [Nat.mul_add_div (Nat.two_pow_pos w), Nat.mul_comm _ (2 ^ w),
      Nat.div_eq_of_lt reduced.low_lt] using quotients
  rw [← exact_value]
  have d_positive : 0 < d := Nat.zero_lt_of_lt above
  constructor
  · rw [Nat.mul_comm, Nat.mul_add_div d_positive, Nat.div_eq_of_lt reduced.rem_lt, Nat.add_zero]
  · rw [Nat.mul_comm, Nat.mul_add_mod, Nat.mod_eq_of_lt reduced.rem_lt]

end RestoringDivision
