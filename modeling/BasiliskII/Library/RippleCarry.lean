import Mathlib.Data.Nat.Digits.Defs
import Mathlib.Tactic.Linarith
import Mathlib.Tactic.Ring

/-!
# Arithmetic digit by digit

A chain of rounds, one for each digit of two numbers, that hands a state on from
the least significant digit to the next. If each round balances its digits
against the carry in and the carry out, the chain balances the numbers. The
digits may be machine words, which make up one wide word.
-/
namespace RippleCarry

variable {α σ : Type}

/-- A triple holds the digits of the two operands and of the result. -/
inductive Chain (step : σ → α → α → α × σ) : σ → List (α × α × α) → σ → Prop
  | nil (s : σ) : Chain step s [] s
  | cons (s : σ) (x y : α) {rest : List (α × α × α)} {last : σ} :
      Chain step (step s x y).2 rest last → Chain step s ((x, y, (step s x y).1) :: rest) last

variable {step : σ → α → α → α × σ} {first last : σ} {triples : List (α × α × α)}

theorem ofDigits_map_add {τ : Type} (base : Nat) (f g : τ → Nat) (l : List τ) :
    Nat.ofDigits base (l.map (fun t => f t + g t)) =
      Nat.ofDigits base (l.map f) + Nat.ofDigits base (l.map g) := by
  induction l with
  | nil => rfl
  | cons t l ih =>
    rw [List.map_cons, List.map_cons, List.map_cons, Nat.ofDigits_cons, Nat.ofDigits_cons,
      Nat.ofDigits_cons, ih]
    ring

theorem ofDigits_map_eq_zero_iff {τ : Type} {base : Nat} (positive : 0 < base) (f : τ → Nat)
    (l : List τ) : Nat.ofDigits base (l.map f) = 0 ↔ ∀ t ∈ l, f t = 0 := by
  induction l with
  | nil => exact iff_of_true rfl (fun _ member => absurd member List.not_mem_nil)
  | cons t l ih =>
    rw [List.map_cons, Nat.ofDigits_cons, Nat.add_eq_zero_iff, Nat.mul_eq_zero,
      or_iff_right positive.ne', ih, List.forall_mem_cons]

/-- What balances in each round balances in the chain. -/
theorem Chain.balance (chain : Chain step first triples last) (base : Nat) (carry : σ → Nat)
    (left right : α × α × α → Nat) (Valid : α → Prop)
    (round : ∀ s x y, Valid x → Valid y →
      left (x, y, (step s x y).1) + base * carry (step s x y).2 =
        right (x, y, (step s x y).1) + carry s)
    (valid : ∀ t ∈ triples, Valid t.1 ∧ Valid t.2.1) :
    Nat.ofDigits base (triples.map left) + base ^ triples.length * carry last =
      Nat.ofDigits base (triples.map right) + carry first := by
  induction chain with
  | nil s => simp
  | cons s x y chain ih =>
    obtain ⟨valid_x, valid_y⟩ := valid _ List.mem_cons_self
    have here := round s x y valid_x valid_y
    have rest := ih (fun t member => valid t (List.mem_cons_of_mem _ member))
    rw [List.map_cons, List.map_cons, Nat.ofDigits_cons, Nat.ofDigits_cons, List.length_cons,
      Nat.pow_succ]
    -- The rest is a digit's weight up.
    have raised := congrArg (base * ·) rest
    simp only [Nat.mul_add] at raised
    linarith

/-- A property of the digits each round makes. -/
theorem Chain.results (chain : Chain step first triples last) (Valid Result : α → Prop)
    (round : ∀ s x y, Valid x → Valid y → Result (step s x y).1)
    (valid : ∀ t ∈ triples, Valid t.1 ∧ Valid t.2.1) : ∀ t ∈ triples, Result t.2.2 := by
  induction chain with
  | nil s => exact fun t member => absurd member List.not_mem_nil
  | cons s x y chain ih =>
    intro t member
    rcases List.mem_cons.mp member with rfl | member
    · obtain ⟨valid_x, valid_y⟩ := valid _ List.mem_cons_self
      exact round s x y valid_x valid_y
    · exact ih (fun t member => valid t (List.mem_cons_of_mem _ member)) t member

/-- A flag that each round can only clear tells whether all rounds have left it alone. -/
theorem Chain.sticky (chain : Chain step first triples last) (flag : σ → Bool) (test : α → Bool)
    (round : ∀ s x y, flag (step s x y).2 = (flag s && test (step s x y).1)) :
    flag last = (flag first && triples.all (fun t => test t.2.2)) := by
  induction chain with
  | nil s => simp
  | cons s x y chain ih => rw [ih, round, List.all_cons, Bool.and_assoc]

/-- The last round of a chain. -/
theorem Chain.of_concat {before : List (α × α × α)} {top : α × α × α}
    (chain : Chain step first (before ++ [top]) last) :
    ∃ s, Chain step first before s ∧ step s top.1 top.2.1 = (top.2.2, last) := by
  induction before generalizing first with
  | nil =>
    cases chain with
    | cons s x y rest =>
      cases rest
      exact ⟨first, .nil first, rfl⟩
  | cons t before ih =>
    cases chain with
    | cons s x y rest =>
      obtain ⟨s', front, back⟩ := ih rest
      exact ⟨s', .cons first x y front, back⟩

-- Wide words.

variable {w : Nat}

/-- The number the words make up, the least significant first. -/
def number (limbs : List (BitVec w)) : Nat := Nat.ofDigits (2 ^ w) (limbs.map BitVec.toNat)

/-- The same as a word of `n` times the width. -/
def wide (n : Nat) (limbs : List (BitVec w)) : BitVec (w * n) := BitVec.ofNat (w * n) (number limbs)

theorem number_cons (limb : BitVec w) (limbs : List (BitVec w)) :
    number (limb :: limbs) = limb.toNat + 2 ^ w * number limbs := Nat.ofDigits_cons

theorem number_lt (limbs : List (BitVec w)) : number limbs < 2 ^ (w * limbs.length) := by
  induction limbs with
  | nil => exact Nat.one_pos
  | cons limb limbs ih =>
    have below := limb.isLt
    rw [number_cons, List.length_cons, Nat.mul_succ, Nat.add_comm (w * _) w, Nat.pow_add]
    calc limb.toNat + 2 ^ w * number limbs < 2 ^ w + 2 ^ w * number limbs := by omega
      _ = 2 ^ w * (number limbs + 1) := by ring
      _ ≤ 2 ^ w * 2 ^ (w * limbs.length) := Nat.mul_le_mul_left _ ih

theorem wide_toNat {n : Nat} (limbs : List (BitVec w)) (length : limbs.length = n) :
    (wide n limbs).toNat = number limbs := by
  subst length
  rw [wide, BitVec.toNat_ofNat, Nat.mod_eq_of_lt (number_lt limbs)]

theorem number_concat (limbs : List (BitVec w)) (top : BitVec w) :
    number (limbs ++ [top]) = number limbs + 2 ^ (w * limbs.length) * top.toNat := by
  rw [number, List.map_append, Nat.ofDigits_append, List.length_map, ← Nat.pow_mul]
  rw [List.map_singleton, Nat.ofDigits_singleton, number]

/-- The sign of a wide word is that of its top word. -/
theorem wide_msb (positive : 0 < w) {n : Nat} (limbs : List (BitVec w)) (top : BitVec w)
    (length : limbs.length = n) : (wide (n + 1) (limbs ++ [top])).msb = top.msb := by
  subst length
  have below := number_lt limbs
  have value : (wide (limbs.length + 1) (limbs ++ [top])).toNat = number (limbs ++ [top]) :=
    wide_toNat (limbs ++ [top]) List.length_append
  have half : w * (limbs.length + 1) - 1 = w * limbs.length + (w - 1) := by
    rw [Nat.mul_succ]
    omega
  rw [BitVec.msb_eq_decide, BitVec.msb_eq_decide, value, number_concat, half, Nat.pow_add]
  generalize 2 ^ (w * limbs.length) = weight at below
  generalize 2 ^ (w - 1) = bit
  apply decide_eq_decide.mpr
  constructor
  · intro high
    by_contra low
    have step : weight * (top.toNat + 1) ≤ weight * bit := Nat.mul_le_mul_left _ (by omega)
    rw [Nat.mul_succ] at step
    omega
  · intro high
    exact (Nat.mul_le_mul_left weight high).trans (Nat.le_add_left _ _)

end RippleCarry
