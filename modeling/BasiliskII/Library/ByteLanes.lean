import Mathlib.Data.BitVec
import Mathlib.Data.Nat.Bitwise

/-!
# The low bytes of words

A word that is written in part takes some of its low bytes from one word and the others from
another, and what is known of a word may be some of its low bytes only. Addition does not carry
into lower bytes.
-/
namespace ByteLanes

variable {w : Nat}

/-- The low `k` bytes of `a`, and the others of `b`. -/
def splice (k : Nat) (a b : BitVec w) : BitVec w :=
  (a &&& BitVec.ofNat w (2 ^ (8 * k) - 1)) ||| (b &&& ~~~ BitVec.ofNat w (2 ^ (8 * k) - 1))

theorem splice_bit (k : Nat) (a b : BitVec w) (i : Nat) :
    (splice k a b).getLsbD i = if i < 8 * k then a.getLsbD i else b.getLsbD i := by
  by_cases inside : i < w
  · simp only [splice, BitVec.getLsbD_or, BitVec.getLsbD_and, BitVec.getLsbD_not,
      BitVec.getLsbD_ofNat, Nat.testBit_two_pow_sub_one, inside, decide_true, Bool.true_and]
    by_cases low : i < 8 * k <;> simp [low]
  · simp [BitVec.getLsbD_of_ge _ _ (Nat.le_of_not_lt inside)]

theorem splice_zero (a b : BitVec w) : splice 0 a b = b := by
  apply BitVec.eq_of_getLsbD_eq
  intro i _
  rw [splice_bit, if_neg (by omega)]

theorem splice_all {k : Nat} (all : w ≤ 8 * k) (a b : BitVec w) : splice k a b = a := by
  apply BitVec.eq_of_getLsbD_eq
  intro i inside
  rw [splice_bit, if_pos (Nat.lt_of_lt_of_le inside all)]

/-- What is spliced over more bytes is all there is to see. -/
theorem splice_splice {j k : Nat} (fewer : j ≤ k) (a b : BitVec w) :
    splice k a (splice j a b) = splice k a b := by
  apply BitVec.eq_of_getLsbD_eq
  intro i _
  simp only [splice_bit]
  split
  · rfl
  · rw [if_neg (by omega)]

/-- The low `k` bytes are the same. -/
def SameLow (k : Nat) (a b : BitVec w) : Prop := ∀ i < 8 * k, a.getLsbD i = b.getLsbD i

theorem SameLow.refl (k : Nat) (a : BitVec w) : SameLow k a a := fun _ _ => rfl

theorem SameLow.symm {k : Nat} {a b : BitVec w} (same : SameLow k a b) : SameLow k b a :=
  fun i low => (same i low).symm

theorem SameLow.trans {k : Nat} {a b c : BitVec w} (first : SameLow k a b)
    (second : SameLow k b c) : SameLow k a c :=
  fun i low => (first i low).trans (second i low)

theorem SameLow.mono {j k : Nat} {a b : BitVec w} (same : SameLow k a b) (fewer : j ≤ k) :
    SameLow j a b :=
  fun i low => same i (by omega)

theorem sameLow_zero (a b : BitVec w) : SameLow 0 a b := fun _ low => absurd low (by omega)

theorem sameLow_iff {k : Nat} {a b : BitVec w} :
    SameLow k a b ↔ a.setWidth (8 * k) = b.setWidth (8 * k) := by
  constructor
  · intro same
    apply BitVec.eq_of_getLsbD_eq
    intro i low
    rw [BitVec.getLsbD_setWidth, BitVec.getLsbD_setWidth, same i low]
  · intro equal i low
    have bit := congrArg (BitVec.getLsbD · i) equal
    simpa [BitVec.getLsbD_setWidth, low] using bit

theorem SameLow.add {k : Nat} {a b : BitVec w} (same : SameLow k a b) (c : BitVec w) :
    SameLow k (a + c) (b + c) := by
  by_cases within : 8 * k ≤ w
  · rw [sameLow_iff] at same ⊢
    rw [BitVec.setWidth_add _ _ within, BitVec.setWidth_add _ _ within, same]
  · have equal : a = b := BitVec.eq_of_getLsbD_eq fun i inside => same i (by omega)
    rw [equal]
    exact .refl k _

theorem sameLow_splice {j k : Nat} (fewer : k ≤ j) (a b : BitVec w) : SameLow k (splice j a b) a := by
  intro i low
  rw [splice_bit, if_pos (by omega)]

end ByteLanes
