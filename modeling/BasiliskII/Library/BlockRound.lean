import Mathlib.Data.BitVec
import Mathlib.Data.Nat.Bitwise

/-!
# Up to the next block

Filling the low bits of a word and adding one gives the next multiple of a
power of two, which in the last block of the number range is zero.
-/
namespace BlockRound

variable {w : Nat}

def nextBlock (k : Nat) (size : BitVec w) : BitVec w := (size ||| BitVec.ofNat w (2 ^ k - 1)) + 1#w

theorem or_low (n k : Nat) : n ||| (2 ^ k - 1) = 2 ^ k * (n / 2 ^ k) + (2 ^ k - 1) := by
  have positive := Nat.two_pow_pos k
  have parts : n = 2 ^ k * (n / 2 ^ k) ||| n % 2 ^ k := by
    rw [← Nat.two_pow_add_eq_or_of_lt (Nat.mod_lt n positive), Nat.div_add_mod]
  have filled : n % 2 ^ k ||| (2 ^ k - 1) = 2 ^ k - 1 := by
    apply Nat.eq_of_testBit_eq
    intro i
    rw [Nat.testBit_or, Nat.testBit_mod_two_pow, Nat.testBit_two_pow_sub_one]
    cases decide (i < k) <;> simp
  calc n ||| (2 ^ k - 1) = (2 ^ k * (n / 2 ^ k) ||| n % 2 ^ k) ||| (2 ^ k - 1) := by rw [← parts]
    _ = 2 ^ k * (n / 2 ^ k) ||| (2 ^ k - 1) := by rw [Nat.or_assoc, filled]
    _ = 2 ^ k * (n / 2 ^ k) + (2 ^ k - 1) :=
      (Nat.two_pow_add_eq_or_of_lt (Nat.sub_lt positive Nat.one_pos) _).symm

variable {k : Nat} {size : BitVec w}

/-- Up to the word's range. -/
theorem toNat_nextBlock (within : k ≤ w) :
    (nextBlock k size).toNat = 2 ^ k * (size.toNat / 2 ^ k + 1) % 2 ^ w := by
  have positive := Nat.two_pow_pos k
  have fits : 2 ^ k ≤ 2 ^ w := Nat.pow_le_pow_right Nat.two_pos within
  have mask : (2 ^ k - 1) % 2 ^ w = 2 ^ k - 1 := Nat.mod_eq_of_lt (by omega)
  rw [nextBlock, BitVec.toNat_add, BitVec.toNat_or, BitVec.toNat_ofNat, mask, or_low]
  have filled : 2 ^ k * (size.toNat / 2 ^ k) + (2 ^ k - 1) + 1 =
      2 ^ k * (size.toNat / 2 ^ k + 1) := by
    rw [Nat.mul_add, Nat.mul_one, Nat.add_assoc, Nat.sub_add_cancel positive]
  rw [BitVec.toNat_ofNat, Nat.add_mod_mod, filled]

theorem dvd_nextBlock (within : k ≤ w) : 2 ^ k ∣ (nextBlock k size).toNat := by
  rw [toNat_nextBlock within]
  exact (Nat.dvd_mod_iff (Nat.pow_dvd_pow 2 within)).mpr (Nat.dvd_mul_right _ _)

/-- Below the last block the next one is larger, and in the last there is none. -/
theorem nextBlock_cases (within : k ≤ w) (size : BitVec w) :
    (size.toNat < 2 ^ w - 2 ^ k ∧ size.toNat < (nextBlock k size).toNat) ∨
      (2 ^ w - 2 ^ k ≤ size.toNat ∧ nextBlock k size = 0#w) := by
  have positive := Nat.two_pow_pos k
  have blocks : 2 ^ w = 2 ^ k * 2 ^ (w - k) := by rw [← Nat.pow_add, Nat.add_sub_cancel' within]
  have whole := Nat.div_add_mod size.toNat (2 ^ k)
  have part := Nat.mod_lt size.toNat positive
  have range := size.isLt
  rw [BitVec.toNat_eq, toNat_nextBlock within, blocks]
  rw [blocks] at range
  generalize size.toNat / 2 ^ k = q at whole ⊢
  have last : q < 2 ^ (w - k) := by
    refine Nat.lt_of_mul_lt_mul_left (a := 2 ^ k) ?_
    omega
  rcases Nat.lt_or_eq_of_le (Nat.succ_le_of_lt last) with inner | final
  · have below : 2 ^ k * (q + 1) < 2 ^ k * 2 ^ (w - k) := Nat.mul_lt_mul_of_pos_left inner positive
    have next : 2 ^ k * (q + 1 + 1) ≤ 2 ^ k * 2 ^ (w - k) := Nat.mul_le_mul_left _ inner
    rw [Nat.mod_eq_of_lt below]
    rw [Nat.mul_add, Nat.mul_one] at next below ⊢
    rw [Nat.mul_add, Nat.mul_one] at next
    exact .inl (by omega)
  · rw [← final, Nat.succ_eq_add_one, Nat.mod_self, Nat.mul_add, Nat.mul_one]
    exact .inr ⟨by omega, by simp⟩

end BlockRound
