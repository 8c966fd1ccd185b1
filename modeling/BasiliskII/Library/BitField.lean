import BasiliskII.Library.ByteMemory
import Mathlib.Data.Nat.Bitwise

/-!
# Bits of a big-endian memory

The bits of a memory are counted from the most significant bit of the byte at an
address, forwards and backwards. A row of bits, the first one most significant,
is a number.
-/
namespace BitField

open ByteMemory

variable {w : Nat}

/-- Where the bit `p` places after the most significant bit of the byte at `a` is: the address of
its byte and its weight there. -/
def place (a : BitVec w) (p : Int) : BitVec w × Nat :=
  (a + BitVec.ofInt w (p / 8), 7 - (p % 8).toNat)

def bitAt (m : Memory w) (a : BitVec w) (p : Int) : Bool :=
  (m (place a p).1).getLsbD (place a p).2

/-- The number the first `n` bits of a row make up. -/
def number (bit : Nat → Bool) : Nat → Nat
  | 0 => 0
  | n + 1 => 2 * number bit n + (bit n).toNat

/-- The place of the first one among the first `n` bits, and `n` if there is none. -/
def firstOne (bit : Nat → Bool) (n : Nat) : Nat := ((List.range n).find? bit).getD n

theorem number_testBit (bit : Nat → Bool) (n j : Nat) :
    (number bit n).testBit j = (decide (j < n) && bit (n - 1 - j)) := by
  induction n generalizing j with
  | zero => simp [number]
  | succ n ih =>
    cases j with
    | zero => cases last : bit n <;> simp [number, last, Nat.testBit_zero, Nat.add_mod]
    | succ j =>
      have half : (2 * number bit n + (bit n).toNat) / 2 = number bit n := by
        cases bit n <;> simp
        omega
      rw [number, Nat.testBit_succ, half, ih]
      simp [show n - (j + 1) = n - 1 - j by omega]

/-- A word whose bits are those of a row is the number of the row. -/
theorem eq_number {v : BitVec w} {bit : Nat → Bool} {n : Nat}
    (same : ∀ j < w, v.getLsbD j = (decide (j < n) && bit (n - 1 - j))) :
    v = BitVec.ofNat w (number bit n) := by
  apply BitVec.eq_of_getLsbD_eq
  intro j inside
  rw [same j inside, BitVec.getLsbD_ofNat, number_testBit, decide_eq_true inside, Bool.true_and]

theorem firstOne_zero {bit : Nat → Bool} (n : Nat) (one : bit 0 = true) :
    firstOne bit (n + 1) = 0 := by
  rw [firstOne, List.range_succ_eq_map, List.find?_cons_of_pos one, Option.getD_some]

theorem firstOne_succ {bit : Nat → Bool} (n : Nat) (zero : bit 0 = false) :
    firstOne bit (n + 1) = firstOne (fun i => bit (i + 1)) n + 1 := by
  have first_passed : ¬bit 0 = true := by simp [zero]
  rw [firstOne, firstOne, List.range_succ_eq_map, List.find?_cons_of_neg first_passed,
    List.find?_map]
  change (((List.range n).find? fun i => bit (i + 1)).map Nat.succ).getD (n + 1) = _
  cases (List.range n).find? fun i => bit (i + 1) with
  | none => rfl
  | some i => rfl

theorem firstOne_congr {bit bit' : Nat → Bool} {n : Nat} (same : ∀ i < n, bit i = bit' i) :
    firstOne bit n = firstOne bit' n := by
  induction n generalizing bit bit' with
  | zero => rfl
  | succ n ih =>
    have first := same 0 (Nat.succ_pos n)
    cases value : bit' 0 with
    | true => rw [firstOne_zero n value, firstOne_zero n (first.trans value)]
    | false =>
      rw [firstOne_succ n value, firstOne_succ n (first.trans value)]
      exact congrArg (· + 1) (ih fun i inside => same (i + 1) (Nat.succ_lt_succ inside))

-- Moving the address the bits are counted from.

theorem place_add (a : BitVec w) (q p : Int) :
    place (a + BitVec.ofInt w q) p = place a (8 * q + p) := by
  have byte : (8 * q + p) / 8 = q + p / 8 := by omega
  have weight : (8 * q + p) % 8 = p % 8 := by omega
  rw [place, place, byte, weight, BitVec.add_assoc, BitVec.ofInt_add]

theorem bitAt_add (m : Memory w) (a : BitVec w) (q p : Int) :
    bitAt m (a + BitVec.ofInt w q) p = bitAt m a (8 * q + p) := by
  rw [bitAt, bitAt, place_add]

theorem place_byte (a : BitVec w) {j : Nat} (inside : j < 8) : place a (7 - j : Nat) = (a, j) := by
  have byte : ((7 - j : Nat) : Int) / 8 = 0 := by omega
  have weight : 7 - (((7 - j : Nat) : Int) % 8).toNat = j := by omega
  simp [place, byte, weight]

-- The bits of the values the big-endian accesses read.

theorem byte_bit (m : Memory w) (a : BitVec w) {j : Nat} (inside : j < 8) :
    (m a).getLsbD j = bitAt m a (7 - j : Nat) := by
  rw [bitAt, place_byte a inside]

theorem getWord_bit (m : Memory w) (a : BitVec w) {j : Nat} (inside : j < 16) :
    (getWord m a).getLsbD j = bitAt m a (15 - j : Nat) := by
  rw [getWord, BitVec.getLsbD_append]
  by_cases low : j < 8
  · have next : a + 1 = a + BitVec.ofInt w 1 := rfl
    rw [if_pos low, byte_bit m _ low, next, bitAt_add]
    congr 1
    omega
  · rw [if_neg low, byte_bit m _ (by omega)]
    congr 2
    omega

theorem getLong_bit (m : Memory w) (a : BitVec w) {j : Nat} (inside : j < 32) :
    (getLong m a).getLsbD j = bitAt m a (31 - j : Nat) := by
  rw [getLong, BitVec.getLsbD_append]
  by_cases low : j < 16
  · have next : a + 2 = a + BitVec.ofInt w 2 := rfl
    rw [if_pos low, getWord_bit m _ low, next, bitAt_add]
    congr 1
    omega
  · rw [if_neg low, getWord_bit m _ (by omega)]
    congr 2
    omega

end BitField
