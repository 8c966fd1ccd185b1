import Mathlib.Algebra.BigOperators.Group.List.Basic
import Mathlib.Algebra.Group.Nat.Even
import Mathlib.Data.BitVec
import Mathlib.Data.Nat.ModEq
import Mathlib.Tactic.Abel

/-!
# Sums and exclusive ors of words

A checksum of the words at a list of places, which may hold a place more than once. Which changes of
the words it shows depends on how often their places are on the list.
-/
namespace WordSums

variable {ι : Type*} {w : Nat}

def sumAt (f : ι → BitVec w) (places : List ι) : BitVec w := (places.map f).sum

def xorAt (f : ι → BitVec w) : List ι → BitVec w
  | [] => 0
  | p :: places => f p ^^^ xorAt f places

/-- Both, as one loop computes them. -/
def sums (f : ι → BitVec w) (places : List ι) : BitVec w × BitVec w :=
  places.foldl (fun k p => (k.1 + f p, k.2 ^^^ f p)) (0, 0)

theorem foldl_sums (f : ι → BitVec w) (places : List ι) (k : BitVec w × BitVec w) :
    places.foldl (fun k p => (k.1 + f p, k.2 ^^^ f p)) k =
      (k.1 + sumAt f places, k.2 ^^^ xorAt f places) := by
  induction places generalizing k with
  | nil => simp [sumAt, xorAt]
  | cons p places ih =>
    rw [List.foldl_cons, ih]
    simp only [sumAt, xorAt, List.map_cons, List.sum_cons, add_assoc, BitVec.xor_assoc]

theorem sums_eq (f : ι → BitVec w) (places : List ι) :
    sums f places = (sumAt f places, xorAt f places) := by
  rw [sums, foldl_sums]
  simp

variable {places : List ι}

theorem sums_congr {f g : ι → BitVec w} (same : ∀ p ∈ places, f p = g p) :
    sums f places = sums g places := by
  have sum : sumAt f places = sumAt g places := congrArg List.sum (List.map_congr_left same)
  have xor : xorAt f places = xorAt g places := by
    induction places with
    | nil => rfl
    | cons p places ih =>
      obtain ⟨here, later⟩ := List.forall_mem_cons.mp same
      rw [xorAt, xorAt, here, ih later (congrArg List.sum (List.map_congr_left later))]
  rw [sums_eq, sums_eq, sum, xor]

variable [DecidableEq ι]

/-- What is left in the exclusive or of a change at one place. -/
theorem xorAt_single {f g : ι → BitVec w} {p : ι} (same : ∀ r ∈ places, r ≠ p → f r = g r) (i : Nat) :
    (xorAt f places ^^^ xorAt g places).getLsbD i =
      (decide (Odd (places.count p)) && (f p ^^^ g p).getLsbD i) := by
  induction places with
  | nil => simp [xorAt]
  | cons r places ih =>
    obtain ⟨here, later⟩ := List.forall_mem_cons.mp same
    have step : (xorAt f (r :: places) ^^^ xorAt g (r :: places)).getLsbD i =
        ((f r ^^^ g r).getLsbD i ^^ (xorAt f places ^^^ xorAt g places).getLsbD i) := by
      simp only [xorAt, BitVec.getLsbD_xor]
      cases (f r).getLsbD i <;> cases (g r).getLsbD i <;> cases (xorAt f places).getLsbD i <;>
        cases (xorAt g places).getLsbD i <;> rfl
    rw [step, ih later]
    by_cases first : r = p
    · subst first
      simp only [List.count_cons_self, Nat.odd_add_one]
      generalize (f r ^^^ g r).getLsbD i = bit
      by_cases odd : Odd (places.count r) <;> simp [odd]
    · rw [here first, List.count_cons_of_ne first]
      simp

theorem sumAt_single {f g : ι → BitVec w} {p : ι} (same : ∀ r ∈ places, r ≠ p → f r = g r) :
    sumAt f places = sumAt g places + places.count p • (f p - g p) := by
  induction places with
  | nil => simp [sumAt]
  | cons r places ih =>
    obtain ⟨here, later⟩ := List.forall_mem_cons.mp same
    have step (h : ι → BitVec w) : sumAt h (r :: places) = h r + sumAt h places := List.sum_cons
    rw [step, step, ih later]
    by_cases at_ : r = p
    · subst at_
      rw [List.count_cons_self, succ_nsmul]
      abel
    · rw [here at_, List.count_cons_of_ne at_, add_assoc]

/-- A bit that has changed at a place that is there an odd number of times shows. -/
theorem sums_ne_of_odd {f g : ι → BitVec w} {p q : ι} (other : p ≠ q)
    (same : ∀ r ∈ places, r ≠ p → r ≠ q → f r = g r) (odd : Odd (places.count p)) {i : Nat}
    (changed : (f p).getLsbD i ≠ (g p).getLsbD i) (kept : (f q).getLsbD i = (g q).getLsbD i) :
    sums f places ≠ sums g places := by
  -- The change at `q` is made first.
  let h (r : ι) : BitVec w := if r = q then g q else f r
  have at_other (r : ι) (_ : r ∈ places) (apart : r ≠ q) : f r = h r := (if_neg apart).symm
  have second := xorAt_single at_other i
  have at_rest (r : ι) (member : r ∈ places) (apart : r ≠ p) : h r = g r := by
    by_cases at_ : r = q
    · rw [at_]
      exact if_pos rfl
    · exact (if_neg at_).trans (same r member apart at_)
  have first := xorAt_single at_rest i
  have at_p : h p = f p := if_neg other
  have at_q : h q = g q := if_pos rfl
  rw [sums_eq, sums_eq]
  intro equal
  rw [(Prod.mk.inj equal).2, at_q, BitVec.getLsbD_xor, BitVec.getLsbD_xor, kept, Bool.xor_self,
    Bool.and_false, bne_eq_false_iff_eq] at second
  rw [BitVec.getLsbD_xor, second, Bool.xor_self, at_p, decide_eq_true odd, Bool.true_and,
    BitVec.getLsbD_xor, eq_comm, bne_eq_false_iff_eq] at first
  exact changed first

/-- A change in few of the low bits shows in the sum wherever the place is there at all. -/
theorem sums_ne_of_low {f g : ι → BitVec w} {p : ι} {k : Nat}
    (same : ∀ r ∈ places, r ≠ p → f r = g r) (some_read : places.count p ≠ 0)
    (few : places.count p * 2 ^ k ≤ 2 ^ w) (changed : f p ≠ g p)
    (high : (f p).toNat / 2 ^ k = (g p).toNat / 2 ^ k) : sums f places ≠ sums g places := by
  rw [sums_eq, sums_eq]
  intro equal
  have zero : places.count p • (f p - g p) = 0 := by
    have sum := (Prod.mk.inj equal).1
    rw [sumAt_single same] at sum
    exact add_eq_left.mp sum
  generalize places.count p = n at *
  have prod : n • f p = n • g p := by
    rw [nsmul_sub] at zero
    exact sub_eq_zero.mp zero
  generalize f p = x at *
  generalize g p = y at *
  -- Both products are less than 2 ^ w away from that of the high bits.
  have mod : n * x.toNat ≡ n * y.toNat [MOD 2 ^ w] := by
    have nat := congrArg BitVec.toNat prod
    simpa [nsmul_eq_mul, BitVec.toNat_mul, Nat.ModEq] using nat
  have split (z : BitVec w) : n * z.toNat = n * (2 ^ k * (z.toNat / 2 ^ k)) + n * (z.toNat % 2 ^ k) := by
    rw [← Nat.mul_add, Nat.div_add_mod]
  rw [split x, split y, high] at mod
  have low := Nat.ModEq.add_left_cancel' _ mod
  have within (z : BitVec w) : n * (z.toNat % 2 ^ k) < 2 ^ w :=
    Nat.lt_of_lt_of_le
      (Nat.mul_lt_mul_of_pos_left (Nat.mod_lt _ (Nat.two_pow_pos k)) (Nat.pos_of_ne_zero some_read))
      few
  have same_low := Nat.eq_of_mul_eq_mul_left (Nat.pos_of_ne_zero some_read)
    (low.eq_of_lt_of_lt (within x) (within y))
  apply changed
  apply BitVec.eq_of_toNat_eq
  rw [← Nat.div_add_mod x.toNat (2 ^ k), ← Nat.div_add_mod y.toNat (2 ^ k), high, same_low]

/-- A change of the top bit does not show at a place that is there an even number of times. -/
theorem sums_eq_of_even {f g : ι → BitVec (w + 1)} {p : ι} (same : ∀ r ∈ places, r ≠ p → f r = g r)
    (even : Even (places.count p)) (changed : f p = g p + BitVec.twoPow (w + 1) w) :
    sums f places = sums g places := by
  rw [sums_eq, sums_eq, Prod.mk.injEq]
  constructor
  · obtain ⟨k, half⟩ := even
    have twice : BitVec.twoPow (w + 1) w + BitVec.twoPow (w + 1) w = 0 := by
      apply BitVec.eq_of_toNat_eq
      rw [BitVec.toNat_add, BitVec.toNat_twoPow_of_lt (Nat.lt_succ_self w), ← Nat.two_mul,
        ← Nat.pow_succ', Nat.mod_self]
      rfl
    rw [sumAt_single same, changed, add_sub_cancel_left, half, add_nsmul, ← nsmul_add, twice,
      nsmul_zero, add_zero]
  · rw [← BitVec.xor_eq_zero_iff]
    apply BitVec.eq_of_getLsbD_eq
    intro i _
    rw [xorAt_single same, decide_eq_false (Nat.not_odd_iff_even.mpr even), Bool.false_and]
    simp

end WordSums

/-!
## One's complement sums

Sums of digits to a base with the carries added in again at the end. What is left is the sum modulo
`b - 1`, with `b - 1` in place of 0 unless nothing was added at all. So a complement stored with its
digits brings them to `b - 1`, and no change that is not a multiple of `b - 1` does.
-/
namespace OnesComplement

variable {b n m r : Nat}

/-- One turn: what is carried out is added in. -/
def carry (b n : Nat) : Nat := n / b + n % b

theorem carry_lt (base : 2 ≤ b) (big : b ≤ n) : carry b n < n := by
  have whole := Nat.div_add_mod n b
  have some_carry : 0 < n / b := Nat.div_pos big (by omega)
  have more : 2 * (n / b) ≤ b * (n / b) := Nat.mul_le_mul_right _ base
  unfold carry
  omega

/-- All carries added in. -/
def fold (b n : Nat) : Nat :=
  if _ : 2 ≤ b ∧ b ≤ n then fold b (carry b n) else n
termination_by n
decreasing_by exact carry_lt ‹2 ≤ b ∧ b ≤ n›.1 ‹2 ≤ b ∧ b ≤ n›.2

theorem fold_of_lt (small : n < b) : fold b n = n := by
  rw [fold, dif_neg (fun big => Nat.not_lt.mpr big.2 small)]

theorem fold_of_le (base : 2 ≤ b) (big : b ≤ n) : fold b n = fold b (carry b n) := by
  rw [fold, dif_pos ⟨base, big⟩]

theorem carry_modEq (positive : 0 < b) (n : Nat) : carry b n ≡ n [MOD b - 1] := by
  have one : b ≡ 1 [MOD b - 1] := by
    have split : b = 1 + (b - 1) := by omega
    calc b = 1 + (b - 1) := split
      _ ≡ 1 [MOD b - 1] := Nat.add_mod_right 1 (b - 1)
  calc carry b n = 1 * (n / b) + n % b := by rw [Nat.one_mul, carry]
    _ ≡ b * (n / b) + n % b [MOD b - 1] := (one.symm.mul_right _).add_right _
    _ = n := Nat.div_add_mod n b

theorem fold_spec (base : 2 ≤ b) (n : Nat) :
    fold b n < b ∧ fold b n ≡ n [MOD b - 1] ∧ (fold b n = 0 ↔ n = 0) := by
  induction n using Nat.strong_induction_on with
  | _ n ih =>
    by_cases big : b ≤ n
    · obtain ⟨small, same, zero⟩ := ih _ (carry_lt base big)
      rw [fold_of_le base big]
      refine ⟨small, same.trans (carry_modEq (by omega) n), zero.trans ?_⟩
      have some_carry : 0 < n / b := Nat.div_pos big (by omega)
      unfold carry
      omega
    · rw [fold_of_lt (Nat.lt_of_not_le big)]
      exact ⟨Nat.lt_of_not_le big, .refl _, .rfl⟩

/-- The sum is full exactly when it is a multiple of `b - 1`, and not empty. -/
theorem fold_eq_full_iff (base : 2 ≤ b) : fold b n = b - 1 ↔ b - 1 ∣ n ∧ n ≠ 0 := by
  obtain ⟨small, same, zero⟩ := fold_spec base n
  rw [← same.dvd_iff (dvd_refl _), ne_eq, ← zero]
  constructor
  · intro full
    exact ⟨full ▸ dvd_refl _, by omega⟩
  · rintro ⟨divides, some_sum⟩
    have at_least := Nat.le_of_dvd (Nat.pos_of_ne_zero some_sum) divides
    omega

/-- What is stored with digits of sum `n`. -/
def complement (b n : Nat) : Nat := b - 1 - fold b n

/-- Digits of sum `m` with a complement made for `n`. -/
theorem fold_complement_iff (base : 2 ≤ b) :
    fold b (m + complement b n) = b - 1 ↔ m ≡ n [MOD b - 1] ∧ m + complement b n ≠ 0 := by
  obtain ⟨small, same, zero⟩ := fold_spec base n
  have full : fold b n + complement b n = b - 1 := by
    unfold complement
    omega
  have at_zero : n + complement b n ≡ 0 [MOD b - 1] :=
    calc n + complement b n ≡ fold b n + complement b n [MOD b - 1] := same.symm.add_right _
      _ = b - 1 := full
      _ ≡ 0 [MOD b - 1] := Nat.mod_self _
  rw [fold_eq_full_iff base, ← Nat.modEq_zero_iff_dvd]
  refine and_congr_left fun _ => ⟨fun also => ?_, fun alike => ?_⟩
  · exact Nat.ModEq.add_right_cancel' _ (also.trans at_zero.symm)
  · exact (alike.add_right _).trans at_zero

/-- Digits with their complement, and more that it leaves out. -/
theorem fold_left_out_iff (base : 2 ≤ b) :
    fold b (n + r + complement b n) = b - 1 ↔ b - 1 ∣ r := by
  have some_sum : n + r + complement b n ≠ 0 := by
    have zero := (fold_spec base n).2.2
    unfold complement
    omega
  rw [fold_complement_iff base, and_iff_left some_sum, ← Nat.modEq_zero_iff_dvd]
  exact ⟨fun same => Nat.ModEq.add_left_cancel' n same, fun none_left => none_left.add_left n⟩

/-- A change of less than `b - 1` is seen. -/
theorem fold_changed (base : 2 ≤ b) (full : fold b n = b - 1) (differs : n ≠ m)
    (near : n < m + (b - 1) ∧ m < n + (b - 1)) : fold b m ≠ b - 1 := by
  intro also
  obtain ⟨k, rfl⟩ := ((fold_eq_full_iff base).mp full).1
  obtain ⟨l, rfl⟩ := ((fold_eq_full_iff base).mp also).1
  rcases Nat.lt_trichotomy k l with less | rfl | more
  · have step : (b - 1) * (k + 1) ≤ (b - 1) * l := Nat.mul_le_mul_left _ less
    rw [Nat.mul_succ] at step
    omega
  · exact differs rfl
  · have step : (b - 1) * (l + 1) ≤ (b - 1) * k := Nat.mul_le_mul_left _ more
    rw [Nat.mul_succ] at step
    omega

end OnesComplement
