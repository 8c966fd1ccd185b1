import BasiliskII.Cpu.ShiftSteps

/-!
# A shift by a count is that many shifts by one

The closed forms for a count in a register give, bit by bit, what the memory
forms give when they are taken as many times, and the same flags.
-/
namespace BasiliskII.Cpu

variable (size : Size) (data : BitVec 32)

theorem sign_value :
    (size.cmask &&& size.cast data) >>> (size.bits - 1) =
      if data.getLsbD (size.bits - 1) then 1#32 else 0#32 := by
  have top := size.bits_pos
  have single : size.cmask >>> (size.bits - 1) = 1#32 := by cases size <;> decide
  rw [BitVec.and_comm, and_cmask, cast_bit_of_lt (by omega)]
  cases data.getLsbD (size.bits - 1) <;> simp [single]

theorem neg_sign_bit (sign : Bool) {i : Nat} (inside : i < 32) :
    (-(if sign then 1#32 else 0#32)).getLsbD i = sign := by
  cases sign with
  | false => simp
  | true =>
    have ones : -(1#32) = BitVec.allOnes 32 := by decide
    rw [if_pos rfl, ones, BitVec.getLsbD_allOnes]
    simp [inside]

theorem flagBit_sign (sign : Bool) : flagBit (if sign then 1#32 else 0#32) = sign := by
  cases sign <;> rfl

variable (f : Flags)

theorem asr_isResult (n : Nat) :
    IsResult size (asr size n data f) (fun i => data.getLsbD (min (i + n) (size.bits - 1)))
      (if n = 0 then f.x else data.getLsbD (min (n - 1) (size.bits - 1))) false
      (if n = 0 then false else data.getLsbD (min (n - 1) (size.bits - 1))) := by
  have top := size.bits_pos
  have fits := size.bits_le
  by_cases all : n ≥ size.bits
  · have nonzero : n ≠ 0 := by omega
    simp only [asr, if_pos all, sign_value, if_neg nonzero]
    rw [Nat.min_eq_right (by omega : size.bits - 1 ≤ n - 1)]
    refine isResult_of rfl ?_ (flagBit_sign _) rfl (flagBit_sign _)
    intro i inside
    rw [BitVec.getLsbD_and, Size.bitMask_bit, neg_sign_bit _ (by omega),
      Nat.min_eq_right (by omega)]
    simp [inside]
  by_cases some : n > 0
  · have nonzero : n ≠ 0 := by omega
    simp only [asr, if_neg all, if_pos some, sign_value, if_neg nonzero]
    have carry : flagBit (size.cast data >>> (n - 1) &&& 1) =
        data.getLsbD (min (n - 1) (size.bits - 1)) := by
      rw [Nat.min_eq_left (by omega), ← cast_bit_of_lt (by omega : n - 1 < size.bits)]
      exact (flagBit_one _).trans (by rw [BitVec.getLsbD_ushiftRight, Nat.add_zero])
    refine isResult_of rfl ?_ carry rfl carry
    intro i inside
    simp only [BitVec.getLsbD_and, BitVec.getLsbD_or, BitVec.getLsbD_ushiftRight,
      BitVec.getLsbD_shiftLeft, Size.bitMask_bit, neg_sign_bit _ (show i < 32 by omega)]
    by_cases shifted : i + n < size.bits
    · rw [Nat.min_eq_left (by omega), cast_bit_of_lt (by omega)]
      simp [inside, show i < size.bits - n by omega, show n - 1 + (1 + i) = i + n by omega]
    · rw [Nat.min_eq_right (by omega), cast_bit_of_ge (by omega)]
      simp [inside, show ¬ i < size.bits - n by omega, show i < 32 by omega,
        show i - (size.bits - n) < size.bits by omega]
  · simp only [asr, if_neg all, if_neg some]
    obtain rfl : n = 0 := by omega
    refine isResult_of rfl ?_ rfl rfl rfl
    intro i inside
    rw [cast_bit_of_lt inside, Nat.add_zero, Nat.min_eq_left (by omega)]

theorem lsr_isResult (n : Nat) :
    IsResult size (lsr size n data f) (fun i => (size.cast data).getLsbD (i + n))
      (if n = 0 then f.x else (size.cast data).getLsbD (n - 1)) false
      (if n = 0 then false else (size.cast data).getLsbD (n - 1)) := by
  have top := size.bits_pos
  by_cases all : n ≥ size.bits
  · have nonzero : n ≠ 0 := by omega
    simp only [lsr, if_pos all, if_neg nonzero]
    have carry : flagBit (flagValue (decide (n = size.bits)) &&&
        size.cast data >>> (size.bits - 1)) = (size.cast data).getLsbD (n - 1) := by
      by_cases exact_size : n = size.bits
      · simp [exact_size, flagValue, flagBit]
      · rw [cast_bit_of_ge (by omega)]
        simp [exact_size, flagValue, flagBit]
    refine isResult_of rfl ?_ carry rfl carry
    intro i inside
    rw [cast_bit_of_ge (by omega)]
    simp
  by_cases some : n > 0
  · have nonzero : n ≠ 0 := by omega
    simp only [lsr, if_neg all, if_pos some, if_neg nonzero]
    have carry : flagBit (size.cast data >>> (n - 1) &&& 1) = (size.cast data).getLsbD (n - 1) :=
      (flagBit_one _).trans (by rw [BitVec.getLsbD_ushiftRight, Nat.add_zero])
    refine isResult_of rfl ?_ carry rfl carry
    intro i inside
    rw [BitVec.getLsbD_ushiftRight, BitVec.getLsbD_ushiftRight]
    congr 1
    omega
  · simp only [lsr, if_neg all, if_neg some]
    obtain rfl : n = 0 := by omega
    exact isResult_of rfl (fun _ _ => rfl) rfl rfl rfl

variable {n : Nat}

theorem flagBit_shiftLeft_cmask (few : n < size.bits) :
    flagBit ((size.cast data <<< n &&& size.cmask) >>> (size.bits - 1)) = fromTop size data n := by
  have fits := size.bits_le
  rw [flagBit_cmask, BitVec.getLsbD_shiftLeft, cast_bit_of_lt (by omega), fromTop]
  simp [few, show size.bits - 1 < 32 by omega, show ¬ size.bits - 1 < n by omega]

theorem flagBit_last (all : size.bits ≤ n) :
    flagBit (if n = size.bits then size.cast data &&& 1 else 0) = fromTop size data (n - 1) := by
  have top := size.bits_pos
  by_cases exact_size : n = size.bits
  · rw [if_pos exact_size, exact_size]
    refine (flagBit_one _).trans ?_
    rw [cast_bit_of_lt top, fromTop, Nat.sub_self]
    simp [show size.bits - 1 < size.bits by omega]
  · rw [if_neg exact_size, fromTop]
    simp [show ¬ n - 1 < size.bits by omega, flagBit]

theorem shiftLeft_bits {i : Nat} (some : 0 < n) (inside : i < size.bits) :
    (size.cast data <<< (n - 1) <<< 1 &&& size.bitMask).getLsbD i =
      (decide (n ≤ i) && data.getLsbD (i - n)) := by
  have fits := size.bits_le
  simp only [BitVec.getLsbD_and, BitVec.getLsbD_shiftLeft, Size.bitMask_bit]
  by_cases low : n ≤ i
  · rw [cast_bit_of_lt (by omega)]
    simp [low, inside, show i < 32 by omega, show ¬ i < 1 by omega, show i - 1 < 32 by omega,
      show ¬ i - 1 < n - 1 by omega, show i - 1 - (n - 1) = i - n by omega]
  · by_cases first : i = 0
    · simp [first, show ¬ n = 0 by omega]
    · simp [low, show i - 1 < n - 1 by omega]

theorem lsl_isResult (n : Nat) :
    IsResult size (lsl size n data f) (fun i => decide (n ≤ i) && data.getLsbD (i - n))
      (if n = 0 then f.x else fromTop size data (n - 1)) false
      (if n = 0 then false else fromTop size data (n - 1)) := by
  have top := size.bits_pos
  by_cases all : n ≥ size.bits
  · have nonzero : n ≠ 0 := by omega
    simp only [lsl, if_pos all, if_neg nonzero]
    refine isResult_of rfl ?_ (flagBit_last size data all) rfl (flagBit_last size data all)
    intro i inside
    simp [show ¬ n ≤ i by omega]
  by_cases some : n > 0
  · have nonzero : n ≠ 0 := by omega
    simp only [lsl, if_neg all, if_pos some, if_neg nonzero]
    have carry := flagBit_shiftLeft_cmask size data (show n - 1 < size.bits by omega)
    exact isResult_of rfl (fun i inside => shiftLeft_bits size data some inside) carry rfl carry
  · simp only [lsl, if_neg all, if_neg some]
    obtain rfl : n = 0 := by omega
    refine isResult_of rfl ?_ rfl rfl rfl
    intro i inside
    simp [cast_bit_of_lt inside]

theorem xor_eq_false_iff (a b : Bool) : (a ^^ b) = false ↔ a = b := by
  cases a <;> cases b <;> simp

theorem signChanges_eq_false_iff (n : Nat) :
    signChanges size data n = false ↔ ∀ k ≤ n, fromTop size data k = fromTop size data 0 := by
  induction n with
  | zero =>
    constructor
    · rintro - k none
      rw [Nat.le_zero.mp none]
    · exact fun _ => rfl
  | succ n ih =>
    rw [signChanges, Bool.or_eq_false_iff, ih, xor_eq_false_iff]
    constructor
    · rintro ⟨before, last⟩ k upto
      rcases Nat.le_succ_iff.mp upto with earlier | now
      · exact before k earlier
      · rw [now, ← last]
        exact before n (Nat.le_refl n)
    · intro same
      exact ⟨fun k upto => same k (Nat.le_succ_of_le upto),
        (same n (Nat.le_succ n)).trans (same (n + 1) (Nat.le_refl _)).symm⟩

theorem fromTop_of_bit {i : Nat} (inside : i < size.bits) :
    fromTop size data (size.bits - 1 - i) = (size.cast data).getLsbD i := by
  rw [fromTop, cast_bit_of_lt inside, show size.bits - 1 - (size.bits - 1 - i) = i by omega]
  simp [show size.bits - 1 - i < size.bits by omega]

/-- When everything is shifted out, the sign has stayed the same only if all was zero. -/
theorem signChanges_of_all (all : size.bits ≤ n) :
    decide (size.cast data ≠ 0) = signChanges size data n := by
  have top := size.bits_pos
  apply Bool.eq_iff_iff.mpr
  rw [decide_eq_true_iff, ← Bool.not_eq_false, signChanges_eq_false_iff]
  apply not_congr
  have out : fromTop size data size.bits = false := by simp [fromTop]
  constructor
  · intro zero k _
    have clear (k : Nat) : fromTop size data k = false := by
      by_cases inside : k < size.bits
      · have bit := fromTop_of_bit size data (show size.bits - 1 - k < size.bits by omega)
        rw [show size.bits - 1 - (size.bits - 1 - k) = k by omega, zero] at bit
        rw [bit]
        simp
      · simp [fromTop, inside]
    rw [clear, clear]
  · intro same
    apply BitVec.eq_of_getLsbD_eq
    intro i _
    by_cases inside : i < size.bits
    · rw [← fromTop_of_bit size data inside, same _ (by omega), ← same _ all, out]
      simp
    · rw [cast_bit_of_ge (by omega)]
      simp

theorem aslMask_bit (n i : Nat) :
    (size.bitMask <<< (size.bits - 1 - n) &&& size.bitMask).getLsbD i =
      decide (size.bits - 1 - n ≤ i ∧ i < size.bits) := by
  have fits := size.bits_le
  simp only [BitVec.getLsbD_and, BitVec.getLsbD_shiftLeft, Size.bitMask_bit]
  by_cases inside : i < size.bits
  · by_cases high : size.bits - 1 - n ≤ i
    · simp [inside, high, show i < 32 by omega, show ¬ i < size.bits - 1 - n by omega,
        show i - (size.bits - 1 - n) < size.bits by omega]
    · simp [high, show i < size.bits - 1 - n by omega]
  · simp [inside]

/-- The upper bits of the operand, counted from the sign and counted from the low end. -/
theorem forall_fromTop_iff (few : n < size.bits) (value : Bool) :
    (∀ k ≤ n, fromTop size data k = value) ↔
      ∀ i, size.bits - 1 - n ≤ i ∧ i < size.bits → (size.cast data).getLsbD i = value := by
  constructor
  · rintro upper i ⟨high, inside⟩
    rw [← fromTop_of_bit size data inside]
    exact upper _ (by omega)
  · intro upper k upto
    have bit := fromTop_of_bit size data (show size.bits - 1 - k < size.bits by omega)
    rw [show size.bits - 1 - (size.bits - 1 - k) = k by omega] at bit
    rw [bit]
    exact upper _ (by omega)

theorem signChanges_of_some (few : n < size.bits) :
    (decide (size.cast data &&& (size.bitMask <<< (size.bits - 1 - n) &&& size.bitMask) ≠
        size.bitMask <<< (size.bits - 1 - n) &&& size.bitMask) &&
      decide (size.cast data &&& (size.bitMask <<< (size.bits - 1 - n) &&& size.bitMask) ≠ 0)) =
        signChanges size data n := by
  have top := size.bits_pos
  generalize whole : size.bitMask <<< (size.bits - 1 - n) &&& size.bitMask = mask
  have maskBit (i : Nat) : mask.getLsbD i = decide (size.bits - 1 - n ≤ i ∧ i < size.bits) := by
    rw [← whole, aslMask_bit]
  have ones : size.cast data &&& mask = mask ↔ ∀ k ≤ n, fromTop size data k = true := by
    rw [forall_fromTop_iff size data few]
    constructor
    · intro equal i upper
      have bit := congrArg (BitVec.getLsbD · i) equal
      simpa [maskBit, upper] using bit
    · intro set
      apply BitVec.eq_of_getLsbD_eq
      intro i _
      rw [BitVec.getLsbD_and, maskBit]
      by_cases upper : size.bits - 1 - n ≤ i ∧ i < size.bits
      · simp [set i upper]
      · rw [decide_eq_false upper, Bool.and_false]
  have zeros : size.cast data &&& mask = 0 ↔ ∀ k ≤ n, fromTop size data k = false := by
    rw [forall_fromTop_iff size data few]
    constructor
    · intro equal i upper
      have bit := congrArg (BitVec.getLsbD · i) equal
      simpa [maskBit, upper] using bit
    · intro clear
      apply BitVec.eq_of_getLsbD_eq
      intro i _
      rw [BitVec.getLsbD_and, maskBit]
      by_cases upper : size.bits - 1 - n ≤ i ∧ i < size.bits
      · simp [clear i upper]
      · rw [decide_eq_false upper, Bool.and_false]
        simp
  apply Bool.eq_iff_iff.mpr
  rw [Bool.and_eq_true, decide_eq_true_iff, decide_eq_true_iff, Ne, Ne, ones, zeros,
    ← Bool.not_eq_false, signChanges_eq_false_iff]
  constructor
  · rintro ⟨notOnes, notZeros⟩ same
    cases sign : fromTop size data 0 with
    | false => exact notZeros fun k upto => (same k upto).trans sign
    | true => exact notOnes fun k upto => (same k upto).trans sign
  · intro changes
    exact ⟨fun all => changes fun k upto => (all k upto).trans (all 0 (Nat.zero_le n)).symm,
      fun all => changes fun k upto => (all k upto).trans (all 0 (Nat.zero_le n)).symm⟩

theorem asl_isResult (n : Nat) :
    IsResult size (asl size n data f) (fun i => decide (n ≤ i) && data.getLsbD (i - n))
      (if n = 0 then f.x else fromTop size data (n - 1)) (signChanges size data n)
      (if n = 0 then false else fromTop size data (n - 1)) := by
  have top := size.bits_pos
  by_cases all : n ≥ size.bits
  · have nonzero : n ≠ 0 := by omega
    simp only [asl, if_pos all, if_neg nonzero]
    refine isResult_of rfl ?_ (flagBit_last size data all) (signChanges_of_all size data all)
      (flagBit_last size data all)
    intro i inside
    simp [show ¬ n ≤ i by omega]
  by_cases some : n > 0
  · have nonzero : n ≠ 0 := by omega
    simp only [asl, if_neg all, if_pos some, if_neg nonzero]
    have carry := flagBit_shiftLeft_cmask size data (show n - 1 < size.bits by omega)
    exact isResult_of rfl (fun i inside => shiftLeft_bits size data some inside) carry
      (signChanges_of_some size data (by omega)) carry
  · simp only [asl, if_neg all, if_neg some]
    obtain rfl : n = 0 := by omega
    refine isResult_of rfl ?_ rfl rfl rfl
    intro i inside
    simp [cast_bit_of_lt inside]

theorem and_bits_sub_one (n : Nat) : n &&& (size.bits - 1) = n % size.bits := by
  cases size
  · exact Nat.and_two_pow_sub_one_eq_mod n 3
  · exact Nat.and_two_pow_sub_one_eq_mod n 4
  · exact Nat.and_two_pow_sub_one_eq_mod n 5

theorem rol_isResult (n : Nat) :
    IsResult size (rol size n data f)
      (fun i => data.getLsbD ((i + (size.bits - 1) * n) % size.bits)) f.x false
      (if n = 0 then false else data.getLsbD (((size.bits - 1) * n) % size.bits)) := by
  have top := size.bits_pos
  have fits := size.bits_le
  by_cases some : n > 0
  · have few : n % size.bits < size.bits := Nat.mod_lt n top
    have bits : ∀ i < size.bits, ((size.cast data <<< (n % size.bits) |||
        size.cast data >>> (size.bits - n % size.bits)) &&& size.bitMask).getLsbD i =
          data.getLsbD ((i + (size.bits - 1) * n) % size.bits) := by
      intro i inside
      simp only [BitVec.getLsbD_and, BitVec.getLsbD_or, BitVec.getLsbD_shiftLeft,
        BitVec.getLsbD_ushiftRight, Size.bitMask_bit]
      by_cases wrapped : i < n % size.bits
      · have place : (i + (size.bits - 1) * n) % size.bits = size.bits - n % size.bits + i := by
          cases size <;> simp only [Size.bits] at inside wrapped ⊢ <;> omega
        rw [place, cast_bit_of_lt (by omega)]
        have low : size.bits - n % size.bits + i < size.bits := by omega
        simp [wrapped, inside, cast_bit_of_lt low]
      · have place : (i + (size.bits - 1) * n) % size.bits = i - n % size.bits := by
          cases size <;> simp only [Size.bits] at inside wrapped ⊢ <;> omega
        rw [place, cast_bit_of_lt (by omega), cast_bit_of_ge (by omega)]
        simp [wrapped, inside, show i < 32 by omega]
    have nonzero : n ≠ 0 := by omega
    simp only [rol, if_pos some, and_bits_sub_one, if_neg nonzero]
    have carry := (flagBit_one _).trans (bits 0 top)
    rw [Nat.zero_add] at carry
    exact isResult_of rfl bits rfl rfl carry
  · simp only [rol, if_neg some]
    obtain rfl : n = 0 := by omega
    refine isResult_of rfl ?_ rfl rfl rfl
    intro i inside
    rw [cast_bit_of_lt inside, Nat.mul_zero, Nat.add_zero, Nat.mod_eq_of_lt inside]

theorem ror_isResult (n : Nat) :
    IsResult size (ror size n data f) (fun i => data.getLsbD ((i + n) % size.bits)) f.x false
      (if n = 0 then false else data.getLsbD ((size.bits - 1 + n) % size.bits)) := by
  have top := size.bits_pos
  have fits := size.bits_le
  by_cases some : n > 0
  · have few : n % size.bits < size.bits := Nat.mod_lt n top
    have bits : ∀ i < size.bits, ((size.cast data >>> (n % size.bits) |||
        size.cast data <<< (size.bits - n % size.bits)) &&& size.bitMask).getLsbD i =
          data.getLsbD ((i + n) % size.bits) := by
      intro i inside
      simp only [BitVec.getLsbD_and, BitVec.getLsbD_or, BitVec.getLsbD_shiftLeft,
        BitVec.getLsbD_ushiftRight, Size.bitMask_bit]
      by_cases wrapped : n % size.bits + i < size.bits
      · have place : (i + n) % size.bits = n % size.bits + i := by
          cases size <;> simp only [Size.bits] at inside wrapped ⊢ <;> omega
        rw [place, cast_bit_of_lt wrapped]
        simp [inside, show i < size.bits - n % size.bits by omega]
      · have place : (i + n) % size.bits = i - (size.bits - n % size.bits) := by
          cases size <;> simp only [Size.bits] at inside wrapped ⊢ <;> omega
        rw [place, cast_bit_of_ge (by omega), cast_bit_of_lt (by omega)]
        simp [inside, show i < 32 by omega, show ¬ i < size.bits - n % size.bits by omega]
    have nonzero : n ≠ 0 := by omega
    simp only [ror, if_pos some, and_bits_sub_one, if_neg nonzero]
    have carry := (flagBit_cmask size _).trans (bits (size.bits - 1) (by omega))
    exact isResult_of rfl bits rfl rfl carry
  · simp only [ror, if_neg some]
    obtain rfl : n = 0 := by omega
    refine isResult_of rfl ?_ rfl rfl rfl
    intro i inside
    rw [cast_bit_of_lt inside, Nat.add_zero, Nat.mod_eq_of_lt inside]

/-- `force_range_for_rox` is a remainder for the counts there are. -/
theorem forceRangeForRox_eq (small : n < 64) : forceRangeForRox size n = n % (size.bits + 1) := by
  cases size <;> simp only [forceRangeForRox, Size.bits] <;> grind

theorem flagValue_bit (x : Bool) (i : Nat) : (flagValue x).getLsbD i = (decide (i = 0) && x) := by
  cases x with
  | false => simp [flagValue]
  | true => by_cases low : i = 0 <;> simp [flagValue, low]

theorem roxl_isResult (small : n < 64) :
    IsResult size (roxl size n data f)
      (fun i => withExtend size data f.x ((i + size.bits * n) % (size.bits + 1)))
      (withExtend size data f.x ((size.bits + size.bits * n) % (size.bits + 1))) false
      (withExtend size data f.x ((size.bits + size.bits * n) % (size.bits + 1))) := by
  have fits := size.bits_le
  generalize turn : n % (size.bits + 1) = k
  have few : k < size.bits + 1 := turn ▸ Nat.mod_lt n (by omega)
  -- The place in the operand and X a bit comes from.
  have place (i : Nat) (inside : i ≤ size.bits) : (i + size.bits * n) % (size.bits + 1) =
      if k ≤ i then i - k else size.bits + 1 - k + i := by
    cases size <;> simp only [Size.bits] at inside turn ⊢ <;> grind
  have carryPlace := place size.bits (Nat.le_refl _)
  rw [if_pos (by omega)] at carryPlace
  by_cases some : k > 0
  · have carry : flagBit (size.cast data >>> (size.bits - 1 - (k - 1)) &&& 1) =
        withExtend size data f.x ((size.bits + size.bits * n) % (size.bits + 1)) := by
      refine (flagBit_one _).trans ?_
      rw [BitVec.getLsbD_ushiftRight, cast_bit_of_lt (by omega), carryPlace, withExtend,
        if_neg (by omega)]
      congr 1
      omega
    simp only [roxl, forceRangeForRox_eq size small, turn, if_pos some]
    refine isResult_of rfl ?_ carry rfl carry
    intro i inside
    simp only [BitVec.getLsbD_and, BitVec.getLsbD_or, BitVec.getLsbD_shiftLeft,
      BitVec.getLsbD_ushiftRight, Size.bitMask_bit, flagValue_bit, Flags.clearCZNV]
    rw [place i (by omega)]
    by_cases low : k ≤ i
    · have left : (size.cast data).getLsbD (i - (k - 1) - 1) = data.getLsbD (i - k) := by
        rw [cast_bit_of_lt (by omega)]
        congr 1
        omega
      have beyond : (size.cast data).getLsbD (size.bits - 1 - (k - 1) + (1 + i)) = false :=
        cast_bit_of_ge (by omega)
      rw [if_pos low, withExtend, if_neg (by omega), left, beyond]
      simp [inside, show i < 32 by omega, show ¬ i < k - 1 by omega,
        show i - (k - 1) < 32 by omega, show ¬ i - (k - 1) < 1 by omega,
        show ¬ i - (k - 1) = 0 by omega]
    by_cases extend : i = k - 1
    · have beyond : (size.cast data).getLsbD (size.bits - 1 - (k - 1) + (1 + i)) = false :=
        cast_bit_of_ge (by omega)
      rw [if_neg low, withExtend, if_pos (by omega), beyond]
      simp [inside, ← extend, show i < 32 by omega]
    · have wrapped : (size.cast data).getLsbD (size.bits - 1 - (k - 1) + (1 + i)) =
          data.getLsbD (size.bits + 1 - k + i) := by
        rw [cast_bit_of_lt (by omega)]
        congr 1
        omega
      rw [if_neg low, withExtend, if_neg (by omega), wrapped]
      simp [inside, show i < k - 1 by omega]
  · simp only [roxl, forceRangeForRox_eq size small, turn, if_neg some]
    have none : k = 0 := by omega
    have own : withExtend size data f.x ((size.bits + size.bits * n) % (size.bits + 1)) = f.x := by
      rw [carryPlace, withExtend, if_pos (by omega)]
    refine isResult_of rfl ?_ own.symm rfl own.symm
    intro i inside
    rw [cast_bit_of_lt inside, place i (by omega), if_pos (by omega), withExtend,
      if_neg (by omega), none, Nat.sub_zero]

theorem roxr_isResult (small : n < 64) :
    IsResult size (roxr size n data f)
      (fun i => withExtend size data f.x ((i + n) % (size.bits + 1)))
      (withExtend size data f.x ((size.bits + n) % (size.bits + 1))) false
      (withExtend size data f.x ((size.bits + n) % (size.bits + 1))) := by
  have fits := size.bits_le
  generalize turn : n % (size.bits + 1) = k
  have few : k < size.bits + 1 := turn ▸ Nat.mod_lt n (by omega)
  have place (i : Nat) (inside : i ≤ size.bits) : (i + n) % (size.bits + 1) =
      if i + k ≤ size.bits then i + k else i + k - (size.bits + 1) := by
    cases size <;> simp only [Size.bits] at inside turn ⊢ <;> grind
  have carryPlace := place size.bits (Nat.le_refl _)
  by_cases some : k > 0
  · rw [if_neg (by omega)] at carryPlace
    have carry : flagBit (size.cast data >>> (k - 1) &&& 1) =
        withExtend size data f.x ((size.bits + n) % (size.bits + 1)) := by
      refine (flagBit_one _).trans ?_
      rw [BitVec.getLsbD_ushiftRight, cast_bit_of_lt (by omega), carryPlace, withExtend,
        if_neg (by omega)]
      congr 1
      omega
    simp only [roxr, forceRangeForRox_eq size small, turn, if_pos some]
    refine isResult_of rfl ?_ carry rfl carry
    intro i inside
    simp only [BitVec.getLsbD_and, BitVec.getLsbD_or, BitVec.getLsbD_shiftLeft,
      BitVec.getLsbD_ushiftRight, Size.bitMask_bit, flagValue_bit, Flags.clearCZNV]
    rw [place i (by omega)]
    by_cases high : i + k < size.bits
    · rw [if_pos (by omega), withExtend, if_neg (by omega), cast_bit_of_lt (by omega)]
      simp [inside, show i < size.bits - 1 - (k - 1) by omega]
      congr 1
      omega
    by_cases extend : i + k = size.bits
    · rw [if_pos (by omega), withExtend, if_pos extend, cast_bit_of_ge (by omega)]
      simp [inside, show i < 32 by omega, show ¬ i < size.bits - 1 - (k - 1) by omega,
        show i - (size.bits - 1 - (k - 1)) = 0 by omega]
    · rw [if_neg (by omega), withExtend, if_neg (by omega), cast_bit_of_ge (by omega),
        cast_bit_of_lt (by omega)]
      simp [inside, show i < 32 by omega, show ¬ i < size.bits - 1 - (k - 1) by omega,
        show ¬ i - (size.bits - 1 - (k - 1)) = 0 by omega,
        show i - (size.bits - 1 - (k - 1)) < 32 by omega,
        show ¬ i - (size.bits - 1 - (k - 1)) < 1 by omega,
        show i - (size.bits - 1 - (k - 1)) - 1 = i + k - (size.bits + 1) by omega]
  · simp only [roxr, forceRangeForRox_eq size small, turn, if_neg some]
    have none : k = 0 := by omega
    have own : withExtend size data f.x ((size.bits + n) % (size.bits + 1)) = f.x := by
      rw [carryPlace, if_pos (by omega), withExtend, if_pos (by omega)]
    refine isResult_of rfl ?_ own.symm rfl own.symm
    intro i inside
    rw [cast_bit_of_lt inside, place i (by omega), if_pos (by omega), withExtend,
      if_neg (by omega), none, Nat.add_zero]

/-- A shift of a register is as many shifts by one as the count says. -/
theorem shiftRegister_eq_steps (op : ShiftOp) (size : Size) (data : BitVec 32) (f : Flags)
    (small : n < 64) : shiftRegister op size n data f = steps op size data f n := by
  cases op with
  | asr => exact (asr_isResult size data f n).unique (asr_steps size data f n)
  | asl => exact (asl_isResult size data f n).unique (asl_steps size data f n)
  | lsr => exact (lsr_isResult size data f n).unique (lsr_steps size data f n)
  | lsl => exact (lsl_isResult size data f n).unique (lsl_steps size data f n)
  | rol => exact (rol_isResult size data f n).unique (rol_steps size data f n)
  | ror => exact (ror_isResult size data f n).unique (ror_steps size data f n)
  | roxl => exact (roxl_isResult size data f small).unique (roxl_steps size data f n)
  | roxr => exact (roxr_isResult size data f small).unique (roxr_steps size data f n)

/-- The handler, for any registers: the count is the low six bits of the count register. -/
theorem shiftHandler_eq_steps (op : ShiftOp) (size : Size) (srcreg dstreg : BitVec 3)
    (regs : Regs) :
    shiftHandler op size srcreg dstreg regs =
      let shifted := steps op size (regs.dreg dstreg) regs.flags ((regs.dreg srcreg).toNat % 64)
      { regs.setDreg dstreg (regs.dreg dstreg &&& ~~~size.bitMask ||| shifted.1) with
        flags := shifted.2 } := by
  have count : (regs.dreg srcreg &&& 63).toNat = (regs.dreg srcreg).toNat % 64 := by
    rw [BitVec.toNat_and]
    exact Nat.and_two_pow_sub_one_eq_mod _ 6
  unfold shiftHandler
  dsimp only
  rw [count, shiftRegister_eq_steps op size _ _ (Nat.mod_lt _ (by decide))]

end BasiliskII.Cpu
