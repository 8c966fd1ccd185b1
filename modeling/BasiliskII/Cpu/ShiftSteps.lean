import BasiliskII.Cpu.Shifts

/-!
# Shifts by one bit

What the memory forms do to each bit and to the flags, and what any number of
them does. V of ASL counts the changes of the sign on the way.
-/
namespace BasiliskII.Cpu

theorem Size.cmask_bit (size : Size) (i : Nat) :
    size.cmask.getLsbD i = decide (i = size.bits - 1) := by
  have mask : size.cmask = BitVec.twoPow 32 (size.bits - 1) := by cases size <;> rfl
  have inside : size.bits - 1 < 32 := by cases size <;> decide
  rw [mask, BitVec.getLsbD_twoPow]
  by_cases top : i = size.bits - 1
  · simp [top, inside]
  · simp [top, Ne.symm top]

theorem Size.cast_bit (size : Size) (data : BitVec 32) (i : Nat) :
    (size.cast data).getLsbD i = (decide (i < size.bits) && data.getLsbD i) := by
  rw [Size.cast, BitVec.getLsbD_and, Size.bitMask_bit, Bool.and_comm]

/-- The sign bit is taken out by `cmask`. -/
theorem and_cmask (size : Size) (val : BitVec 32) :
    val &&& size.cmask = if val.getLsbD (size.bits - 1) then size.cmask else 0 := by
  apply BitVec.eq_of_getLsbD_eq
  intro i inside
  rw [BitVec.getLsbD_and, Size.cmask_bit]
  by_cases top : i = size.bits - 1
  · subst top
    cases bit : val.getLsbD (size.bits - 1) <;> simp [Size.cmask_bit]
  · cases bit : val.getLsbD (size.bits - 1) <;> simp [Size.cmask_bit, top]

theorem cmask_ne_zero (size : Size) : size.cmask ≠ 0#32 := by cases size <;> decide

theorem and_cmask_ne_zero (size : Size) (val : BitVec 32) :
    (val &&& size.cmask ≠ 0#32) = (val.getLsbD (size.bits - 1) = true) := by
  rw [and_cmask]
  cases val.getLsbD (size.bits - 1) <;> simp [cmask_ne_zero]

/-- What is left in the end: the operand, cast to its size, and Z and N from it. -/
def result (size : Size) (val : BitVec 32) (x v c : Bool) : Shifted :=
  (size.cast val, (⟨x, false, false, v, c⟩ : Flags).setZN size val)

/-- The bits of a result, and the flags that are not read off its operand. -/
def IsResult (size : Size) (r : Shifted) (bit : Nat → Bool) (x v c : Bool) : Prop :=
  ∃ val, r = result size val x v c ∧ ∀ i < size.bits, val.getLsbD i = bit i

variable {size : Size} {r : Shifted} {bit : Nat → Bool}

theorem IsResult.unique {s : Shifted} {x v c : Bool} (left : IsResult size r bit x v c)
    (right : IsResult size s bit x v c) : r = s := by
  obtain ⟨val, rfl, bits⟩ := left
  obtain ⟨val', rfl, bits'⟩ := right
  have casts : size.cast val = size.cast val' := by
    apply BitVec.eq_of_getLsbD_eq
    intro i _
    rw [Size.cast_bit, Size.cast_bit]
    by_cases inside : i < size.bits
    · rw [bits i inside, bits' i inside]
    · simp [inside]
  have top := size.bits_pos
  have signs : val.getLsbD (size.bits - 1) = val'.getLsbD (size.bits - 1) := by
    rw [bits _ (by omega), bits' _ (by omega)]
  simp only [result, Flags.setZN, casts, and_cmask, signs]

theorem isResult_of {val : BitVec 32} {x x' v v' c c' : Bool} (whole : r = result size val x' v' c')
    (bits : ∀ i < size.bits, val.getLsbD i = bit i) (extend : x' = x) (overflow : v' = v)
    (carry : c' = c) : IsResult size r bit x v c := by
  subst extend overflow carry
  exact ⟨val, whole, bits⟩

theorem flagBit_one (val : BitVec 32) : flagBit (val &&& 1#32) = val.getLsbD 0 := by
  simp [flagBit]

theorem flagBit_cmask (size : Size) (val : BitVec 32) :
    flagBit ((val &&& size.cmask) >>> (size.bits - 1)) = val.getLsbD (size.bits - 1) := by
  simp [flagBit, Size.cmask_bit]

theorem and_one_ne_zero (val : BitVec 32) : (val &&& 1#32 ≠ 0#32) = (val.getLsbD 0 = true) := by
  rw [BitVec.and_one_eq_setWidth_ofBool_getLsbD]
  cases val.getLsbD 0 <;> simp

-- One step of each instruction.

variable {i : Nat}

theorem cast_bit_of_lt {data : BitVec 32} (inside : i < size.bits) :
    (size.cast data).getLsbD i = data.getLsbD i := by
  rw [Size.cast_bit]
  simp [inside]

theorem cast_bit_of_ge {data : BitVec 32} (outside : size.bits ≤ i) :
    (size.cast data).getLsbD i = false := by
  rw [Size.cast_bit]
  simp [Nat.not_lt.mpr outside]

theorem asrw_isResult (size : Size) (data : BitVec 32) (f : Flags) :
    IsResult size (asrw size data f) (fun i => data.getLsbD (min (i + 1) (size.bits - 1)))
      (data.getLsbD 0) false (data.getLsbD 0) := by
  have top := size.bits_pos
  have carry : flagBit (size.cast data &&& 1) = data.getLsbD 0 :=
    (flagBit_one _).trans (cast_bit_of_lt top)
  refine isResult_of rfl ?_ carry rfl carry
  intro i inside
  simp only [BitVec.getLsbD_or, BitVec.getLsbD_ushiftRight, BitVec.getLsbD_and, Size.cmask_bit]
  by_cases sign : i = size.bits - 1
  · rw [cast_bit_of_ge (by omega : size.bits ≤ 1 + i), cast_bit_of_lt inside]
    simp [sign]
  · rw [cast_bit_of_lt (by omega : 1 + i < size.bits)]
    simp [sign, Nat.add_comm 1 i, Nat.min_eq_left (by omega : i + 1 ≤ size.bits - 1)]

theorem lsrw_isResult (size : Size) (data : BitVec 32) (f : Flags) :
    IsResult size (lsrw size data f) (fun i => (size.cast data).getLsbD (i + 1))
      (data.getLsbD 0) false (data.getLsbD 0) := by
  have carry : flagBit (size.cast data &&& 1) = data.getLsbD 0 :=
    (flagBit_one _).trans (cast_bit_of_lt size.bits_pos)
  refine isResult_of rfl ?_ carry rfl carry
  intro i inside
  rw [BitVec.getLsbD_ushiftRight, Nat.add_comm]

theorem shiftLeft_one_bit (size : Size) (data : BitVec 32) (inside : i < size.bits) :
    (size.cast data <<< 1).getLsbD i = (decide (0 < i) && data.getLsbD (i - 1)) := by
  have fits := size.bits_le
  rw [BitVec.getLsbD_shiftLeft, cast_bit_of_lt (by omega : i - 1 < size.bits)]
  by_cases first : i = 0
  · simp [first]
  · simp [show i < 32 by omega, show ¬ i < 1 by omega, Nat.pos_of_ne_zero first]

theorem lslw_isResult (size : Size) (data : BitVec 32) (f : Flags) :
    IsResult size (lslw size data f) (fun i => decide (0 < i) && data.getLsbD (i - 1))
      (data.getLsbD (size.bits - 1)) false (data.getLsbD (size.bits - 1)) := by
  have top := size.bits_pos
  have carry : flagBit ((size.cast data &&& size.cmask) >>> (size.bits - 1)) =
      data.getLsbD (size.bits - 1) :=
    (flagBit_cmask size _).trans (cast_bit_of_lt (by omega))
  refine isResult_of rfl ?_ carry rfl carry
  intro i inside
  rw [cast_bit_of_lt inside, shiftLeft_one_bit size data inside]

theorem aslw_isResult (size : Size) (data : BitVec 32) (f : Flags) :
    IsResult size (aslw size data f) (fun i => decide (0 < i) && data.getLsbD (i - 1))
      (data.getLsbD (size.bits - 1))
      (data.getLsbD (size.bits - 1) ^^ data.getLsbD (size.bits - 2))
      (data.getLsbD (size.bits - 1)) := by
  have several : 1 < size.bits := by cases size <;> decide
  have sign : (size.cast data).getLsbD (size.bits - 1) = data.getLsbD (size.bits - 1) :=
    cast_bit_of_lt (by omega)
  have sign2 : (size.cast data <<< 1).getLsbD (size.bits - 1) = data.getLsbD (size.bits - 2) := by
    rw [shiftLeft_one_bit size data (by omega), Nat.sub_sub]
    simp [show 0 < size.bits - 1 by omega]
  have carry : decide (size.cmask &&& size.cast data ≠ 0) = data.getLsbD (size.bits - 1) := by
    rw [BitVec.and_comm, ← sign]
    simp only [BitVec.ofNat_eq_ofNat, and_cmask_ne_zero, Bool.decide_eq_true]
  have overflow : (false || decide (size.cmask &&& size.cast data <<< 1 ≠
      size.cmask &&& size.cast data)) =
        (data.getLsbD (size.bits - 1) ^^ data.getLsbD (size.bits - 2)) := by
    rw [BitVec.and_comm, and_cmask, BitVec.and_comm, and_cmask, sign, sign2]
    cases data.getLsbD (size.bits - 1) <;> cases data.getLsbD (size.bits - 2) <;>
      simp [cmask_ne_zero, Ne.symm (cmask_ne_zero size)]
  refine isResult_of rfl ?_ carry overflow carry
  intro i inside
  exact shiftLeft_one_bit size data inside

theorem cast_shiftLeft_or_one_bit (size : Size) (data : BitVec 32) (low : Bool)
    (inside : i < size.bits) :
    (if low then size.cast (size.cast data <<< 1) ||| 1
        else size.cast (size.cast data <<< 1)).getLsbD i
      = if i = 0 then low else data.getLsbD (i - 1) := by
  have shifted := shiftLeft_one_bit size data inside
  have fits := size.bits_le
  cases low with
  | false =>
    rw [if_neg Bool.false_ne_true, cast_bit_of_lt inside, shifted]
    by_cases first : i = 0
    · simp [first]
    · simp [first, Nat.pos_of_ne_zero first]
  | true =>
    rw [if_pos rfl, BitVec.getLsbD_or, cast_bit_of_lt inside, shifted]
    by_cases first : i = 0
    · simp [first]
    · simp [first, Nat.pos_of_ne_zero first]

theorem ushiftRight_or_cmask_bit (size : Size) (data : BitVec 32) (high : Bool)
    (inside : i < size.bits) :
    (if high then size.cast data >>> 1 ||| size.cmask else size.cast data >>> 1).getLsbD i
      = if i = size.bits - 1 then high else data.getLsbD (i + 1) := by
  by_cases last : i = size.bits - 1
  · have beyond : (size.cast data).getLsbD (1 + i) = false := cast_bit_of_ge (by omega)
    cases high with
    | true => simp [last, Size.cmask_bit]
    | false => simpa [last] using beyond
  · have inner : (size.cast data).getLsbD (1 + i) = data.getLsbD (i + 1) := by
      rw [cast_bit_of_lt (by omega), Nat.add_comm]
    cases high <;> simp [last, Size.cmask_bit, inner]

theorem rolw_isResult (size : Size) (data : BitVec 32) (f : Flags) :
    IsResult size (rolw size data f)
      (fun i => if i = 0 then data.getLsbD (size.bits - 1) else data.getLsbD (i - 1))
      f.x false (data.getLsbD (size.bits - 1)) := by
  have top := size.bits_pos
  have sign : (size.cast data).getLsbD (size.bits - 1) = data.getLsbD (size.bits - 1) :=
    cast_bit_of_lt (by omega)
  have carry := (flagBit_cmask size (size.cast data)).trans sign
  refine isResult_of rfl ?_ rfl rfl carry
  intro i inside
  simp only [BitVec.ofNat_eq_ofNat, and_cmask_ne_zero, sign]
  exact cast_shiftLeft_or_one_bit size data _ inside

theorem rorw_isResult (size : Size) (data : BitVec 32) (f : Flags) :
    IsResult size (rorw size data f)
      (fun i => if i = size.bits - 1 then data.getLsbD 0 else data.getLsbD (i + 1))
      f.x false (data.getLsbD 0) := by
  have low : (size.cast data).getLsbD 0 = data.getLsbD 0 := cast_bit_of_lt size.bits_pos
  have carry := (flagBit_one (size.cast data)).trans low
  refine isResult_of rfl ?_ rfl rfl carry
  intro i inside
  simp only [BitVec.ofNat_eq_ofNat, and_one_ne_zero, low]
  exact ushiftRight_or_cmask_bit size data _ inside

theorem roxlw_isResult (size : Size) (data : BitVec 32) (f : Flags) :
    IsResult size (roxlw size data f)
      (fun i => if i = 0 then f.x else data.getLsbD (i - 1))
      (data.getLsbD (size.bits - 1)) false (data.getLsbD (size.bits - 1)) := by
  have top := size.bits_pos
  have carry := (flagBit_cmask size (size.cast data)).trans (cast_bit_of_lt (by omega))
  refine isResult_of rfl ?_ carry rfl carry
  intro i inside
  exact cast_shiftLeft_or_one_bit size data f.x inside

theorem roxrw_isResult (size : Size) (data : BitVec 32) (f : Flags) :
    IsResult size (roxrw size data f)
      (fun i => if i = size.bits - 1 then f.x else data.getLsbD (i + 1))
      (data.getLsbD 0) false (data.getLsbD 0) := by
  have carry := (flagBit_one (size.cast data)).trans (cast_bit_of_lt size.bits_pos)
  refine isResult_of rfl ?_ carry rfl carry
  intro i inside
  exact ushiftRight_or_cmask_bit size data f.x inside

-- Any number of steps.

/-- `n` shifts by one bit. V is set if any of them sets it; no step at all clears V, and C unless
it is a copy of X. -/
def steps (op : ShiftOp) (size : Size) (data : BitVec 32) (f : Flags) : Nat → Shifted
  | 0 => result size data f.x false (decide (op = .roxl ∨ op = .roxr) && f.x)
  | n + 1 =>
    let before := steps op size data f n
    let (val, after) := shiftMemory op size before.1 before.2
    (val, { after with v := before.2.v || after.v })

theorem IsResult.operand {x v c : Bool} (isResult : IsResult size r bit x v c)
    (inside : i < size.bits) : r.1.getLsbD i = bit i := by
  obtain ⟨val, rfl, bits⟩ := isResult
  exact (cast_bit_of_lt inside).trans (bits i inside)

theorem IsResult.extend {x v c : Bool} (isResult : IsResult size r bit x v c) : r.2.x = x := by
  obtain ⟨val, rfl, _⟩ := isResult
  rfl

theorem IsResult.overflow {x v c : Bool} (isResult : IsResult size r bit x v c) : r.2.v = v := by
  obtain ⟨val, rfl, _⟩ := isResult
  rfl

theorem IsResult.congr {bit' : Nat → Bool} {x x' v v' c c' : Bool}
    (isResult : IsResult size r bit x v c) (bits : ∀ i < size.bits, bit i = bit' i)
    (extend : x = x') (overflow : v = v') (carry : c = c') : IsResult size r bit' x' v' c' := by
  subst extend overflow carry
  obtain ⟨val, whole, bits'⟩ := isResult
  exact ⟨val, whole, fun i inside => (bits' i inside).trans (bits i inside)⟩

theorem steps_zero_isResult (op : ShiftOp) (size : Size) (data : BitVec 32) (f : Flags) :
    IsResult size (steps op size data f 0) data.getLsbD f.x false
      (decide (op = .roxl ∨ op = .roxr) && f.x) :=
  ⟨data, rfl, fun _ _ => rfl⟩

theorem steps_succ_isResult {op : ShiftOp} {data : BitVec 32} {f : Flags} {n : Nat} {x v c : Bool}
    (step : IsResult size
      (shiftMemory op size (steps op size data f n).1 (steps op size data f n).2) bit x v c) :
    IsResult size (steps op size data f (n + 1)) bit x ((steps op size data f n).2.v || v) c := by
  obtain ⟨val, whole, bits⟩ := step
  refine ⟨val, ?_, bits⟩
  simp only [steps, whole]
  rfl

theorem asr_steps (size : Size) (data : BitVec 32) (f : Flags) (n : Nat) :
    IsResult size (steps .asr size data f n) (fun i => data.getLsbD (min (i + n) (size.bits - 1)))
      (if n = 0 then f.x else data.getLsbD (min (n - 1) (size.bits - 1))) false
      (if n = 0 then false else data.getLsbD (min (n - 1) (size.bits - 1))) := by
  have top := size.bits_pos
  induction n with
  | zero =>
    refine (steps_zero_isResult .asr size data f).congr (fun i inside => ?_) rfl rfl rfl
    rw [Nat.add_zero, Nat.min_eq_left (by omega)]
  | succ n ih =>
    have low := ih.operand top
    rw [Nat.zero_add] at low
    refine (steps_succ_isResult (asrw_isResult size _ _)).congr (fun i inside => ?_) ?_ ?_ ?_
    · rw [ih.operand (by omega)]
      congr 1
      omega
    · simpa using low
    · simp [ih.overflow]
    · simpa using low

theorem lsr_steps (size : Size) (data : BitVec 32) (f : Flags) (n : Nat) :
    IsResult size (steps .lsr size data f n) (fun i => (size.cast data).getLsbD (i + n))
      (if n = 0 then f.x else (size.cast data).getLsbD (n - 1)) false
      (if n = 0 then false else (size.cast data).getLsbD (n - 1)) := by
  induction n with
  | zero =>
    refine (steps_zero_isResult .lsr size data f).congr (fun i inside => ?_) rfl rfl rfl
    rw [Nat.add_zero, cast_bit_of_lt inside]
  | succ n ih =>
    have low := ih.operand size.bits_pos
    rw [Nat.zero_add] at low
    refine (steps_succ_isResult (lsrw_isResult size _ _)).congr (fun i inside => ?_) ?_ ?_ ?_
    · by_cases last : i + 1 < size.bits
      · rw [cast_bit_of_lt last, ih.operand last]
        congr 1
        omega
      · rw [cast_bit_of_ge (by omega), cast_bit_of_ge (by omega)]
    · simpa using low
    · simp [ih.overflow]
    · simpa using low

/-- The bit `k` places below the sign, and zero beyond the low end. -/
def fromTop (size : Size) (data : BitVec 32) (k : Nat) : Bool :=
  decide (k < size.bits) && data.getLsbD (size.bits - 1 - k)

/-- The bit `k` places below the sign after `n` shifts to the left. -/
theorem shifted_fromTop (size : Size) (data : BitVec 32) (n : Nat) {k : Nat}
    (inside : k < size.bits) :
    (decide (n ≤ size.bits - 1 - k) && data.getLsbD (size.bits - 1 - k - n)) =
      fromTop size data (n + k) := by
  have place : size.bits - 1 - k - n = size.bits - 1 - (n + k) := by omega
  rw [fromTop, place]
  by_cases low : n + k < size.bits
  · simp [low, show n ≤ size.bits - 1 - k by omega]
  · simp [low, show ¬ n ≤ size.bits - 1 - k by omega]

/-- Whether the sign changes in one of `n` shifts to the left. -/
def signChanges (size : Size) (data : BitVec 32) : Nat → Bool
  | 0 => false
  | n + 1 => signChanges size data n || (fromTop size data n ^^ fromTop size data (n + 1))

theorem lsl_steps (size : Size) (data : BitVec 32) (f : Flags) (n : Nat) :
    IsResult size (steps .lsl size data f n) (fun i => decide (n ≤ i) && data.getLsbD (i - n))
      (if n = 0 then f.x else fromTop size data (n - 1)) false
      (if n = 0 then false else fromTop size data (n - 1)) := by
  have top := size.bits_pos
  induction n with
  | zero => exact (steps_zero_isResult .lsl size data f).congr (fun i inside => by simp) rfl rfl rfl
  | succ n ih =>
    have sign := ih.operand (show size.bits - 1 < size.bits by omega)
    have carry := shifted_fromTop size data n size.bits_pos
    refine (steps_succ_isResult (lslw_isResult size _ _)).congr (fun i inside => ?_) ?_ ?_ ?_
    · rw [ih.operand (by omega)]
      by_cases first : i = 0
      · simp [first]
      · simp [Nat.pos_of_ne_zero first, show n ≤ i - 1 ↔ n + 1 ≤ i by omega,
          show i - 1 - n = i - (n + 1) by omega]
    · simpa using sign.trans carry
    · simp [ih.overflow]
    · simpa using sign.trans carry

theorem asl_steps (size : Size) (data : BitVec 32) (f : Flags) (n : Nat) :
    IsResult size (steps .asl size data f n) (fun i => decide (n ≤ i) && data.getLsbD (i - n))
      (if n = 0 then f.x else fromTop size data (n - 1)) (signChanges size data n)
      (if n = 0 then false else fromTop size data (n - 1)) := by
  have several : 1 < size.bits := by cases size <;> decide
  induction n with
  | zero => exact (steps_zero_isResult .asl size data f).congr (fun i inside => by simp) rfl rfl rfl
  | succ n ih =>
    have sign := ih.operand (show size.bits - 1 < size.bits by omega)
    have carry := shifted_fromTop size data n size.bits_pos
    have next := ih.operand (show size.bits - 2 < size.bits by omega)
    have carry' := shifted_fromTop size data n several
    refine (steps_succ_isResult (aslw_isResult size _ _)).congr (fun i inside => ?_) ?_ ?_ ?_
    · rw [ih.operand (by omega)]
      by_cases first : i = 0
      · simp [first]
      · simp [Nat.pos_of_ne_zero first, show n ≤ i - 1 ↔ n + 1 ≤ i by omega,
          show i - 1 - n = i - (n + 1) by omega]
    · simpa using sign.trans carry
    · rw [ih.overflow, sign.trans carry, next.trans carry', signChanges, Nat.add_zero]
    · simpa using sign.trans carry

theorem rol_steps (size : Size) (data : BitVec 32) (f : Flags) (n : Nat) :
    IsResult size (steps .rol size data f n)
      (fun i => data.getLsbD ((i + (size.bits - 1) * n) % size.bits)) f.x false
      (if n = 0 then false else data.getLsbD (((size.bits - 1) * n) % size.bits)) := by
  induction n with
  | zero =>
    refine (steps_zero_isResult .rol size data f).congr (fun i inside => ?_) rfl rfl rfl
    rw [Nat.mul_zero, Nat.add_zero, Nat.mod_eq_of_lt inside]
  | succ n ih =>
    have top := size.bits_pos
    have sign := ih.operand (show size.bits - 1 < size.bits by omega)
    have carry : (size.bits - 1 + (size.bits - 1) * n) % size.bits =
        ((size.bits - 1) * (n + 1)) % size.bits := by
      rw [Nat.mul_succ, Nat.add_comm]
    refine (steps_succ_isResult (rolw_isResult size _ _)).congr (fun i inside => ?_) ih.extend ?_ ?_
    · by_cases first : i = 0
      · rw [if_pos first, sign, first, Nat.zero_add, carry]
      · rw [if_neg first, ih.operand (by omega)]
        congr 1
        cases size <;> simp only [Size.bits] at inside ⊢ <;> omega
    · simp [ih.overflow]
    · rw [sign, carry]
      simp

theorem ror_steps (size : Size) (data : BitVec 32) (f : Flags) (n : Nat) :
    IsResult size (steps .ror size data f n) (fun i => data.getLsbD ((i + n) % size.bits)) f.x false
      (if n = 0 then false else data.getLsbD ((size.bits - 1 + n) % size.bits)) := by
  induction n with
  | zero =>
    refine (steps_zero_isResult .ror size data f).congr (fun i inside => ?_) rfl rfl rfl
    rw [Nat.add_zero, Nat.mod_eq_of_lt inside]
  | succ n ih =>
    have top := size.bits_pos
    have low := ih.operand top
    have carry : (0 + n) % size.bits = (size.bits - 1 + (n + 1)) % size.bits := by
      rw [show size.bits - 1 + (n + 1) = n + size.bits by omega, Nat.add_mod_right, Nat.zero_add]
    refine (steps_succ_isResult (rorw_isResult size _ _)).congr (fun i inside => ?_) ih.extend ?_ ?_
    · by_cases last : i = size.bits - 1
      · rw [if_pos last, low, last, carry]
      · rw [if_neg last, ih.operand (by omega)]
        congr 2
        omega
    · simp [ih.overflow]
    · rw [low, carry]
      simp

/-- The operand with X above it: what ROXL and ROXR rotate. -/
def withExtend (size : Size) (data : BitVec 32) (x : Bool) (j : Nat) : Bool :=
  if j = size.bits then x else data.getLsbD j

theorem roxl_steps (size : Size) (data : BitVec 32) (f : Flags) (n : Nat) :
    IsResult size (steps .roxl size data f n)
      (fun i => withExtend size data f.x ((i + size.bits * n) % (size.bits + 1)))
      (withExtend size data f.x ((size.bits + size.bits * n) % (size.bits + 1))) false
      (withExtend size data f.x ((size.bits + size.bits * n) % (size.bits + 1))) := by
  induction n with
  | zero =>
    have own : withExtend size data f.x ((size.bits + size.bits * 0) % (size.bits + 1)) = f.x := by
      rw [Nat.mul_zero, Nat.add_zero, Nat.mod_eq_of_lt (Nat.lt_succ_self _), withExtend, if_pos rfl]
    refine (steps_zero_isResult .roxl size data f).congr (fun i inside => ?_) own.symm rfl own.symm
    rw [Nat.mul_zero, Nat.add_zero, Nat.mod_eq_of_lt (by omega), withExtend, if_neg (by omega)]
  | succ n ih =>
    have top := size.bits_pos
    have carry : (size.bits - 1 + size.bits * n) % (size.bits + 1) =
        (size.bits + size.bits * (n + 1)) % (size.bits + 1) := by
      cases size <;> simp only [Size.bits] <;> omega
    have sign := ih.operand (show size.bits - 1 < size.bits by omega)
    rw [carry] at sign
    refine (steps_succ_isResult (roxlw_isResult size _ _)).congr (fun i inside => ?_) sign ?_ sign
    · by_cases first : i = 0
      · rw [if_pos first, ih.extend, first, Nat.zero_add, Nat.mul_succ, Nat.add_comm]
      · rw [if_neg first, ih.operand (by omega)]
        congr 1
        cases size <;> simp only [Size.bits] at inside ⊢ <;> omega
    · simp [ih.overflow]

theorem roxr_steps (size : Size) (data : BitVec 32) (f : Flags) (n : Nat) :
    IsResult size (steps .roxr size data f n)
      (fun i => withExtend size data f.x ((i + n) % (size.bits + 1)))
      (withExtend size data f.x ((size.bits + n) % (size.bits + 1))) false
      (withExtend size data f.x ((size.bits + n) % (size.bits + 1))) := by
  induction n with
  | zero =>
    have own : withExtend size data f.x ((size.bits + 0) % (size.bits + 1)) = f.x := by
      rw [Nat.add_zero, Nat.mod_eq_of_lt (Nat.lt_succ_self _), withExtend, if_pos rfl]
    refine (steps_zero_isResult .roxr size data f).congr (fun i inside => ?_) own.symm rfl own.symm
    rw [Nat.add_zero, Nat.mod_eq_of_lt (by omega), withExtend, if_neg (by omega)]
  | succ n ih =>
    have carry : (0 + n) % (size.bits + 1) = (size.bits + (n + 1)) % (size.bits + 1) := by
      rw [show size.bits + (n + 1) = n + (size.bits + 1) by omega, Nat.add_mod_right, Nat.zero_add]
    have low := ih.operand size.bits_pos
    rw [carry] at low
    refine (steps_succ_isResult (roxrw_isResult size _ _)).congr (fun i inside => ?_) low ?_ low
    · by_cases last : i = size.bits - 1
      · rw [if_pos last, ih.extend, show size.bits + n = i + (n + 1) by omega]
      · rw [if_neg last, ih.operand (by omega)]
        congr 2
        omega
    · simp [ih.overflow]

end BasiliskII.Cpu
