import BasiliskII.Cpu.BitFields

/-!
# Condition codes of the bit-field instructions

N and Z are those of the field the instruction reads, or of the bits BFINS
puts in. In a register the field goes around the end: bit 31 comes after bit 0.
-/
namespace BasiliskII.Cpu

open ByteMemory BitField

/-- The bits of a register from `offset` on, the first one most significant. -/
def registerField (data offset : BitVec 32) (i : Nat) : Bool :=
  data.getLsbD (31 - ((offset &&& 0x1f).toNat + i) % 32)

/-- The field the flags are about. -/
def concernedField (op : BitFieldOp) (extra : BitVec 16) (operand : FieldOperand) (st : Machine) :
    Nat → Bool :=
  match op, operand with
  | .bfins, _ => lowBits (st.regs.dreg (fieldDreg extra)) (fieldWidth st.regs extra)
  | _, .memory dsta => memoryField st.mem dsta (fieldOffset st.regs extra)
  | _, .dreg dstreg => registerField (st.regs.dreg dstreg) (fieldOffset st.regs extra)

structure FlagsOf (f : Flags) (field : Nat → Bool) (width : Nat) : Prop where
  n : f.n = field 0
  z : f.z = decide (∀ i < width, field i = false)
  v : f.v = false
  c : f.c = false

/-- Z is taken from all of the field and from nothing else: no bits above those `BFINS` puts in
decide it, and no bits of a register field that have gone around the end. -/
def SeenWhole (op : BitFieldOp) (extra : BitVec 16) (operand : FieldOperand) (st : Machine) :
    Prop :=
  let width := fieldWidth st.regs extra
  match op, operand with
  | .bfins, _ =>
    let data := st.regs.dreg (fieldDreg extra)
    (∀ i < width, lowBits data width i = false) → data = 0
  | _, .memory _ => True
  | _, .dreg dstreg =>
    let data := st.regs.dreg dstreg
    let o := (fieldOffset st.regs extra &&& 0x1f).toNat
    (∃ q, o ≤ q ∧ q < 32 ∧ data.getLsbD (31 - q) = true) ∨
      ∀ q < o + width - 32, data.getLsbD (31 - q) = false

/-- The value the flags are taken from. -/
def BitFieldOp.flagged (op : BitFieldOp) (data tmp : BitVec 32) : BitVec 32 :=
  match op with
  | .bfins => data
  | _ => tmp

theorem fieldOperation_flags (op : BitFieldOp) (extra : BitVec 16) (offset tmp : BitVec 32)
    (regs : Regs) (width : Nat) :
    (fieldOperation op extra offset width tmp regs).1.flags =
      { regs.flags.setFieldNZ width (op.flagged (regs.dreg (fieldDreg extra)) tmp) with
        v := false
        c := false } := by
  cases op <;> rfl

/-- The flags are right when the value they are taken from has the first bit of the field on top,
and is zero with the field. -/
theorem flagsOf_iff (f : Flags) {v : BitVec 32} {width : Nat} {field : Nat → Bool}
    (some_bits : 0 < width) (fits : width ≤ 32) (top : v.getLsbD (width - 1) = field 0) :
    FlagsOf { f.setFieldNZ width v with v := false, c := false } field width ↔
      (v = 0 ↔ ∀ i < width, field i = false) := by
  have sign : decide (v &&& (1 : BitVec 32) <<< (width - 1) ≠ 0) = field 0 := by
    rw [← top, Bool.eq_iff_iff, decide_eq_true_iff]
    exact and_bit_ne_zero v (by omega)
  constructor
  · intro right
    exact decide_eq_decide.mp right.z
  · intro zero
    exact ⟨sign, decide_eq_decide.mpr zero, rfl, rfl⟩

theorem zero_iff {v : BitVec 32} {width : Nat} {field : Nat → Bool} (fits : width ≤ 32)
    (bits : ∀ j, v.getLsbD j = (decide (j < width) && field (width - 1 - j))) :
    v = 0 ↔ ∀ i < width, field i = false := by
  constructor
  · intro zero i inside
    have bit := bits (width - 1 - i)
    have back : width - 1 - (width - 1 - i) = i := by omega
    rw [zero, back, decide_eq_true (by omega), Bool.true_and] at bit
    simpa using bit.symm
  · intro clear
    apply BitVec.eq_of_getLsbD_eq
    intro j inside
    rw [bits]
    by_cases of_field : j < width
    · simp [clear (width - 1 - j) (by omega)]
    · simp [of_field]

/-- What a register operand brings to `tmp`: the field up to the end of the register. -/
theorem register_bits (data : BitVec 32) {o width : Nat} (fits : width ≤ 32) (j : Nat) :
    (data <<< o >>> (32 - width)).getLsbD j =
      (decide (j < width) &&
        (decide (o + (width - 1 - j) < 32) && data.getLsbD (31 - (o + (width - 1 - j))))) := by
  rw [BitVec.getLsbD_ushiftRight, BitVec.getLsbD_shiftLeft]
  by_cases of_field : j < width
  · by_cases before : o + (width - 1 - j) < 32
    · simp [of_field, before, show 32 - width + j < 32 by omega,
        show ¬32 - width + j < o by omega]
      congr 1
      omega
    · simp [before, show 32 - width + j < o by omega]
  · simp [of_field]
    omega

theorem bit_in_register (offset : BitVec 32) : (offset &&& 0x1f).toNat < 32 := by
  rw [BitVec.toNat_and]
  exact Nat.lt_of_le_of_lt Nat.and_le_right (by decide)

/-- The part of a register field before the end tells whether the whole field is zero. -/
theorem register_zero_iff (data offset : BitVec 32) {width : Nat} (fits : width ≤ 32) :
    let o := (offset &&& 0x1f).toNat
    ((∀ i < width, (decide (o + i < 32) && data.getLsbD (31 - (o + i))) = false) ↔
      ∀ i < width, registerField data offset i = false) ↔
    (∃ q, o ≤ q ∧ q < 32 ∧ data.getLsbD (31 - q) = true) ∨
      ∀ q < o + width - 32, data.getLsbD (31 - q) = false := by
  intro o
  have start : o < 32 := bit_in_register offset
  have before : ∀ i, o + i < 32 →
      registerField data offset i = data.getLsbD (31 - (o + i)) := by
    intro i inside
    rw [registerField, Nat.mod_eq_of_lt inside]
  have around : ∀ i < 32, 32 ≤ o + i →
      registerField data offset i = data.getLsbD (31 - (o + i - 32)) := by
    intro i inside wrapped
    rw [registerField, Nat.mod_eq_sub_mod wrapped, Nat.mod_eq_of_lt (by omega)]
  constructor
  · intro same
    by_cases seen : ∃ q, o ≤ q ∧ q < 32 ∧ data.getLsbD (31 - q) = true
    · exact .inl seen
    · -- Nothing is seen, so the field is zero, the part around the end too.
      push Not at seen
      have clear : ∀ i < width, registerField data offset i = false := by
        rw [← same]
        intro i _
        by_cases inside : o + i < 32
        · simpa [inside] using seen (o + i) (Nat.le_add_right o i) inside
        · simp [inside]
      right
      intro q wrapped
      have bit := clear (q + 32 - o) (by omega)
      have back : o + (q + 32 - o) - 32 = q := by omega
      rw [around _ (by omega) (by omega), back] at bit
      exact bit
  · intro whole
    constructor
    · intro seen i inside
      by_cases in_front : o + i < 32
      · simpa [before i in_front, in_front] using seen i inside
      · obtain ⟨q, started, in_register, bit⟩ | clear := whole
        · have unseen := seen (q - o) (by omega)
          have back : o + (q - o) = q := by omega
          rw [back, bit] at unseen
          simp [in_register] at unseen
        · rw [around i (by omega) (by omega)]
          exact clear (o + i - 32) (by omega)
    · intro clear i inside
      by_cases in_front : o + i < 32
      · rw [← before i in_front, clear i inside, Bool.and_false]
      · simp [in_front]

section Flags

variable (f : Flags) {width : Nat}

theorem memory_flagsOf (mem : Memory 32) (dsta offset : BitVec 32) (some_bits : 0 < width)
    (fits : width ≤ 32) :
    let tmp := readField mem (fieldLong dsta offset) (offset &&& 7).toNat width
    FlagsOf { f.setFieldNZ width tmp with v := false, c := false } (memoryField mem dsta offset)
      width := by
  intro tmp
  have bits := readField_bits mem dsta offset fits
  have top : tmp.getLsbD (width - 1) = memoryField mem dsta offset 0 := by
    rw [bits, decide_eq_true (by omega), Bool.true_and, Nat.sub_self]
  exact (flagsOf_iff f some_bits fits top).mpr (zero_iff fits bits)

theorem register_flagsOf_iff (data offset : BitVec 32) (some_bits : 0 < width)
    (fits : width ≤ 32) :
    let o := (offset &&& 0x1f).toNat
    FlagsOf { f.setFieldNZ width (data <<< o >>> (32 - width)) with v := false, c := false }
        (registerField data offset) width ↔
      (∃ q, o ≤ q ∧ q < 32 ∧ data.getLsbD (31 - q) = true) ∨
        ∀ q < o + width - 32, data.getLsbD (31 - q) = false := by
  intro o
  have start : o < 32 := bit_in_register offset
  have top : (data <<< o >>> (32 - width)).getLsbD (width - 1) = registerField data offset 0 := by
    have first : registerField data offset 0 = data.getLsbD (31 - o) := by
      rw [registerField, Nat.add_zero, Nat.mod_eq_of_lt start]
    rw [register_bits data fits, first, Nat.sub_self, Nat.add_zero]
    simp [start, show width - 1 < width by omega]
  rw [flagsOf_iff f some_bits fits top]
  exact (iff_congr (zero_iff fits (register_bits data fits)) Iff.rfl).trans
    (register_zero_iff data offset fits)

theorem inserted_flagsOf_iff (data : BitVec 32) (some_bits : 0 < width) (fits : width ≤ 32) :
    FlagsOf { f.setFieldNZ width data with v := false, c := false } (lowBits data width) width ↔
      ((∀ i < width, lowBits data width i = false) → data = 0) := by
  rw [flagsOf_iff f some_bits fits (by rw [lowBits, Nat.sub_zero])]
  constructor
  · exact fun same => same.mpr
  · intro only
    refine ⟨fun zero i _ => ?_, only⟩
    simp [lowBits, zero]

end Flags

theorem bitFieldRegister_flags (op : BitFieldOp) (extra : BitVec 16) (dstreg : BitVec 3)
    (regs : Regs) :
    (bitFieldRegister op extra dstreg regs).flags =
      (fieldOperation op extra (fieldOffset regs extra) (fieldWidth regs extra)
        (regs.dreg dstreg <<< (fieldOffset regs extra &&& 0x1f).toNat >>>
          (32 - fieldWidth regs extra)) regs).1.flags := by
  unfold bitFieldRegister
  split <;> rfl

theorem bitField_flags_iff (op : BitFieldOp) (extra : BitVec 16) (operand : FieldOperand)
    (st : Machine) :
    FlagsOf (bitFieldHandler op extra operand st).regs.flags (concernedField op extra operand st)
        (fieldWidth st.regs extra) ↔ SeenWhole op extra operand st := by
  have some_bits := fieldWidth_pos st.regs extra
  have fits := fieldWidth_le st.regs extra
  cases operand with
  | memory dsta =>
    simp only [bitFieldHandler, bitFieldMemory_eq, fieldOperation_flags]
    cases op with
    | bfins => exact inserted_flagsOf_iff _ _ some_bits fits
    | _ => exact iff_of_true (memory_flagsOf _ st.mem dsta _ some_bits fits) trivial
  | dreg dstreg =>
    simp only [bitFieldHandler, bitFieldRegister_flags, fieldOperation_flags]
    cases op with
    | bfins => exact inserted_flagsOf_iff _ _ some_bits fits
    | _ => exact register_flagsOf_iff _ _ _ some_bits fits

def twosInData : Machine where
  regs :=
    { dreg := fun _ => 2
      areg := fun _ => 0
      pc := 0
      intmask := 0
      vbr := 0
      usp := 0
      isp := 0
      msp := 0
      sr := 0
      t1 := false
      t0 := false
      s := true
      m := false
      flags := ⟨false, false, false, false, false⟩ }
  mem := fun _ => 0

/-- `BFINS` of one bit from a register that holds two: the bit is zero, and Z is clear. -/
theorem inserted_bit_not_seen :
    ¬∀ (op : BitFieldOp) (extra : BitVec 16) (operand : FieldOperand) (st : Machine),
      FlagsOf (bitFieldHandler op extra operand st).regs.flags
        (concernedField op extra operand st) (fieldWidth st.regs extra) := by
  intro all
  have zero := (all .bfins 0x1001 (.dreg 0) twosInData).z
  revert zero
  decide

end BasiliskII.Cpu
