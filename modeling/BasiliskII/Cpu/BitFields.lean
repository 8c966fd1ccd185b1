import BasiliskII.Cpu.Exceptions
import BasiliskII.Cpu.Shifts
import BasiliskII.Library.BitField

/-!
# Bit-field instructions

The code gencpu.c emits for BFTST to BFINS, of a data register and of memory at
an address. `extra` is the extension word: it gives the offset, the width and
the data register of the instruction.
-/
namespace BasiliskII.Cpu

open ByteMemory

inductive BitFieldOp
  | bftst | bfextu | bfchg | bfexts | bfclr | bfffo | bfset | bfins
  deriving DecidableEq, Repr

section ExtensionWord

variable (regs : Regs) (extra : BitVec 16)

/-- `offset`, a `uae_s32`. -/
def fieldOffset : BitVec 32 :=
  if extra &&& 0x800 ≠ 0 then regs.dreg ((extra >>> 6).setWidth 3)
  else ((extra >>> 6) &&& 0x1f).setWidth 32

def fieldWidth : Nat :=
  (((if extra &&& 0x20 ≠ 0 then regs.dreg (extra.setWidth 3) else extra.signExtend 32) - 1)
    &&& 0x1f).toNat + 1

/-- `(extra >> 12) & 7` -/
def fieldDreg : BitVec 3 := (extra >>> 12).setWidth 3

end ExtensionWord

/-- `SET_NFLG_ALWAYS` and `SET_ZFLG`. -/
def Flags.setFieldNZ (f : Flags) (width : Nat) (tmp : BitVec 32) : Flags :=
  { f with n := tmp &&& (1 : BitVec 32) <<< (width - 1) ≠ 0, z := tmp = 0 }

/-- `while (mask) { if (tmp & mask) break; mask >>= 1; offset++; }` -/
def findFirstOne (tmp mask offset : BitVec 32) : BitVec 32 :=
  if mask = 0 then offset
  else if tmp &&& mask ≠ 0 then offset
  else findFirstOne tmp (mask >>> 1) (offset + 1)
termination_by mask.toNat
decreasing_by
  have some_bit : mask.toNat ≠ 0 := by simpa [BitVec.toNat_eq] using ‹¬mask = 0›
  rw [BitVec.toNat_ushiftRight, Nat.shiftRight_eq_div_pow]
  omega

/-- From the old field in `tmp` to the new one: the data register, the flags and `tmp`. -/
def fieldOperation (op : BitFieldOp) (extra : BitVec 16) (offset : BitVec 32) (width : Nat)
    (tmp : BitVec 32) (regs : Regs) : Regs × BitVec 32 :=
  let flags := { regs.flags.setFieldNZ width tmp with v := false, c := false }
  let regs := { regs with flags := flags }
  match op with
  | .bftst => (regs, tmp)
  | .bfextu => (regs.setDreg (fieldDreg extra) tmp, tmp)
  | .bfchg => (regs, ~~~tmp)
  | .bfexts =>
    let sign := if width = 32 then 0 else (-1 : BitVec 32) <<< width
    let tmp := if flags.n then tmp ||| sign else tmp
    (regs.setDreg (fieldDreg extra) tmp, tmp)
  | .bfclr => (regs, 0)
  | .bfffo =>
    let mask := (1 : BitVec 32) <<< (width - 1)
    (regs.setDreg (fieldDreg extra) (findFirstOne tmp mask offset), tmp)
  | .bfset => (regs, 0xffffffff)
  | .bfins =>
    let tmp := regs.dreg (fieldDreg extra)
    ({ regs with flags := regs.flags.setFieldNZ width tmp }, tmp)

/-- The instructions that write the field back. -/
def BitFieldOp.writesField : BitFieldOp → Bool
  | .bfchg | .bfclr | .bfset | .bfins => true
  | _ => false

/-- What is written over a word that holds the field from bit `o` on. -/
def mergeField (word : BitVec 32) (o width : Nat) (keep tmp : BitVec 32) : BitVec 32 :=
  word &&& keep ||| tmp >>> o |||
    (if o + width ≥ 32 then 0 else word &&& (0xffffffff : BitVec 32) >>> (o + width))

/-- A bit field of the data register `dstreg`. -/
def bitFieldRegister (op : BitFieldOp) (extra : BitVec 16) (dstreg : BitVec 3) (regs : Regs) :
    Regs :=
  let offset := fieldOffset regs extra
  let width := fieldWidth regs extra
  let o := (offset &&& 0x1f).toNat
  let tmp := regs.dreg dstreg <<< o
  let tmp := tmp >>> (32 - width)
  let (regs, tmp) := fieldOperation op extra offset width tmp regs
  if op.writesField then
    let tmp := tmp <<< (32 - width)
    let keep := if o = 0 then 0 else (0xffffffff : BitVec 32) <<< (32 - o)
    regs.setDreg dstreg (mergeField (regs.dreg dstreg) o width keep tmp)
  else regs

/-- A bit field of the memory at the effective address `dsta`. -/
def bitFieldMemory (op : BitFieldOp) (extra : BitVec 16) (dsta : BitVec 32) (st : Machine) :
    Machine :=
  let offset := fieldOffset st.regs extra
  let width := fieldWidth st.regs extra
  let dsta := dsta + (offset.sshiftRight 3 |||
    (if offset &&& 0x80000000 ≠ 0 then ~~~(0x1fffffff : BitVec 32) else 0))
  let bf0 := getLong st.mem dsta
  let bf1 := (st.mem (dsta + 4)).setWidth 32
  let o := (offset &&& 7).toNat
  let tmp := bf0 <<< o ||| bf1 >>> (8 - o)
  let tmp := tmp >>> (32 - width)
  let (regs, tmp) := fieldOperation op extra offset width tmp st.regs
  if op.writesField then
    let tmp := tmp <<< (32 - width)
    let keep := (0xff000000 : BitVec 32) <<< (8 - o)
    let mem := putLong st.mem dsta (mergeField bf0 o width keep tmp)
    if o + width > 32 then
      let bf1 := bf1 &&& (0xff : BitVec 32) >>> (width + o - 32) ||| tmp <<< (8 - o)
      ⟨regs, put mem (dsta + 4) (bf1.setWidth 8)⟩
    else ⟨regs, mem⟩
  else ⟨regs, st.mem⟩

/-- The operand `genamode` gives: a data register or an address. -/
inductive FieldOperand
  | dreg (dstreg : BitVec 3)
  | memory (dsta : BitVec 32)

def bitFieldHandler (op : BitFieldOp) (extra : BitVec 16) (operand : FieldOperand) (st : Machine) :
    Machine :=
  match operand with
  | .dreg dstreg => { st with regs := bitFieldRegister op extra dstreg st.regs }
  | .memory dsta => bitFieldMemory op extra dsta st

end BasiliskII.Cpu

/-!
## Bit fields in memory

The field is the row of `fieldWidth` bits that starts `fieldOffset` bits after
the most significant bit of the byte at the base address. Reading it takes a
longword and the byte behind it, and so does writing it back.
-/
namespace BasiliskII.Cpu

open ByteMemory BitField

/-- The row of bits `offset` places after the most significant bit of the byte at `dsta`. -/
def memoryField (mem : Memory 32) (dsta offset : BitVec 32) (i : Nat) : Bool :=
  bitAt mem dsta (offset.toInt + i)

/-- The low bits of `data` as a row of `width` bits. -/
def lowBits (data : BitVec 32) (width i : Nat) : Bool := data.getLsbD (width - 1 - i)

/-- What stands in the field afterwards. -/
def BitFieldOp.newField (op : BitFieldOp) (data : BitVec 32) (width : Nat) (field : Nat → Bool) :
    Nat → Bool :=
  match op with
  | .bfchg => fun i => !field i
  | .bfclr => fun _ => false
  | .bfset => fun _ => true
  | .bfins => lowBits data width
  | _ => field

/-- The row as a signed number. -/
def signedNumber (bit : Nat → Bool) (n : Nat) : Int :=
  if bit 0 then (number bit n : Int) - 2 ^ n else number bit n

/-- What the data register of the instruction gets, if it gets anything. -/
def BitFieldOp.result (op : BitFieldOp) (offset : BitVec 32) (width : Nat) (field : Nat → Bool) :
    Option (BitVec 32) :=
  match op with
  | .bfextu => some (BitVec.ofNat 32 (number field width))
  | .bfexts => some (BitVec.ofInt 32 (signedNumber field width))
  | .bfffo => some (offset + BitVec.ofNat 32 (firstOne field width))
  | _ => none

theorem fieldWidth_pos (regs : Regs) (extra : BitVec 16) : 0 < fieldWidth regs extra :=
  Nat.succ_pos _

theorem fieldWidth_le (regs : Regs) (extra : BitVec 16) : fieldWidth regs extra ≤ 32 := by
  have below : ∀ v : BitVec 32, (v &&& 0x1f).toNat < 32 := by
    intro v
    rw [BitVec.toNat_and]
    exact Nat.lt_of_le_of_lt Nat.and_le_right (by decide)
  exact below _

theorem and_seven (offset : BitVec 32) : ((offset &&& 7).toNat : Int) = offset.toInt % 8 := by
  have low : (offset &&& 7).toNat = offset.toNat % 8 := by
    rw [BitVec.toNat_and]
    exact Nat.and_two_pow_sub_one_eq_mod offset.toNat 3
  rw [low, BitVec.toInt_eq_toNat_cond]
  split <;> omega

theorem single_bit_ne_zero {k : Nat} (inside : k < 32) : (1 : BitVec 32) <<< k ≠ 0 := by
  intro zero
  have bit : ((1 : BitVec 32) <<< k).getLsbD k = true := by simp [inside]
  rw [zero] at bit
  simp at bit

/-- What `&` with a single bit tests. -/
theorem and_bit_ne_zero (v : BitVec 32) {k : Nat} (inside : k < 32) :
    v &&& (1 : BitVec 32) <<< k ≠ 0 ↔ v.getLsbD k = true := by
  have single : (1 : BitVec 32) <<< k = BitVec.twoPow 32 k := rfl
  have present : BitVec.twoPow 32 k ≠ 0#32 := single_bit_ne_zero inside
  rw [single, BitVec.and_twoPow]
  cases v.getLsbD k <;> simp [present]

/-- The mask adds the sign bits the arithmetic shift has brought in already. -/
theorem offset_bytes (offset : BitVec 32) :
    offset.sshiftRight 3 |||
      (if offset &&& 0x80000000 ≠ 0 then ~~~(0x1fffffff : BitVec 32) else 0) =
      BitVec.ofInt 32 (offset.toInt / 8) := by
  have shifted : offset.sshiftRight 3 = BitVec.ofInt 32 (offset.toInt / 8) := by
    apply BitVec.eq_of_toInt_eq
    rw [BitVec.toInt_sshiftRight, Int.shiftRight_eq_div_pow, BitVec.toInt_ofInt]
    have upper := offset.toInt_lt
    have lower := offset.le_toInt
    rw [Int.bmod_def]
    omega
  have sign : offset &&& 0x80000000 ≠ 0 ↔ offset.getLsbD 31 = true :=
    and_bit_ne_zero (k := 31) offset (by decide)
  have mask_bit : ∀ i < 32, (~~~(0x1fffffff : BitVec 32)).getLsbD i = decide (29 ≤ i) := by
    decide
  rw [← shifted]
  cases top : offset.getLsbD 31 with
  | false =>
    rw [if_neg (by rw [sign, top]; decide)]
    exact BitVec.or_zero
  | true =>
    rw [if_pos (sign.mpr top)]
    apply BitVec.eq_of_getLsbD_eq
    intro i inside
    rw [BitVec.getLsbD_or, mask_bit i inside, BitVec.getLsbD_sshiftRight,
      BitVec.msb_eq_getLsbD_last, top]
    by_cases high : 29 ≤ i
    · simp [high, inside, show ¬3 + i < 32 by omega]
    · simp [high]

-- Reading the field.

/-- The old field as it comes to the low end of `tmp`. -/
def readField (mem : Memory 32) (d : BitVec 32) (o width : Nat) : BitVec 32 :=
  (getLong mem d <<< o ||| (mem (d + 4)).setWidth 32 >>> (8 - o)) >>> (32 - width)

variable (mem : Memory 32)

theorem readField_bit (d : BitVec 32) {o width : Nat} (part : o < 8) (fits : width ≤ 32) (j : Nat) :
    (readField mem d o width).getLsbD j =
      (decide (j < width) && bitAt mem d (o + (width - 1 - j) : Nat)) := by
  rw [readField, BitVec.getLsbD_ushiftRight, BitVec.getLsbD_or, BitVec.getLsbD_shiftLeft,
    BitVec.getLsbD_ushiftRight, BitVec.getLsbD_setWidth]
  by_cases of_field : j < width
  · have behind : d + 4 = d + BitVec.ofInt 32 4 := rfl
    by_cases long : o ≤ 32 - width + j
    · rw [getLong_bit mem d (by omega), BitVec.getLsbD_of_ge (mem (d + 4)) _ (by omega)]
      simp [of_field, show 32 - width + j < 32 by omega, show ¬32 - width + j < o by omega]
      congr 1
      omega
    · rw [byte_bit mem _ (by omega), behind, bitAt_add]
      simp [of_field, show 32 - width + j < o by omega, show 8 - o + (32 - width + j) < 32 by omega]
      congr 1
      omega
  · rw [BitVec.getLsbD_of_ge (mem (d + 4)) _ (by omega)]
    simp [of_field]
    omega

-- Writing it back.

theorem mergeField_bit (word data keep : BitVec 32) {o width q : Nat} (some_bits : 0 < width)
    (fits : width ≤ 32) (inside : q < 32) (kept : keep.getLsbD (31 - q) = decide (q < o)) :
    (mergeField word o width keep (data <<< (32 - width))).getLsbD (31 - q) =
      if o ≤ q ∧ q < o + width then data.getLsbD (width - 1 - (q - o))
      else word.getLsbD (31 - q) := by
  have ones : ∀ n, ((0xffffffff : BitVec 32) >>> n).getLsbD (31 - q) = decide (n ≤ q) := by
    intro n
    have all : ((0xffffffff : BitVec 32)) = BitVec.allOnes 32 := rfl
    rw [BitVec.getLsbD_ushiftRight, all, BitVec.getLsbD_allOnes, decide_eq_decide]
    omega
  have tail : (if o + width ≥ 32 then 0
      else word &&& (0xffffffff : BitVec 32) >>> (o + width)).getLsbD (31 - q) =
      (decide (o + width ≤ q) && word.getLsbD (31 - q)) := by
    by_cases whole : o + width ≥ 32
    · simp [whole, show ¬o + width ≤ q by omega]
    · rw [if_neg whole, BitVec.getLsbD_and, ones, Bool.and_comm]
  have middle : (data <<< (32 - width) >>> o).getLsbD (31 - q) =
      (decide (o ≤ q) && decide (q < o + width) && data.getLsbD (width - 1 - (q - o))) := by
    rw [BitVec.getLsbD_ushiftRight, BitVec.getLsbD_shiftLeft]
    by_cases after : o ≤ q
    · by_cases before : q < o + width
      · simp [after, before, show o + (31 - q) < 32 by omega,
          show ¬o + (31 - q) < 32 - width by omega]
        congr 1
        omega
      · simp [before, show o + (31 - q) < 32 - width by omega]
    · simp [after, show ¬o + (31 - q) < 32 by omega]
  rw [mergeField, BitVec.getLsbD_or, BitVec.getLsbD_or, BitVec.getLsbD_and, kept, middle, tail]
  by_cases before : q < o
  · simp [before, show ¬o ≤ q by omega, show ¬o + width ≤ q by omega]
  · by_cases within : q < o + width
    · simp [before, within, show o ≤ q by omega, show ¬o + width ≤ q by omega]
    · simp [before, within, show o + width ≤ q by omega]

theorem mergeByte_bit (bf1 data : BitVec 32) {o width r : Nat} (part : o < 8) (fits : width ≤ 32)
    (ends : 32 < o + width) (inside : r < 8) :
    (bf1 &&& (0xff : BitVec 32) >>> (width + o - 32) |||
      data <<< (32 - width) <<< (8 - o)).getLsbD (7 - r) =
      if 32 + r < o + width then data.getLsbD (width - 1 - (32 + r - o))
      else bf1.getLsbD (7 - r) := by
  have ones : ∀ n, ((0xff : BitVec 32) >>> n).getLsbD (7 - r) = decide (n ≤ r) := by
    intro n
    have low : (0xff : BitVec 32) = BitVec.ofNat 32 (2 ^ 8 - 1) := rfl
    rw [BitVec.getLsbD_ushiftRight, low, BitVec.getLsbD_ofNat, Nat.testBit_two_pow_sub_one]
    by_cases byte : n ≤ r
    · simp [byte, show n + (7 - r) < 32 by omega, show n + (7 - r) < 8 by omega]
    · simp [byte, show ¬n + (7 - r) < 8 by omega]
  rw [BitVec.getLsbD_or, BitVec.getLsbD_and, ones, BitVec.getLsbD_shiftLeft,
    BitVec.getLsbD_shiftLeft]
  by_cases within : 32 + r < o + width
  · simp [within, show ¬width + o - 32 ≤ r by omega, show 7 - r < 32 by omega,
      show ¬7 - r < 8 - o by omega, show 7 - r - (8 - o) < 32 by omega,
      show ¬7 - r - (8 - o) < 32 - width by omega]
    congr 1
    omega
  · by_cases below : 7 - r < 8 - o
    · simp [within, below, show width + o - 32 ≤ r by omega]
    · simp [within, show width + o - 32 ≤ r by omega, show 7 - r - (8 - o) < 32 - width by omega]

/-- What writing `data` back makes of the bits of the longword and of the byte behind it. -/
def writtenField (mem : Memory 32) (d data : BitVec 32) (o width : Nat) : Memory 32 :=
  let tmp := data <<< (32 - width)
  let keep := (0xff000000 : BitVec 32) <<< (8 - o)
  let long := putLong mem d (mergeField (getLong mem d) o width keep tmp)
  if o + width > 32 then
    let bf1 := (mem (d + 4)).setWidth 32 &&& (0xff : BitVec 32) >>> (width + o - 32) |||
      tmp <<< (8 - o)
    put long (d + 4) (bf1.setWidth 8)
  else long

theorem writtenField_away (d data : BitVec 32) (o width : Nat) {x : BitVec 32}
    (away : ∀ k < 5, x ≠ d + BitVec.ofNat 32 k) : writtenField mem d data o width x = mem x := by
  have first : x ≠ d := by simpa using away 0 (by decide)
  have fifth : x ≠ d + 4 := away 4 (by decide)
  have long : ∀ v, putLong mem d v x = mem x := by
    intro v
    have second : x ≠ d + 1 := away 1 (by decide)
    have third : x ≠ d + 2 := away 2 (by decide)
    have fourth : x ≠ d + 2 + 1 := by simpa [BitVec.add_assoc] using away 3 (by decide)
    simp only [putLong, putWord, put, if_neg first, if_neg second, if_neg third, if_neg fourth]
  unfold writtenField
  split
  · simp only [put, if_neg fifth, long]
  · exact long _

theorem long_bit (d : BitVec 32) {q : Nat} (inside : q < 32) :
    bitAt mem d q = (getLong mem d).getLsbD (31 - q) := by
  rw [getLong_bit mem d (by omega)]
  congr 1
  omega

theorem byte_behind_bit (d : BitVec 32) {r : Nat} (inside : r < 8) :
    bitAt mem d (32 + r : Nat) = (mem (d + 4)).getLsbD (7 - r) := by
  have behind : d + 4 = d + BitVec.ofInt 32 4 := rfl
  rw [byte_bit mem _ (by omega), behind, bitAt_add]
  congr 1
  omega

theorem writtenField_long (d data : BitVec 32) (o width : Nat) :
    getLong (writtenField mem d data o width) d =
      mergeField (getLong mem d) o width ((0xff000000 : BitVec 32) <<< (8 - o))
        (data <<< (32 - width)) := by
  have apart : Apart (d + 4) 1 d 4 := apart_below d (n := 1) (k := 4) (by decide) (by decide)
  unfold writtenField
  split
  · rw [getLong_congr (put_sameBytes _ _ apart), getLong_putLong (by decide)]
  · rw [getLong_putLong (by decide)]

theorem writtenField_byte (d data : BitVec 32) {o width r : Nat} (part : o < 8) (fits : width ≤ 32)
    (inside : r < 8) :
    (writtenField mem d data o width (d + 4)).getLsbD (7 - r) =
      if 32 + r < o + width then data.getLsbD (width - 1 - (32 + r - o))
      else (mem (d + 4)).getLsbD (7 - r) := by
  unfold writtenField
  split
  next ends =>
    have old_bit : ((mem (d + 4)).setWidth 32).getLsbD (7 - r) = (mem (d + 4)).getLsbD (7 - r) := by
      simp [show 7 - r < 32 by omega]
    simp only [put, if_true]
    rw [BitVec.getLsbD_setWidth, mergeByte_bit _ data part fits ends inside, old_bit]
    simp [show 7 - r < 8 by omega]
  next ends =>
    have apart : Apart d 4 (d + BitVec.ofNat 32 4) 1 := apart_behind d (by decide) (by decide)
    have same := putLong_sameBytes mem (mergeField (getLong mem d) o width
      ((0xff000000 : BitVec 32) <<< (8 - o)) (data <<< (32 - width))) apart 0 (by decide)
    rw [BitVec.add_zero] at same
    rw [if_neg (by omega)]
    exact congrArg (·.getLsbD (7 - r)) same

theorem writtenField_bit (d data : BitVec 32) {o width q : Nat} (part : o < 8)
    (some_bits : 0 < width) (fits : width ≤ 32) (inside : q < 40) :
    bitAt (writtenField mem d data o width) d q =
      if o ≤ q ∧ q < o + width then data.getLsbD (width - 1 - (q - o)) else bitAt mem d q := by
  have keep : ∀ o < 8, ∀ q < 32,
      ((0xff000000 : BitVec 32) <<< (8 - o)).getLsbD (31 - q) = decide (q < o) := by decide
  by_cases long : q < 32
  · rw [long_bit _ d long, long_bit mem d long, writtenField_long,
      mergeField_bit _ data _ some_bits fits long (keep o part q long)]
  · obtain ⟨r, rfl⟩ := Nat.exists_eq_add_of_le (Nat.not_lt.mp long)
    have started : o ≤ 32 + r := by omega
    rw [byte_behind_bit _ d (by omega), byte_behind_bit mem d (by omega),
      writtenField_byte mem d data part fits (by omega)]
    simp only [started, true_and]

-- What one instruction does with the field.

theorem findFirstOne_mask (tmp offset : BitVec 32) {n : Nat} (inside : n < 32) :
    findFirstOne tmp ((1 : BitVec 32) <<< n) offset =
      offset + BitVec.ofNat 32 (firstOne (lowBits tmp (n + 1)) (n + 1)) := by
  have top : lowBits tmp (n + 1) 0 = tmp.getLsbD n := rfl
  induction n generalizing offset with
  | zero =>
    rw [findFirstOne, if_neg (single_bit_ne_zero inside)]
    cases bit : tmp.getLsbD 0 with
    | true =>
      rw [if_pos ((and_bit_ne_zero tmp inside).mpr bit), firstOne_zero 0 (top.trans bit)]
      simp
    | false =>
      rw [if_neg (by rw [and_bit_ne_zero tmp inside, bit]; decide),
        firstOne_succ 0 (top.trans bit), findFirstOne]
      rfl
  | succ n ih =>
    rw [findFirstOne, if_neg (single_bit_ne_zero inside)]
    cases bit : tmp.getLsbD (n + 1) with
    | true =>
      rw [if_pos ((and_bit_ne_zero tmp inside).mpr bit), firstOne_zero (n + 1) (top.trans bit)]
      simp
    | false =>
      have halved : ∀ n < 31, (1 : BitVec 32) <<< (n + 1) >>> 1 = (1 : BitVec 32) <<< n := by
        decide
      have rest : (fun i => lowBits tmp (n + 1 + 1) (i + 1)) = lowBits tmp (n + 1) := by
        funext i
        rw [lowBits, lowBits]
        congr 1
        omega
      rw [if_neg (by rw [and_bit_ne_zero tmp inside, bit]; decide),
        firstOne_succ (n + 1) (top.trans bit), halved n (by omega),
        ih (offset + 1) (by omega) rfl, rest, BitVec.ofNat_add, BitVec.add_assoc, BitVec.add_comm 1]
      rfl

/-- The sign bits `BFEXTS` ors in. -/
theorem sign_extended (field : Nat → Bool) {width : Nat} (fits : width ≤ 32) :
    BitVec.ofNat 32 (number field width) |||
      (if width = 32 then 0 else (-1 : BitVec 32) <<< width) =
      BitVec.ofInt 32 (number field width - 2 ^ width) := by
  have power : ∀ n : Nat, n < 33 → (if n = 32 then 0 else (-1 : BitVec 32) <<< n) =
      BitVec.ofInt 32 (-2 ^ n) := by decide
  have apart : BitVec.ofNat 32 (number field width) &&&
      (if width = 32 then 0 else (-1 : BitVec 32) <<< width) = 0#32 := by
    apply BitVec.eq_of_getLsbD_eq
    intro j inside
    split
    · simp
    · have ones : (-1 : BitVec 32) = BitVec.allOnes 32 := rfl
      rw [BitVec.getLsbD_and, BitVec.getLsbD_ofNat, number_testBit, ones, BitVec.getLsbD_shiftLeft]
      by_cases low : j < width <;> simp [low]
  rw [← BitVec.add_eq_or_of_and_eq_zero _ _ apart, power width (by omega),
    ← BitVec.ofInt_natCast, ← BitVec.ofInt_add, Int.sub_eq_add_neg]

section Operation

variable (op : BitFieldOp) (extra : BitVec 16) (offset : BitVec 32) {tmp : BitVec 32} (regs : Regs)
  {width : Nat} {field : Nat → Bool}

theorem field_sign_iff (some_bits : 0 < width) (fits : width ≤ 32)
    (bits : ∀ j, tmp.getLsbD j = (decide (j < width) && field (width - 1 - j))) :
    tmp &&& (1 : BitVec 32) <<< (width - 1) ≠ 0 ↔ field 0 = true := by
  have first : width - 1 - (width - 1) = 0 := by omega
  rw [and_bit_ne_zero tmp (by omega), bits, first, decide_eq_true (by omega), Bool.true_and]

theorem fieldOperation_dreg (some_bits : 0 < width) (fits : width ≤ 32)
    (bits : ∀ j, tmp.getLsbD j = (decide (j < width) && field (width - 1 - j))) (k : BitVec 3) :
    (fieldOperation op extra offset width tmp regs).1.dreg k =
      if k = fieldDreg extra then (op.result offset width field).getD (regs.dreg k)
      else regs.dreg k := by
  have value : tmp = BitVec.ofNat 32 (number field width) := eq_number fun j _ => bits j
  cases op with
  | bfextu => simp only [fieldOperation, Regs.setDreg, BitFieldOp.result, Option.getD_some, value]
  | bfexts =>
    have sign := field_sign_iff some_bits fits bits
    simp only [fieldOperation, Regs.setDreg, BitFieldOp.result, Option.getD_some, signedNumber,
      Flags.setFieldNZ, sign]
    cases field 0 with
    | false => simp [value]
    | true => simp only [reduceIte, decide_true, value, sign_extended field fits]
  | bfffo =>
    have one_less : width - 1 + 1 = width := by omega
    have found : findFirstOne tmp ((1 : BitVec 32) <<< (width - 1)) offset =
        offset + BitVec.ofNat 32 (firstOne field width) := by
      rw [findFirstOne_mask tmp offset (by omega), one_less]
      congr 2
      apply firstOne_congr
      intro i inside
      rw [lowBits, bits, decide_eq_true (by omega), Bool.true_and]
      congr 1
      omega
    simp only [fieldOperation, Regs.setDreg, BitFieldOp.result, Option.getD_some, found]
  | _ => simp [fieldOperation, BitFieldOp.result]

theorem fieldOperation_data (fits : width ≤ 32)
    (bits : ∀ j, tmp.getLsbD j = (decide (j < width) && field (width - 1 - j)))
    (writes : op.writesField = true) {i : Nat} (inside : i < width) :
    (fieldOperation op extra offset width tmp regs).2.getLsbD (width - 1 - i) =
      op.newField (regs.dreg (fieldDreg extra)) width field i := by
  have back : width - 1 - (width - 1 - i) = i := by omega
  have bit : tmp.getLsbD (width - 1 - i) = field i := by
    rw [bits, back, decide_eq_true (by omega), Bool.true_and]
  cases op with
  | bfchg =>
    simp only [fieldOperation, BitFieldOp.newField]
    rw [BitVec.getLsbD_not, bit, decide_eq_true (by omega), Bool.true_and]
  | bfclr => simp [fieldOperation, BitFieldOp.newField]
  | bfset =>
    have ones : (0xffffffff : BitVec 32) = BitVec.allOnes 32 := rfl
    simp only [fieldOperation, BitFieldOp.newField]
    rw [ones, BitVec.getLsbD_allOnes, decide_eq_true (by omega)]
  | bfins => rfl
  | _ => simp [BitFieldOp.writesField] at writes

theorem fieldOperation_reads (reads : op.writesField = false) (data : BitVec 32) :
    op.newField data width field = field := by
  cases op with
  | bfchg | bfclr | bfset | bfins => simp [BitFieldOp.writesField] at reads
  | _ => rfl

end Operation

/-- A bit outside the 40 bits that are written is in a byte that is not. -/
theorem writtenField_outside (d data : BitVec 32) {o width : Nat} (part : o < 8)
    (some_bits : 0 < width) (fits : width ≤ 32) {a : BitVec 32} {j : Nat} (inside : j < 8)
    (outside : ∀ i < width, place d (o + i : Nat) ≠ (a, j)) :
    (writtenField mem d data o width a).getLsbD j = (mem a).getLsbD j := by
  by_cases away : ∀ k < 5, a ≠ d + BitVec.ofNat 32 k
  · rw [writtenField_away mem d data o width away]
  · push Not at away
    obtain ⟨k, near, rfl⟩ := away
    have bit : ∀ mem' : Memory 32, (mem' (d + BitVec.ofNat 32 k)).getLsbD j =
        bitAt mem' d (8 * k + (7 - j) : Nat) := by
      intro mem'
      have offset : BitVec.ofNat 32 k = BitVec.ofInt 32 k := (BitVec.ofInt_natCast 32 k).symm
      rw [byte_bit mem' _ inside, offset, bitAt_add]
      rfl
    rw [bit, bit, writtenField_bit mem d data part some_bits fits (by omega), if_neg]
    rintro ⟨started, before⟩
    have rest : o + (8 * k + (7 - j) - o) = 8 * k + (7 - j) := by omega
    apply outside (8 * k + (7 - j) - o) (by omega)
    rw [rest, ← place_byte _ inside, ← BitVec.ofInt_natCast, place_add]
    rfl

/-- The longword the field starts in. -/
def fieldLong (dsta offset : BitVec 32) : BitVec 32 := dsta + BitVec.ofInt 32 (offset.toInt / 8)

theorem place_field (dsta offset : BitVec 32) (i : Nat) :
    place dsta (offset.toInt + i) =
      place (fieldLong dsta offset) ((offset &&& 7).toNat + i : Nat) := by
  have whole : offset.toInt + i = 8 * (offset.toInt / 8) + ((offset &&& 7).toNat + i : Nat) := by
    have rest := and_seven offset
    omega
  rw [fieldLong, place_add, whole]

theorem memoryField_eq (dsta offset : BitVec 32) (i : Nat) :
    memoryField mem dsta offset i =
      bitAt mem (fieldLong dsta offset) ((offset &&& 7).toNat + i : Nat) := by
  rw [memoryField, bitAt, place_field]
  rfl

theorem bit_in_byte (offset : BitVec 32) : (offset &&& 7).toNat < 8 := by
  have low := and_seven offset
  omega

theorem readField_bits (dsta offset : BitVec 32) {width : Nat} (fits : width ≤ 32) (j : Nat) :
    (readField mem (fieldLong dsta offset) (offset &&& 7).toNat width).getLsbD j =
      (decide (j < width) && memoryField mem dsta offset (width - 1 - j)) := by
  rw [memoryField_eq]
  exact readField_bit mem _ (bit_in_byte offset) fits j

theorem bitFieldMemory_eq (op : BitFieldOp) (extra : BitVec 16) (dsta : BitVec 32) (st : Machine) :
    bitFieldMemory op extra dsta st =
      let offset := fieldOffset st.regs extra
      let width := fieldWidth st.regs extra
      let d := fieldLong dsta offset
      let o := (offset &&& 7).toNat
      let done := fieldOperation op extra offset width (readField st.mem d o width) st.regs
      ⟨done.1, if op.writesField then writtenField st.mem d done.2 o width else st.mem⟩ := by
  simp only [bitFieldMemory, offset_bytes, readField, writtenField, fieldLong]
  split
  · split <;> rfl
  · rfl

theorem bitFieldMemory_touches_field (op : BitFieldOp) (extra : BitVec 16) (dsta : BitVec 32)
    (st : Machine) :
    let offset := fieldOffset st.regs extra
    let width := fieldWidth st.regs extra
    let field := memoryField st.mem dsta offset
    let after := bitFieldMemory op extra dsta st
    (∀ i < width, memoryField after.mem dsta offset i =
      op.newField (st.regs.dreg (fieldDreg extra)) width field i) ∧
    (∀ a, ∀ j < 8, (∀ i < width, place dsta (offset.toInt + (i : Nat)) ≠ (a, j)) →
      (after.mem a).getLsbD j = (st.mem a).getLsbD j) ∧
    ∀ k, after.regs.dreg k =
      if k = fieldDreg extra then (op.result offset width field).getD (st.regs.dreg k)
      else st.regs.dreg k := by
  intro offset width field after
  let d := fieldLong dsta offset
  let o := (offset &&& 7).toNat
  let tmp := readField st.mem d o width
  let done := fieldOperation op extra offset width tmp st.regs
  have part : o < 8 := bit_in_byte offset
  have some_bits : 0 < width := fieldWidth_pos st.regs extra
  have fits : width ≤ 32 := fieldWidth_le st.regs extra
  have bits : ∀ j, tmp.getLsbD j = (decide (j < width) && field (width - 1 - j)) :=
    readField_bits st.mem dsta offset fits
  have whole : after =
      ⟨done.1, if op.writesField then writtenField st.mem d done.2 o width else st.mem⟩ :=
    bitFieldMemory_eq op extra dsta st
  rw [whole]
  refine ⟨fun i inside => ?_, fun a j in_byte outside => ?_,
    fieldOperation_dreg op extra offset st.regs some_bits fits bits⟩
  · cases writes : op.writesField with
    | false => rw [fieldOperation_reads op writes]; rfl
    | true =>
      have within : o ≤ o + i ∧ o + i < o + width := by omega
      have behind : o + i - o = i := by omega
      rw [if_pos rfl, memoryField_eq,
        writtenField_bit st.mem d done.2 part some_bits fits (by omega), if_pos within, behind]
      exact fieldOperation_data op extra offset st.regs fits bits writes inside
  · cases writes : op.writesField with
    | false => rfl
    | true =>
      apply writtenField_outside st.mem d done.2 part some_bits fits in_byte
      intro i inside
      rw [← place_field]
      exact outside i inside

end BasiliskII.Cpu
