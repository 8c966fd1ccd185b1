import BasiliskII.Cpu.AddressingModes
import BasiliskII.Cpu.LongDivision
import BasiliskII.Library.CyclicInterval

/-!
# CHK2 and CMP2

The handler gencpu.c emits for both: bit 11 of the extension word tells CHK2
from CMP2. Its two arms for bounds in and out of order say the same.
-/
namespace BasiliskII.Cpu

open ByteMemory

/-- `regs.regs[(extra >> 12) & 15]` -/
def extraReg (extra : BitVec 16) : BitVec 4 := extra.extractLsb' 12 4

/-- The register as it is compared: a data register is extended from the operand's size. -/
def boundsRegister (size : Size) (extra : BitVec 16) (regs : Regs) : BitVec 32 :=
  let reg := regs.reg (extraReg extra)
  if extra &&& 0x8000 = 0 then size.signed reg else reg

def compareBounds (size : Size) (extra : BitVec 16) (lower upper : BitVec 32) (regs : Regs) : Regs :=
  let reg := boundsRegister size extra regs
  { regs with
    flags := { regs.flags with
      z := upper = reg ∨ lower = reg
      -- The second arm is the first one with its tests exchanged.
      c := if lower.sle upper then reg.slt lower ∨ upper.slt reg
        else upper.slt reg ∨ reg.slt lower } }

/-- The extension word and the address of the bounds; no mode of CHK2 moves an address register. -/
def chk2Operand (cpu : CPUType) (size : Size) (mode : MemMode) (dstreg : BitVec 3) (st : Machine) :
    BitVec 16 × BitVec 32 × Handler :=
  let (extra, h) := st.begin.nextIword
  let (dsta, h) := mode.address cpu dstreg size h
  (extra, dsta, h)

def chk2 (cpu : CPUType) (size : Size) (mode : MemMode) (dstreg : BitVec 3) (st : Machine) :
    Outcome :=
  let oldpc := st.regs.pc
  let (extra, dsta, h) := chk2Operand cpu size mode dstreg st
  let lower := (size.get h.st.mem dsta).signExtend 32
  let upper := (size.get h.st.mem (dsta + BitVec.ofNat 32 size.bytes)).signExtend 32
  let regs := compareBounds size extra lower upper h.st.regs
  let h := { h with st := { h.st with regs } }
  -- The trap is taken before the PC is moved.
  if extra &&& 0x800 ≠ 0 ∧ regs.flags.c = true then .trap 6 oldpc h.st else .done h.syncPc.st

-- What the flags are to say.

/-- The register is in the interval, at the size of the operand or, for an address register, as a
long between extended bounds. -/
def WithinBounds (size : Size) (extra : BitVec 16) (lower upper : BitVec size.bits) (regs : Regs) :
    Prop :=
  let reg := regs.reg (extraReg extra)
  if extra &&& 0x8000 = 0 then CyclicInterval.Mem lower upper (reg.setWidth size.bits)
  else CyclicInterval.Mem (lower.signExtend 32) (upper.signExtend 32) reg

instance (size : Size) (extra : BitVec 16) (lower upper : BitVec size.bits) (regs : Regs) :
    Decidable (WithinBounds size extra lower upper regs) :=
  inferInstanceAs (Decidable (ite _ _ _))

def EqualsBound (size : Size) (extra : BitVec 16) (lower upper : BitVec size.bits) (regs : Regs) :
    Prop :=
  let reg := regs.reg (extraReg extra)
  if extra &&& 0x8000 = 0 then upper = reg.setWidth size.bits ∨ lower = reg.setWidth size.bits
  else upper.signExtend 32 = reg ∨ lower.signExtend 32 = reg

/-- C, Z and the trap of CHK2 tell how the register compares with the bounds in memory. -/
structure BoundsTold (size : Size) (extra : BitVec 16) (lower upper : BitVec size.bits)
    (regs : Regs) (outcome : Outcome) : Prop where
  carry : outcome.machine.regs.flags.c = false ↔ WithinBounds size extra lower upper regs
  zero : outcome.machine.regs.flags.z = true ↔ EqualsBound size extra lower upper regs
  trap : outcome.trapped = true ↔ extra &&& 0x800 ≠ 0 ∧ outcome.machine.regs.flags.c = true

section

variable (size : Size) (extra : BitVec 16)

theorem signExtend_inj (x y : BitVec size.bits) : x.signExtend 32 = y.signExtend 32 ↔ x = y := by
  rw [← BitVec.toInt_inj, ← BitVec.toInt_inj, BitVec.toInt_signExtend_of_le size.bits_le,
    BitVec.toInt_signExtend_of_le size.bits_le]

variable (lower upper : BitVec size.bits) (regs : Regs)

theorem withinBounds_iff :
    WithinBounds size extra lower upper regs ↔
      CyclicInterval.Mem (lower.signExtend 32) (upper.signExtend 32)
        (boundsRegister size extra regs) := by
  simp only [WithinBounds, boundsRegister]
  split
  · exact (CyclicInterval.mem_signExtend_iff size.bits_le _ _ _).symm
  · rfl

theorem equalsBound_iff :
    EqualsBound size extra lower upper regs ↔
      upper.signExtend 32 = boundsRegister size extra regs ∨
        lower.signExtend 32 = boundsRegister size extra regs := by
  simp only [EqualsBound, boundsRegister]
  split
  · simp only [Size.signed, signExtend_inj]
  · rfl

theorem compareBounds_carry (lower upper : BitVec 32) :
    (compareBounds size extra lower upper regs).flags.c = false ↔
      lower.toInt ≤ (boundsRegister size extra regs).toInt ∧
        (boundsRegister size extra regs).toInt ≤ upper.toInt := by
  have below : (boundsRegister size extra regs).slt lower = true ↔
      (boundsRegister size extra regs).toInt < lower.toInt := BitVec.slt_iff_toInt_lt
  have above : upper.slt (boundsRegister size extra regs) = true ↔
      upper.toInt < (boundsRegister size extra regs).toInt := BitVec.slt_iff_toInt_lt
  simp only [compareBounds, below, above]
  split
  · simp
  · simp
    omega

theorem compareBounds_right_iff :
    ((compareBounds size extra (lower.signExtend 32) (upper.signExtend 32) regs).flags.c = false ↔
        WithinBounds size extra lower upper regs) ↔
      lower.toInt ≤ upper.toInt ∨
        upper.toInt < (boundsRegister size extra regs).toInt ∧
          (boundsRegister size extra regs).toInt < lower.toInt := by
  rw [compareBounds_carry, withinBounds_iff, CyclicInterval.mem_iff_toInt, CyclicInterval.Between,
    BitVec.toInt_signExtend_of_le size.bits_le, BitVec.toInt_signExtend_of_le size.bits_le]
  split <;> omega

end

section

variable (cpu : CPUType) (size : Size) (mode : MemMode) (dstreg : BitVec 3) (st : Machine)

def chk2Extra : BitVec 16 := (chk2Operand cpu size mode dstreg st).1

def chk2Lower : BitVec size.bits := size.get st.mem (chk2Operand cpu size mode dstreg st).2.1

def chk2Upper : BitVec size.bits :=
  size.get st.mem ((chk2Operand cpu size mode dstreg st).2.1 + BitVec.ofNat 32 size.bytes)

theorem chk2Operand_onlyPc : OnlyPc st (chk2Operand cpu size mode dstreg st).2.2.st :=
  mode.address_onlyPc cpu dstreg size st.begin.nextIword.2

theorem OnlyPc.boundsRegister {st st' : Machine} (only : OnlyPc st st') (size : Size)
    (extra : BitVec 16) :
    boundsRegister size extra st'.regs = boundsRegister size extra st.regs := by
  simp only [BasiliskII.Cpu.boundsRegister, only.reg]

/-- The flags CHK2 leaves or traps with are those of the comparison. -/
theorem chk2_flags :
    (chk2 cpu size mode dstreg st).machine.regs.flags =
      (compareBounds size (chk2Extra cpu size mode dstreg st)
        ((chk2Lower cpu size mode dstreg st).signExtend 32)
        ((chk2Upper cpu size mode dstreg st).signExtend 32) st.regs).flags := by
  have only := chk2Operand_onlyPc cpu size mode dstreg st
  have reg := only.boundsRegister size (chk2Extra cpu size mode dstreg st)
  simp only [chk2, chk2Extra, chk2Lower, chk2Upper] at reg ⊢
  rw [only.mem]
  split <;> simp only [Outcome.machine, Handler.syncPc_flags, compareBounds, reg, only.flags]

theorem chk2_trapped :
    (chk2 cpu size mode dstreg st).trapped = true ↔
      chk2Extra cpu size mode dstreg st &&& 0x800 ≠ 0 ∧
        (chk2 cpu size mode dstreg st).machine.regs.flags.c = true := by
  simp only [chk2, chk2Extra]
  split
  next taken => simpa only [Outcome.trapped, Outcome.machine, true_iff] using taken
  next missed =>
    simpa only [Outcome.trapped, Outcome.machine, Bool.false_eq_true, false_iff,
      Handler.syncPc_flags] using missed

/-- CHK2 and CMP2 tell the truth just when the bounds are in signed order or the register is
between them the wrong way round: a wrapped interval is taken to be empty. -/
theorem chk2_bounds_told_iff :
    BoundsTold size (chk2Extra cpu size mode dstreg st) (chk2Lower cpu size mode dstreg st)
        (chk2Upper cpu size mode dstreg st) st.regs (chk2 cpu size mode dstreg st) ↔
      (chk2Lower cpu size mode dstreg st).toInt ≤ (chk2Upper cpu size mode dstreg st).toInt ∨
        (chk2Upper cpu size mode dstreg st).toInt <
            (boundsRegister size (chk2Extra cpu size mode dstreg st) st.regs).toInt ∧
          (boundsRegister size (chk2Extra cpu size mode dstreg st) st.regs).toInt <
            (chk2Lower cpu size mode dstreg st).toInt := by
  rw [← compareBounds_right_iff, ← chk2_flags]
  constructor
  · exact BoundsTold.carry
  · intro carry
    refine ⟨carry, ?_, chk2_trapped cpu size mode dstreg st⟩
    rw [chk2_flags, equalsBound_iff]
    simp only [compareBounds, decide_eq_true_iff]

end

/-- D0 is `0x80`, A0 points to the bounds `0x10` and `0xf0`; the extension word is 0. -/
def wrappedBounds : Machine :=
  ⟨{ zeroRegs with dreg := fun _ => 0x80, areg := fun _ => 0x1000 },
    fun a => if a = 0x1000 then 0x10 else if a = 0x1001 then 0xf0 else 0⟩

/-- CMP2.B of D0 = `0x80` with the unsigned bounds `0x10` and `0xf0` reports it out of bounds. -/
theorem chk2_wrapped_bounds_wrong :
    ¬ ∀ (cpu : CPUType) (size : Size) (mode : MemMode) (dstreg : BitVec 3) (st : Machine),
      BoundsTold size (chk2Extra cpu size mode dstreg st) (chk2Lower cpu size mode dstreg st)
        (chk2Upper cpu size mode dstreg st) st.regs (chk2 cpu size mode dstreg st) := by
  intro told
  exact absurd (told .mc68020 .byte .aind 0 wrappedBounds).carry (by decide)

end BasiliskII.Cpu
