/-!
# The register file of the emulated 680x0

`regstruct` of newcpu.h and the condition codes of m68k.h. A register number is
a three-bit field of an opcode or an extension word.
-/
namespace BasiliskII.Cpu

/-- The flags the handlers set: `regflags`. -/
structure Flags where
  x : Bool
  n : Bool
  z : Bool
  v : Bool
  c : Bool
  deriving DecidableEq, Repr

def cctrue (flags : Flags) (cc : BitVec 4) : Bool :=
  match cc.toNat with
  | 0 => true
  | 1 => false
  | 2 => !flags.c && !flags.z
  | 3 => flags.c || flags.z
  | 4 => !flags.c
  | 5 => flags.c
  | 6 => !flags.z
  | 7 => flags.z
  | 8 => !flags.v
  | 9 => flags.v
  | 10 => !flags.n
  | 11 => flags.n
  | 12 => flags.n == flags.v
  | 13 => flags.n != flags.v
  | 14 => !flags.z && flags.n == flags.v
  | _ => flags.z || flags.n != flags.v

structure Regs where
  dreg : BitVec 3 → BitVec 32
  areg : BitVec 3 → BitVec 32
  pc : BitVec 32
  intmask : BitVec 3
  vbr : BitVec 32
  usp : BitVec 32
  isp : BitVec 32
  msp : BitVec 32
  sr : BitVec 16
  t1 : Bool
  t0 : Bool
  s : Bool
  m : Bool
  flags : Flags

/-- `m68k_dreg(regs, num) = value` -/
def Regs.setDreg (regs : Regs) (num : BitVec 3) (value : BitVec 32) : Regs :=
  { regs with dreg := fun k => if k = num then value else regs.dreg k }

/-- `m68k_areg(regs, num) = value` -/
def Regs.setAreg (regs : Regs) (num : BitVec 3) (value : BitVec 32) : Regs :=
  { regs with areg := fun k => if k = num then value else regs.areg k }

@[simp] theorem Regs.setDreg_same (regs : Regs) (num : BitVec 3) (value : BitVec 32) :
    (regs.setDreg num value).dreg num = value := by
  simp [Regs.setDreg]

@[simp] theorem Regs.setAreg_same (regs : Regs) (num : BitVec 3) (value : BitVec 32) :
    (regs.setAreg num value).areg num = value := by
  simp [Regs.setAreg]

theorem Regs.setAreg_other (regs : Regs) {num other : BitVec 3} (value : BitVec 32)
    (different : other ≠ num) : (regs.setAreg num value).areg other = regs.areg other := by
  simp [Regs.setAreg, different]

theorem Regs.setAreg_setAreg (regs : Regs) (num : BitVec 3) (first second : BitVec 32) :
    (regs.setAreg num first).setAreg num second = regs.setAreg num second := by
  simp only [Regs.setAreg, Regs.mk.injEq, true_and, and_true]
  funext k
  split <;> rfl

theorem Regs.setAreg_self (regs : Regs) (num : BitVec 3) : regs.setAreg num (regs.areg num) = regs := by
  have same : (fun k => if k = num then regs.areg num else regs.areg k) = regs.areg := by
    funext k
    split
    next here => rw [here]
    · rfl
  simp only [Regs.setAreg, same]

end BasiliskII.Cpu
