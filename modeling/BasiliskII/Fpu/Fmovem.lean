import BasiliskII.Fpu.Extended
import BasiliskII.Cpu.Registers
import BasiliskII.Library.ByteMemory

/-!
# FMOVEM of data registers

Cases 6 and 7 of `fpuop_arithmetic` in fpu_soft.cpp: a list of FPU registers
goes to memory or comes from it. Memory is RAM throughout.
-/
namespace BasiliskII.Fpu

open ByteMemory Cpu

structure State where
  regs : Regs
  fp : BitVec 3 → Floatx80
  mem : Memory 32

/-- What the effective address takes from the instruction stream: the next word and long, the PC
before them, and `get_disp_ea_020`. -/
structure Stream where
  pc : BitVec 32
  iword : BitVec 16
  ilong : BitVec 32
  dispEa020 : BitVec 32 → BitVec 16 → BitVec 32

structure Instruction where
  opcode : BitVec 16
  extra : BitVec 16
  stream : Stream

def Instruction.mode (i : Instruction) : BitVec 3 := i.opcode.extractLsb' 3 3

def Instruction.reg (i : Instruction) : BitVec 3 := i.opcode.extractLsb' 0 3

/-- `get_fp_ad`; `none` for an illegal mode. -/
def getFpAd (i : Instruction) (regs : Regs) : Option (BitVec 32) :=
  match i.mode with
  | 0 | 1 => none
  | 2 | 3 | 4 => some (regs.areg i.reg)
  | 5 => some (regs.areg i.reg + i.stream.iword.signExtend 32)
  | 6 => some (i.stream.dispEa020 (regs.areg i.reg) i.stream.iword)
  | _ =>
    match i.reg with
    | 0 => some (i.stream.iword.signExtend 32)
    | 1 => some i.stream.ilong
    | 2 => some (i.stream.pc + i.stream.iword.signExtend 32)
    | 3 => some (i.stream.dispEa020 i.stream.pc i.stream.iword)
    | _ => none

/-- The register list: static or from a data register. -/
def registerList (i : Instruction) (regs : Regs) : BitVec 32 :=
  if i.extra.getLsbD 11 then regs.dreg ((i.extra.extractLsb' 4 2).setWidth 3) &&& 0xff
  else (i.extra &&& 0xff).setWidth 32

/-- `incr < 0`: modes 0 and 1. -/
def descending (i : Instruction) : Bool := !i.extra.getLsbD 12

def regsDown : List (BitVec 3) := [7, 6, 5, 4, 3, 2, 1, 0]

def regsUp : List (BitVec 3) := [0, 1, 2, 3, 4, 5, 6, 7]

def storeDown (fp : BitVec 3 → Floatx80) :
    List (BitVec 3) → BitVec 32 → BitVec 32 × Memory 32 → BitVec 32 × Memory 32
  | [], _, at_end => at_end
  | reg :: regs, list, (ad, mem) =>
    let moved :=
      if list &&& 0x80 ≠ 0 then
        let (wrd1, wrd2, wrd3) := extractExtended (fp reg)
        let ad := ad - 4
        let mem := putLong mem ad wrd3
        let ad := ad - 4
        let mem := putLong mem ad wrd2
        let ad := ad - 4
        let mem := putLong mem ad wrd1
        (ad, mem)
      else (ad, mem)
    storeDown fp regs (list <<< 1) moved

def storeUp (fp : BitVec 3 → Floatx80) :
    List (BitVec 3) → BitVec 32 → BitVec 32 × Memory 32 → BitVec 32 × Memory 32
  | [], _, at_end => at_end
  | reg :: regs, list, (ad, mem) =>
    let moved :=
      if list &&& 0x80 ≠ 0 then
        let (wrd1, wrd2, wrd3) := extractExtended (fp reg)
        let mem := putLong mem ad wrd1
        let ad := ad + 4
        let mem := putLong mem ad wrd2
        let ad := ad + 4
        let mem := putLong mem ad wrd3
        (ad + 4, mem)
      else (ad, mem)
    storeUp fp regs (list <<< 1) moved

def setFp (fp : BitVec 3 → Floatx80) (reg : BitVec 3) (value : Floatx80) : BitVec 3 → Floatx80 :=
  fun k => if k = reg then value else fp k

def loadDown (mem : Memory 32) :
    List (BitVec 3) → BitVec 32 → BitVec 32 × (BitVec 3 → Floatx80) →
      BitVec 32 × (BitVec 3 → Floatx80)
  | [], _, at_end => at_end
  | reg :: regs, list, (ad, fp) =>
    let moved :=
      if list &&& 0x80 ≠ 0 then
        let ad := ad - 4
        let wrd3 := getLong mem ad
        let ad := ad - 4
        let wrd2 := getLong mem ad
        let ad := ad - 4
        let wrd1 := getLong mem ad
        (ad, setFp fp reg (makeExtended wrd1 wrd2 wrd3))
      else (ad, fp)
    loadDown mem regs (list <<< 1) moved

def loadUp (mem : Memory 32) :
    List (BitVec 3) → BitVec 32 → BitVec 32 × (BitVec 3 → Floatx80) →
      BitVec 32 × (BitVec 3 → Floatx80)
  | [], _, at_end => at_end
  | reg :: regs, list, (ad, fp) =>
    let moved :=
      if list &&& 0x80 ≠ 0 then
        let wrd1 := getLong mem ad
        let ad := ad + 4
        let wrd2 := getLong mem ad
        let ad := ad + 4
        let wrd3 := getLong mem ad
        (ad + 4, setFp fp reg (makeExtended wrd1 wrd2 wrd3))
      else (ad, fp)
    loadUp mem regs (list <<< 1) moved

/-- `(An)+` and `-(An)` leave the address register at the final address. -/
def updateAreg (i : Instruction) (regs : Regs) (ad : BitVec 32) : Regs :=
  let regs := if i.opcode &&& 0x38 = 0x18 then regs.setAreg i.reg ad else regs
  if i.opcode &&& 0x38 = 0x20 then regs.setAreg i.reg ad else regs

/-- FMOVEM between the FPU registers and memory; `none` when it is illegal. -/
def fmovem (i : Instruction) (st : State) : Option State := do
  let ad ← getFpAd i st.regs
  let list := registerList i st.regs
  if i.extra &&& 0x2000 ≠ 0 then
    let (ad, mem) :=
      if descending i then storeDown st.fp regsDown list (ad, st.mem)
      else storeUp st.fp regsUp list (ad, st.mem)
    some { st with regs := updateAreg i st.regs ad, mem }
  else
    let (ad, fp) :=
      if descending i then loadDown st.mem regsDown list (ad, st.fp)
      else loadUp st.mem regsUp list (ad, st.fp)
    some { st with regs := updateAreg i st.regs ad, fp }

end BasiliskII.Fpu
