import BasiliskII.Fpu.Conditions
import BasiliskII.Fpu.ControlRegisters
import BasiliskII.Fpu.Operations

/-!
# Arithmetic instructions of the FPU

`fpuop_arithmetic` of fpu_soft.cpp, with `get_fp_value` and `put_fp_value`, and the handler of
FPP, which reads the extension word. Memory is RAM throughout.
-/
namespace BasiliskII.Fpu

open ByteMemory Cpu

def sz1 (size : BitVec 3) : BitVec 32 :=
  match size with
  | 0 => 4
  | 1 => 4
  | 2 => 12
  | 3 => 12
  | 4 => 2
  | 5 => 8
  | 6 => 1
  | _ => 0

/-- The same for the stack pointer and immediate operands. -/
def sz2 (size : BitVec 3) : BitVec 32 := if size = 6 then 2 else sz1 size

def eaMode (opcode : BitVec 16) : BitVec 3 := opcode.extractLsb' 3 3
def eaReg (opcode : BitVec 16) : BitVec 3 := opcode.setWidth 3
def operandSize (extra : BitVec 16) : BitVec 3 := extra.extractLsb' 10 3

def aregStep (opcode extra : BitVec 16) : BitVec 32 :=
  if eaReg opcode = 7 then sz2 (operandSize extra) else sz1 (operandSize extra)

/-- The address `ad` of an operand in memory; `none` for an illegal mode. -/
def operandAddress (opcode extra : BitVec 16) (st : Machine) : Option (BitVec 32 × Machine) :=
  let reg := eaReg opcode
  if eaMode opcode = 3 then
    let ad := st.regs.areg reg
    some (ad, { st with regs := st.regs.setAreg reg (ad + aregStep opcode extra) })
  else if eaMode opcode = 4 then
    let ad := st.regs.areg reg - aregStep opcode extra
    some (ad, { st with regs := st.regs.setAreg reg ad })
  else if eaMode opcode = 7 ∧ reg = 4 then
    let ad := st.regs.pc
    some (ad, m68kSetpc (ad + sz2 (operandSize extra)) st)
  -- The other modes are those of `get_fp_ad`.
  else fetchFpAd opcode st

section

variable (sf : Softfloat) (c : CLibrary)

def makeSingle (value : BitVec 32) : Soft Floatx80 := sf.float32ToFloatx80 value

def makeDouble (wrd1 wrd2 : BitVec 32) : Soft Floatx80 := sf.float64ToFloatx80 (wrd1 ++ wrd2)

def nibbleChar (word : BitVec 32) (shift : Nat) : Char :=
  Char.ofNat ((word >>> shift &&& 0xf).toNat + '0'.toNat)

/-- The text `make_packed` composes. -/
def packedText (wrd1 wrd2 wrd3 : BitVec 32) : List Char :=
  (if wrd1 &&& 0x80000000 ≠ 0 then ['-'] else []) ++ [nibbleChar wrd1 0, '.'] ++
    [28, 24, 20, 16, 12, 8, 4, 0].map (nibbleChar wrd2) ++
    [28, 24, 20, 16, 12, 8, 4, 0].map (nibbleChar wrd3) ++ ['E'] ++
    (if wrd1 &&& 0x40000000 ≠ 0 then ['-'] else []) ++ [24, 20, 16].map (nibbleChar wrd1)

def makePacked (wrd1 wrd2 wrd3 : BitVec 32) : Soft Floatx80 :=
  sf.float64ToFloatx80 (c.sscanf (packedText wrd1 wrd2 wrd3))

/-- `*cp - '0'` -/
def digitValue (ch : Char) : BitVec 32 := BitVec.ofInt 32 ((ch.toNat : Int) - '0'.toNat)

/-- `*wrd <<= 4; if (*cp >= '0' && *cp <= '9') *wrd |= *cp++ - '0'` -/
def mantissaDigits : Nat → BitVec 32 × List Char → BitVec 32 × List Char
  | 0, at_end => at_end
  | n + 1, (wrd, cp) =>
    let ch := cp.headD '\x00'
    if ch.isDigit then mantissaDigits n (wrd <<< 4 ||| digitValue ch, cp.tail)
    else mantissaDigits n (wrd <<< 4, cp)

/-- `if (*cp >= '0' && *cp <= '9') t = (t << 4) | (*cp++ - '0')` -/
def exponentDigits : Nat → BitVec 32 × List Char → BitVec 32 × List Char
  | 0, at_end => at_end
  | n + 1, (t, cp) =>
    let ch := cp.headD '\x00'
    if ch.isDigit then exponentDigits n (t <<< 4 ||| digitValue ch, cp.tail)
    else exponentDigits n (t, cp)

/-- `if (*cp == ch) cp++` -/
def skipChar (ch : Char) (cp : List Char) : List Char := if cp.headD '\x00' = ch then cp.tail else cp

/-- What `extract_packed` reads from the text of a number. -/
def packedWords (cp : List Char) : BitVec 32 × BitVec 32 × BitVec 32 :=
  let (wrd1, cp) : BitVec 32 × List Char :=
    if cp.headD '\x00' = '-' then (0x80000000, cp.tail) else (0, cp)
  let cp := skipChar '+' cp
  let wrd1 := wrd1 ||| digitValue (cp.headD '\x00')
  let cp := skipChar '.' cp.tail
  let (wrd2, cp) := mantissaDigits 8 (0, cp)
  let (wrd3, cp) := mantissaDigits 8 (0, cp)
  if cp.headD '\x00' = 'e' ∨ cp.headD '\x00' = 'E' then
    let cp := cp.tail
    let (wrd1, cp) := if cp.headD '\x00' = '-' then (wrd1 ||| 0x40000000, cp.tail) else (wrd1, cp)
    let (t, _) := exponentDigits 3 (0, skipChar '+' cp)
    (wrd1 ||| t <<< 16, wrd2, wrd3)
  else (wrd1, wrd2, wrd3)

def extractPacked (src : Floatx80) : Soft (BitVec 32 × BitVec 32 × BitVec 32) := do
  let d ← sf.floatx80ToFloat64 src
  return packedWords (c.sprintf d)

/-- The operand at `ad`; `none` for a size there is not. -/
def readOperand (size : BitVec 3) (mem : Memory 32) (ad : BitVec 32) : Option (Soft Floatx80) :=
  let wrd1 := getLong mem ad
  let wrd2 := getLong mem (ad + 4)
  let wrd3 := getLong mem (ad + 8)
  match size with
  | 0 => some (pure (int32ToFloatx80 wrd1))
  | 1 => some (makeSingle sf wrd1)
  | 2 => some (pure (makeExtended wrd1 wrd2 wrd3))
  | 3 => some (makePacked sf c wrd1 wrd2 wrd3)
  | 4 => some (pure (int32ToFloatx80 ((getWord mem ad).signExtend 32)))
  | 5 => some (makeDouble sf wrd1 wrd2)
  | 6 => some (pure (int32ToFloatx80 ((mem ad).signExtend 32)))
  | _ => none

/-- The operand in a data register. -/
def readDreg (size : BitVec 3) (d : BitVec 32) : Option (Soft Floatx80) :=
  match size with
  | 6 => some (pure (int32ToFloatx80 ((d.setWidth 8).signExtend 32)))
  | 4 => some (pure (int32ToFloatx80 ((d.setWidth 16).signExtend 32)))
  | 0 => some (pure (int32ToFloatx80 d))
  | 1 => some (makeSingle sf d)
  | _ => none

/-- The source operand, if there is one, and the machine after it has been fetched. -/
def getFpValue (opcode extra : BitVec 16) (m : FpuMachine) : Option Floatx80 × FpuMachine :=
  let size := operandSize extra
  let convert (operand : Option (Soft Floatx80)) (m : FpuMachine) : Option Floatx80 × FpuMachine :=
    match operand with
    | none => (none, m)
    | some value =>
      let (src, fpu) := withStatus value m.fpu
      (some src, { m with fpu })
  if extra &&& 0x4000 = 0 then (some (m.fpu.registers size), m)
  else if eaMode opcode = 0 then convert (readDreg sf size (m.regs.dreg (eaReg opcode))) m
  else
    match operandAddress opcode extra ⟨m.regs, m.mem⟩ with
    | none => (none, m)
    | some (ad, st) =>
      -- A byte is the low-order one of the extension word.
      let ad := if eaMode opcode = 7 ∧ eaReg opcode = 4 ∧ size = 6 then ad + 1 else ad
      convert (readOperand sf c size st.mem ad) ⟨st.regs, m.fpu, st.mem⟩

/-- `extract_double` -/
def extractDouble (src : Floatx80) : Soft (BitVec 32 × BitVec 32) := do
  let d ← sf.floatx80ToFloat64 src
  return (d.extractLsb' 32 32, d.extractLsb' 0 32)

/-- Stores the operand at `ad`; `none` for a size there is not. -/
def writeOperand (size : BitVec 3) (value : Floatx80) (ad : BitVec 32) (mem : Memory 32) :
    Option (Soft (Memory 32)) :=
  let putThree (words : BitVec 32 × BitVec 32 × BitVec 32) : Memory 32 :=
    let (wrd1, wrd2, wrd3) := words
    putLong (putLong (putLong mem ad wrd1) (ad + 4) wrd2) (ad + 8) wrd3
  match size with
  | 0 => some do return putLong mem ad (← sf.floatx80ToInt32 value)
  | 1 => some do return putLong mem ad (← sf.floatx80ToFloat32 value)
  | 2 => some (pure (putThree (extractExtended value)))
  | 3 => some do return putThree (← extractPacked sf c value)
  | 4 => some do return putWord mem ad ((← sf.floatx80ToInt32 value).setWidth 16)
  | 5 => some do
    let (wrd1, wrd2) ← extractDouble sf value
    return putLong (putLong mem ad wrd1) (ad + 4) wrd2
  | 6 => some do return ByteMemory.put mem ad ((← sf.floatx80ToInt32 value).setWidth 8)
  | _ => none

/-- The data register with the operand in it. -/
def writeDreg (size : BitVec 3) (value : Floatx80) (d : BitVec 32) : Option (Soft (BitVec 32)) :=
  match size with
  | 6 => some do return (← sf.floatx80ToInt32 value) &&& 0xff ||| d &&& ~~~0xff
  | 4 => some do return (← sf.floatx80ToInt32 value) &&& 0xffff ||| d &&& ~~~0xffff
  | 0 => some (sf.floatx80ToInt32 value)
  | 1 => some (sf.floatx80ToFloat32 value)
  | _ => none

/-- Whether there was such an operand, and the machine after it has been stored. -/
def putFpValue (opcode extra : BitVec 16) (value : Floatx80) (m : FpuMachine) : Bool × FpuMachine :=
  let size := operandSize extra
  if extra &&& 0x4000 = 0 then (true, { m with fpu := storeResult size value m.fpu })
  else if eaMode opcode = 0 then
    match writeDreg sf size value (m.regs.dreg (eaReg opcode)) with
    | none => (false, m)
    | some written =>
      let (d, fpu) := withStatus written m.fpu
      (true, { m with regs := m.regs.setDreg (eaReg opcode) d, fpu })
  else
    match operandAddress opcode extra ⟨m.regs, m.mem⟩ with
    | none => (false, m)
    | some (ad, st) =>
      match writeOperand sf c size value ad st.mem with
      | none => (false, ⟨st.regs, m.fpu, st.mem⟩)
      | some written =>
        let (mem, fpu) := withStatus written m.fpu
        (true, ⟨st.regs, fpu, mem⟩)

/-- A constant of the ROM: its three words. -/
def constantRom (k : Nat) : BitVec 32 × BitVec 32 × BitVec 32 :=
  match k with
  | 0x00 => (0x2168C235, 0xC90FDAA2, 0x4000)
  | 0x0b => (0xFBCFF798, 0x9A209A84, 0x3FFD)
  | 0x0c => (0xA2BB4A9A, 0xADF85458, 0x4000)
  | 0x0d => (0x5C17F0BC, 0xB8AA3B29, 0x3FFF)
  | 0x0e => (0x37287195, 0xDE5BD8A9, 0x3FFD)
  | 0x30 => (0xD1CF79AC, 0xB17217F7, 0x3FFE)
  | 0x31 => (0xAAA8AC17, 0x935D8DDD, 0x4000)
  | 0x32 => (0, 0x80000000, 0x3FFF)
  | 0x33 => (0, 0xA0000000, 0x4002)
  | 0x34 => (0, 0xC8000000, 0x4005)
  | 0x35 => (0, 0x9C400000, 0x400C)
  | 0x36 => (0, 0xBEBC2000, 0x4019)
  | 0x37 => (0x04000000, 0x8E1BC9BF, 0x4034)
  | 0x38 => (0x2B70B59E, 0x9DC5ADA8, 0x4069)
  | 0x39 => (0xFFCFA6D5, 0xC2781F49, 0x40D3)
  | 0x3a => (0x80E98CE0, 0x93BA47C9, 0x41A8)
  | 0x3b => (0x9DF9DE8E, 0xAA7EEBFB, 0x4351)
  | 0x3c => (0xA60E91C7, 0xE319A0AE, 0x46A3)
  | 0x3d => (0x81750C17, 0xC9767586, 0x4D48)
  | 0x3e => (0xC53D5DE5, 0x9E8B3B5D, 0x5A92)
  | 0x3f => (0x8A20979B, 0xC4605202, 0x7525)
  | _ => (0, 0, 0)

/-- The constant of FMOVECR; the condition is read as `extra & (0x7f >= 0x40)`. -/
def fmovecr (extra : BitVec 16) : Floatx80 :=
  if extra &&& 1 ≠ 0 then packFloatx80 0 0 0
  else
    let (w0, w1, w2) := constantRom (extra &&& 0x3f).toNat
    ⟨w2.setWidth 16, w1.setWidth 64 <<< 32 ||| w0.setWidth 64⟩

/-- How `fpuop_arithmetic` ends: by itself, or in a call of `op_illg`. -/
inductive FpuOutcome
  | done (m : FpuMachine)
  | illegal (m : FpuMachine)

/-- `m68k_setpc(m68k_getpc() - 4)` -/
def FpuMachine.rewound (m : FpuMachine) : FpuMachine :=
  { m with regs := { m.regs with pc := m.regs.pc - 4 } }

/-- What `get_fp_ad` finds in the instruction stream. -/
def streamAt (st : Machine) : Stream where
  pc := st.regs.pc
  iword := st.nextIword.1
  ilong := st.nextIlong.1
  dispEa020 base dp := (getDispEa020 base dp st.nextIword.2).1

/-- An FMOVEM that reads up to `pc`, and the machine after it if it is legal. -/
def fmovemOutcome (m : FpuMachine) (pc : BitVec 32) (after : Option FpuMachine) : FpuOutcome :=
  match after with
  | none => .illegal m.rewound
  | some m => .done { m with regs := { m.regs with pc } }

/-- The PC behind the extension words of `get_fp_ad`. -/
def pcBehindAd (opcode : BitVec 16) (st : Machine) : BitVec 32 :=
  (fetchFpAd opcode st).elim st.regs.pc fun fetched => fetched.2.regs.pc

/-- Cases 4 and 5. -/
def fmovemControlCase (i : Instruction) (m : FpuMachine) : FpuOutcome :=
  let immediate : Bool := i.opcode &&& 0x3f = 0x3c ∧ i.extra &&& 0x2000 = 0
  let pc := if immediate then m.regs.pc + controlSize i else pcBehindAd i.opcode ⟨m.regs, m.mem⟩
  fmovemOutcome m pc (fmovemControl i (fun n => getLong m.mem (m.regs.pc + BitVec.ofNat 32 (4 * n))) m)

/-- Cases 6 and 7. -/
def fmovemDataCase (i : Instruction) (m : FpuMachine) : FpuOutcome :=
  fmovemOutcome m (pcBehindAd i.opcode ⟨m.regs, m.mem⟩)
    ((fmovem i ⟨m.regs, m.fpu.registers, m.mem⟩).map fun st =>
      ⟨st.regs, { m.fpu with registers := st.fp }, st.mem⟩)

variable (is_integral : Bool)

/-- Case 3: FMOVE to an effective address. -/
def fmoveCase (opcode extra : BitVec 16) (m : FpuMachine) : FpuOutcome :=
  match putFpValue sf c opcode extra (m.fpu.registers (extra.extractLsb' 7 3)) m with
  | (false, m) => .illegal m.rewound
  | (true, m) => .done m

/-- Cases 0 and 2: FMOVECR and the operations. -/
def operationCase (opcode extra : BitVec 16) (m : FpuMachine) : FpuOutcome :=
  let reg := extra.extractLsb' 7 3
  if extra &&& 0xfc00 = 0x5c00 then .done { m with fpu := storeResult reg (fmovecr extra) m.fpu }
  else
    match getFpValue sf c opcode extra m with
    | (none, m) => .illegal m.rewound
    | (some src, m) =>
      match decodeOperation is_integral (extra.setWidth 7) with
      | some op => .done { m with fpu := op.execute sf c reg src m.fpu }
      | none => .illegal m.rewound

def fpuopArithmetic (opcode extra : BitVec 16) (m : FpuMachine) : FpuOutcome :=
  let i : Instruction := ⟨opcode, extra, streamAt ⟨m.regs, m.mem⟩⟩
  match extra.extractLsb' 13 3 with
  | 3 => fmoveCase sf c opcode extra m
  | 4 | 5 => fmovemControlCase i m
  | 6 | 7 => fmovemDataCase i m
  | 0 | 2 => operationCase sf c is_integral opcode extra m
  | _ => .illegal m.rewound

/-- The handler of FPP: the machine after the instruction, and the exceptions raised. -/
def fpp (cpu : CPUType) (fault : Fault) (opcode : BitVec 16) (m : FpuMachine) :
    FpuMachine × List ExceptionCall :=
  let (extra, h) := (⟨m.regs, m.mem⟩ : Machine).begin.nextIword
  let st := h.syncPc.st
  match fpuopArithmetic sf c is_integral opcode extra ⟨st.regs, m.fpu, st.mem⟩ with
  | .done m => (m, [])
  | .illegal m =>
    let e := opIllg cpu fault opcode ⟨m.regs, m.mem⟩
    (⟨e.st.regs, m.fpu, e.st.mem⟩, e.calls)

end

end BasiliskII.Fpu
