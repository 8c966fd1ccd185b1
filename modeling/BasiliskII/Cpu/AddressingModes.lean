import BasiliskII.Cpu.Exceptions
import BasiliskII.Cpu.Shifts

/-!
# Operands of the instruction handlers

`genamode` and `genastore` of gencpu.c and the two functions for indexed modes
of newcpu.cpp, for the handlers without a prefetch buffer, which are the ones in
use. A handler reads its extension words at `m68k_pc_offset` and moves the PC
late, in `sync_m68k_pc`; an indexed mode of the 68020 moves it at once.
-/
namespace BasiliskII.Cpu

open ByteMemory

/-- `regs.regs[num]`: D0 to D7, then A0 to A7. -/
def Regs.reg (regs : Regs) (num : BitVec 4) : BitVec 32 :=
  if num.getLsbD 3 then regs.areg (num.setWidth 3) else regs.dreg (num.setWidth 3)

def Size.bytes : Size → Nat
  | .byte => 1
  | .word => 2
  | .long => 4

/-- `get_byte`, `get_word` or `get_long`. -/
def Size.get (size : Size) (mem : Memory 32) (a : BitVec 32) : BitVec size.bits :=
  match size with
  | .byte => mem a
  | .word => getWord mem a
  | .long => getLong mem a

/-- `put_byte`, `put_word` or `put_long`. -/
def Size.put (size : Size) (mem : Memory 32) (a value : BitVec 32) : Memory 32 :=
  match size with
  | .byte => ByteMemory.put mem a (value.setWidth 8)
  | .word => putWord mem a (value.setWidth 16)
  | .long => putLong mem a value

/-- The cast to `uae_s8`, `uae_s16` or `uae_s32`, as a number of 32 bits. -/
def Size.signed (size : Size) (data : BitVec 32) : BitVec 32 :=
  (data.setWidth size.bits).signExtend 32

/-- `genastore` to a data register: what is above the operand stays. -/
def Regs.storeDreg (regs : Regs) (size : Size) (num : BitVec 3) (value : BitVec 32) : Regs :=
  regs.setDreg num ((regs.dreg num &&& ~~~size.bitMask) ||| (value &&& size.bitMask))

/-- The `amodes` of readcpu.h that have an address. -/
inductive MemMode
  | aind | aipi | apdi | ad16 | ad8r | pc16 | pc8r | absw | absl
  deriving DecidableEq, Repr

/-- The other `amodes`; `immi` is an operand inside the opcode. -/
inductive Amode
  | dreg | areg
  | mem (mode : MemMode)
  | imm | imm0 | imm1 | imm2
  | immi (value : BitVec 32)
  deriving DecidableEq, Repr

def Machine.incpc (st : Machine) (o : BitVec 32) : Machine :=
  { st with regs := { st.regs with pc := st.regs.pc + o } }

/-- `next_iword()` -/
def Machine.nextIword (st : Machine) : BitVec 16 × Machine := (getWord st.mem st.regs.pc, st.incpc 2)

/-- `next_ilong()` -/
def Machine.nextIlong (st : Machine) : BitVec 32 × Machine := (getLong st.mem st.regs.pc, st.incpc 4)

/-- A handler at work: `offset` is `m68k_pc_offset`. -/
structure Handler where
  st : Machine
  offset : BitVec 32

/-- A handler begins behind the opcode. -/
def Machine.begin (st : Machine) : Handler := ⟨st, 2⟩

/-- `gen_nextiword` -/
def Handler.nextIword (h : Handler) : BitVec 16 × Handler :=
  (getWord h.st.mem (h.st.regs.pc + h.offset), { h with offset := h.offset + 2 })

/-- `gen_nextilong` -/
def Handler.nextIlong (h : Handler) : BitVec 32 × Handler :=
  (getLong h.st.mem (h.st.regs.pc + h.offset), { h with offset := h.offset + 4 })

/-- `gen_nextibyte` -/
def Handler.nextIbyte (h : Handler) : BitVec 8 × Handler :=
  (h.st.mem (h.st.regs.pc + h.offset + 1), { h with offset := h.offset + 2 })

/-- `sync_m68k_pc` -/
def Handler.syncPc (h : Handler) : Handler := ⟨h.st.incpc h.offset, 0⟩

/-- A displacement of no, two or four bytes. -/
def Machine.nextDisplacement (st : Machine) (word long : Bool) : BitVec 32 × Machine :=
  if word then (st.nextIword.1.signExtend 32, st.nextIword.2)
  else if long then st.nextIlong
  else (0, st)

/-- The index register of a brief or full extension word. -/
def indexRegister (regs : Regs) (dp : BitVec 16) : BitVec 32 :=
  let regd := regs.reg (dp.extractLsb' 12 4)
  if dp &&& 0x800 = 0 then Size.signed .word regd else regd

def getDispEa020 (base : BitVec 32) (dp : BitVec 16) (st : Machine) : BitVec 32 × Machine :=
  let regd := indexRegister st.regs dp <<< (dp.extractLsb' 9 2).toNat
  if dp &&& 0x100 ≠ 0 then
    let base := if dp &&& 0x80 ≠ 0 then 0 else base
    let regd := if dp &&& 0x40 ≠ 0 then 0 else regd
    let (disp, st) := st.nextDisplacement (dp &&& 0x30 = 0x20) (dp &&& 0x30 = 0x30)
    let base := base + disp
    let (outer, st) := st.nextDisplacement (dp &&& 0x3 = 0x2) (dp &&& 0x3 = 0x3)
    let base := if dp &&& 0x4 = 0 then base + regd else base
    let base := if dp &&& 0x3 ≠ 0 then getLong st.mem base else base
    let base := if dp &&& 0x4 ≠ 0 then base + regd else base
    (base + outer, st)
  else (base + (dp.setWidth 8).signExtend 32 + regd, st)

def getDispEa000 (base : BitVec 32) (dp : BitVec 16) (regs : Regs) : BitVec 32 :=
  base + (dp.setWidth 8).signExtend 32 + indexRegister regs dp

/-- What `(An)+` and `-(An)` move the register by: `areg_byteinc` for bytes. -/
def Size.step (size : Size) (reg : BitVec 3) : BitVec 32 :=
  match size with
  | .byte => if reg = sp then 2 else 1
  | .word => 2
  | .long => 4

/-- The address `namea` of a memory operand. -/
def MemMode.address (cpu : CPUType) (mode : MemMode) (reg : BitVec 3) (size : Size) (h : Handler) :
    BitVec 32 × Handler :=
  match mode with
  | .aind => (h.st.regs.areg reg, h)
  | .aipi => (h.st.regs.areg reg, h)
  | .apdi => (h.st.regs.areg reg - size.step reg, h)
  | .ad16 =>
    let (disp, h) := h.nextIword
    (h.st.regs.areg reg + disp.signExtend 32, h)
  | .ad8r =>
    if cpu.level > 1 then
      let h := h.syncPc
      let (dp, st) := h.st.nextIword
      let (a, st) := getDispEa020 (st.regs.areg reg) dp st
      (a, { h with st })
    else
      let (dp, h) := h.nextIword
      (getDispEa000 (h.st.regs.areg reg) dp h.st.regs, h)
  | .pc16 =>
    let a := h.st.regs.pc + h.offset
    let (disp, h) := h.nextIword
    (a + disp.signExtend 32, h)
  | .pc8r =>
    if cpu.level > 1 then
      let h := h.syncPc
      let tmppc := h.st.regs.pc
      let (dp, st) := h.st.nextIword
      let (a, st) := getDispEa020 tmppc dp st
      (a, { h with st })
    else
      let tmppc := h.st.regs.pc + h.offset
      let (dp, h) := h.nextIword
      (getDispEa000 tmppc dp h.st.regs, h)
  | .absw =>
    let (a, h) := h.nextIword
    (a.signExtend 32, h)
  | .absl => h.nextIlong

/-- The register of `(An)+` and `-(An)` after the operand has been read. -/
def MemMode.fixUp (mode : MemMode) (reg : BitVec 3) (size : Size) (a : BitVec 32) (h : Handler) :
    Handler :=
  match mode with
  | .aipi =>
    { h with st := { h.st with
        regs := h.st.regs.setAreg reg (h.st.regs.areg reg + size.step reg) } }
  | .apdi => { h with st := { h.st with regs := h.st.regs.setAreg reg a } }
  | _ => h

/-- `genamode` of a memory operand: its address and, as reading has no effect, always its value. -/
def MemMode.operand (cpu : CPUType) (mode : MemMode) (reg : BitVec 3) (size : Size) (h : Handler) :
    (BitVec 32 × BitVec size.bits) × Handler :=
  let (a, h) := mode.address cpu reg size h
  ((a, size.get h.st.mem a), mode.fixUp reg size a h)

/-- `genamode` of an operand that is read, as a number of 32 bits. -/
def genamode (cpu : CPUType) (mode : Amode) (reg : BitVec 3) (size : Size) (h : Handler) :
    BitVec 32 × Handler :=
  match mode with
  | .dreg => (size.signed (h.st.regs.dreg reg), h)
  | .areg => (size.signed (h.st.regs.areg reg), h)
  | .mem mode =>
    let ((_, value), h) := mode.operand cpu reg size h
    (value.signExtend 32, h)
  | .imm =>
    match size with
    | .byte => (h.nextIbyte.1.signExtend 32, h.nextIbyte.2)
    | .word => (h.nextIword.1.signExtend 32, h.nextIword.2)
    | .long => h.nextIlong
  | .imm0 => (h.nextIbyte.1.signExtend 32, h.nextIbyte.2)
  | .imm1 => (h.nextIword.1.signExtend 32, h.nextIword.2)
  | .imm2 => h.nextIlong
  | .immi value => (value, h)

/-- How a handler ends: after its last instruction, or in a call of `Exception(nr, oldpc)`. -/
inductive Outcome
  | done (st : Machine)
  | trap (nr : Nat) (oldpc : BitVec 32) (st : Machine)

def Outcome.machine : Outcome → Machine
  | .done st => st
  | .trap _ _ st => st

def Outcome.trapped : Outcome → Bool
  | .done _ => false
  | .trap .. => true

@[simp] theorem Handler.syncPc_flags (h : Handler) : h.syncPc.st.regs.flags = h.st.regs.flags := rfl

@[simp] theorem Handler.syncPc_mem (h : Handler) : h.syncPc.st.mem = h.st.mem := rfl

@[simp] theorem Handler.syncPc_dreg (h : Handler) : h.syncPc.st.regs.dreg = h.st.regs.dreg := rfl

@[simp] theorem Handler.syncPc_areg (h : Handler) : h.syncPc.st.regs.areg = h.st.regs.areg := rfl

-- What fetching an operand leaves alone.

/-- Nothing but the PC has changed. -/
def OnlyPc (st st' : Machine) : Prop := st' = ⟨{ st.regs with pc := st'.regs.pc }, st.mem⟩

theorem OnlyPc.refl (st : Machine) : OnlyPc st st := rfl

theorem OnlyPc.trans {st st' st'' : Machine} (first : OnlyPc st st') (second : OnlyPc st' st'') :
    OnlyPc st st'' := by
  rw [OnlyPc, second, first]

theorem OnlyPc.mem {st st' : Machine} (only : OnlyPc st st') : st'.mem = st.mem := by
  rw [only]

theorem OnlyPc.areg {st st' : Machine} (only : OnlyPc st st') : st'.regs.areg = st.regs.areg := by
  rw [only]

theorem OnlyPc.dreg {st st' : Machine} (only : OnlyPc st st') : st'.regs.dreg = st.regs.dreg := by
  rw [only]

theorem OnlyPc.flags {st st' : Machine} (only : OnlyPc st st') : st'.regs.flags = st.regs.flags := by
  rw [only]

theorem OnlyPc.reg {st st' : Machine} (only : OnlyPc st st') (num : BitVec 4) :
    st'.regs.reg num = st.regs.reg num := by
  rw [Regs.reg, Regs.reg, only.areg, only.dreg]

theorem Machine.incpc_onlyPc (st : Machine) (o : BitVec 32) : OnlyPc st (st.incpc o) := rfl

theorem Machine.nextDisplacement_onlyPc (st : Machine) (word long : Bool) :
    OnlyPc st (st.nextDisplacement word long).2 := by
  simp only [Machine.nextDisplacement]
  split
  · exact st.incpc_onlyPc 2
  · split
    · exact st.incpc_onlyPc 4
    · exact .refl st

theorem getDispEa020_onlyPc (base : BitVec 32) (dp : BitVec 16) (st : Machine) :
    OnlyPc st (getDispEa020 base dp st).2 := by
  simp only [getDispEa020]
  split
  · apply OnlyPc.trans
    · exact st.nextDisplacement_onlyPc (dp &&& 0x30 = 0x20) (dp &&& 0x30 = 0x30)
    · exact Machine.nextDisplacement_onlyPc _ _ _
  · exact .refl st

theorem MemMode.address_onlyPc (cpu : CPUType) (mode : MemMode) (reg : BitVec 3) (size : Size)
    (h : Handler) : OnlyPc h.st (mode.address cpu reg size h).2.st := by
  cases mode with
  | ad8r | pc8r =>
    simp only [MemMode.address]
    split
    · apply OnlyPc.trans
      · exact h.st.incpc_onlyPc h.offset
      · apply OnlyPc.trans
        · exact Machine.incpc_onlyPc _ 2
        · exact getDispEa020_onlyPc _ _ _
    · exact .refl _
  | _ => exact .refl _

/-- Fetching a memory operand changes the PC and, in two modes, an address register. -/
theorem MemMode.operand_keeps (cpu : CPUType) (mode : MemMode) (reg : BitVec 3) (size : Size)
    (h : Handler) :
    (mode.operand cpu reg size h).2.st.mem = h.st.mem ∧
      (mode.operand cpu reg size h).2.st.regs.dreg = h.st.regs.dreg := by
  have only := mode.address_onlyPc cpu reg size h
  constructor
  · rw [← only.mem]
    cases mode <;> rfl
  · rw [← only.dreg]
    cases mode <;> rfl

end BasiliskII.Cpu
