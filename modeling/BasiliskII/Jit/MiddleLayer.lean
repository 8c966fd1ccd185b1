import BasiliskII.Jit.RegisterRuns
import BasiliskII.Library.ByteMemory

/-!
# The middle layer of the JIT compiler

The functions of compemu_support.cpp that the compiled handlers are made of. Each of them asks for
native registers, emits an instruction and releases the registers again; what is emitted has its
effect at once, as in the register allocator. `Plain` is the machine that the same functions would
run on if every virtual register were a register of the host.
-/
namespace BasiliskII.Jit

open ByteLanes ByteMemory

/-! ### Instructions of the host -/

/-- `_b`, `_w` and `_l` -/
inductive Suffix
  | b | w | l
  deriving DecidableEq

def Suffix.bytes : Suffix → Nat
  | .b => 1
  | .w => 2
  | .l => 4

inductive Alu
  | add | sub | adc | sbb | and | or | xor
  deriving DecidableEq

/-- `adc` and `sbb` -/
def Alu.usesCarry : Alu → Bool
  | .adc | .sbb => true
  | .add | .sub | .and | .or | .xor => false

def Alu.result {w : Nat} : Alu → Bool → BitVec w → BitVec w → BitVec w
  | .add, _, x, y => x + y
  | .sub, _, x, y => x - y
  | .adc, c, x, y => x + y + (BitVec.ofBool c).setWidth w
  | .sbb, c, x, y => x - y - (BitVec.ofBool c).setWidth w
  | .and, _, x, y => x &&& y
  | .or, _, x, y => x ||| y
  | .xor, _, x, y => x ^^^ y

inductive Shift
  | rol | ror | shll | shrl | shra
  deriving DecidableEq

def Shift.result {w : Nat} : Shift → BitVec w → Nat → BitVec w
  | .rol, x, n => x.rotateLeft n
  | .ror, x, n => x.rotateRight n
  | .shll, x, n => x <<< n
  | .shrl, x, n => x >>> n
  | .shra, x, n => x.sshiftRight n

/-- Rotations change the carry, which is the last bit that was moved, and leave other flags. -/
def Shift.rotates : Shift → Bool
  | .rol | .ror => true
  | .shll | .shrl | .shra => false

/-- Shifts take the low five bits of the count. -/
def shiftCount (count : BitVec 8) : Nat := (count &&& 31).toNat

/-- The host as the middle layer sees it, one with `FLAGSTK`: the flags are kept in a word by `pushf`
and `popf`. What other instructions do to them is left open. -/
structure Cpu (N : Nat) (F : Type) where
  host : Host N
  /-- `SHIFTCOUNT_NREG` -/
  shiftReg : Fin N
  shiftReg_byte : host.ByteReg shiftReg
  aluFlags : Alu → (w : Nat) → Bool → BitVec w → BitVec w → F
  testFlags : (w : Nat) → BitVec w → BitVec w → F
  /-- What is left of the flags by a shift, other than by no bits at all. -/
  shiftFlags : Shift → (w : Nat) → BitVec w → Nat → F → F
  mulFlags : BitVec 32 → BitVec 32 → F
  carry : F → Bool
  shift_fresh : ∀ sh w (x : BitVec w) n f g, sh.rotates = false →
    shiftFlags sh w x n f = shiftFlags sh w x n g
  cond : BitVec 4 → F → Bool
  toWord : F → BitVec 32
  ofWord : BitVec 32 → F
  ofWord_toWord : ∀ f, ofWord (toWord f) = f

/-- The low bytes of a register, as an operand. -/
def lowPart (size : Suffix) (v : BitVec 32) : BitVec (8 * size.bytes) := v.setWidth _

/-- An operand extended with zeros, or with its sign. -/
def extend {w : Nat} (signed : Bool) (x : BitVec w) : BitVec 32 :=
  if signed then x.signExtend 32 else x.setWidth 32

/-- The value of the `n` bytes from `a` on, in the order of the host. -/
def readBytes (heap : Memory 32) (a : BitVec 32) : (n : Nat) → BitVec 32
  | 0 => 0
  | n + 1 => (readBytes heap (a + 1) n <<< 8) ||| (heap a).setWidth 32

def writeBytes (heap : Memory 32) (a v : BitVec 32) : (n : Nat) → Memory 32
  | 0 => heap
  | n + 1 => writeBytes (put heap a (v.setWidth 8)) (a + 1) (v >>> 8) n

/-! ### The state of the compiler -/

/-- `NF_SCRATCH`, `NF_TOMEM` and `NF_HANDLER` -/
inductive NeedFlush
  | scratch | tomem | handler
  deriving DecidableEq

/-- `live.state[r].needflush`, which `init_comp` sets -/
def needflush (r : VReg) : NeedFlush :=
  if r ≤ flagtmp then .tomem else if r = nextHandler then .handler else .scratch

/-- `writeback_const` -/
def Live.writebackConst {N : Nat} (s : Live N) (r : VReg) : Live N :=
  if ¬ s.isconst r then s
  else (s.setMem r (s.state r).val).modify r fun st => { st with val := 0, status := .inmem }

/-- `live` with its flags, `needflags`, the host's flags and the memory other than that of the
virtual registers. `onStack` and `inFlags` are `flags_on_stack==VALID` and
`flags_in_flags==VALID`. -/
structure Middle (N : Nat) (F : Type) where
  live : Live N
  onStack : Bool
  inFlags : Bool
  important : Bool
  needflags : Bool
  eflags : F
  heap : Memory 32

namespace Middle

variable {N : Nat} {F : Type} (cpu : Cpu N F)

def onLive (f : Live N → Option (Live N)) (m : Middle N F) : Option (Middle N F) :=
  (f m.live).map fun s => { m with live := s }

def answering (f : Live N → Option (Fin N × Live N)) (m : Middle N F) :
    Option (Fin N × Middle N F) :=
  (f m.live).map fun (n, s) => (n, { m with live := s })

def readreg (r : VReg) (size : Nat) : Middle N F → Option (Fin N × Middle N F) :=
  answering (Live.readregGeneral cpu.host r size none false)

def readregOffset (r : VReg) (size : Nat) : Middle N F → Option (Fin N × Middle N F) :=
  answering (Live.readregGeneral cpu.host r size none true)

def readregSpecific (r : VReg) (size : Nat) (spec : Option (Fin N)) :
    Middle N F → Option (Fin N × Middle N F) :=
  answering (Live.readregGeneral cpu.host r size spec false)

def writereg (r : VReg) (size : Nat) : Middle N F → Option (Fin N × Middle N F) :=
  answering (Live.writeregGeneral cpu.host r size none)

def rmw (r : VReg) (wsize rsize : Nat) : Middle N F → Option (Fin N × Middle N F) :=
  answering (Live.rmwGeneral cpu.host r wsize rsize none)

def unlock2 (n : Fin N) : Middle N F → Option (Middle N F) := onLive (Live.unlock2 n)

/-- An instruction writes the low bytes of a native register. -/
def put {w : Nat} (n : Fin N) (size : Nat) (result : BitVec w) (m : Middle N F) : Middle N F :=
  { m with live := m.live.setReg n (splice size (result.setWidth 32) (m.live.regs n)) }

def operand (m : Middle N F) (n : Fin N) (size : Suffix) : BitVec (8 * size.bytes) :=
  lowPart size (m.live.regs n)

/-! ### Flags -/

/-- `raw_flags_to_reg_FLAGSTK`, after which FLAGTMP is in memory. -/
def flagsToReg (n : Fin N) (m : Middle N F) : Option (Middle N F) :=
  if m.live.nholds n ≠ 1 then none
  else
    let word := cpu.toWord m.eflags
    let s := (m.live.setReg n word).setMem flagtmp word
    let s := s.modify flagtmp fun st => { st with status := .inmem, realreg := none }
    some { m with live := s.modifyNat n fun x => { x with holds := [] } }

def flagsToStack (m : Middle N F) : Option (Middle N F) :=
  if m.onStack then some m
  else if ¬ m.important then some { m with onStack := true }
  else if ¬ m.inFlags then none
  else
    (m.writereg cpu flagtmp 4).bind fun (n, m) =>
    (m.flagsToReg cpu n).bind fun m =>
    (m.unlock2 n).map fun m => { m with onStack := true }

def clobberFlags (m : Middle N F) : Option (Middle N F) :=
  (if m.inFlags ∧ ¬ m.onStack then m.flagsToStack cpu else some m).map fun m =>
    { m with inFlags := false }

/-- With `raw_reg_to_flags_FLAGSTK`, which leaves the register as it is. -/
def makeFlagsLiveInternal (m : Middle N F) : Option (Middle N F) :=
  if m.inFlags then some m
  else if ¬ m.onStack then none
  else
    (m.readreg cpu flagtmp 4).bind fun (n, m) =>
    ({ m with eflags := cpu.ofWord (m.live.regs n) } : Middle N F).unlock2 n |>.map fun m =>
      { m with inFlags := true }

def liveFlags (m : Middle N F) : Middle N F :=
  { m with onStack := false, inFlags := true, important := true }

def dontCareFlags (m : Middle N F) : Middle N F := { m with important := false }

def evictReg (r : VReg) : Middle N F → Option (Middle N F) := onLive (Live.evict cpu.host r)

/-- `setcc_m` to `live.state[r].mem` -/
def setccMem (r : VReg) (c : Bool) (m : Middle N F) : Middle N F :=
  { m with live := m.live.setMem r (splice 1 ((BitVec.ofBool c).setWidth 32) (m.live.mem r)) }

def duplicateCarry (m : Middle N F) : Option (Middle N F) :=
  (m.evictReg cpu flagx).bind fun m =>
  (m.makeFlagsLiveInternal cpu).map fun m => m.setccMem flagx (cpu.carry m.eflags)

/-! ### Moves -/

def movLRi (d : VReg) (i : BitVec 32) : Middle N F → Option (Middle N F) :=
  onLive (Live.setConst cpu.host d i)

/-- `mov_b_ri`, `mov_w_ri` and `mov_l_ri` -/
def movRi (size : Suffix) (d : VReg) (i : BitVec 32) (m : Middle N F) : Option (Middle N F) :=
  match size with
  | .l => m.movLRi cpu d i
  | .b | .w =>
    (m.writereg cpu d size.bytes).bind fun (nd, m) => (m.put nd size.bytes i).unlock2 nd

/-- `mov_b_rr`, `mov_w_rr` and `mov_l_rr` -/
def movRr (size : Suffix) (d s : VReg) (m : Middle N F) : Option (Middle N F) :=
  match size with
  | .l => m.onLive (Live.movLRr cpu.host d s)
  | .b | .w =>
    if d = s then some m
    else if m.live.isconst s then
      m.movRi cpu size d (extend false (lowPart size (m.live.state s).val))
    else
      (m.readreg cpu s size.bytes).bind fun (ns, m) =>
      (m.writereg cpu d size.bytes).bind fun (nd, m) =>
      ((m.put nd size.bytes (m.operand ns size)).unlock2 nd).bind fun m => m.unlock2 ns

/-- `setcc` -/
def setcc (d : VReg) (cc : BitVec 4) (m : Middle N F) : Option (Middle N F) :=
  (m.writereg cpu d 1).bind fun (nd, m) =>
  (m.put nd 1 (BitVec.ofBool (cpu.cond cc m.eflags))).unlock2 nd

/-- `cmov_b_rr`, `cmov_w_rr` and `cmov_l_rr` -/
def cmovRr (size : Suffix) (d s : VReg) (cc : BitVec 4) (m : Middle N F) : Option (Middle N F) :=
  if d = s then some m
  else
    (m.readreg cpu s size.bytes).bind fun (ns, m) =>
    (m.rmw cpu d size.bytes size.bytes).bind fun (nd, m) =>
    let result := if cpu.cond cc m.eflags then m.operand ns size else m.operand nd size
    ((m.put nd size.bytes result).unlock2 ns).bind fun m => m.unlock2 nd

/-- `sign_extend_8_rr`, `sign_extend_16_rr`, `zero_extend_8_rr` and `zero_extend_16_rr`. The same
register is not locked twice, with different sizes. -/
def extendRr (signed : Bool) (size : Suffix) (d s : VReg) (m : Middle N F) :
    Option (Middle N F) :=
  if m.live.isconst s then
    m.movLRi cpu d (extend signed (lowPart size (m.live.state s).val))
  else if s = d then
    (m.rmw cpu s 4 size.bytes).bind fun (n, m) =>
    (m.put n 4 (extend signed (m.operand n size))).unlock2 n
  else
    (m.readreg cpu s size.bytes).bind fun (ns, m) =>
    (m.writereg cpu d 4).bind fun (nd, m) =>
    ((m.put nd 4 (extend signed (m.operand ns size))).unlock2 nd).bind fun m => m.unlock2 ns

/-- `lea_l_brr` -/
def leaLBrr (d s : VReg) (offset : BitVec 32) (m : Middle N F) : Option (Middle N F) :=
  if m.live.isconst s then m.movLRi cpu d ((m.live.state s).val + offset)
  else if d = s then some { m with live := m.live.addOffset d offset }
  else
    (m.readreg cpu s 4).bind fun (ns, m) =>
    (m.writereg cpu d 4).bind fun (nd, m) =>
    ((m.put nd 4 (m.live.regs ns + offset)).unlock2 nd).bind fun m => m.unlock2 ns

/-! ### Arithmetic -/

/-- A clobbering instruction with two operands. -/
def alu (a : Alu) (size : Suffix) (nd : Fin N) (y : BitVec (8 * size.bytes)) (m : Middle N F) :
    Middle N F :=
  let x := m.operand nd size
  let c := a.usesCarry && cpu.carry m.eflags
  { m.put nd size.bytes (a.result c x y) with eflags := cpu.aluFlags a _ c x y }

/-- `add_l_ri` and `sub_l_ri`, with what is added to a register that takes an offset -/
def addLRi (a : Alu) (d : VReg) (i offset : BitVec 32) (m : Middle N F) : Option (Middle N F) :=
  if i = 0 ∧ ¬ m.needflags then some m
  else if m.live.isconst d ∧ ¬ m.needflags then
    some { m with live := m.live.modify d fun st => { st with val := st.val + offset } }
  else if ¬ m.needflags then some { m with live := m.live.addOffset d offset }
  else
    (m.clobberFlags cpu).bind fun m =>
    (m.rmw cpu d 4 4).bind fun (nd, m) => (m.alu cpu a .l nd i).unlock2 nd

/-- `add_b_ri`, `add_w_ri`, `sub_b_ri` and `sub_w_ri` -/
def addRi (a : Alu) (size : Suffix) (d : VReg) (i : BitVec 32) (m : Middle N F) :
    Option (Middle N F) :=
  if i = 0 ∧ ¬ m.needflags then some m
  else
    (m.clobberFlags cpu).bind fun m =>
    (m.rmw cpu d size.bytes size.bytes).bind fun (nd, m) =>
    (m.alu cpu a size nd (lowPart size i)).unlock2 nd

/-- `add_l_ri`, `sub_l_ri`, `add_w_ri` and so on -/
def aluRi (a : Alu) (size : Suffix) (d : VReg) (i : BitVec 32) (m : Middle N F) :
    Option (Middle N F) :=
  match size, a with
  | .l, .sub => m.addLRi cpu .sub d i (-i)
  | .l, _ => m.addLRi cpu a d i i
  | _, _ => m.addRi cpu a size d i

/-- `and_l_ri` and `or_l_ri` -/
def logicLRi (a : Alu) (d : VReg) (i : BitVec 32) (m : Middle N F) : Option (Middle N F) :=
  if m.live.isconst d ∧ ¬ m.needflags then
    some { m with
      live := m.live.modify d fun st => { st with val := a.result false st.val i } }
  else
    (m.clobberFlags cpu).bind fun m =>
    (m.rmw cpu d 4 4).bind fun (nd, m) => (m.alu cpu a .l nd i).unlock2 nd

/-- The part of `and_l`, `adc_w`, `add_b` and so on that emits the instruction. -/
def aluEmit (a : Alu) (size : Suffix) (d s : VReg) (m : Middle N F) : Option (Middle N F) :=
  (m.clobberFlags cpu).bind fun m =>
  (m.readreg cpu s size.bytes).bind fun (ns, m) =>
  (m.rmw cpu d size.bytes size.bytes).bind fun (nd, m) =>
  ((m.alu cpu a size nd (m.operand ns size)).unlock2 nd).bind fun m => m.unlock2 ns

/-- `add_l`, `and_w`, `adc_b` and so on. Constants are added or subtracted as such, and `or_l` works
out two of them. -/
def aluRr (a : Alu) (size : Suffix) (d s : VReg) (m : Middle N F) : Option (Middle N F) :=
  if (a = .add ∨ a = .sub) ∧ m.live.isconst s then
    m.aluRi cpu a size d (extend false (lowPart size (m.live.state s).val))
  else if a = .or ∧ size = .l ∧ m.live.isconst d ∧ m.live.isconst s ∧ ¬ m.needflags then
    some { m with
      live := m.live.modify d fun st => { st with val := st.val ||| (m.live.state s).val } }
  else m.aluEmit cpu a size d s

/-- `imul_32_32` -/
def imul3232 (d s : VReg) (m : Middle N F) : Option (Middle N F) :=
  (m.clobberFlags cpu).bind fun m =>
  (m.readreg cpu s 4).bind fun (ns, m) =>
  (m.rmw cpu d 4 4).bind fun (nd, m) =>
  let x := m.live.regs nd
  let y := m.live.regs ns
  (({ m.put nd 4 (x * y) with eflags := cpu.mulFlags x y } : Middle N F).unlock2 ns).bind
    fun m => m.unlock2 nd

/-- `cmp_b`, `cmp_w` and `cmp_l` -/
def cmpRr (size : Suffix) (d s : VReg) (m : Middle N F) : Option (Middle N F) :=
  (m.clobberFlags cpu).bind fun m =>
  (m.readreg cpu s size.bytes).bind fun (ns, m) =>
  (m.readreg cpu d size.bytes).bind fun (nd, m) =>
  let flags := cpu.aluFlags .sub _ false (m.operand nd size) (m.operand ns size)
  (({ m with eflags := flags } : Middle N F).unlock2 nd).bind fun m => m.unlock2 ns

/-- `cmp_l_ri` -/
def cmpLRi (r : VReg) (i : BitVec 32) (m : Middle N F) : Option (Middle N F) :=
  (m.clobberFlags cpu).bind fun m =>
  (m.readreg cpu r 4).bind fun (n, m) =>
  ({ m with eflags := cpu.aluFlags .sub 32 false (m.live.regs n) i } : Middle N F).unlock2 n

/-- `test_b_rr`, `test_w_rr` and `test_l_rr` -/
def testRr (size : Suffix) (d s : VReg) (m : Middle N F) : Option (Middle N F) :=
  (m.clobberFlags cpu).bind fun m =>
  (m.readreg cpu d size.bytes).bind fun (nd, m) =>
  (m.readreg cpu s size.bytes).bind fun (ns, m) =>
  let flags := cpu.testFlags _ (m.operand nd size) (m.operand ns size)
  (({ m with eflags := flags } : Middle N F).unlock2 nd).bind fun m => m.unlock2 ns

/-- `test_l_ri` -/
def testLRi (d : VReg) (i : BitVec 32) (m : Middle N F) : Option (Middle N F) :=
  (m.clobberFlags cpu).bind fun m =>
  (m.readreg cpu d 4).bind fun (nd, m) =>
  ({ m with eflags := cpu.testFlags 32 (m.live.regs nd) i } : Middle N F).unlock2 nd

/-! ### Shifts -/

/-- No flags change where nothing is shifted. -/
def shift (sh : Shift) (size : Suffix) (nd : Fin N) (count : BitVec 8) (m : Middle N F) :
    Middle N F :=
  let x := m.operand nd size
  let n := shiftCount count
  { m.put nd size.bytes (sh.result x n) with
    eflags := if n = 0 then m.eflags else cpu.shiftFlags sh _ x n m.eflags }

/-- `rol_b_ri`, `shrl_w_ri` and so on; a constant is shifted by `shll_l_ri` and `shrl_l_ri`. -/
def shiftRi (sh : Shift) (size : Suffix) (d : VReg) (i : BitVec 8) (m : Middle N F) :
    Option (Middle N F) :=
  if i = 0 ∧ ¬ m.needflags then some m
  else if (sh = .shll ∨ sh = .shrl) ∧ size = .l ∧ m.live.isconst d ∧ ¬ m.needflags then
    some { m with
      live := m.live.modify d fun st => { st with val := sh.result st.val i.toNat } }
  else
    (m.clobberFlags cpu).bind fun m =>
    (m.rmw cpu d size.bytes size.bytes).bind fun (nd, m) => (m.shift cpu sh size nd i).unlock2 nd

/-- `rol_b_rr`, `shrl_w_rr` and so on -/
def shiftRr (sh : Shift) (size : Suffix) (d r : VReg) (m : Middle N F) : Option (Middle N F) :=
  if m.live.isconst r then m.shiftRi cpu sh size d ((m.live.state r).val.setWidth 8)
  else
    (m.clobberFlags cpu).bind fun m =>
    (m.readregSpecific cpu r 1 (some cpu.shiftReg)).bind fun (nr, m) =>
    (m.rmw cpu d size.bytes size.bytes).bind fun (nd, m) =>
    ((m.shift cpu sh size nd (m.operand nr .b)).unlock2 nr).bind fun m => m.unlock2 nd

/-! ### Memory -/

def store (size : Suffix) (a v : BitVec 32) (m : Middle N F) : Middle N F :=
  { m with heap := writeBytes m.heap a v size.bytes }

/-- `mov_b_rm`, `mov_w_rm` and `mov_l_rm` -/
def movRm (size : Suffix) (d : VReg) (a : BitVec 32) (m : Middle N F) : Option (Middle N F) :=
  (m.writereg cpu d size.bytes).bind fun (nd, m) =>
  (m.put nd size.bytes (readBytes m.heap a size.bytes)).unlock2 nd

/-- `mov_b_brR`, `mov_w_brR` and `mov_l_brR`. The register's offset becomes one of the
instruction. -/
def movBrR (size : Suffix) (d s : VReg) (offset : BitVec 32) (m : Middle N F) :
    Option (Middle N F) :=
  if m.live.isconst s then m.movRm cpu size d ((m.live.state s).val + offset)
  else
    (if size = .l then some m else m.onLive (Live.removeOffset cpu.host d none)).bind fun m =>
    (m.readregOffset cpu s 4).bind fun (ns, m) =>
    let offset := offset + (m.live.state s).val
    (m.writereg cpu d size.bytes).bind fun (nd, m) =>
    ((m.put nd size.bytes (readBytes m.heap (m.live.regs ns + offset) size.bytes)).unlock2 nd).bind
      fun m => m.unlock2 ns

/-- `mov_b_mr`, `mov_w_mr` and `mov_l_mr`; of a constant, `mov_b_mi` and so on -/
def movMr (size : Suffix) (a : BitVec 32) (s : VReg) (m : Middle N F) : Option (Middle N F) :=
  if m.live.isconst s then some (m.store size a (m.live.state s).val)
  else
    (m.readreg cpu s size.bytes).bind fun (ns, m) =>
    (m.store size a (m.live.regs ns)).unlock2 ns

/-- `mov_b_bRr`, `mov_w_bRr` and `mov_l_bRr` -/
def movBRegR (size : Suffix) (d s : VReg) (offset : BitVec 32) (m : Middle N F) :
    Option (Middle N F) :=
  if m.live.isconst d then m.movMr cpu size ((m.live.state d).val + offset) s
  else
    (m.readreg cpu s size.bytes).bind fun (ns, m) =>
    (m.readregOffset cpu d 4).bind fun (nd, m) =>
    let offset := offset + (m.live.state d).val
    ((m.store size (m.live.regs nd + offset) (m.live.regs ns)).unlock2 nd).bind fun m =>
    m.unlock2 ns

/-- `forget_about` -/
def forgetAbout (r : VReg) : Middle N F → Option (Middle N F) :=
  onLive fun s =>
    (if s.isinreg r then s.disassociate cpu.host r else some s).map fun s =>
      s.modify r fun st => { st with val := 0, status := .undef }

/-! ### init_comp and flush -/

/-- `init_comp`, before which the flags are in FLAGTMP's place -/
def initComp (compPcP : BitVec 32) (m : Middle N F) : Middle N F :=
  { m with
    live := m.live.initComp cpu.host compPcP
    onStack := true
    inFlags := false
    important := true }

/-- `freescratch` -/
def freescratch (m : Middle N F) : Option (Middle N F) :=
  ((List.finRange 32).filter (needflush · = .scratch)).foldlM (fun m r => m.forgetAbout cpu r) m

/-- What `flush` does with a register that has a place in memory. `raw_add_l_mi` sets flags. -/
def flushReg (m : Middle N F) (i : VReg) : Option (Middle N F) :=
  let val := (m.live.state i).val
  match (m.live.state i).status with
  | .inmem =>
    if val ≠ 0 then
      some { m with
        live := (m.live.setMem i (m.live.mem i + val)).modify i fun st => { st with val := 0 }
        eflags := cpu.aluFlags .add 32 false (m.live.mem i) val }
    else some m
  | .clean | .dirty =>
    m.onLive fun s => (s.removeOffset cpu.host i none).bind (Live.tomem cpu.host i)
  | .isconst => some (if i ≠ pcReg then { m with live := m.live.writebackConst i } else m)
  | .undef => some m

/-- `sync_m68k_pc` -/
def syncM68kPc (pcOffset : BitVec 32) (m : Middle N F) : Option (Middle N F) :=
  if pcOffset ≠ 0 then m.aluRi cpu .add .l pcReg pcOffset else some m

/-- `flush`, but for the registers of the FPU -/
def flush (pcOffset : BitVec 32) (saveRegs : Bool) (m : Middle N F) : Option (Middle N F) :=
  (m.flagsToStack cpu).bind fun m =>
  (m.syncM68kPc cpu pcOffset).bind fun m =>
  if saveRegs then
    ((List.finRange 32).filter (needflush · = .tomem)).foldlM (flushReg cpu) m
  else some m

end Middle

/-! ### What is called -/

/-- A call of the middle layer. -/
inductive Op
  | movRi (size : Suffix) (d : VReg) (i : BitVec 32)
  | movRr (size : Suffix) (d s : VReg)
  | setcc (d : VReg) (cc : BitVec 4)
  | cmovRr (size : Suffix) (d s : VReg) (cc : BitVec 4)
  | extendRr (signed : Bool) (size : Suffix) (d s : VReg)
  | leaLBrr (d s : VReg) (offset : BitVec 32)
  | aluRi (a : Alu) (size : Suffix) (d : VReg) (i : BitVec 32)
  | logicLRi (a : Alu) (d : VReg) (i : BitVec 32)
  | aluRr (a : Alu) (size : Suffix) (d s : VReg)
  | imul3232 (d s : VReg)
  | cmpRr (size : Suffix) (d s : VReg)
  | cmpLRi (r : VReg) (i : BitVec 32)
  | testRr (size : Suffix) (d s : VReg)
  | testLRi (d : VReg) (i : BitVec 32)
  | shiftRi (sh : Shift) (size : Suffix) (d : VReg) (i : BitVec 8)
  | shiftRr (sh : Shift) (size : Suffix) (d r : VReg)
  | movRm (size : Suffix) (d : VReg) (a : BitVec 32)
  | movBrR (size : Suffix) (d s : VReg) (offset : BitVec 32)
  | movMr (size : Suffix) (a : BitVec 32) (s : VReg)
  | movBRegR (size : Suffix) (d s : VReg) (offset : BitVec 32)
  | forgetAbout (r : VReg)
  | freescratch
  | liveFlags
  | dontCareFlags
  | makeFlagsLive
  | startNeedflags
  | endNeedflags
  | duplicateCarry

def Middle.call {N : Nat} {F : Type} (cpu : Cpu N F) (m : Middle N F) : Op → Option (Middle N F)
  | .movRi size d i => m.movRi cpu size d i
  | .movRr size d s => m.movRr cpu size d s
  | .setcc d cc => m.setcc cpu d cc
  | .cmovRr size d s cc => m.cmovRr cpu size d s cc
  | .extendRr signed size d s => m.extendRr cpu signed size d s
  | .leaLBrr d s offset => m.leaLBrr cpu d s offset
  | .aluRi a size d i => m.aluRi cpu a size d i
  | .logicLRi a d i => m.logicLRi cpu a d i
  | .aluRr a size d s => m.aluRr cpu a size d s
  | .imul3232 d s => m.imul3232 cpu d s
  | .cmpRr size d s => m.cmpRr cpu size d s
  | .cmpLRi r i => m.cmpLRi cpu r i
  | .testRr size d s => m.testRr cpu size d s
  | .testLRi d i => m.testLRi cpu d i
  | .shiftRi sh size d i => m.shiftRi cpu sh size d i
  | .shiftRr sh size d r => m.shiftRr cpu sh size d r
  | .movRm size d a => m.movRm cpu size d a
  | .movBrR size d s offset => m.movBrR cpu size d s offset
  | .movMr size a s => m.movMr cpu size a s
  | .movBRegR size d s offset => m.movBRegR cpu size d s offset
  | .forgetAbout r => m.forgetAbout cpu r
  | .freescratch => m.freescratch cpu
  | .liveFlags => some m.liveFlags
  | .dontCareFlags => some m.dontCareFlags
  | .makeFlagsLive => m.makeFlagsLiveInternal cpu
  | .startNeedflags => some { m with needflags := true }
  | .endNeedflags => some { m with needflags := false }
  | .duplicateCarry => m.duplicateCarry cpu

/-! ### The plain machine -/

/-- Every virtual register is a register. `flags` are those of the 68k, as long as anybody cares,
and `recent` those that the last instructions left, where they are known. -/
structure Plain (F : Type) where
  reg : VReg → BitVec 32
  heap : Memory 32
  flags : Option F
  recent : Option F
  needflags : Bool

namespace Plain

variable {N : Nat} {F : Type} (cpu : Cpu N F)

def low (p : Plain F) (r : VReg) (size : Suffix) : BitVec (8 * size.bytes) := lowPart size (p.reg r)

def put {w : Nat} (d : VReg) (size : Nat) (result : BitVec w) (p : Plain F) : Plain F :=
  { p with reg := Function.update p.reg d (splice size (result.setWidth 32) (p.reg d)) }

/-- Flags are left behind only if somebody needs them. -/
def settle (flags : Option F) (p : Plain F) : Plain F :=
  { p with recent := if p.needflags then flags else none }

def carryIn (p : Plain F) : Option Bool := p.recent.map cpu.carry

def holds (cc : BitVec 4) (p : Plain F) : Option Bool := p.recent.map (cpu.cond cc)

def alu (a : Alu) (size : Suffix) (d : VReg) (y : BitVec (8 * size.bytes)) (p : Plain F) :
    Plain F :=
  let x := p.low d size
  let c := a.usesCarry && (p.carryIn cpu).getD false
  (p.put d size.bytes (a.result c x y)).settle (some (cpu.aluFlags a _ c x y))

/-- What a shift makes of the flags, with those from before where they matter. -/
def shifted (sh : Shift) (size : Suffix) (d : VReg) (count : BitVec 8) (p : Plain F) : Option F :=
  let x := p.low d size
  let n := shiftCount count
  if n = 0 then p.recent
  else if sh.rotates then p.recent.map (cpu.shiftFlags sh _ x n)
  else some (cpu.shiftFlags sh _ x n (cpu.ofWord 0))

def shift (sh : Shift) (size : Suffix) (d : VReg) (count : BitVec 8) (p : Plain F) : Plain F :=
  (p.put d size.bytes (sh.result (p.low d size) (shiftCount count))).settle
    (p.shifted cpu sh size d count)

def load (size : Suffix) (d : VReg) (a : BitVec 32) (p : Plain F) : Plain F :=
  p.put d size.bytes (readBytes p.heap a size.bytes)

def store (size : Suffix) (a v : BitVec 32) (p : Plain F) : Plain F :=
  { p with heap := writeBytes p.heap a v size.bytes }

def makeFlagsLive (p : Plain F) : Plain F :=
  { p with recent := p.flags }

/-- The machine as the block finds it, with the flags in FLAGTMP's place. -/
def start (mem : VReg → BitVec 32) (heap : Memory 32) (compPcP : BitVec 32) (flags : F)
    (needflags : Bool) : Plain F where
  reg := Function.update mem pcReg compPcP
  heap := heap
  flags := some flags
  recent := none
  needflags := needflags

end Plain

open Plain in
def Op.interp {N : Nat} {F : Type} (cpu : Cpu N F) (p : Plain F) : Op → Plain F
  | .movRi size d i => p.put d size.bytes i
  | .movRr size d s => p.put d size.bytes (p.reg s)
  | .setcc d cc => p.put d 1 (BitVec.ofBool ((p.holds cpu cc).getD false))
  | .cmovRr size d s cc =>
    p.put d size.bytes (p.reg (if (p.holds cpu cc).getD false then s else d))
  | .extendRr signed size d s => p.put d 4 (extend signed (p.low s size))
  | .leaLBrr d s offset => p.put d 4 (p.reg s + offset)
  | .aluRi a size d i => p.alu cpu a size d (lowPart size i)
  | .logicLRi a d i => p.alu cpu a .l d i
  | .aluRr a size d s => p.alu cpu a size d (p.low s size)
  | .imul3232 d s => { p.put d 4 (p.reg d * p.reg s) with recent := none }
  | .cmpRr size d s =>
    { p with recent := some (cpu.aluFlags .sub _ false (p.low d size) (p.low s size)) }
  | .cmpLRi r i => { p with recent := some (cpu.aluFlags .sub 32 false (p.reg r) i) }
  | .testRr size d s => { p with recent := some (cpu.testFlags _ (p.low d size) (p.low s size)) }
  | .testLRi d i => { p with recent := some (cpu.testFlags 32 (p.reg d) i) }
  | .shiftRi sh size d i => p.shift cpu sh size d i
  | .shiftRr sh size d r => p.shift cpu sh size d (p.low r .b)
  | .movRm size d a => p.load size d a
  | .movBrR size d s offset => p.load size d (p.reg s + offset)
  | .movMr size a s => p.store size a (p.reg s)
  | .movBRegR size d s offset => p.store size (p.reg d + offset) (p.reg s)
  | .forgetAbout _ | .freescratch => p
  | .liveFlags => { p with flags := p.recent }
  | .dontCareFlags => { p with flags := none }
  | .makeFlagsLive => p.makeFlagsLive
  | .startNeedflags => { p with needflags := true }
  | .endNeedflags => { p with needflags := false }
  | .duplicateCarry =>
    (p.put flagx 1 (BitVec.ofBool (p.flags.elim false cpu.carry))).makeFlagsLive

end BasiliskII.Jit
