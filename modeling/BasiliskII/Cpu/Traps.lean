import BasiliskII.Cpu.CompareBounds
import BasiliskII.Cpu.SignedDivision
import BasiliskII.Cpu.StackPointers

/-!
# Traps and the PC they stack

The handlers gencpu.c emits for TRAP, TRAPV, TRAPcc, CHK, CHK2 and the
divisions. `Exception` stacks the PC it finds, which a handler moves over what
it has read in `sync_m68k_pc`: TRAPcc, CHK and CHK2 call it too late, TRAPV and
DIVL before they take `oldpc`.
-/
namespace BasiliskII.Cpu

open ByteMemory

/-- `SET_NFLG` -/
def Machine.setNflg (st : Machine) (n : Bool) : Machine :=
  { st with regs := { st.regs with flags := { st.regs.flags with n } } }

def opTrap (cpu : CPUType) (vector : BitVec 4) (st : Machine) : Outcome :=
  let (src, h) := genamode cpu (.immi (vector.setWidth 32)) 0 .long st.begin
  .trap (src.toNat + 32) 0 h.syncPc.st

def trapv (st : Machine) : Outcome :=
  let h := st.begin.syncPc
  if h.st.regs.flags.v then .trap 7 h.st.regs.pc h.st else .done h.st

/-- The operand of TRAPcc, which nothing reads. -/
inductive TrapOperand
  | none | imm1 | imm2
  deriving DecidableEq, Repr

def TrapOperand.fetch (cpu : CPUType) (operand : TrapOperand) (h : Handler) : Handler :=
  match operand with
  | .none => h
  | .imm1 => (genamode cpu .imm1 0 .word h).2
  | .imm2 => (genamode cpu .imm2 0 .long h).2

def trapcc (cpu : CPUType) (cc : BitVec 4) (operand : TrapOperand) (st : Machine) : Outcome :=
  let h := operand.fetch cpu st.begin
  -- `m68k_getpc` is still the address of the instruction.
  if cctrue h.st.regs.flags cc then .trap 7 h.st.regs.pc h.st else .done h.syncPc.st

def chk (cpu : CPUType) (size : Size) (smode : Amode) (srcreg dstreg : BitVec 3) (st : Machine) :
    Outcome :=
  let oldpc := st.regs.pc
  let (src, h) := genamode cpu smode srcreg size st.begin
  let (dst, h) := genamode cpu .dreg dstreg size h
  -- Only an indexed source has moved the PC when `Exception` is called.
  if dst.slt 0 then .trap 6 oldpc (h.st.setNflg true)
  else if src.slt dst then .trap 6 oldpc (h.st.setNflg false)
  else .done h.syncPc.st

/-- DIVU.W by `src` of the data register `num`, or the exception and the registers it finds. -/
def divu (regs : Regs) (num : BitVec 3) (src : BitVec 16) : Except (Nat × Regs) Regs :=
  let dst := regs.dreg num
  if src = 0 then .error (divideByZero, { regs with flags := { regs.flags with v := false } })
  else
    let newv := dst / src.setWidth 32
    let rem := dst % src.setWidth 32
    if (0xffff#32).ult newv then .ok regs.divOverflow
    else
      let flags := regs.flags.logical .word newv
      let newv := newv &&& 0xffff ||| rem <<< 16
      .ok ({ regs with flags }.setDreg num newv)

/-- A division leaves its registers to the next instruction or to `Exception`. -/
def divEnds (oldpc : BitVec 32) (st : Machine) : Except (Nat × Regs) Regs → Outcome
  | .error (nr, regs) => .trap nr oldpc { st with regs }
  | .ok regs => .done { st with regs }

/-- The handler of DIVU and DIVS around their divisions. -/
def divWord (cpu : CPUType)
    (div : Regs → BitVec 3 → BitVec 16 → Option (Except (Nat × Regs) Regs)) (smode : Amode)
    (srcreg dstreg : BitVec 3) (st : Machine) : Option Outcome :=
  let oldpc := st.regs.pc
  let (src, h) := genamode cpu smode srcreg .word st.begin
  let h := h.syncPc
  (div h.st.regs dstreg (src.setWidth 16)).map (divEnds oldpc h.st)

def divl (cpu : CPUType) (dmode : Amode) (dstreg : BitVec 3) (st : Machine) : Option Outcome :=
  let h := st.begin.syncPc
  -- Behind the opcode.
  let oldpc := h.st.regs.pc
  let (extra, h) := h.nextIword
  let (dst, h) := genamode cpu dmode dstreg .long h
  let h := h.syncPc
  (m68kDivlHost h.st.regs dst extra).map fun result =>
    divEnds oldpc h.st (result.mapError (·, h.st.regs))

/-- The instructions that trap when they have been read. -/
inductive TrapInstr
  | trap (vector : BitVec 4)
  | trapv
  | trapcc (cc : BitVec 4) (operand : TrapOperand)
  | chk (size : Size) (smode : Amode) (srcreg dstreg : BitVec 3)
  | chk2 (size : Size) (dmode : MemMode) (dstreg : BitVec 3)
  | divu (smode : Amode) (srcreg dstreg : BitVec 3)
  | divs (smode : Amode) (srcreg dstreg : BitVec 3)
  | divl (dmode : Amode) (dstreg : BitVec 3)

/-- The handler of an instruction; `none` where the host's division has no meaning. -/
def TrapInstr.execute (cpu : CPUType) (st : Machine) : TrapInstr → Option Outcome
  | .trap vector => some (opTrap cpu vector st)
  | .trapv => some (Cpu.trapv st)
  | .trapcc cc operand => some (Cpu.trapcc cpu cc operand st)
  | .chk size smode srcreg dstreg => some (Cpu.chk cpu size smode srcreg dstreg st)
  | .chk2 size dmode dstreg => some (Cpu.chk2 cpu size dmode dstreg st)
  | .divu smode srcreg dstreg =>
    divWord cpu (fun regs num src => some (Cpu.divu regs num src)) smode srcreg dstreg st
  | .divs smode srcreg dstreg => divWord cpu Cpu.divs smode srcreg dstreg st
  | .divl dmode dstreg => Cpu.divl cpu dmode dstreg st

-- How long instructions are, from their encoding alone.

def displacementLength (word long : Bool) : Nat := if word then 2 else if long then 4 else 0

/-- A brief extension word, or a full one with its displacements. -/
def indexLength (dp : BitVec 16) : Nat :=
  if dp &&& 0x100 ≠ 0 then
    2 + displacementLength (dp &&& 0x30 = 0x20) (dp &&& 0x30 = 0x30) +
      displacementLength (dp &&& 0x3 = 0x2) (dp &&& 0x3 = 0x3)
  else 2

/-- The bytes of the extension words at `a`. -/
def MemMode.extLength (mode : MemMode) (mem : Memory 32) (a : BitVec 32) : Nat :=
  match mode with
  | .aind | .aipi | .apdi => 0
  | .ad16 | .pc16 | .absw => 2
  | .absl => 4
  | .ad8r | .pc8r => indexLength (getWord mem a)

def Amode.extLength (mode : Amode) (size : Size) (mem : Memory 32) (a : BitVec 32) : Nat :=
  match mode with
  | .dreg | .areg | .immi _ => 0
  | .mem mode => mode.extLength mem a
  | .imm => if size = .long then 4 else 2
  | .imm0 | .imm1 => 2
  | .imm2 => 4

def TrapOperand.length : TrapOperand → Nat
  | .none => 0
  | .imm1 => 2
  | .imm2 => 4

def TrapInstr.length (mem : Memory 32) (pc : BitVec 32) : TrapInstr → Nat
  | .trap _ | .trapv => 2
  | .trapcc _ operand => 2 + operand.length
  | .chk size smode _ _ => 2 + smode.extLength size mem (pc + 2)
  | .chk2 _ dmode _ => 4 + dmode.extLength mem (pc + 4)
  | .divu smode _ _ | .divs smode _ _ => 2 + smode.extLength .word mem (pc + 2)
  | .divl dmode _ => 4 + dmode.extLength .long mem (pc + 4)

def MemMode.indexed (mode : MemMode) : Bool := mode = .ad8r ∨ mode = .pc8r

def Amode.indexed : Amode → Bool
  | .mem mode => mode.indexed
  | _ => false

/-- The address behind what a handler has read. -/
def Handler.next (h : Handler) : BitVec 32 := h.st.regs.pc + h.offset

/-- `length` more bytes have been read, and only an indexed mode has moved the PC, behind them. -/
structure Fetched (indexed : Bool) (length : Nat) (h h' : Handler) : Prop where
  next : h'.next = h.next + BitVec.ofNat 32 length
  synced : indexed = true → h'.offset = 0
  late : indexed = false → h'.st.regs.pc = h.st.regs.pc

theorem Fetched.at_offset {length : Nat} {h : Handler} {offset : BitVec 32}
    (more : offset = h.offset + BitVec.ofNat 32 length) :
    Fetched false length h { h with offset } where
  next := by rw [Handler.next, Handler.next, more, BitVec.add_assoc]
  synced := by simp
  late _ := rfl

theorem Fetched.nothing (h : Handler) : Fetched false 0 h h :=
  .at_offset (BitVec.add_zero h.offset).symm

theorem Machine.nextDisplacement_pc (st : Machine) (word long : Bool) :
    (st.nextDisplacement word long).2.regs.pc =
      st.regs.pc + BitVec.ofNat 32 (displacementLength word long) := by
  simp only [Machine.nextDisplacement, displacementLength]
  split
  · rfl
  · split
    · rfl
    · exact (BitVec.add_zero _).symm

theorem getDispEa020_pc (base : BitVec 32) (dp : BitVec 16) (st : Machine) :
    (getDispEa020 base dp (st.incpc 2)).2.regs.pc =
      st.regs.pc + BitVec.ofNat 32 (indexLength dp) := by
  simp only [getDispEa020, indexLength]
  split
  · simp only [Machine.nextDisplacement_pc, Machine.incpc, BitVec.ofNat_add, BitVec.add_assoc]
    rfl
  · rfl

theorem MemMode.address_fetched {cpu : CPUType} (later : cpu ≠ .mc68000) (mode : MemMode)
    (reg : BitVec 3) (size : Size) (h : Handler) :
    Fetched mode.indexed (mode.extLength h.st.mem h.next) h (mode.address cpu reg size h).2 := by
  have level : cpu.level > 1 := level_pos later
  cases mode with
  | aind | aipi | apdi => exact .nothing h
  | ad16 | pc16 | absw | absl => exact .at_offset rfl
  | ad8r | pc8r =>
    simp only [MemMode.address, if_pos level]
    refine ⟨?_, fun _ => rfl, by simp [MemMode.indexed]⟩
    -- What is left of the offset is 0.
    rw [Handler.next]
    exact (BitVec.add_zero _).trans (getDispEa020_pc _ _ h.syncPc.st)

theorem genamode_fetched {cpu : CPUType} (later : cpu ≠ .mc68000) (mode : Amode)
    (reg : BitVec 3) (size : Size) (h : Handler) :
    Fetched mode.indexed (mode.extLength size h.st.mem h.next) h
      (genamode cpu mode reg size h).2 := by
  cases mode with
  | dreg | areg | immi => exact .nothing h
  | imm0 | imm1 | imm2 => exact .at_offset rfl
  | imm => cases size <;> exact .at_offset rfl
  | mem mode =>
    -- Moving the address register leaves the PC where it is.
    have fetched := mode.address_fetched later reg size h
    obtain ⟨next, synced, late⟩ := fetched
    cases mode <;> exact ⟨next, synced, late⟩

theorem TrapOperand.fetch_fetched (cpu : CPUType) (operand : TrapOperand) (h : Handler) :
    Fetched false operand.length h (operand.fetch cpu h) := by
  cases operand with
  | none => exact .nothing h
  | imm1 | imm2 => exact .at_offset rfl

theorem Fetched.pc {indexed : Bool} {length : Nat} {h h' : Handler}
    (fetched : Fetched indexed length h h') :
    h'.st.regs.pc = if indexed then h.next + BitVec.ofNat 32 length else h.st.regs.pc := by
  cases indexed with
  | false => exact fetched.late rfl
  | true =>
    have next := fetched.next
    rw [Handler.next, fetched.synced rfl] at next
    rw [if_pos rfl, ← next]
    exact (BitVec.add_zero _).symm

-- What the handlers give to `Exception`.

def TrapInstr.vector : TrapInstr → Nat
  | .trap vector => vector.toNat + 32
  | .trapv | .trapcc .. => 7
  | .chk .. | .chk2 .. => 6
  | .divu .. | .divs .. | .divl .. => divideByZero

def TrapInstr.oldpc (pc : BitVec 32) : TrapInstr → BitVec 32
  | .trap _ => 0
  | .trapv | .divl .. => pc + 2
  | _ => pc

/-- The PC has been moved behind the instruction. -/
def TrapInstr.synced : TrapInstr → Bool
  | .trapcc .. => false
  | .chk _ smode _ _ => smode.indexed
  | .chk2 _ dmode _ => dmode.indexed
  | _ => true

def TrapInstr.following (i : TrapInstr) (st : Machine) : BitVec 32 :=
  st.regs.pc + BitVec.ofNat 32 (i.length st.mem st.regs.pc)

structure Raised (i : TrapInstr) (st : Machine) (nr : Nat) (oldpc : BitVec 32) (found : Machine) :
    Prop where
  vector : nr = i.vector
  oldpc : oldpc = i.oldpc st.regs.pc
  pc : found.regs.pc = if i.synced then i.following st else st.regs.pc

section

variable {cpu : CPUType} {st found : Machine} {nr : Nat} {oldpc : BitVec 32}

theorem opTrap_raised {vector : BitVec 4} (trapped : opTrap cpu vector st = .trap nr oldpc found) :
    Raised (.trap vector) st nr oldpc found := by
  cases trapped
  refine ⟨?_, rfl, rfl⟩
  simp only [TrapInstr.vector, BitVec.toNat_setWidth]
  omega

theorem trapv_raised (trapped : trapv st = .trap nr oldpc found) :
    Raised .trapv st nr oldpc found := by
  simp only [trapv] at trapped
  split at trapped
  · cases trapped
    exact ⟨rfl, rfl, rfl⟩
  · contradiction

theorem trapcc_raised {cc : BitVec 4} {operand : TrapOperand}
    (trapped : trapcc cpu cc operand st = .trap nr oldpc found) :
    Raised (.trapcc cc operand) st nr oldpc found := by
  have pc := (operand.fetch_fetched cpu st.begin).pc
  simp only [trapcc] at trapped
  split at trapped
  · cases trapped
    exact ⟨rfl, pc, pc⟩
  · contradiction

theorem genamode_begin_pc (later : cpu ≠ .mc68000) (mode : Amode) (reg : BitVec 3) (size : Size)
    (st : Machine) :
    (genamode cpu mode reg size st.begin).2.st.regs.pc =
      if mode.indexed then
        st.regs.pc + BitVec.ofNat 32 (2 + mode.extLength size st.mem (st.regs.pc + 2))
      else st.regs.pc := by
  rw [(genamode_fetched later mode reg size st.begin).pc, BitVec.ofNat_add, ← BitVec.add_assoc]
  rfl

theorem chk_raised (later : cpu ≠ .mc68000) {size : Size} {smode : Amode} {srcreg dstreg : BitVec 3}
    (trapped : chk cpu size smode srcreg dstreg st = .trap nr oldpc found) :
    Raised (.chk size smode srcreg dstreg) st nr oldpc found := by
  have pc := genamode_begin_pc later smode srcreg size st
  simp only [chk] at trapped
  split at trapped
  · cases trapped
    exact ⟨rfl, rfl, pc⟩
  · split at trapped
    · cases trapped
      exact ⟨rfl, rfl, pc⟩
    · contradiction

theorem chk2_raised (later : cpu ≠ .mc68000) {size : Size} {dmode : MemMode} {dstreg : BitVec 3}
    (trapped : chk2 cpu size dmode dstreg st = .trap nr oldpc found) :
    Raised (.chk2 size dmode dstreg) st nr oldpc found := by
  have pc : (chk2Operand cpu size dmode dstreg st).2.2.st.regs.pc = _ :=
    (dmode.address_fetched later dstreg size st.begin.nextIword.2).pc
  simp only [chk2] at trapped
  split at trapped
  · cases trapped
    refine ⟨rfl, rfl, pc.trans ?_⟩
    simp only [TrapInstr.synced, TrapInstr.following, TrapInstr.length, BitVec.ofNat_add,
      ← BitVec.add_assoc]
    rfl
  · contradiction

theorem divu_error {regs regs' : Regs} {num : BitVec 3} {src : BitVec 16}
    (error : divu regs num src = .error (nr, regs')) : nr = divideByZero ∧ regs'.pc = regs.pc := by
  simp only [divu] at error
  split at error
  · cases error
    exact ⟨rfl, rfl⟩
  · split at error <;> contradiction

theorem divs_error {regs regs' : Regs} {num : BitVec 3} {src : BitVec 16}
    (error : divs regs num src = some (.error (nr, regs'))) :
    nr = divideByZero ∧ regs'.pc = regs.pc := by
  simp only [divs] at error
  split at error
  · cases error
    exact ⟨rfl, rfl⟩
  · obtain ⟨result, -, finished⟩ := Option.bind_eq_some_iff.mp error
    split at finished <;> cases finished

theorem m68kDivl_error {regs : Regs} {src : BitVec 32} {extra : BitVec 16}
    (error : m68kDivl regs src extra = .error nr) : nr = divideByZero := by
  simp only [m68kDivl] at error
  split at error
  · cases error
    rfl
  · split at error <;> split at error <;> cases error

theorem m68kDivlHost_error {regs : Regs} {src : BitVec 32} {extra : BitVec 16}
    (error : m68kDivlHost regs src extra = some (.error nr)) : nr = divideByZero := by
  simp only [m68kDivlHost] at error
  split at error
  · cases error
    rfl
  · split at error
    · obtain ⟨result, -, finished⟩ := Option.bind_eq_some_iff.mp error
      split at finished <;> cases finished
    · exact m68kDivl_error (Option.some.inj error)

theorem divEnds_trap {st : Machine} {address : BitVec 32} {result : Except (Nat × Regs) Regs}
    (trapped : divEnds address st result = .trap nr oldpc found) :
    ∃ regs, result = .error (nr, regs) ∧ oldpc = address ∧ found = { st with regs } := by
  cases result with
  | ok regs => cases trapped
  | error raised =>
    cases trapped
    exact ⟨_, rfl, rfl, rfl⟩

/-- DIVU and DIVS, by what their divisions by zero leave. -/
theorem divWord_raised (later : cpu ≠ .mc68000)
    {div : Regs → BitVec 3 → BitVec 16 → Option (Except (Nat × Regs) Regs)} {smode : Amode}
    {srcreg dstreg : BitVec 3}
    (trapped : divWord cpu div smode srcreg dstreg st = some (.trap nr oldpc found))
    (error : ∀ {regs regs' : Regs} {src : BitVec 16},
      div regs dstreg src = some (.error (nr, regs')) → nr = divideByZero ∧ regs'.pc = regs.pc) :
    nr = divideByZero ∧ oldpc = st.regs.pc ∧
      found.regs.pc =
        st.regs.pc + BitVec.ofNat 32 (2 + smode.extLength .word st.mem (st.regs.pc + 2)) := by
  have next := (genamode_fetched later smode srcreg .word st.begin).next
  simp only [divWord, Option.map_eq_some_iff] at trapped
  obtain ⟨result, divided, ends⟩ := trapped
  obtain ⟨regs, rfl, taken, rfl⟩ := divEnds_trap ends
  obtain ⟨vector, pc⟩ := error divided
  refine ⟨vector, taken, pc.trans (next.trans ?_)⟩
  rw [BitVec.ofNat_add, ← BitVec.add_assoc]
  rfl

theorem divl_raised (later : cpu ≠ .mc68000) {dmode : Amode} {dstreg : BitVec 3}
    (trapped : divl cpu dmode dstreg st = some (.trap nr oldpc found)) :
    Raised (.divl dmode dstreg) st nr oldpc found := by
  have next := (genamode_fetched later dmode dstreg .long st.begin.syncPc.nextIword.2).next
  simp only [divl, Option.map_eq_some_iff] at trapped
  obtain ⟨result, divided, ends⟩ := trapped
  obtain ⟨regs, failed, taken, rfl⟩ := divEnds_trap ends
  cases result with
  | ok _ => cases failed
  | error raised =>
    cases failed
    refine ⟨m68kDivlHost_error divided, taken, next.trans ?_⟩
    simp only [TrapInstr.synced, TrapInstr.following, TrapInstr.length, BitVec.ofNat_add,
      ← BitVec.add_assoc]
    have behind : st.begin.syncPc.nextIword.2.next = st.regs.pc + 4#32 := by
      simp only [Handler.next, Handler.syncPc, Handler.nextIword, Machine.begin, Machine.incpc]
      grind
    rw [behind]
    rfl

/-- Every trap, by the handler that raises it. -/
theorem TrapInstr.execute_raised (later : cpu ≠ .mc68000) {i : TrapInstr}
    (trapped : i.execute cpu st = some (.trap nr oldpc found)) : Raised i st nr oldpc found := by
  cases i with
  | trap vector => exact opTrap_raised (Option.some.inj trapped)
  | trapv => exact trapv_raised (Option.some.inj trapped)
  | trapcc cc operand => exact trapcc_raised (Option.some.inj trapped)
  | chk size smode srcreg dstreg => exact chk_raised later (Option.some.inj trapped)
  | chk2 size dmode dstreg => exact chk2_raised later (Option.some.inj trapped)
  | divu smode srcreg dstreg =>
    simp only [TrapInstr.execute] at trapped
    obtain ⟨vector, taken, pc⟩ :=
      divWord_raised later trapped fun error => divu_error (Option.some.inj error)
    exact ⟨vector, taken, pc⟩
  | divs smode srcreg dstreg =>
    simp only [TrapInstr.execute] at trapped
    obtain ⟨vector, taken, pc⟩ := divWord_raised later trapped divs_error
    exact ⟨vector, taken, pc⟩
  | divl dmode dstreg => exact divl_raised later trapped

end

-- The frame `Exception` makes of it.

/-- PC and, in a frame of format 2, instruction address are those of the trap. -/
structure TrapFrame (address following : BitVec 32) (after : Machine) : Prop where
  returns : getLong after.mem (after.regs.a7 + 2) = following
  instruction : getWord after.mem (after.regs.a7 + 6) &&& 0xf000 = 0x2000 →
    getLong after.mem (after.regs.a7 + 8) = address

theorem trapFrame_pushFrame (nr : Nat) (above : Machine) (format sr : BitVec 16)
    (pc address following : BitVec 32) :
    TrapFrame address following (enterHandler nr (pushFrame above format pc sr)) ↔
      pc = following ∧
        (format &&& 0xf000 = 0x2000 → getLong above.mem above.regs.a7 = address) := by
  obtain ⟨frame, top⟩ := enterHandler_frame nr above format sr pc
  constructor
  · rintro ⟨returns, instruction⟩
    rw [frame.pc] at returns
    rw [frame.format, top] at instruction
    exact ⟨returns, instruction⟩
  · rintro ⟨returns, instruction⟩
    constructor
    · rw [frame.pc, returns]
    · rw [frame.format, top]
      exact instruction

section

variable {cpu : CPUType} (fault : Fault) {nr : Nat} (oldpc : BitVec 32) (st : Machine)
  (address following : BitVec 32)

/-- The frame of format 2 has the PC and `oldpc`. -/
theorem trapFrame_withAddress (later : cpu ≠ .mc68000) (vector : nr = 5 ∨ nr = 6 ∨ nr = 7) :
    TrapFrame address following (exception cpu fault nr oldpc st) ↔
      st.regs.pc = following ∧ oldpc = address := by
  obtain ⟨-, format, -⟩ := frame_formats nr (by omega)
  rw [exception_withAddress later fault (by omega), trapFrame_pushFrame]
  simp only [format, forall_const, Machine.pushLong, Regs.a7_setA7]
  rw [getLong_putLong (by decide)]

theorem trapFrame_short (later : cpu ≠ .mc68000) (low : 32 ≤ nr) (high : nr < 256) :
    TrapFrame address following (exception cpu fault nr oldpc st) ↔ st.regs.pc = following := by
  obtain ⟨-, -, sr, -⟩ := enterSupervisor_fields cpu (makeSR st.regs)
  obtain ⟨format, -⟩ := frame_formats nr high
  have interrupt : isInterrupt nr = false := by
    simp [isInterrupt]
    omega
  have pushed : pushFormat nr oldpc st.regs.pc ⟨enterSupervisor cpu (makeSR st.regs), st.mem⟩ =
      (⟨enterSupervisor cpu (makeSR st.regs), st.mem⟩ : Machine).pushWord (vectorOffset nr) := by
    rw [pushFormat, if_neg (by omega), if_neg (by omega), if_neg (by simp [interrupt])]
  have other : ¬ vectorOffset nr &&& 0xf000 = 0x2000 := by
    rw [format]
    decide
  rw [exception_pushFrame later fault pushed sr, trapFrame_pushFrame]
  simp only [other, false_imp_iff, and_true]

end

/-- The PC is behind the instruction, and `oldpc` at it if it is stacked. -/
def TrapInstr.SyncsAfterOldpc : TrapInstr → Prop
  | .trap _ | .divu .. | .divs .. => True
  | .trapv | .trapcc .. | .divl .. => False
  | .chk _ smode _ _ => smode.indexed = true
  | .chk2 _ dmode _ => dmode.indexed = true

theorem indexLength_le (dp : BitVec 16) : indexLength dp ≤ 10 := by
  simp only [indexLength, displacementLength]
  repeat' split
  all_goals omega

theorem MemMode.extLength_le (mode : MemMode) (mem : Memory 32) (a : BitVec 32) :
    mode.extLength mem a ≤ 10 := by
  cases mode with
  | ad8r | pc8r => exact indexLength_le _
  | _ => simp [MemMode.extLength]

theorem Amode.extLength_le (mode : Amode) (size : Size) (mem : Memory 32) (a : BitVec 32) :
    mode.extLength size mem a ≤ 10 := by
  cases mode with
  | mem mode => exact mode.extLength_le mem a
  | imm => cases size <;> simp [Amode.extLength]
  | _ => simp [Amode.extLength]

theorem TrapInstr.length_bounds (i : TrapInstr) (mem : Memory 32) (pc : BitVec 32) :
    0 < i.length mem pc ∧ i.length mem pc ≤ 14 := by
  cases i with
  | trap | trapv => simp [TrapInstr.length]
  | trapcc cc operand => cases operand <;> simp [TrapInstr.length, TrapOperand.length]
  | chk size smode =>
    have ext := smode.extLength_le size mem (pc + 2)
    simp only [TrapInstr.length]
    omega
  | chk2 size dmode =>
    have ext := dmode.extLength_le mem (pc + 4)
    simp only [TrapInstr.length]
    omega
  | divu smode | divs smode =>
    have ext := smode.extLength_le .word mem (pc + 2)
    simp only [TrapInstr.length]
    omega
  | divl dmode =>
    have ext := dmode.extLength_le .long mem (pc + 4)
    simp only [TrapInstr.length]
    omega

theorem TrapInstr.following_ne (i : TrapInstr) (st : Machine) : st.regs.pc ≠ i.following st := by
  obtain ⟨some_words, few_words⟩ := i.length_bounds st.mem st.regs.pc
  intro round
  have length : (BitVec.ofNat 32 (i.length st.mem st.regs.pc)).toNat = 0 := by
    rw [TrapInstr.following] at round
    have zero : BitVec.ofNat 32 (i.length st.mem st.regs.pc) = 0#32 := by grind
    rw [zero]
    rfl
  rw [BitVec.toNat_ofNat, Nat.mod_eq_of_lt (by omega)] at length
  omega

/-- A trap has the PC of the next instruction and the address of its own in its frame just when
its handler moves the PC after it has taken `oldpc`. -/
theorem trap_frame_iff {cpu : CPUType} (later : cpu ≠ .mc68000) (fault : Fault) {i : TrapInstr}
    {st found : Machine} {nr : Nat} {oldpc : BitVec 32}
    (trapped : i.execute cpu st = some (.trap nr oldpc found)) :
    TrapFrame st.regs.pc (i.following st) (exception cpu fault nr oldpc found) ↔
      i.SyncsAfterOldpc := by
  obtain ⟨rfl, rfl, pc⟩ := i.execute_raised later trapped
  have moved : st.regs.pc + 2#32 ≠ st.regs.pc := by
    intro same
    bv_omega
  have synced : found.regs.pc = i.following st ↔ i.synced = true := by
    rw [pc]
    split
    next behind => simp only [behind]
    next at_start => simp [at_start, i.following_ne st]
  cases i with
  | trap vector =>
    have low : 32 ≤ (TrapInstr.trap vector).vector := Nat.le_add_left 32 _
    have high : (TrapInstr.trap vector).vector < 256 := by
      simp only [TrapInstr.vector]
      omega
    rw [trapFrame_short fault _ _ _ _ later low high, synced]
    simp [TrapInstr.synced, TrapInstr.SyncsAfterOldpc]
  | _ =>
    -- TRAPV and DIVL miss their own address by one word.
    rw [trapFrame_withAddress fault _ _ _ _ later (by simp [TrapInstr.vector, divideByZero]),
      synced]
    simp [TrapInstr.synced, TrapInstr.SyncsAfterOldpc, TrapInstr.oldpc, moved]

/-- TRAPT, which always traps. -/
def alwaysTraps : TrapInstr := .trapcc 0 .none

/-- CHK.W of D0 = -1 with a bound at an indexed address: its trap is right. -/
def indexedCheck : TrapInstr := .chk .word (.mem .ad8r) 0 0

def negativeRegister : Machine := ⟨{ zeroRegs with dreg := fun _ => 0xffff }, fun _ => 0⟩

theorem indexedCheck_frame :
    CPUType.mc68020 ≠ .mc68000 ∧
      ∃ nr oldpc found,
        indexedCheck.execute .mc68020 negativeRegister = some (.trap nr oldpc found) ∧
          TrapFrame negativeRegister.regs.pc (indexedCheck.following negativeRegister)
            (exception .mc68020 ⟨0, 0, 0⟩ nr oldpc found) := by
  have later : CPUType.mc68020 ≠ .mc68000 := by decide
  exact ⟨later, _, _, _, rfl, (trap_frame_iff later ⟨0, 0, 0⟩ (i := indexedCheck) rfl).mpr rfl⟩

/-- TRAPT stacks its own address: RTE would execute it again. -/
theorem trapcc_returns_to_itself :
    ¬ ∀ (cpu : CPUType) (fault : Fault) (i : TrapInstr) (st found : Machine) (nr : Nat)
      (oldpc : BitVec 32), cpu ≠ .mc68000 → i.execute cpu st = some (.trap nr oldpc found) →
      TrapFrame st.regs.pc (i.following st) (exception cpu fault nr oldpc found) := by
  intro right
  have frame := right .mc68020 ⟨0, 0, 0⟩ alwaysTraps ⟨zeroRegs, fun _ => 0⟩ _ _ _ (by decide) rfl
  exact absurd frame.returns (by decide)

end BasiliskII.Cpu
