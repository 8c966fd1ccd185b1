import BasiliskII.Cpu.Exceptions

/-!
# Stack pointers across exceptions

The three stack pointers a guest sees are those of `Regs.stackPointers`,
whichever of them is in A7. `MakeFromSR` never changes them. `Exception` followed by
RTE restores them and the SR unless M was set: `Exception` clears M without saving
the master stack pointer, except where it pushes a throwaway frame, which must then
leave the frame on the master stack alone.
-/
namespace BasiliskII.Cpu

open ByteMemory

structure StackPointers where
  usp : BitVec 32
  isp : BitVec 32
  msp : BitVec 32
  deriving DecidableEq, Repr

/-- A7 is the master stack pointer; the 68000 has none. -/
def Regs.onMaster (cpu : CPUType) (regs : Regs) : Bool := regs.m && 2 ≤ cpu.level

/-- The stack pointers as the guest sees them: the active one is A7. -/
def Regs.stackPointers (cpu : CPUType) (regs : Regs) : StackPointers where
  usp := if regs.s then regs.usp else regs.a7
  isp := if regs.s && !regs.onMaster cpu then regs.a7 else regs.isp
  msp := if regs.s && regs.onMaster cpu then regs.a7 else regs.msp

@[simp] theorem Regs.a7_setA7 (regs : Regs) (value : BitVec 32) : (regs.setA7 value).a7 = value :=
  Regs.setAreg_same regs sp value

@[simp] theorem Regs.setA7_setA7 (regs : Regs) (first second : BitVec 32) :
    (regs.setA7 first).setA7 second = regs.setA7 second :=
  Regs.setAreg_setAreg regs sp first second

@[simp] theorem Regs.setA7_a7 (regs : Regs) : regs.setA7 regs.a7 = regs :=
  Regs.setAreg_self regs sp

@[simp] theorem Regs.setA7_s (regs : Regs) (value : BitVec 32) : (regs.setA7 value).s = regs.s :=
  rfl

@[simp] theorem Regs.setA7_usp (regs : Regs) (value : BitVec 32) :
    (regs.setA7 value).usp = regs.usp := rfl

@[simp] theorem Regs.setA7_isp (regs : Regs) (value : BitVec 32) :
    (regs.setA7 value).isp = regs.isp := rfl

@[simp] theorem Regs.setA7_msp (regs : Regs) (value : BitVec 32) :
    (regs.setA7 value).msp = regs.msp := rfl

/-- No transition of `MakeFromSR` loses or duplicates a stack pointer. -/
theorem makeFromSR_stackPointers (cpu : CPUType) (regs : Regs) :
    (makeFromSR cpu regs).stackPointers cpu = regs.stackPointers cpu := by
  cases olds : regs.s <;> cases oldm : regs.m <;> cases news : regs.sr[13] <;>
    cases newm : regs.sr[12] <;> cases cpu <;>
    simp [makeFromSR, Regs.fromSR, Regs.stackPointers, Regs.onMaster, CPUType.level, Regs.setA7,
      Regs.setAreg, Regs.a7, olds, oldm, news, newm]

theorem srBit_getLsbD (b : Bool) (position i : Nat) (inside : i < 16) :
    (srBit b position).getLsbD i = (decide (i = position) && b) := by
  simp only [srBit, BitVec.getLsbD_shiftLeft, BitVec.getLsbD_setWidth, BitVec.getLsbD_ofBool]
  by_cases here : i = position
  · simp [here, here ▸ inside]
  · by_cases below : i < position
    · simp [here, below]
    · simp [here, below, show ¬ i - position = 0 by omega]

theorem intmask_getLsbD (mask : BitVec 3) (i : Nat) (inside : i < 16) :
    (mask.setWidth 16 <<< 8 : BitVec 16).getLsbD i = (decide (8 ≤ i) && mask.getLsbD (i - 8)) := by
  simp only [BitVec.getLsbD_shiftLeft, BitVec.getLsbD_setWidth]
  by_cases below : i < 8
  · simp [below, show ¬ 8 ≤ i by omega]
  · simp [below, inside, show 8 ≤ i by omega, show i - 8 < 16 by omega]

theorem srValue_getLsbD (regs : Regs) {i : Nat} (inside : i < 16) :
    regs.srValue.getLsbD i =
      (decide (i = 15) && regs.t1 || decide (i = 14) && regs.t0 || decide (i = 13) && regs.s ||
        decide (i = 12) && regs.m || decide (8 ≤ i) && regs.intmask.getLsbD (i - 8) ||
        decide (i = 4) && regs.flags.x || decide (i = 3) && regs.flags.n ||
        decide (i = 2) && regs.flags.z || decide (i = 1) && regs.flags.v ||
        decide (i = 0) && regs.flags.c) := by
  simp only [Regs.srValue, BitVec.getLsbD_or, srBit_getLsbD _ _ i inside,
    intmask_getLsbD _ i inside]

theorem srValue_intmask (regs : Regs) : regs.srValue.extractLsb' 8 3 = regs.intmask := by
  apply BitVec.eq_of_getLsbD_eq
  intro i inside
  rw [BitVec.getLsbD_extractLsb', srValue_getLsbD regs (by omega)]
  obtain rfl | rfl | rfl : i = 0 ∨ i = 1 ∨ i = 2 := by omega
  all_goals simp

/-- `MakeFromSR` reads back what `MakeSR` composed. -/
theorem fromSR_srValue (regs given : Regs) :
    { given with sr := regs.srValue }.fromSR =
      { given with
        sr := regs.srValue
        t1 := regs.t1
        t0 := regs.t0
        s := regs.s
        m := regs.m
        intmask := regs.intmask
        flags := regs.flags } := by
  simp (disch := decide) only [Regs.fromSR, srValue_intmask, srValue_getLsbD regs]
  simp

/-- What RTE takes from the SR. -/
def Regs.status (regs : Regs) : BitVec 16 × Bool × Bool × Bool × Bool × BitVec 3 × Flags :=
  (regs.sr, regs.t1, regs.t0, regs.s, regs.m, regs.intmask, regs.flags)

/-- The SR in all its fields and the three stack pointers are back. -/
structure Restored (cpu : CPUType) (before after : Regs) : Prop where
  status : after.status = (makeSR before).status
  stackPointers : after.stackPointers cpu = before.stackPointers cpu

theorem makeFromSR_status (cpu : CPUType) (regs : Regs) :
    (makeFromSR cpu regs).status = regs.fromSR.status := by
  simp only [makeFromSR]
  repeat' split
  all_goals rfl

theorem setSR_status (cpu : CPUType) (before given : Regs) :
    (makeFromSR cpu { given with sr := before.srValue }).status = (makeSR before).status := by
  have status := makeFromSR_status cpu { given with sr := before.srValue }
  rw [fromSR_srValue] at status
  exact status

theorem setSR_stackPointers (cpu : CPUType) (given : Regs) (sr : BitVec 16) :
    (makeFromSR cpu { given with sr }).stackPointers cpu = given.stackPointers cpu :=
  makeFromSR_stackPointers cpu { given with sr }

theorem enterSupervisor_stackPointers (cpu : CPUType) (regs : Regs) :
    (enterSupervisor cpu regs).stackPointers cpu = regs.stackPointers cpu := by
  cases user : regs.s <;> cases master : regs.m <;> cases cpu <;>
    simp [enterSupervisor, Regs.stackPointers, Regs.onMaster, CPUType.level, Regs.setA7,
      Regs.setAreg, Regs.a7, user, master]

theorem enterSupervisor_fields (cpu : CPUType) (regs : Regs) :
    (enterSupervisor cpu regs).s = true ∧ (enterSupervisor cpu regs).m = regs.m ∧
      (enterSupervisor cpu regs).sr = regs.sr ∧ (enterSupervisor cpu regs).isp = regs.isp := by
  cases user : regs.s <;> simp [enterSupervisor, user, Regs.setA7, Regs.setAreg]

@[simp] theorem enterHandler_mem (nr : Nat) (st : Machine) : (enterHandler nr st).mem = st.mem :=
  rfl

@[simp] theorem enterHandler_a7 (nr : Nat) (st : Machine) :
    (enterHandler nr st).regs.a7 = st.regs.a7 := rfl

@[simp] theorem enterHandler_s (nr : Nat) (st : Machine) :
    (enterHandler nr st).regs.s = st.regs.s := rfl

@[simp] theorem enterHandler_usp (nr : Nat) (st : Machine) :
    (enterHandler nr st).regs.usp = st.regs.usp := rfl

@[simp] theorem enterHandler_isp (nr : Nat) (st : Machine) :
    (enterHandler nr st).regs.isp = st.regs.isp := rfl

@[simp] theorem enterHandler_msp (nr : Nat) (st : Machine) :
    (enterHandler nr st).regs.msp = st.regs.msp := rfl

-- Frames: format word, PC and SR, eight bytes in all.

def pushFrame (st : Machine) (format : BitVec 16) (pc : BitVec 32) (sr : BitVec 16) : Machine :=
  ((st.pushWord format).pushLong pc).pushWord sr

structure FrameAt (mem : Memory 32) (a : BitVec 32) (sr : BitVec 16) (pc : BitVec 32)
    (format : BitVec 16) : Prop where
  sr : getWord mem a = sr
  pc : getLong mem (a + 2) = pc
  format : getWord mem (a + 6) = format

variable {sr format : BitVec 16} {pc : BitVec 32}

theorem FrameAt.congr {mem mem' : Memory 32} {a : BitVec 32} (frame : FrameAt mem a sr pc format)
    (same : SameBytes mem mem' a 8) : FrameAt mem' a sr pc format where
  sr := (getWord_congr (same.mono (by decide))).trans frame.sr
  pc := (getLong_congr (same.shift 2 (by decide))).trans frame.pc
  format := (getWord_congr (same.shift 6 (by decide))).trans frame.format

/-- The bytes of a frame, from its address up. -/
def frameByte (sr : BitVec 16) (pc : BitVec 32) (format : BitVec 16) : Nat → BitVec 8
  | 0 => sr.extractLsb' 8 8
  | 1 => sr.extractLsb' 0 8
  | 2 => pc.extractLsb' 24 8
  | 3 => pc.extractLsb' 16 8
  | 4 => pc.extractLsb' 8 8
  | 5 => pc.extractLsb' 0 8
  | 6 => format.extractLsb' 8 8
  | _ => format.extractLsb' 0 8

theorem getWord_bytes (mem : Memory 32) (a : BitVec 32) :
    (getWord mem a).extractLsb' 8 8 = mem a ∧ (getWord mem a).extractLsb' 0 8 = mem (a + 1) :=
  ⟨BitVec.extractLsb'_append_eq_left, BitVec.extractLsb'_append_eq_right⟩

theorem getLong_bytes (mem : Memory 32) (a : BitVec 32) :
    (getLong mem a).extractLsb' 24 8 = mem a ∧ (getLong mem a).extractLsb' 16 8 = mem (a + 1) ∧
      (getLong mem a).extractLsb' 8 8 = mem (a + 2) ∧
      (getLong mem a).extractLsb' 0 8 = mem (a + 3) := by
  have third : a + 2 + 1 = a + 3 := by grind
  rw [← third]
  refine ⟨?_, ?_, ?_, ?_⟩
  · rw [getLong, BitVec.extractLsb'_append_eq_of_le (by decide)]
    exact (getWord_bytes mem a).1
  · rw [getLong, BitVec.extractLsb'_append_eq_of_le (by decide)]
    exact (getWord_bytes mem a).2
  · rw [getLong, BitVec.extractLsb'_append_eq_of_add_le (by decide)]
    exact (getWord_bytes mem (a + 2)).1
  · rw [getLong, BitVec.extractLsb'_append_eq_of_add_le (by decide)]
    exact (getWord_bytes mem (a + 2)).2

theorem FrameAt.byte {mem : Memory 32} {a : BitVec 32} (frame : FrameAt mem a sr pc format)
    {i : Nat} (inside : i < 8) : mem (a + BitVec.ofNat 32 i) = frameByte sr pc format i := by
  obtain ⟨rfl, rfl, rfl⟩ := frame
  have sr := getWord_bytes mem a
  have pc := getLong_bytes mem (a + 2)
  have format := getWord_bytes mem (a + 6)
  simp only [BitVec.add_assoc] at pc format
  obtain rfl | rfl | rfl | rfl | rfl | rfl | rfl | rfl :
      i = 0 ∨ i = 1 ∨ i = 2 ∨ i = 3 ∨ i = 4 ∨ i = 5 ∨ i = 6 ∨ i = 7 := by omega
  · rw [frameByte, sr.1, BitVec.add_zero]
  · exact sr.2.symm
  · exact pc.1.symm
  · exact pc.2.1.symm
  · exact pc.2.2.1.symm
  · exact pc.2.2.2.symm
  · exact format.1.symm
  · exact format.2.symm

theorem pushFrame_regs (st : Machine) (format : BitVec 16) (pc : BitVec 32) (sr : BitVec 16) :
    (pushFrame st format pc sr).regs = st.regs.setA7 (st.regs.a7 - 8) := by
  simp only [pushFrame, Machine.pushWord, Machine.pushLong, Regs.a7_setA7, Regs.setA7_setA7]
  congr 1
  grind

theorem pushFrame_frameAt (st : Machine) (format : BitVec 16) (pc : BitVec 32) (sr : BitVec 16) :
    FrameAt (pushFrame st format pc sr).mem (st.regs.a7 - 8) sr pc format := by
  simp only [pushFrame, Machine.pushWord, Machine.pushLong, Regs.a7_setA7]
  generalize st.regs.a7 = a7
  have sr_at : a7 - 2 - 4 - 2 = a7 - 8 := by grind
  have pc_at : a7 - 2 - 4 = a7 - 8 + 2 := by grind
  have format_at : a7 - 2 = a7 - 8 + 6 := by grind
  rw [sr_at, pc_at, format_at]
  generalize a7 - 8 = a
  have below_pc : Apart a 2 (a + 2) 4 := by
    unfold Apart
    bv_omega
  have below_format : Apart a 2 (a + 6) 2 := by
    unfold Apart
    bv_omega
  have pc_below_format : Apart (a + 2) 4 (a + 6) 2 := by
    unfold Apart
    bv_omega
  constructor
  · rw [getWord_putWord (by decide)]
  · rw [getLong_congr (putWord_sameBytes _ _ below_pc), getLong_putLong (by decide)]
  · rw [getWord_congr (putWord_sameBytes _ _ below_format),
      getWord_congr (putLong_sameBytes _ _ pc_below_format), getWord_putWord (by decide)]

theorem pushFrame_sameBytes (st : Machine) (format : BitVec 16) (pc : BitVec 32) (sr : BitVec 16)
    {b : BitVec 32} {k : Nat} (apart : Apart (st.regs.a7 - 8) 8 b k) :
    SameBytes st.mem (pushFrame st format pc sr).mem b k := by
  simp only [pushFrame, Machine.pushWord, Machine.pushLong, Regs.a7_setA7]
  generalize st.regs.a7 = a7 at apart ⊢
  have sr_at : a7 - 2 - 4 - 2 = a7 - 8 := by grind
  have pc_at : a7 - 2 - 4 = a7 - 8 + 2 := by grind
  have format_at : a7 - 2 = a7 - 8 + 6 := by grind
  rw [sr_at, pc_at, format_at]
  have from_pc : Apart (a7 - 8 + 2) 6 b k := apart.drop (i := 2) (by decide)
  have from_format : Apart (a7 - 8 + 6) 2 b k := apart.drop (i := 6) (by decide)
  exact ((putWord_sameBytes _ _ from_format).trans
    (putLong_sameBytes _ _ (from_pc.left (by decide)))).trans
      (putWord_sameBytes _ _ (apart.left (by decide)))

variable {st : Machine}

/-- One round of RTE on the frame at A7. -/
theorem rteLoop_frame (cpu : CPUType) (fault : Fault) (fuel : Nat)
    (frame : FrameAt st.mem st.regs.a7 sr pc format) :
    rteLoop cpu fault (fuel + 1) st =
      if format &&& 0xf000 = 0x1000 then
        rteLoop cpu fault fuel ({ st with regs := st.regs.setA7 (st.regs.a7 + 8) }.setSR cpu sr)
      else
        match frameRest format with
        | none => some (exception cpu fault 14 0
            { st with regs := st.regs.setA7 (st.regs.a7 + 8) })
        | some rest => some
            { mem := st.mem
              regs :=
                { makeFromSR cpu { st.regs.setA7 (st.regs.a7 + 8 + rest) with sr } with pc } } := by
  have pc_at : st.regs.a7 + 2 + 4 = st.regs.a7 + 6 := by grind
  have behind : st.regs.a7 + 2 + 4 + 2 = st.regs.a7 + 8 := by grind
  simp only [rteLoop, Machine.popWord, Machine.popLong, Regs.a7_setA7, Regs.setA7_setA7,
    Machine.setSR]
  simp only [pc_at, frame.sr, frame.pc, frame.format] at behind ⊢
  generalize st.regs.a7 + 6 + 2 = top at behind ⊢
  subst behind
  rfl

/-- The last round of RTE, on a frame with the SR `Exception` composed. -/
theorem rteLoop_ends (cpu : CPUType) (fault : Fault) {before : Regs} (st : Machine)
    {rest : BitVec 32} (frame : FrameAt st.mem st.regs.a7 before.srValue pc format)
    (ends : frameRest format = some rest) (kept : format &&& 0xf000 ≠ 0x1000) :
    ∃ after, (∀ fuel, rteLoop cpu fault (fuel + 1) st = some after) ∧
      after.regs.status = (makeSR before).status ∧
      after.regs.stackPointers cpu =
        (st.regs.setA7 (st.regs.a7 + 8 + rest)).stackPointers cpu := by
  refine ⟨⟨{ makeFromSR cpu
      { st.regs.setA7 (st.regs.a7 + 8 + rest) with sr := before.srValue } with pc }, st.mem⟩,
    fun fuel => ?_, setSR_status cpu before _, setSR_stackPointers cpu _ _⟩
  rw [rteLoop_frame cpu fault fuel frame, if_neg kept, ends]

/-- A switch of stacks keeps the sum of the stack pointers, a pop moves it up. -/
def StackPointers.total (pointers : StackPointers) : BitVec 32 :=
  pointers.usp + pointers.isp + pointers.msp

theorem setA7_total (cpu : CPUType) (regs : Regs) (bytes : BitVec 32) :
    ((regs.setA7 (regs.a7 + bytes)).stackPointers cpu).total =
      (regs.stackPointers cpu).total + bytes := by
  have master : (regs.setA7 (regs.a7 + bytes)).onMaster cpu = regs.onMaster cpu := rfl
  simp only [StackPointers.total, Regs.stackPointers, master, Regs.setA7_s, Regs.setA7_usp,
    Regs.setA7_isp, Regs.setA7_msp, Regs.a7_setA7]
  cases regs.s <;> cases regs.onMaster cpu <;> simp <;> grind

theorem frameRest_le {rest : BitVec 32} (ends : frameRest format = some rest) : rest.toNat ≤ 84 := by
  unfold frameRest at ends
  split at ends
  case h_9 => cases ends
  all_goals
    cases ends
    decide

theorem frameRest_zero_iff (format : BitVec 16) :
    frameRest format = some 0 ↔ format &&& 0xf000 = 0 := by
  constructor
  · intro ends
    unfold frameRest at ends
    split at ends
    case h_1 ordinary => exact ordinary
    all_goals
      cases ends
  · intro ordinary
    rw [frameRest, ordinary]
    rfl

/-- RTE has moved a stack pointer up, or has ended in an exception, which clears M. -/
theorem rteLoop_total (cpu : CPUType) (fault : Fault) (frames : Nat) (st : Machine)
    {after : Machine} (returned : rteLoop cpu fault frames st = some after) :
    after.regs.m = false ∨ ∃ bytes, 0 < bytes ∧ bytes ≤ 8 * frames + 84 ∧
      (after.regs.stackPointers cpu).total =
        (st.regs.stackPointers cpu).total + BitVec.ofNat 32 bytes := by
  induction frames generalizing st with
  | zero => cases returned
  | succ frames ih =>
    rw [rteLoop_frame cpu fault frames ⟨rfl, rfl, rfl⟩] at returned
    split at returned
    next throwaway =>
      have switched := setSR_stackPointers cpu (st.regs.setA7 (st.regs.a7 + 8))
        (getWord st.mem st.regs.a7)
      have popped := congrArg StackPointers.total switched
      rw [setA7_total] at popped
      rcases ih _ returned with cleared | ⟨bytes, moved, few, total⟩
      · exact .inl cleared
      · refine .inr ⟨8 + bytes, by omega, by omega, total.trans ?_⟩
        rw [BitVec.ofNat_add, ← BitVec.add_assoc]
        exact congrArg (· + BitVec.ofNat 32 bytes) popped
    next =>
      split at returned
      next =>
        cases returned
        exact .inl rfl
      next rest ends =>
        cases returned
        have small := frameRest_le ends
        have switched := setSR_stackPointers cpu (st.regs.setA7 (st.regs.a7 + 8 + rest))
          (getWord st.mem st.regs.a7)
        have popped : ((st.regs.setA7 (st.regs.a7 + 8 + rest)).stackPointers cpu).total =
            (st.regs.stackPointers cpu).total + (8 + rest) := by
          rw [BitVec.add_assoc]
          exact setA7_total cpu st.regs (8 + rest)
        refine .inr ⟨8 + rest.toNat, by omega, by omega, ?_⟩
        rw [BitVec.ofNat_add, BitVec.ofNat_toNat, BitVec.setWidth_eq]
        exact (congrArg StackPointers.total switched).trans popped

theorem total_moved (total : BitVec 32) {bytes : Nat} (moved : 0 < bytes) (few : bytes < 2 ^ 32) :
    total + BitVec.ofNat 32 bytes ≠ total := by
  intro same
  have none : BitVec.ofNat 32 bytes = 0 := by simpa using same
  have size := congrArg BitVec.toNat none
  rw [BitVec.toNat_ofNat, Nat.mod_eq_of_lt few] at size
  exact absurd size (Nat.ne_of_gt moved)

variable {cpu : CPUType}

/-- The last frame of an exception on the master stack: RTE ends there and brings everything back,
or nothing that follows does. -/
theorem lastFrame_restores_iff (fault : Fault) (st : Machine) {before : Regs}
    (master : before.m = true) (frame : FrameAt st.mem st.regs.a7 sr pc format)
    (back : (st.regs.setA7 (st.regs.a7 + 8)).stackPointers cpu = before.stackPointers cpu) :
    (∃ frames, frames + 2 ≤ 2 ^ 28 ∧ ∃ after, rteLoop cpu fault (frames + 1) st = some after ∧
      Restored cpu before after.regs) ↔ sr = before.srValue ∧ format &&& 0xf000 = 0 := by
  constructor
  · rintro ⟨frames, few, after, returned, restored⟩
    have still : after.regs.m = true := by
      have m := congrArg (fun status => status.2.2.2.2.1) restored.status
      exact m.trans master
    rw [rteLoop_frame cpu fault frames frame] at returned
    split at returned
    next =>
      rcases rteLoop_total cpu fault frames _ returned with cleared | ⟨bytes, moved, some, total⟩
      · rw [still] at cleared
        cases cleared
      · have popped := congrArg StackPointers.total
          ((setSR_stackPointers cpu (st.regs.setA7 (st.regs.a7 + 8)) sr).trans back)
        have kept := congrArg StackPointers.total restored.stackPointers
        have round : (before.stackPointers cpu).total + BitVec.ofNat 32 bytes =
            (before.stackPointers cpu).total :=
          ((congrArg (· + BitVec.ofNat 32 bytes) popped.symm).trans total.symm).trans kept
        exact absurd round (total_moved _ moved (by omega))
    next =>
      split at returned
      next =>
        cases returned
        cases still
      next rest ends =>
        cases returned
        have same : sr = before.srValue := by
          have status := (makeFromSR_status cpu
            { st.regs.setA7 (st.regs.a7 + 8 + rest) with sr }).symm.trans restored.status
          exact congrArg Prod.fst status
        have popped := setA7_total cpu (st.regs.setA7 (st.regs.a7 + 8)) rest
        rw [Regs.a7_setA7, Regs.setA7_setA7, back] at popped
        have kept := (setSR_stackPointers cpu (st.regs.setA7 (st.regs.a7 + 8 + rest)) sr).symm.trans
          restored.stackPointers
        rw [kept] at popped
        obtain rfl : rest = 0 := by simpa using popped.symm
        exact ⟨same, (frameRest_zero_iff format).mp ends⟩
  · rintro ⟨rfl, ordinary⟩
    obtain ⟨after, ended, status, pointers⟩ := rteLoop_ends cpu fault st frame
      ((frameRest_zero_iff format).mpr ordinary) (by rw [ordinary]; decide)
    have behind : st.regs.a7 + 8 + 0 = st.regs.a7 + 8 := by simp
    rw [behind] at pointers
    exact ⟨0, by decide, after, ended 0, status, pointers.trans back⟩

theorem frame_formats : ∀ nr < 256,
    vectorOffset nr &&& 0xf000 = 0 ∧ (0x2000 + vectorOffset nr) &&& 0xf000 = 0x2000 ∧
      (0xa000 + vectorOffset nr) &&& 0xf000 = 0xa000 ∧
      (0x1000 + vectorOffset nr) &&& 0xf000 = 0x1000 := by
  decide +kernel

theorem pushWord_iterate_regs (st : Machine) (n : Nat) :
    ((Machine.pushWord · 0)^[n] st).regs = st.regs.setA7 (st.regs.a7 - 2 * BitVec.ofNat 32 n) := by
  induction n with
  | zero => simp
  | succ n ih =>
    rw [Function.iterate_succ_apply', Machine.pushWord, ih, Regs.a7_setA7, Regs.setA7_setA7,
      BitVec.ofNat_add]
    exact congrArg st.regs.setA7 (by grind)

variable {nr : Nat}

/-- Every frame but a throwaway one ends RTE, which removes what was pushed above it. -/
theorem pushFormat_ordinary (vector : nr < 256) (oldpc currpc : BitVec 32) (st : Machine)
    (kept : ¬ (st.regs.m = true ∧ isInterrupt nr = true)) :
    ∃ (above : Machine) (format : BitVec 16) (rest : BitVec 32),
      pushFormat nr oldpc currpc st = above.pushWord format ∧
      above.regs = st.regs.setA7 (st.regs.a7 - rest) ∧ frameRest format = some rest ∧
      format &&& 0xf000 ≠ 0x1000 := by
  obtain ⟨short, with_address, with_bus, _⟩ := frame_formats nr vector
  simp only [pushFormat]
  split
  · refine ⟨_, _, 24, rfl, pushWord_iterate_regs st 12, ?_, ?_⟩
    · rw [frameRest, with_bus]
      rfl
    · rw [with_bus]
      decide
  · split
    · refine ⟨_, _, 4, rfl, rfl, ?_, ?_⟩
      · rw [frameRest, with_address]
        rfl
      · rw [with_address]
        decide
    · refine ⟨st, _, 0, rfl, by simp, ?_, ?_⟩
      · rw [frameRest, short]
        rfl
      · rw [short]
        decide

/-- On the supervisor stack only A7, the other pointers and M count. -/
theorem stackPointers_congr {regs given : Regs} (super : regs.s = true) (super' : given.s = true)
    (usp : given.usp = regs.usp) (isp : given.isp = regs.isp) (msp : given.msp = regs.msp)
    (a7 : given.a7 = regs.a7) (master : given.onMaster cpu = regs.onMaster cpu) :
    given.stackPointers cpu = regs.stackPointers cpu := by
  simp only [Regs.stackPointers, super, super', usp, isp, msp, a7, master]

/-- RTE takes the state back, with no more frames than fill half the address space. -/
def RteUndoes (cpu : CPUType) (fault : Fault) (nr : Nat) (oldpc : BitVec 32) (st : Machine) :
    Prop :=
  ∃ frames ≤ 2 ^ 28, ∃ after,
    rte cpu fault frames (exception cpu fault nr oldpc st) = some after ∧
      Restored cpu st.regs after.regs

theorem level_pos (later : cpu ≠ .mc68000) : 2 ≤ cpu.level := by
  cases cpu
  · exact absurd rfl later
  all_goals decide

theorem rte_super (fault : Fault) (fuel : Nat) (later : cpu ≠ .mc68000) (super : st.regs.s = true) :
    rte cpu fault fuel st = rteLoop cpu fault fuel st := by
  have level := level_pos later
  simp only [rte, super, Bool.not_true, Bool.false_eq_true, if_false,
    if_neg (show cpu.level ≠ 0 by omega)]

@[simp] theorem pushWord_s (st : Machine) (value : BitVec 16) :
    (st.pushWord value).regs.s = st.regs.s := rfl

@[simp] theorem pushLong_s (st : Machine) (value : BitVec 32) :
    (st.pushLong value).regs.s = st.regs.s := rfl

theorem pushFormat_s (nr : Nat) (oldpc currpc : BitVec 32) (st : Machine) :
    (pushFormat nr oldpc currpc st).regs.s = st.regs.s := by
  simp only [pushFormat]
  repeat' split
  · rw [pushWord_s, pushWord_iterate_regs]
    rfl
  all_goals rfl

theorem exception_super (cpu : CPUType) (fault : Fault) (nr : Nat) (oldpc : BitVec 32)
    (st : Machine) : (exception cpu fault nr oldpc st).regs.s = true := by
  have super := (enterSupervisor_fields cpu (makeSR st.regs)).1
  simp only [exception, enterHandler, pushWord_s]
  split
  · rw [pushLong_s, pushFormat_s]
    exact super
  · split <;> exact super

/-- An exception with one frame pushes it below what its format asks for. -/
theorem exception_pushFrame (later : cpu ≠ .mc68000) (fault : Fault) {oldpc : BitVec 32}
    {above : Machine}
    (pushed : pushFormat nr oldpc st.regs.pc ⟨enterSupervisor cpu (makeSR st.regs), st.mem⟩ =
      above.pushWord format) (sr : above.regs.sr = st.regs.srValue) :
    exception cpu fault nr oldpc st =
      enterHandler nr (pushFrame above format st.regs.pc st.regs.srValue) := by
  have level : cpu.level > 0 := Nat.lt_of_lt_of_le Nat.two_pos (level_pos later)
  have same_sr : ((above.pushWord format).pushLong st.regs.pc).regs.sr = st.regs.srValue := sr
  simp only [exception, if_pos level, pushed, same_sr]
  rfl

/-- The frame of the exceptions that keep the address of their instruction. -/
theorem exception_withAddress (later : cpu ≠ .mc68000) (fault : Fault)
    (vector : nr = 5 ∨ nr = 6 ∨ nr = 7 ∨ nr = 9) (oldpc : BitVec 32) (st : Machine) :
    exception cpu fault nr oldpc st =
      enterHandler nr (pushFrame
        ((⟨enterSupervisor cpu (makeSR st.regs), st.mem⟩ : Machine).pushLong oldpc)
        (0x2000 + vectorOffset nr) st.regs.pc st.regs.srValue) := by
  obtain ⟨-, -, sr, -⟩ := enterSupervisor_fields cpu (makeSR st.regs)
  refine exception_pushFrame later fault ?_ sr
  rw [pushFormat, if_neg (by omega), if_pos (by omega)]

/-- What the handler finds on its stack. -/
theorem enterHandler_frame (nr : Nat) (above : Machine) (format sr : BitVec 16) (pc : BitVec 32) :
    let after := enterHandler nr (pushFrame above format pc sr)
    FrameAt after.mem after.regs.a7 sr pc format ∧
      getLong after.mem (after.regs.a7 + 8) = getLong above.mem above.regs.a7 := by
  dsimp only
  rw [enterHandler_a7, enterHandler_mem, pushFrame_regs, Regs.a7_setA7]
  refine ⟨pushFrame_frameAt above format pc sr, ?_⟩
  have top : above.regs.a7 - 8 + 8 = above.regs.a7 := by grind
  have apart : Apart (above.regs.a7 - 8) 8 above.regs.a7 4 := by
    unfold Apart
    bv_omega
  rw [top]
  exact getLong_congr (pushFrame_sameBytes above format pc sr apart)

/-- The frame of a short exception has the PC above the status register. -/
theorem exception_stackedPc (cpu : CPUType) (fault : Fault) (short : nr ≠ 2 ∧ nr ≠ 3)
    (oldpc : BitVec 32) (st : Machine) :
    getLong (exception cpu fault nr oldpc st).mem ((exception cpu fault nr oldpc st).regs.a7 + 2) =
      st.regs.pc := by
  -- Both kinds of frame end like this.
  have pushed (above : Machine) :
      let pc_pushed := above.pushLong st.regs.pc
      let st' := enterHandler nr (pc_pushed.pushWord pc_pushed.regs.sr)
      getLong st'.mem (st'.regs.a7 + 2) = st.regs.pc := by
    dsimp only
    rw [enterHandler_a7]
    simp only [Machine.pushWord, Machine.pushLong, Regs.a7_setA7, BitVec.sub_add_cancel]
    have apart : Apart (above.regs.a7 - 4 - 2) 2 (above.regs.a7 - 4) 4 := by
      unfold Apart
      bv_omega
    exact (getLong_congr (putWord_sameBytes _ _ apart)).trans (getLong_putLong (by decide) ..)
  unfold exception
  dsimp only
  split
  · exact pushed _
  next =>
    rw [if_neg (by omega)]
    exact pushed _

/-- RTE after an exception with one frame: it finds the stack `Exception` worked on as the
interrupt stack, whichever it was. -/
theorem ordinary_rte (fault : Fault) (vector : nr < 256) (oldpc : BitVec 32) (st : Machine)
    (later : cpu ≠ .mc68000) (one_frame : ¬ (st.regs.m = true ∧ isInterrupt nr = true)) :
    ∃ after, (∀ fuel, rte cpu fault (fuel + 1) (exception cpu fault nr oldpc st) = some after) ∧
      after.regs.status = (makeSR st.regs).status ∧
      after.regs.stackPointers cpu =
        { enterSupervisor cpu (makeSR st.regs) with m := false }.stackPointers cpu := by
  obtain ⟨super, master, sr, _⟩ := enterSupervisor_fields cpu (makeSR st.regs)
  obtain ⟨above, format, rest, pushed, above_regs, ends, kept⟩ :=
    pushFormat_ordinary vector oldpc st.regs.pc ⟨enterSupervisor cpu (makeSR st.regs), st.mem⟩
      (by rw [master]; exact one_frame)
  have taken := exception_pushFrame later fault pushed (by rw [above_regs]; exact sr)
  generalize enterSupervisor cpu (makeSR st.regs) = e at super above_regs ⊢
  have frame := pushFrame_frameAt above format st.regs.pc st.regs.srValue
  have regs := pushFrame_regs above format st.regs.pc st.regs.srValue
  rw [above_regs, Regs.a7_setA7] at frame
  rw [above_regs, Regs.setA7_setA7, Regs.a7_setA7] at regs
  generalize pushFrame above format st.regs.pc st.regs.srValue = framed at taken frame regs
  have handler_a7 : (enterHandler nr framed).regs.a7 = e.a7 - rest - 8 := by simp [regs]
  have handler_super : (enterHandler nr framed).regs.s = true := by simp [regs, super]
  have behind : e.a7 - rest - 8 + 8 + rest = e.a7 := by grind
  have pointers : ((enterHandler nr framed).regs.setA7 e.a7).stackPointers cpu =
      { e with m := false }.stackPointers cpu := by
    refine stackPointers_congr super handler_super ?_ ?_ ?_ (Regs.a7_setA7 _ _) rfl
    all_goals simp [regs]
  have handler_frame : FrameAt (enterHandler nr framed).mem (enterHandler nr framed).regs.a7
      st.regs.srValue st.regs.pc format := by
    rw [handler_a7]
    exact frame
  obtain ⟨after, ended, status, back⟩ := rteLoop_ends cpu fault _ handler_frame ends kept
  rw [handler_a7, behind] at back
  refine ⟨after, fun fuel => ?_, status, back.trans pointers⟩
  rw [taken, rte_super fault _ later handler_super]
  exact ended fuel

theorem ordinary_undone (fault : Fault) (vector : nr < 256) (oldpc : BitVec 32)
    (later : cpu ≠ .mc68000) (clear : st.regs.m = false) : RteUndoes cpu fault nr oldpc st := by
  obtain ⟨after, ended, status, pointers⟩ := ordinary_rte fault vector oldpc st later
    (by simp [clear])
  refine ⟨1, by decide, after, ended 0, status, pointers.trans ?_⟩
  have entered := enterSupervisor_stackPointers cpu (makeSR st.regs)
  have same : { enterSupervisor cpu (makeSR st.regs) with m := false } =
      enterSupervisor cpu (makeSR st.regs) := by
    have e_m : (enterSupervisor cpu (makeSR st.regs)).m = false :=
      (enterSupervisor_fields cpu (makeSR st.regs)).2.1.trans clear
    rw [← e_m]
  rw [same]
  exact entered

/-- With M set, RTE returns to the state before only if the stack pointers it confuses were
equal. -/
theorem ordinary_on_master_undone_iff (fault : Fault) (vector : nr < 256) (oldpc : BitVec 32)
    (later : cpu ≠ .mc68000) (master : st.regs.m = true) (ordinary : isInterrupt nr = false) :
    RteUndoes cpu fault nr oldpc st ↔
      if st.regs.s then st.regs.isp = st.regs.a7 ∧ st.regs.msp = st.regs.a7
      else st.regs.isp = st.regs.msp := by
  obtain ⟨after, ended, status, pointers⟩ := ordinary_rte fault vector oldpc st later
    (by simp [ordinary])
  have level := level_pos later
  have same_pointers : after.regs.stackPointers cpu = st.regs.stackPointers cpu ↔
      if st.regs.s then st.regs.isp = st.regs.a7 ∧ st.regs.msp = st.regs.a7
      else st.regs.isp = st.regs.msp := by
    rw [pointers]
    cases super : st.regs.s <;>
      simp [enterSupervisor, makeSR, super, master, Regs.stackPointers, Regs.onMaster, level,
        Regs.a7, Regs.setA7, Regs.setAreg]
    · exact eq_comm
    · exact fun _ => eq_comm
  rw [← same_pointers]
  constructor
  · rintro ⟨frames, -, final, returned, restored⟩
    cases frames with
    | zero =>
      rw [rte_super fault 0 later (exception_super cpu fault nr oldpc st), rteLoop] at returned
      cases returned
    | succ frames =>
      rw [ended frames, Option.some.injEq] at returned
      rw [returned]
      exact restored.stackPointers
  · intro same
    exact ⟨1, by decide, after, ended 0, status, same⟩

-- An interrupt with M set: a throwaway frame on the interrupt stack, a frame on the master stack.

/-- The SR of a throwaway frame brings RTE back to the master stack. -/
theorem makeFromSR_throwaway {regs : Regs} (later : cpu ≠ .mc68000) (super : regs.s = true)
    (interrupted : regs.m = false) (s : regs.sr.getLsbD 13 = true) (m : regs.sr.getLsbD 12 = true) :
    makeFromSR cpu regs = { regs.fromSR with isp := regs.a7 }.setA7 regs.msp := by
  have level : cpu.level ≥ 2 := level_pos later
  have new_s : regs.fromSR.s = true := s
  have new_m : regs.fromSR.m = true := m
  simp only [makeFromSR, if_pos level, super, interrupted, new_s, new_m]
  rfl

theorem isInterrupt_bounds (interrupt : isInterrupt nr = true) : 24 ≤ nr ∧ nr < 32 := by
  simpa [isInterrupt] using interrupt

theorem exception_throwaway (fault : Fault) (oldpc : BitVec 32) (later : cpu ≠ .mc68000) {e : Regs}
    (entered : enterSupervisor cpu (makeSR st.regs) = e) (master : e.m = true)
    (interrupt : isInterrupt nr = true) :
    exception cpu fault nr oldpc st =
      let below := pushFrame ⟨e, st.mem⟩ (vectorOffset nr) st.regs.pc e.sr
      enterHandler nr (pushFrame ⟨toInterruptStack below.regs, below.mem⟩
        (0x1000 + vectorOffset nr) st.regs.pc (below.regs.sr ||| 1#16 <<< 13)) := by
  obtain ⟨from24, to32⟩ := isInterrupt_bounds interrupt
  have level := level_pos later
  have first : ¬ (nr = 2 ∨ nr = 3) := by omega
  have second : ¬ (nr = 5 ∨ nr = 6 ∨ nr = 7 ∨ nr = 9) := by omega
  simp only [exception, entered, if_pos (show cpu.level > 0 by omega), pushFormat, if_neg first,
    if_neg second, master, interrupt, and_self, if_true]
  rfl

/-- Whether the SR and the format of the frame on the master stack stay what they were under the
throwaway frame, if MSP is `distance` bytes above ISP. -/
def MasterFrameKept (nr : Nat) (regs : Regs) (distance : Int) : Prop :=
  match distance with
  -- The frames are one, or each a byte or six bytes into the other: a format that is no longer 0,
  -- or an SR in which bits are set that no SR has.
  | 0 | 1 | 6 | -1 | -6 => False
  -- PC, format or vector for SR
  | 2 => regs.pc.extractLsb' 16 16 = regs.srValue
  | 3 => regs.pc.extractLsb' 8 16 = regs.srValue
  | 4 => regs.pc.extractLsb' 0 16 = regs.srValue
  | 5 => regs.pc.extractLsb' 0 8 ++ 0x10#8 = regs.srValue
  | 7 => BitVec.ofNat 8 (nr * 4) = regs.srValue.extractLsb' 8 8
  -- PC or SR for format
  | -2 => regs.pc.extractLsb' 12 4 = 0
  | -3 => regs.pc.extractLsb' 20 4 = 0
  | -4 => regs.pc.extractLsb' 28 4 = 0
  | -5 => regs.flags.x = false
  | _ => True

/-- Byte `i` of the frame on the master stack, with the throwaway frame written after it. -/
def masterByte (nr : Nat) (regs : Regs) (distance : BitVec 32) (i : Nat) : BitVec 8 :=
  let j := (distance + BitVec.ofNat 32 i).toNat
  if j < 8 then frameByte (regs.srValue ||| 1#16 <<< 13) regs.pc (0x1000 + vectorOffset nr) j
  else frameByte regs.srValue regs.pc (vectorOffset nr) i

theorem ordinary_format_iff (format : BitVec 16) :
    format &&& 0xf000 = 0 ↔ (format.extractLsb' 8 8).extractLsb' 4 4 = 0 := by
  constructor
  · intro ordinary
    apply BitVec.eq_of_getLsbD_eq
    intro i inside
    have bit := congrArg (BitVec.getLsbD · (12 + i)) ordinary
    obtain rfl | rfl | rfl | rfl : i = 0 ∨ i = 1 ∨ i = 2 ∨ i = 3 := by omega
    all_goals simpa using bit
  · intro clear
    have high (i : Nat) (nibble : i < 4) : format.getLsbD (12 + i) = false := by
      have bit := congrArg (BitVec.getLsbD · i) clear
      have inside : 4 + i < 8 := by omega
      simpa [nibble, inside, show 8 + (4 + i) = 12 + i by omega] using bit
    apply BitVec.eq_of_getLsbD_eq
    intro i inside
    rw [BitVec.getLsbD_and]
    by_cases low : i < 12
    · have unmasked : (0xf000#16).getLsbD i = false := by
        revert i
        decide
      rw [BitVec.ofNat_eq_ofNat, unmasked, Bool.and_false]
      simp
    · have bit := high (i - 12) (by omega)
      rw [show 12 + (i - 12) = i by omega] at bit
      rw [bit, Bool.false_and]
      simp

/-- The vector offset of an interrupt is a byte with its bits 5 and 6 set. -/
theorem interrupt_format (interrupt : isInterrupt nr = true) :
    (vectorOffset nr).extractLsb' 8 8 = 0 ∧
      (0x1000 + vectorOffset nr).extractLsb' 8 8 = 0x10 ∧
      (0x1000 + vectorOffset nr).extractLsb' 0 8 = BitVec.ofNat 8 (nr * 4) ∧
      (BitVec.ofNat 8 (nr * 4)).getLsbD 5 = true := by
  obtain ⟨from24, to32⟩ := isInterrupt_bounds interrupt
  have all : ∀ nr < 32, 24 ≤ nr → (vectorOffset nr).extractLsb' 8 8 = 0 ∧
      (0x1000 + vectorOffset nr).extractLsb' 8 8 = 0x10 ∧
      (0x1000 + vectorOffset nr).extractLsb' 0 8 = BitVec.ofNat 8 (nr * 4) ∧
      (BitVec.ofNat 8 (nr * 4)).getLsbD 5 = true := by decide
  exact all nr to32 from24

theorem extract_nibble (v : BitVec 32) (k : Nat) :
    (v.extractLsb' k 8).extractLsb' 4 4 = v.extractLsb' (k + 4) 4 := by
  apply BitVec.eq_of_getLsbD_eq
  intro i inside
  simp [inside, show 4 + i < 8 by omega, Nat.add_assoc]

theorem srValue_lowBits (regs : Regs) {i : Nat} (high : 5 ≤ i) (inside : i < 8) :
    regs.srValue.getLsbD i = false := by
  rw [srValue_getLsbD regs (by omega)]
  obtain rfl | rfl | rfl : i = 5 ∨ i = 6 ∨ i = 7 := by omega
  all_goals simp

theorem srValue_nibble (regs : Regs) :
    ((regs.srValue ||| 1#16 <<< 13).extractLsb' 0 8).extractLsb' 4 4 = 0 ↔
      regs.flags.x = false := by
  have x_bit : regs.srValue.getLsbD 4 = regs.flags.x := by
    rw [srValue_getLsbD regs (by decide)]
    simp
  constructor
  · intro clear
    rw [← x_bit]
    simpa using congrArg (BitVec.getLsbD · 0) clear
  · intro clear
    apply BitVec.eq_of_getLsbD_eq
    intro i inside
    have low : regs.srValue.getLsbD (4 + i) = false := by
      obtain rfl | later : i = 0 ∨ 1 ≤ i := by omega
      · exact x_bit.trans clear
      · exact srValue_lowBits regs (by omega) (by omega)
    obtain rfl | rfl | rfl | rfl : i = 0 ∨ i = 1 ∨ i = 2 ∨ i = 3 := by omega
    all_goals simpa using low

theorem masterByte_iff (interrupt : isInterrupt nr = true) (regs : Regs) (distance : BitVec 32) :
    (masterByte nr regs distance 0 ++ masterByte nr regs distance 1 = regs.srValue ∧
      (masterByte nr regs distance 6).extractLsb' 4 4 = 0) ↔
    MasterFrameKept nr regs distance.toInt := by
  obtain ⟨format_high, throwaway_high, throwaway_low, vector_bit⟩ := interrupt_format interrupt
  have vector_bit : ((0x1000 + vectorOffset nr).extractLsb' 0 8).getLsbD 5 = true := by
    rw [throwaway_low]
    exact vector_bit
  have super_bit : ((regs.srValue ||| 1#16 <<< 13).extractLsb' 8 8).getLsbD 5 = true := by simp
  have sr_bytes : regs.srValue.extractLsb' 8 8 ++ regs.srValue.extractLsb' 0 8 = regs.srValue :=
    BitVec.extractLsb'_append_extractLsb'
  -- What is read for the SR or the format, if the other one is read as it was.
  have sr_read {high low : BitVec 8} {bytes : BitVec 16} (read : high ++ low = bytes) :
      (high ++ low = regs.srValue ∧ ((vectorOffset nr).extractLsb' 8 8).extractLsb' 4 4 = 0) ↔
        bytes = regs.srValue := by
    rw [read, format_high]
    exact and_iff_left rfl
  have format_read {byte : BitVec 8} {nibble : BitVec 4} (read : byte.extractLsb' 4 4 = nibble) :
      (regs.srValue.extractLsb' 8 8 ++ regs.srValue.extractLsb' 0 8 = regs.srValue ∧
        byte.extractLsb' 4 4 = 0) ↔ nibble = 0 := by
    rw [read]
    exact and_iff_right sr_bytes
  have sr_lost {high low : BitVec 8} {kept : Prop} (set : low.getLsbD 5 = true) :
      (high ++ low = regs.srValue ∧ kept) ↔ False := by
    refine iff_false_intro fun both => ?_
    have low_byte := congrArg (BitVec.extractLsb' 0 8) both.1
    rw [BitVec.extractLsb'_append_eq_right] at low_byte
    rw [low_byte, BitVec.getLsbD_extractLsb'] at set
    exact Bool.false_ne_true ((srValue_lowBits regs (by decide) (by decide)).symm.trans set)
  have format_lost {byte : BitVec 8} {kept : Prop} (set : byte.getLsbD 5 = true) :
      (kept ∧ byte.extractLsb' 4 4 = 0) ↔ False := by
    refine iff_false_intro fun both => ?_
    have clear : byte.getLsbD 5 = false := by
      simpa using congrArg (BitVec.getLsbD · 1) both.2
    exact Bool.false_ne_true (clear.symm.trans set)
  unfold MasterFrameKept
  split
  case h_1 at_0 =>
    obtain rfl : distance = 0 := BitVec.eq_of_toInt_eq at_0
    change (_ ∧ ((0x1000 + vectorOffset nr).extractLsb' 8 8).extractLsb' 4 4 = 0) ↔ False
    rw [throwaway_high]
    exact iff_false_intro fun kept => by cases kept.2
  case h_2 at_1 =>
    obtain rfl : distance = 1 := BitVec.eq_of_toInt_eq at_1
    exact format_lost vector_bit
  case h_3 at_6 =>
    obtain rfl : distance = 6 := BitVec.eq_of_toInt_eq at_6
    exact sr_lost vector_bit
  case h_4 at_before_1 =>
    obtain rfl : distance = -1 := BitVec.eq_of_toInt_eq at_before_1
    exact sr_lost super_bit
  case h_5 at_before_6 =>
    obtain rfl : distance = -6 := BitVec.eq_of_toInt_eq at_before_6
    exact format_lost super_bit
  case h_6 at_2 =>
    obtain rfl : distance = 2 := BitVec.eq_of_toInt_eq at_2
    exact sr_read (BitVec.extractLsb'_append_extractLsb'_eq_extractLsb' (show 24 = 16 + 8 from rfl))
  case h_7 at_3 =>
    obtain rfl : distance = 3 := BitVec.eq_of_toInt_eq at_3
    exact sr_read (BitVec.extractLsb'_append_extractLsb'_eq_extractLsb' (show 16 = 8 + 8 from rfl))
  case h_8 at_4 =>
    obtain rfl : distance = 4 := BitVec.eq_of_toInt_eq at_4
    exact sr_read (BitVec.extractLsb'_append_extractLsb'_eq_extractLsb' (show 8 = 0 + 8 from rfl))
  case h_9 at_5 =>
    obtain rfl : distance = 5 := BitVec.eq_of_toInt_eq at_5
    exact sr_read (congrArg (regs.pc.extractLsb' 0 8 ++ ·) throwaway_high)
  case h_10 at_7 =>
    obtain rfl : distance = 7 := BitVec.eq_of_toInt_eq at_7
    refine (sr_read (congrArg (· ++ regs.srValue.extractLsb' 0 8) throwaway_low)).trans ?_
    constructor
    · intro same
      have high := congrArg (BitVec.extractLsb' 8 8) same
      rwa [BitVec.extractLsb'_append_eq_left] at high
    · intro same
      rw [same]
      exact sr_bytes
  case h_11 at_before_2 =>
    obtain rfl : distance = -2 := BitVec.eq_of_toInt_eq at_before_2
    exact format_read (extract_nibble regs.pc 8)
  case h_12 at_before_3 =>
    obtain rfl : distance = -3 := BitVec.eq_of_toInt_eq at_before_3
    exact format_read (extract_nibble regs.pc 16)
  case h_13 at_before_4 =>
    obtain rfl : distance = -4 := BitVec.eq_of_toInt_eq at_before_4
    exact format_read (extract_nibble regs.pc 24)
  case h_14 at_before_5 =>
    obtain rfl : distance = -5 := BitVec.eq_of_toInt_eq at_before_5
    exact (format_read rfl).trans (srValue_nibble regs)
  case h_15 =>
    simp only [imp_false] at *
    have value := BitVec.toInt_eq_toNat_cond distance
    have below := distance.isLt
    have outside (i : Nat) (read : i = 0 ∨ i = 1 ∨ i = 6) :
        ¬ (distance + BitVec.ofNat 32 i).toNat < 8 := by
      rw [BitVec.toNat_add, BitVec.toNat_ofNat]
      split at value <;> omega
    have first := outside 0 (by decide)
    have second := outside 1 (by decide)
    have seventh := outside 6 (by decide)
    simp only [masterByte, first, second, seventh, if_false, frameByte, format_high]
    exact iff_true_intro ⟨sr_bytes, rfl⟩

/-- Both frames of an interrupt on the master stack, and the registers under them. -/
theorem interrupt_frames (fault : Fault) (oldpc : BitVec 32) (later : cpu ≠ .mc68000) {e : Regs}
    (entered : enterSupervisor cpu (makeSR st.regs) = e) (sr : e.sr = st.regs.srValue)
    (master : e.m = true) (interrupt : isInterrupt nr = true) :
    ∃ framed, exception cpu fault nr oldpc st = enterHandler nr framed ∧
      framed.regs = (toInterruptStack (e.setA7 (e.a7 - 8))).setA7 (e.isp - 8) ∧
      FrameAt framed.mem (e.isp - 8) (st.regs.srValue ||| 1#16 <<< 13) st.regs.pc
        (0x1000 + vectorOffset nr) ∧
      ∀ i < 8, framed.mem (e.a7 - 8 + BitVec.ofNat 32 i) =
        masterByte nr st.regs (e.a7 - e.isp) i := by
  have offset (x : BitVec 32) : e.a7 - 8 + x - (e.isp - 8) = e.a7 - e.isp + x := by grind
  have address (x : BitVec 32) : e.isp - 8 + (e.a7 - e.isp + x) = e.a7 - 8 + x := by grind
  have taken := exception_throwaway fault oldpc later entered master interrupt
  have below_regs := pushFrame_regs ⟨e, st.mem⟩ (vectorOffset nr) st.regs.pc st.regs.srValue
  have below_frame := pushFrame_frameAt ⟨e, st.mem⟩ (vectorOffset nr) st.regs.pc st.regs.srValue
  rw [sr] at taken
  generalize pushFrame ⟨e, st.mem⟩ (vectorOffset nr) st.regs.pc st.regs.srValue = below
    at taken below_regs below_frame
  replace below_regs : below.regs = e.setA7 (e.a7 - 8) := below_regs
  obtain ⟨regs, mem⟩ := below
  subst below_regs
  have regs := pushFrame_regs ⟨toInterruptStack (e.setA7 (e.a7 - 8)), mem⟩
    (0x1000 + vectorOffset nr) st.regs.pc (e.sr ||| 1#16 <<< 13)
  have frame := pushFrame_frameAt ⟨toInterruptStack (e.setA7 (e.a7 - 8)), mem⟩
    (0x1000 + vectorOffset nr) st.regs.pc (e.sr ||| 1#16 <<< 13)
  have same (i : Nat) := pushFrame_sameBytes ⟨toInterruptStack (e.setA7 (e.a7 - 8)), mem⟩
    (0x1000 + vectorOffset nr) st.regs.pc (e.sr ||| 1#16 <<< 13)
    (b := e.a7 - 8 + BitVec.ofNat 32 i) (k := 1)
  have switched_a7 : (toInterruptStack (e.setA7 (e.a7 - 8))).a7 = e.isp := by
    rw [toInterruptStack, Regs.a7_setA7]
    rfl
  simp only [switched_a7] at regs frame same
  refine ⟨_, taken, regs, sr ▸ frame, fun i inside => ?_⟩
  rw [masterByte]
  dsimp only
  split
  next covered =>
    have byte := frame.byte covered
    rw [BitVec.ofNat_toNat, BitVec.setWidth_eq, address, sr] at byte
    rw [← byte, ← sr]
    rfl
  next clear =>
    have apart : Apart (e.isp - 8) 8 (e.a7 - 8 + BitVec.ofNat 32 i) 1 := by
      rw [Apart, offset]
      have := (e.a7 - e.isp + BitVec.ofNat 32 i).isLt
      omega
    have byte := same i apart 0 (by decide)
    rw [BitVec.add_zero] at byte
    exact byte.trans (below_frame.byte inside)

/-- An interrupt on the master stack leaves a frame there that RTE can take back. -/
def FramesKept (cpu : CPUType) (nr : Nat) (regs : Regs) : Prop :=
  regs.onMaster cpu = true → isInterrupt nr = true →
    MasterFrameKept nr regs ((regs.stackPointers cpu).msp - (regs.stackPointers cpu).isp).toInt

/-- RTE takes the throwaway frame off the interrupt stack and goes on on the master stack. -/
theorem throwaway_round (fault : Fault) (later : cpu ≠ .mc68000) (super : st.regs.s = true)
    (interrupted : st.regs.m = false) (frame : FrameAt st.mem st.regs.a7 sr pc format)
    (throwaway : format &&& 0xf000 = 0x1000) (s : sr.getLsbD 13 = true) (m : sr.getLsbD 12 = true) :
    ∃ regs, (∀ frames,
        rteLoop cpu fault (frames + 1) st = rteLoop cpu fault frames ⟨regs, st.mem⟩) ∧
      regs.s = true ∧ regs.m = true ∧ regs.a7 = st.regs.msp ∧ regs.isp = st.regs.a7 + 8 ∧
      regs.usp = st.regs.usp := by
  have round (frames : Nat) := rteLoop_frame cpu fault frames frame
  simp only [if_pos throwaway] at round
  have back : makeFromSR cpu { st.regs.setA7 (st.regs.a7 + 8) with sr } =
      ({ { st.regs.setA7 (st.regs.a7 + 8) with sr }.fromSR with isp := st.regs.a7 + 8 }).setA7
        st.regs.msp :=
    makeFromSR_throwaway later super interrupted s m
  refine ⟨_, round, ?_⟩
  rw [back]
  exact ⟨s, m, Regs.a7_setA7 _ _, rfl, rfl⟩

/-- The throwaway frame takes one round; the rounds behind it take the state back. -/
theorem rteUndoes_behind {fault : Fault} {oldpc : BitVec 32} {entered next : Machine}
    (taken : exception cpu fault nr oldpc st = entered) (later : cpu ≠ .mc68000)
    (super : entered.regs.s = true)
    (first_round : ∀ frames, rteLoop cpu fault (frames + 1) entered = rteLoop cpu fault frames next) :
    RteUndoes cpu fault nr oldpc st ↔
      ∃ frames, frames + 2 ≤ 2 ^ 28 ∧ ∃ after,
        rteLoop cpu fault (frames + 1) next = some after ∧ Restored cpu st.regs after.regs := by
  rw [RteUndoes, taken]
  simp only [rte_super fault _ later super]
  constructor
  · rintro ⟨frames, few, after, returned, restored⟩
    obtain _ | _ | frames := frames
    · cases returned
    · rw [first_round 0] at returned
      cases returned
    · rw [first_round (frames + 1)] at returned
      exact ⟨frames, few, after, returned, restored⟩
  · rintro ⟨frames, few, after, returned, restored⟩
    exact ⟨frames + 2, few, after, (first_round (frames + 1)).trans returned, restored⟩

/-- RTE takes an interrupt on the master stack back if its frame there survived. -/
theorem interrupt_undone_iff (fault : Fault) (oldpc : BitVec 32) (later : cpu ≠ .mc68000)
    (master : st.regs.m = true) (interrupt : isInterrupt nr = true) :
    RteUndoes cpu fault nr oldpc st ↔ FramesKept cpu nr st.regs := by
  obtain ⟨super, m, sr, _⟩ := enterSupervisor_fields cpu (makeSR st.regs)
  have pointers : (enterSupervisor cpu (makeSR st.regs)).stackPointers cpu =
      st.regs.stackPointers cpu := enterSupervisor_stackPointers cpu (makeSR st.regs)
  have level := level_pos later
  obtain ⟨from24, to32⟩ := isInterrupt_bounds interrupt
  obtain ⟨_, _, _, throwaway⟩ := frame_formats nr (by omega)
  generalize entered : enterSupervisor cpu (makeSR st.regs) = e at super m sr pointers
  have e_sr : e.sr = st.regs.srValue := sr
  have e_m : e.m = true := m.trans master
  have e_master : e.onMaster cpu = true := by simp [Regs.onMaster, e_m, level]
  obtain ⟨framed, taken, regs, above, below⟩ :=
    interrupt_frames fault oldpc later entered e_sr e_m interrupt
  have handler_a7 : (enterHandler nr framed).regs.a7 = e.isp - 8 := by simp [regs]
  have handler_super : (enterHandler nr framed).regs.s = true := by
    simp [regs, toInterruptStack, super]
  have handler_msp : (enterHandler nr framed).regs.msp = e.a7 - 8 := by
    simp [regs, toInterruptStack]
  have handler_usp : (enterHandler nr framed).regs.usp = e.usp := by
    simp [regs, toInterruptStack]
  have oldsr_s : (st.regs.srValue ||| 1#16 <<< 13).getLsbD 13 = true := by simp
  have oldsr_m : (st.regs.srValue ||| 1#16 <<< 13).getLsbD 12 = true := by
    rw [BitVec.getLsbD_or, srValue_getLsbD _ (by decide)]
    simp [master]
  have throwaway_frame : FrameAt (enterHandler nr framed).mem (enterHandler nr framed).regs.a7
      (st.regs.srValue ||| 1#16 <<< 13) st.regs.pc (0x1000 + vectorOffset nr) := by
    rw [handler_a7]
    exact above
  -- The first round leaves the frame on the master stack, as the throwaway frame left it.
  obtain ⟨next, first_round, next_s, next_m, next_a7, next_isp, next_usp⟩ :
      ∃ next : Regs, (∀ frames, rteLoop cpu fault (frames + 1) (enterHandler nr framed) =
        rteLoop cpu fault frames ⟨next, framed.mem⟩) ∧ next.s = true ∧ next.m = true ∧
        next.a7 = e.a7 - 8 ∧ next.isp = e.isp - 8 + 8 ∧ next.usp = e.usp := by
    rw [← handler_msp, ← handler_a7, ← handler_usp]
    exact throwaway_round fault later handler_super rfl throwaway_frame throwaway oldsr_s oldsr_m
  have back : (next.setA7 (next.a7 + 8)).stackPointers cpu = st.regs.stackPointers cpu := by
    rw [← pointers]
    have next_master : (next.setA7 (next.a7 + 8)).onMaster cpu = true := by
      simp [Regs.onMaster, level, Regs.setA7, Regs.setAreg, next_m]
    have isp : (next.setA7 (next.a7 + 8)).isp = e.isp := by
      rw [Regs.setA7_isp, next_isp]
      grind
    have a7 : (next.setA7 (next.a7 + 8)).a7 = e.a7 := by
      rw [Regs.a7_setA7, next_a7]
      grind
    simp only [Regs.stackPointers, next_master, e_master, isp, a7, super, Regs.setA7_s, next_s,
      Regs.setA7_usp, next_usp]
    simp
  have last := lastFrame_restores_iff fault ⟨next, framed.mem⟩ master ⟨rfl, rfl, rfl⟩ back
  have distance : (st.regs.stackPointers cpu).msp - (st.regs.stackPointers cpu).isp =
      e.a7 - e.isp := by
    rw [← pointers]
    simp [Regs.stackPointers, super, e_master]
  have kept : FramesKept cpu nr st.regs ↔ MasterFrameKept nr st.regs (e.a7 - e.isp).toInt := by
    rw [FramesKept, distance]
    simp [Regs.onMaster, master, level, interrupt]
  have seventh_byte := below 6 (by decide)
  rw [← next_a7] at seventh_byte
  have sr_word : getWord framed.mem next.a7 =
      masterByte nr st.regs (e.a7 - e.isp) 0 ++ masterByte nr st.regs (e.a7 - e.isp) 1 := by
    rw [← below 0 (by decide), ← below 1 (by decide), next_a7, BitVec.add_zero]
    rfl
  have format_high : (getWord framed.mem (next.a7 + 6)).extractLsb' 8 8 =
      masterByte nr st.regs (e.a7 - e.isp) 6 :=
    (getWord_bytes framed.mem (next.a7 + 6)).1.trans seventh_byte
  rw [rteUndoes_behind taken later handler_super first_round, last, kept,
    ← masterByte_iff interrupt, ordinary_format_iff, format_high, sr_word]

-- The 68000: PC and SR alone, or the long frame of an address error, which RTE does not know.

theorem exception_68000 (fault : Fault) (nr : Nat) (oldpc : BitVec 32) {e : Regs}
    (entered : enterSupervisor .mc68000 (makeSR st.regs) = e) :
    ∃ framed size, exception .mc68000 fault nr oldpc st = enterHandler nr framed ∧
      size = (if nr = 2 ∨ nr = 3 then 14 else 6) ∧
      framed.regs = e.setA7 (e.a7 - size) ∧ getWord framed.mem (e.a7 - size) = e.sr := by
  have first : ¬ CPUType.mc68000.level > 0 := by decide
  simp only [exception, entered, if_neg first]
  split
  · refine ⟨_, 14, rfl, rfl, ?_, ?_⟩
    · simp only [Machine.pushWord, pushFault, Regs.a7_setA7, Regs.setA7_setA7]
      exact congrArg e.setA7 (by grind)
    · have size : e.a7 - 12 - 2 = e.a7 - 14 := by grind
      simp only [Machine.pushWord, pushFault, Regs.a7_setA7, size]
      exact getWord_putWord (by decide) _ _ _
  · refine ⟨_, 6, rfl, rfl, ?_, ?_⟩
    · simp only [Machine.pushWord, Machine.pushLong, Regs.a7_setA7, Regs.setA7_setA7]
      exact congrArg e.setA7 (by grind)
    · have size : e.a7 - 4 - 2 = e.a7 - 6 := by grind
      simp only [Machine.pushWord, Machine.pushLong, Regs.a7_setA7, size]
      exact getWord_putWord (by decide) _ _ _

theorem rte_68000 (fault : Fault) {before : Regs} (super : st.regs.s = true)
    (sr : getWord st.mem st.regs.a7 = before.srValue) :
    ∃ after, (∀ fuel, rte .mc68000 fault fuel st = some after) ∧
      after.regs.status = (makeSR before).status ∧
      after.regs.stackPointers .mc68000 =
        (st.regs.setA7 (st.regs.a7 + 6)).stackPointers .mc68000 := by
  have behind : st.regs.a7 + 2 + 4 = st.regs.a7 + 6 := by grind
  obtain ⟨popped, popped_def⟩ : ∃ popped : Regs, popped =
      { st.regs.setA7 (st.regs.a7 + 6) with pc := getLong st.mem (st.regs.a7 + 2) } := ⟨_, rfl⟩
  have same_pointers : popped.stackPointers .mc68000 =
      (st.regs.setA7 (st.regs.a7 + 6)).stackPointers .mc68000 := by
    rw [popped_def]
    rfl
  refine ⟨⟨makeFromSR .mc68000 { popped with sr := before.srValue }, st.mem⟩, fun fuel => ?_,
    setSR_status _ before popped, (setSR_stackPointers _ popped _).trans same_pointers⟩
  rw [popped_def]
  simp only [rte, super, Bool.not_true, Bool.false_eq_true, if_false, CPUType.level, if_true,
    Machine.popWord, Machine.popLong, Machine.setSR, Regs.a7_setA7, Regs.setA7_setA7, sr, behind]

theorem mc68000_undone_iff (fault : Fault) (nr : Nat) (oldpc : BitVec 32) (st : Machine) :
    RteUndoes .mc68000 fault nr oldpc st ↔ ¬ (nr = 2 ∨ nr = 3) := by
  obtain ⟨super, _, sr, _⟩ := enterSupervisor_fields .mc68000 (makeSR st.regs)
  have pointers : (enterSupervisor .mc68000 (makeSR st.regs)).stackPointers .mc68000 =
      st.regs.stackPointers .mc68000 := enterSupervisor_stackPointers .mc68000 (makeSR st.regs)
  generalize entered : enterSupervisor .mc68000 (makeSR st.regs) = e at super sr pointers
  obtain ⟨framed, size, taken, size_eq, regs, frame⟩ := exception_68000 fault nr oldpc entered
  have handler_a7 : (enterHandler nr framed).regs.a7 = e.a7 - size := by simp [regs]
  have handler_super : (enterHandler nr framed).regs.s = true := by simp [regs, super]
  have handler_sr : getWord (enterHandler nr framed).mem (enterHandler nr framed).regs.a7 =
      st.regs.srValue := by
    rw [handler_a7]
    exact frame.trans sr
  obtain ⟨after, ended, status, back⟩ := rte_68000 fault handler_super handler_sr
  rw [handler_a7] at back
  have back_pointers : after.regs.stackPointers .mc68000 =
      { st.regs.stackPointers .mc68000 with isp := e.a7 - size + 6 } := by
    rw [back, ← pointers]
    simp [Regs.stackPointers, Regs.onMaster, CPUType.level, super, regs]
  have interrupt_stack : (st.regs.stackPointers .mc68000).isp = e.a7 := by
    rw [← pointers]
    simp [Regs.stackPointers, Regs.onMaster, CPUType.level, super]
  have undone : after.regs.stackPointers .mc68000 = st.regs.stackPointers .mc68000 ↔
      e.a7 - size + 6 = e.a7 := by
    rw [back_pointers, ← interrupt_stack]
    constructor
    · intro same
      exact congrArg StackPointers.isp same
    · intro same
      rw [same]
  have right_size : e.a7 - size + 6 = e.a7 ↔ ¬ (nr = 2 ∨ nr = 3) := by
    rw [size_eq]
    split <;> rename_i group <;> simp only [group, not_true, not_false_eq_true, iff_true, iff_false]
    all_goals bv_omega
  rw [← right_size, ← undone]
  constructor
  · rintro ⟨frames, -, final, returned, restored⟩
    rw [taken, ended frames, Option.some.injEq] at returned
    rw [returned]
    exact restored.stackPointers
  · intro same
    exact ⟨0, by decide, after, by rw [taken, ended 0], status, same⟩

/-- What the frames are for: RTE takes back what the exception did, and M survives all but
interrupts. -/
structure ExceptionInverse (cpu : CPUType) (fault : Fault) (nr : Nat) (oldpc : BitVec 32)
    (st : Machine) : Prop where
  undone : RteUndoes cpu fault nr oldpc st
  masterKept : isInterrupt nr = false → (exception cpu fault nr oldpc st).regs.m = st.regs.m

/-- M is clear or a throwaway frame saves it, and the frame is one RTE knows. -/
def KnownFrame (cpu : CPUType) (nr : Nat) (regs : Regs) : Prop :=
  (regs.m = true → isInterrupt nr = true) ∧ ¬ (cpu = .mc68000 ∧ (nr = 2 ∨ nr = 3))

theorem ExceptionInverse.knownFrame {fault : Fault} {oldpc : BitVec 32}
    (inverse : ExceptionInverse cpu fault nr oldpc st) : KnownFrame cpu nr st.regs := by
  constructor
  · intro master
    cases ordinary : isInterrupt nr with
    | true => rfl
    | false =>
      have kept : false = st.regs.m := inverse.masterKept ordinary
      rw [master] at kept
      cases kept
  · rintro ⟨rfl, group0⟩
    exact (mc68000_undone_iff fault nr oldpc st).mp inverse.undone group0

theorem KnownFrame.undone (fault : Fault) (vector : nr < 256) (oldpc : BitVec 32)
    (known : KnownFrame cpu nr st.regs) (kept : FramesKept cpu nr st.regs) :
    RteUndoes cpu fault nr oldpc st := by
  by_cases old : cpu = .mc68000
  · subst old
    exact (mc68000_undone_iff fault nr oldpc st).mpr fun group0 => known.2 ⟨rfl, group0⟩
  · cases master : st.regs.m with
    | false => exact ordinary_undone fault vector oldpc old master
    | true => exact (interrupt_undone_iff fault oldpc old master (known.1 master)).mpr kept

theorem ExceptionInverse.framesKept {fault : Fault} {oldpc : BitVec 32}
    (inverse : ExceptionInverse cpu fault nr oldpc st) : FramesKept cpu nr st.regs := by
  intro on_master interrupt
  obtain ⟨master, level⟩ : st.regs.m = true ∧ 2 ≤ cpu.level := by
    simpa [Regs.onMaster] using on_master
  have later : cpu ≠ .mc68000 := by
    rintro rfl
    exact absurd level (by decide)
  exact (interrupt_undone_iff fault oldpc later master interrupt).mp inverse.undone on_master
    interrupt

/-- `MakeFromSR` keeps the stack pointers in every state. RTE undoes an exception if M is clear or
saved in a throwaway frame that spares the frame on the master stack, and otherwise never. -/
theorem exception_undone_iff (cpu : CPUType) (fault : Fault) {nr : Nat} (vector : nr < 256)
    (oldpc : BitVec 32) (st : Machine) :
    (∀ regs, (makeFromSR cpu regs).stackPointers cpu = regs.stackPointers cpu) ∧
      (ExceptionInverse cpu fault nr oldpc st ↔
        KnownFrame cpu nr st.regs ∧ FramesKept cpu nr st.regs) := by
  refine ⟨makeFromSR_stackPointers cpu, ?_⟩
  constructor
  · intro inverse
    exact ⟨inverse.knownFrame, inverse.framesKept⟩
  · rintro ⟨known, kept⟩
    refine ⟨known.undone fault vector oldpc kept, fun ordinary => ?_⟩
    cases master : st.regs.m with
    | false => rfl
    | true =>
      rw [known.1 master] at ordinary
      cases ordinary

/-- A guest on its master stack at 0x2000, with the interrupt stack at 0x1000. -/
def onMasterStack : Machine where
  regs :=
    { dreg := fun _ => 0, areg := fun _ => 0x2000, pc := 0x100, intmask := 0, vbr := 0, usp := 0,
      isp := 0x1000, msp := 0, sr := 0, t1 := false, t0 := false, s := true, m := true,
      flags := ⟨false, false, false, false, false⟩ }
  mem := fun _ => 0

theorem level1_interrupt_undone : ExceptionInverse .mc68020 ⟨0, 0, 0⟩ 25 0 onMasterStack := by
  have known : KnownFrame .mc68020 25 onMasterStack.regs := by
    constructor
    · intro _
      decide
    · rintro ⟨_, group0⟩
      revert group0
      decide
  have kept : FramesKept .mc68020 25 onMasterStack.regs := by
    intro _ _
    trivial
  exact (exception_undone_iff .mc68020 ⟨0, 0, 0⟩ (by decide) 0 onMasterStack).2.mpr ⟨known, kept⟩

/-- TRAP #0 on the master stack: M is lost, and RTE returns with ISP and MSP wrong. -/
theorem trap_on_master_not_undone :
    ¬ RteUndoes .mc68020 ⟨0, 0, 0⟩ 32 0 onMasterStack ∧ isInterrupt 32 = false ∧
      (exception .mc68020 ⟨0, 0, 0⟩ 32 0 onMasterStack).regs.m ≠ onMasterStack.regs.m := by
  refine ⟨?_, rfl, by decide⟩
  rw [ordinary_on_master_undone_iff ⟨0, 0, 0⟩ (by decide) 0 (by decide) rfl rfl]
  decide

end BasiliskII.Cpu
