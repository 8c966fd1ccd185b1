import BasiliskII.Cpu.StackPointers
import BasiliskII.Cpu.LongDivision

/-!
# RTE of an unknown frame format

RTE looks at the format of a frame after it has taken the frame off the stack.
Exception 14 then stacks its own frame over the frame in question or, when a
throwaway frame has left supervisor state, somewhere else with another SR.
-/
namespace BasiliskII.Cpu

open ByteMemory

/-- The format word of the frame at A7. -/
def frameFormat (st : Machine) : BitVec 16 := getWord st.mem (st.regs.a7 + 6)

/-- SR, PC and format word are off the stack. -/
def popFrame (st : Machine) : Machine := { st with regs := st.regs.setA7 (st.regs.a7 + 8) }

/-- The machine at the frame whose format RTE does not know, if it comes to one. -/
def badFrame (cpu : CPUType) : Nat → Machine → Option Machine
  | 0, _ => none
  | fuel + 1, st =>
    if frameFormat st &&& 0xf000 = 0x1000 then
      badFrame cpu fuel ((popFrame st).setSR cpu (getWord st.mem st.regs.a7))
    else if frameRest (frameFormat st) = none then some st
    else none

/-- Exception 14 finds SR and A7 as RTE found them, and leaves the frame as it was. -/
structure RteAtomic (before bad after : Machine) : Prop where
  sr : (popFrame bad).regs.srValue = before.regs.srValue
  a7 : (popFrame bad).regs.a7 = before.regs.a7
  frame : SameBytes before.mem after.mem bad.regs.a7 8

theorem frameAt_a7 (st : Machine) :
    FrameAt st.mem st.regs.a7 (getWord st.mem st.regs.a7) (getLong st.mem (st.regs.a7 + 2))
      (frameFormat st) :=
  ⟨rfl, rfl, rfl⟩

/-- By induction on the frames: throwaway frames change registers only. -/
theorem rteLoop_badFrame (cpu : CPUType) (fault : Fault) {fuel : Nat} {st bad : Machine}
    (unknown : badFrame cpu fuel st = some bad) :
    rteLoop cpu fault fuel st = some (exception cpu fault 14 0 (popFrame bad)) ∧
      bad.mem = st.mem ∧ frameRest (frameFormat bad) = none := by
  induction fuel generalizing st with
  | zero => contradiction
  | succ fuel ih =>
    rw [badFrame] at unknown
    rw [rteLoop_frame cpu fault fuel (frameAt_a7 st)]
    split at unknown
    next throwaway =>
      rw [if_pos throwaway]
      exact ih unknown
    next last =>
      rw [if_neg last]
      split at unknown
      next none_known =>
        cases unknown
        refine ⟨?_, rfl, none_known⟩
        rw [none_known]
        rfl
      · contradiction

/-- In supervisor state exception 14 puts a short frame with its own vector where A7 comes to. -/
theorem formatError_frameAt {cpu : CPUType} (fault : Fault) (later : cpu ≠ .mc68000) (st : Machine)
    (super : st.regs.s = true) :
    FrameAt (exception cpu fault 14 0 st).mem (st.regs.a7 - 8) st.regs.srValue st.regs.pc
      0x0038 := by
  have entered : enterSupervisor cpu (makeSR st.regs) = makeSR st.regs := if_pos super
  have short : pushFormat 14 0 st.regs.pc ⟨enterSupervisor cpu (makeSR st.regs), st.mem⟩ =
      (⟨makeSR st.regs, st.mem⟩ : Machine).pushWord 0x0038 := by
    rw [entered]
    simp [pushFormat, isInterrupt, vectorOffset]
  rw [exception_pushFrame later fault short rfl]
  exact pushFrame_frameAt ⟨makeSR st.regs, st.mem⟩ 0x0038 st.regs.pc st.regs.srValue

/-- The frame RTE gives up at is overwritten, unless supervisor state has been left. -/
theorem badFrame_overwritten {cpu : CPUType} (fault : Fault) (later : cpu ≠ .mc68000)
    {bad : Machine} (super : bad.regs.s = true) (unknown : frameRest (frameFormat bad) = none) :
    ¬ SameBytes bad.mem (exception cpu fault 14 0 (popFrame bad)).mem bad.regs.a7 8 := by
  intro same
  have frame := formatError_frameAt fault later (popFrame bad) super
  have back : (popFrame bad).regs.a7 - 8 = bad.regs.a7 := by
    rw [popFrame, Regs.a7_setA7]
    grind
  rw [back] at frame
  have kept := ((frameAt_a7 bad).congr same).format
  rw [frame.format] at kept
  rw [← kept] at unknown
  exact absurd unknown (by decide)

/-- RTE of an unknown format is never atomic, however many throwaway frames come first. -/
theorem rte_badFrame_not_atomic {cpu : CPUType} (fault : Fault) (later : cpu ≠ .mc68000)
    {fuel : Nat} {st bad : Machine} (super : st.regs.s = true)
    (unknown : badFrame cpu fuel st = some bad) :
    ∃ after, rte cpu fault fuel st = some after ∧ ¬ RteAtomic st bad after := by
  obtain ⟨raised, mem, format⟩ := rteLoop_badFrame cpu fault unknown
  refine ⟨_, (rte_super fault fuel later super).trans raised, fun atomic => ?_⟩
  -- The same SR is a supervisor's.
  have bit := congrArg (BitVec.getLsbD · 13) atomic.sr
  simp (disch := decide) only [srValue_getLsbD] at bit
  have bad_super : bad.regs.s = true := by
    simpa [super, popFrame] using bit
  apply badFrame_overwritten fault later bad_super format
  rw [mem]
  exact atomic.frame

/-- A supervisor whose memory holds format words of the kind 4 throughout. -/
def formatFour : Machine := ⟨{ zeroRegs with s := true }, fun _ => 0x40⟩

theorem formatFour_not_atomic :
    CPUType.mc68020 ≠ .mc68000 ∧ formatFour.regs.s = true ∧
      badFrame .mc68020 1 formatFour = some formatFour ∧
      ∃ after, rte .mc68020 ⟨0, 0, 0⟩ 1 formatFour = some after ∧
        ¬ RteAtomic formatFour formatFour after :=
  ⟨by decide, rfl, rfl, rte_badFrame_not_atomic ⟨0, 0, 0⟩ (by decide) rfl rfl⟩

/-- A7 is already past the frame when exception 14 is raised. -/
theorem rte_format_error_moves_a7 :
    ¬ ∀ (cpu : CPUType) (fault : Fault) (fuel : Nat) (st bad : Machine), cpu ≠ .mc68000 →
      st.regs.s = true → badFrame cpu fuel st = some bad →
      ∃ after, rte cpu fault fuel st = some after ∧ RteAtomic st bad after := by
  intro atomic
  obtain ⟨after, -, kept⟩ :=
    atomic .mc68020 ⟨0, 0, 0⟩ 1 formatFour formatFour (by decide) rfl rfl
  exact absurd kept.a7 (by decide)

end BasiliskII.Cpu
