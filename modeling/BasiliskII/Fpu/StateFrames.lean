import BasiliskII.Fpu.FmovemRoundTrip
import BasiliskII.Fpu.StatusRegister
import BasiliskII.Library.ByteMemory

/-!
# State frames of the FPU

`fpuop_save` and `fpuop_restore` of fpu_soft.cpp. The frame saved is always an idle frame of
the CPU type; what is restored is skipped, by the size its format word gives.
-/
namespace BasiliskII.Fpu

open ByteMemory Cpu

structure FpuMachine where
  regs : Regs
  fpu : FpuState
  mem : Memory 32

/-- `incr < 0` -/
def Instruction.predecrement (i : Instruction) : Bool := i.opcode &&& 0x38 = 0x20

def zerosDown : Nat → BitVec 32 × Memory 32 → BitVec 32 × Memory 32
  | 0, at_end => at_end
  | n + 1, (ad, mem) => zerosDown n (ad - 4, putLong mem (ad - 4) 0)

def zerosUp : Nat → BitVec 32 × Memory 32 → BitVec 32 × Memory 32
  | 0, at_end => at_end
  | n + 1, (ad, mem) => zerosUp n (ad + 4, putLong mem ad 0)

def saveFrame (cpuType : Nat) (down : Bool) (ad : BitVec 32) (mem : Memory 32) :
    BitVec 32 × Memory 32 :=
  if cpuType = 4 then
    -- Put 4 byte 68040 IDLE frame.
    if down then
      let ad := ad - 4
      (ad, putLong mem ad 0x41000000)
    else (ad + 4, putLong mem ad 0x41000000)
  else
    -- Put 28 byte 68881 IDLE frame.
    if down then
      let ad := ad - 4
      let mem := putLong mem ad 0x70000000
      let (ad, mem) := zerosDown 5 (ad, mem)
      let ad := ad - 4
      (ad, putLong mem ad 0x1f180000)
    else
      let mem := putLong mem ad 0x1f180000
      let (ad, mem) := zerosUp 5 (ad + 4, mem)
      (ad + 4, putLong mem ad 0x70000000)

/-- `fpuop_save`; `none` when it is illegal. -/
def fpuopSave (cpuType : Nat) (i : Instruction) (m : FpuMachine) : Option FpuMachine := do
  let ad ← getFpAd i m.regs
  let (ad, mem) := saveFrame cpuType i.predecrement ad m.mem
  some { m with regs := updateAreg i m.regs ad, mem }

/-- The bytes of a frame behind its first long, from that long. -/
def frameRest (cpuType : Nat) (d : BitVec 32) : BitVec 32 :=
  if d &&& 0xff000000 = 0 then 0
  else if cpuType = 4 then
    if d &&& 0x00ff0000 = 0 then 0
    else if d &&& 0x00ff0000 = 0x00300000 then 0x30
    else if d &&& 0x00ff0000 = 0x00600000 then 0x60
    else 0
  else
    if d &&& 0x00ff0000 = 0x00180000 then 0x18
    else if d &&& 0x00ff0000 = 0x00380000 then 0x38
    else if d &&& 0x00ff0000 = 0x00b40000 then 0xb4
    else if d &&& 0x00ff0000 = 0x00d40000 then 0xd4
    else 0

def restoreFrame (cpuType : Nat) (down : Bool) (ad : BitVec 32) (mem : Memory 32) : BitVec 32 :=
  if down then
    let ad := ad - 4
    ad - frameRest cpuType (getLong mem ad)
  else
    let d := getLong mem ad
    ad + 4 + frameRest cpuType d

/-- `fpuop_restore`; `none` when it is illegal. -/
def fpuopRestore (cpuType : Nat) (i : Instruction) (m : FpuMachine) : Option FpuMachine := do
  let ad ← getFpAd i m.regs
  let ad := restoreFrame cpuType i.predecrement ad m.mem
  some { m with regs := updateAreg i m.regs ad }

/-! ### Frames as blocks of longs -/

/-- The idle frame, from its format word on. -/
def idleFrame (cpuType : Nat) : List (BitVec 32) :=
  if cpuType = 4 then [0x41000000] else [0x1f180000, 0, 0, 0, 0, 0, 0x70000000]

/-- The size of a list of longs. -/
def longsSize (vs : List (BitVec 32)) : BitVec 32 := BitVec.ofNat 32 (4 * vs.length)

theorem saveFrame_down (cpuType : Nat) (ad : BitVec 32) (mem : Memory 32) :
    saveFrame cpuType true ad mem =
      (ad - longsSize (idleFrame cpuType),
        putLongs mem (ad - longsSize (idleFrame cpuType)) (idleFrame cpuType)) := by
  unfold saveFrame idleFrame
  split
  · rfl
  · have pushed := pushLongs_eq mem ad [0x70000000, 0, 0, 0, 0, 0, 0x1f180000] (by decide)
    have bottom : ad - 4 - 4 - 4 - 4 - 4 - 4 - 4 =
        ad - longsSize [0x1f180000, 0, 0, 0, 0, 0, 0x70000000] := by
      rw [show longsSize [0x1f180000, 0, 0, 0, 0, 0, 0x70000000] = 28 from rfl]
      bv_omega
    exact Prod.ext bottom pushed

/-- The format word has the size of the idle frame. -/
theorem frameRest_idle (cpuType : Nat) :
    4 + frameRest cpuType ((idleFrame cpuType).headD 0) = longsSize (idleFrame cpuType) := by
  unfold frameRest idleFrame
  by_cases m68040 : cpuType = 4
  · simp only [if_pos m68040]
    rfl
  · simp only [if_neg m68040]
    rfl

theorem idleFrame_head (cpuType : Nat) (mem : Memory 32) (ad : BitVec 32) :
    getLong (putLongs mem ad (idleFrame cpuType)) ad = (idleFrame cpuType).headD 0 := by
  unfold idleFrame
  split
  · have first := getLong_putLongs (by decide) mem ad [0x41000000] (by decide) Nat.zero_lt_one
    rwa [longAt_zero] at first
  · have first := getLong_putLongs (by decide) mem ad [0x1f180000, 0, 0, 0, 0, 0, 0x70000000]
      (by decide) (i := 0) (by decide)
    rwa [longAt_zero] at first

/-! ### Saving and restoring -/

/-- An instruction with `-(An)` and one with `(An)+`. -/
structure StackPair (down up : Instruction) : Prop where
  predecrement : down.mode = 4
  postincrement : up.mode = 3
  same_reg : up.reg = down.reg

theorem predecrement_iff (i : Instruction) : i.predecrement = true ↔ i.mode = 4 := by
  have shifted : ∀ mode : BitVec 3, mode.setWidth 16 <<< 3 = (0x20 : BitVec 16) ↔ mode = 4 := by
    decide
  rw [Instruction.predecrement, decide_eq_true_iff, mode_bits]
  exact shifted i.mode

variable {down up : Instruction}

theorem StackPair.address (pair : StackPair down up) (regs : Regs) :
    getFpAd down regs = some (regs.areg down.reg) ∧ getFpAd up regs = some (regs.areg down.reg) := by
  constructor
  · rw [getFpAd, pair.predecrement]
    rfl
  · rw [getFpAd, pair.postincrement, pair.same_reg]
    rfl

theorem StackPair.update (pair : StackPair down up) (regs : Regs) (ad : BitVec 32) :
    updateAreg down regs ad = regs.setAreg down.reg ad ∧
      updateAreg up regs ad = regs.setAreg down.reg ad := by
  constructor
  · rw [updateAreg_eq, if_pos (.inr pair.predecrement)]
  · rw [updateAreg_eq, if_pos (.inl pair.postincrement), pair.same_reg]

theorem StackPair.directions (pair : StackPair down up) :
    down.predecrement = true ∧ up.predecrement = false := by
  refine ⟨(predecrement_iff down).mpr pair.predecrement, ?_⟩
  rw [← Bool.not_eq_true, predecrement_iff, pair.postincrement]
  decide

/-- Saving puts the frame below `An`; restoring reads past it and leaves all as it was but memory. -/
structure FrameRoundTrip (cpuType : Nat) (down up : Instruction) (m saved restored : FpuMachine) :
    Prop where
  save : fpuopSave cpuType down m = some saved
  restore : fpuopRestore cpuType up saved = some restored
  written : saved.mem = putLongs m.mem (saved.regs.areg down.reg) (idleFrame cpuType)
  consumed : restored.regs.areg down.reg = saved.regs.areg down.reg + longsSize (idleFrame cpuType)
  regs : restored.regs = m.regs
  fpu : restored.fpu = m.fpu
  mem : restored.mem = saved.mem

theorem frame_round_trip (pair : StackPair down up) (cpuType : Nat) (m : FpuMachine) :
    ∃ saved restored, FrameRoundTrip cpuType down up m saved restored := by
  obtain ⟨going_down, going_up⟩ := pair.directions
  let bottom := m.regs.areg down.reg - longsSize (idleFrame cpuType)
  let saved : FpuMachine := { m with
    regs := m.regs.setAreg down.reg bottom
    mem := putLongs m.mem bottom (idleFrame cpuType) }
  have top : bottom + longsSize (idleFrame cpuType) = m.regs.areg down.reg :=
    BitVec.sub_add_cancel ..
  have save : fpuopSave cpuType down m = some saved := by
    simp only [fpuopSave, (pair.address m.regs).1, going_down, saveFrame_down,
      (pair.update _ _).1, Option.bind_eq_bind, Option.bind_some]
    rfl
  have restore : fpuopRestore cpuType up saved = some { saved with regs := m.regs } := by
    have skipped : restoreFrame cpuType false bottom saved.mem = m.regs.areg down.reg := by
      rw [← top, ← frameRest_idle, ← idleFrame_head cpuType m.mem bottom, ← BitVec.add_assoc]
      rfl
    have at_bottom : saved.regs.areg down.reg = bottom := Regs.setAreg_same ..
    simp only [fpuopRestore, (pair.address saved.regs).2, at_bottom, going_up, skipped,
      (pair.update _ _).2, Option.bind_eq_bind, Option.bind_some]
    rw [Regs.setAreg_setAreg, Regs.setAreg_self]
  have at_bottom : saved.regs.areg down.reg = bottom := Regs.setAreg_same ..
  exact ⟨saved, _, save, restore, at_bottom ▸ rfl, at_bottom ▸ top.symm, rfl, rfl, rfl⟩

end BasiliskII.Fpu
