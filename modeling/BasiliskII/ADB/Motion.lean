import BasiliskII.ADB.Mouse
import BasiliskII.Library.StepSystem
import Mathlib.Algebra.Group.Prod
import Mathlib.Algebra.Group.Int.Defs

/-!
# Motion of the relative mouse

In relative mode the motion the guest has read from the packets and the motion
still accumulated add up to the motion passed to `ADBMouseMoved`, as long as no
sum overflows an `int` and each interrupt finds no more motion than its packet
has room for.
-/
namespace BasiliskII.ADB

open SignedWidth StepSystem

/-- The mouse with the sums of the motion passed to `ADBMouseMoved` and read by the guest. -/
structure MotionRun where
  mouse : Mouse
  passed : Int × Int
  decoded : Int × Int

inductive MotionAction where
  | moved (x y : BitVec 32)
  | button (button : Button) (down : Bool)
  /-- The guest sets register 3, and with it the handler, through `ADBOp`. -/
  | listen (reg3 : BitVec 8 × BitVec 8)
  | interrupt (adbBase : BitVec 32)

def Mouse.motion (m : Mouse) : Int × Int := (m.mouseX.toInt, m.mouseY.toInt)

def motionStep (s : MotionRun) : MotionAction → Option MotionRun
  | .moved x y =>
    some
      { s with
        mouse := adbMouseMoved s.mouse x y
        passed := s.passed + (x.toInt, y.toInt) }
  | .button button down => some { s with mouse := s.mouse.setButton button down }
  | .listen reg3 => some { s with mouse := { s.mouse with mouseReg3 := reg3 } }
  | .interrupt adbBase =>
    some
      { s with
        mouse := (mouseInterrupt s.mouse adbBase).1
        decoded := s.decoded + ((mouseInterrupt s.mouse adbBase).2.map MouseOutput.motion).sum }

def MotionRun.start : MotionRun := ⟨adbSetRelMouseMode .initial true, 0, 0⟩

def Conserved (s : MotionRun) : Prop := s.decoded + s.mouse.motion = s.passed

instance (s : MotionRun) : Decidable (Conserved s) := inferInstanceAs (Decidable (_ = _))

/-- Sums fit in an `int`, and what an interrupt takes fits in its packet. -/
def InRange (s : MotionRun) : MotionAction → Prop
  | .moved x y =>
    Fits 32 (s.mouse.mouseX.toInt + x.toInt) ∧ Fits 32 (s.mouse.mouseY.toInt + y.toInt)
  | .interrupt adbBase =>
    ¬ (adbBase = 0 ∨ adbBase = 0xffffffff) →
      Fits (motionWidth s.mouse.extended) s.mouse.mouseX.toInt ∧
        Fits (motionWidth s.mouse.extended) s.mouse.mouseY.toInt
  | _ => True

instance : (s : MotionRun) → (a : MotionAction) → Decidable (InRange s a)
  | _, .moved _ _ => inferInstanceAs (Decidable (_ ∧ _))
  | _, .interrupt _ => inferInstanceAs (Decidable (_ → _ ∧ _))
  | _, .button _ _ | _, .listen _ => isTrue trivial

/-! ### One step -/

theorem add_toInt_iff (a b : BitVec 32) :
    (a + b).toInt = a.toInt + b.toInt ↔ Fits 32 (a.toInt + b.toInt) := by
  rw [← toInt_ofInt_iff (by decide), BitVec.ofInt_add, BitVec.ofInt_toInt, BitVec.ofInt_toInt]

theorem moved_motion_iff {m : Mouse} (relative : m.relativeMouse = true) (x y : BitVec 32) :
    (adbMouseMoved m x y).motion = m.motion + (x.toInt, y.toInt) ↔
      Fits 32 (m.mouseX.toInt + x.toInt) ∧ Fits 32 (m.mouseY.toInt + y.toInt) := by
  rw [adbMouseMoved, if_pos relative, Mouse.motion, Mouse.motion, Prod.mk_add_mk, Prod.mk.injEq,
    add_toInt_iff, add_toInt_iff]

/-- An interrupt leaves no motion behind, and its packet carries what it took at its width. A
packet is left out only when there is nothing to carry. -/
theorem interrupt_motion {m : Mouse} (relative : m.relativeMouse = true) {adbBase : BitVec 32}
    (initialized : ¬ (adbBase = 0 ∨ adbBase = 0xffffffff)) :
    (mouseInterrupt m adbBase).1.motion = 0 ∧
      (mouseInterrupt m adbBase).1.relativeMouse = true ∧
      ((mouseInterrupt m adbBase).2.map MouseOutput.motion).sum =
        motion (packetData m.extended m.mouseX m.mouseY m.mouseButton) := by
  have state : m.getState =
      (⟨m.mouseX, m.mouseY, m.mouseButton⟩, { m with mouseX := 0, mouseY := 0 }) := by
    rw [Mouse.getState, if_pos relative]
  have on : (decide (adbBase = 0) || decide (adbBase = 0xffffffff)) = false := by
    simpa only [Bool.or_eq_false_iff, decide_eq_false_iff_not, not_or] using initialized
  simp only [mouseInterrupt, on, state, relative, sendRelative, Bool.false_eq_true, if_false,
    if_true]
  split
  · refine ⟨rfl, rfl, ?_⟩
    simp [MouseOutput.motion, relativePacket, Mouse.extended]
  next quiet =>
    refine ⟨rfl, rfl, ?_⟩
    simp only [Bool.or_eq_true, decide_eq_true_eq, not_or, not_not, ne_eq] at quiet
    rw [quiet.1.1, quiet.1.2, motion_packetData]
    simp [Prod.zero_eq_mk]

theorem step_conserved_iff {s t : MotionRun} {a : MotionAction}
    (relative : s.mouse.relativeMouse = true) (conserved : Conserved s)
    (taken : motionStep s a = some t) :
    t.mouse.relativeMouse = true ∧ (Conserved t ↔ InRange s a) := by
  rw [Conserved] at conserved ⊢
  cases a with
  | moved x y =>
    cases taken
    have still : (adbMouseMoved s.mouse x y).relativeMouse = true := by
      rw [adbMouseMoved, if_pos relative]
      exact relative
    refine ⟨still, ?_⟩
    rw [InRange, ← moved_motion_iff relative, ← conserved, add_assoc]
    exact add_right_inj s.decoded
  | button button down =>
    cases taken
    exact ⟨relative, iff_of_true conserved trivial⟩
  | listen reg3 =>
    cases taken
    exact ⟨relative, iff_of_true conserved trivial⟩
  | interrupt adbBase =>
    cases taken
    by_cases off : adbBase = 0 ∨ adbBase = 0xffffffff
    · -- Without ADB nothing is taken.
      have quiet : mouseInterrupt s.mouse adbBase = (s.mouse, []) := by
        rw [mouseInterrupt, if_pos (by simpa using off)]
      rw [quiet]
      exact ⟨relative,
        iff_of_true (by simpa using conserved) fun initialized => absurd off initialized⟩
    · obtain ⟨empty, still, carried⟩ := interrupt_motion relative off
      refine ⟨still, ?_⟩
      have range : InRange s (.interrupt adbBase) ↔
          Fits (motionWidth s.mouse.extended) s.mouse.mouseX.toInt ∧
            Fits (motionWidth s.mouse.extended) s.mouse.mouseY.toInt :=
        ⟨fun inRange => inRange off, fun fits _ => fits⟩
      rw [range, ← motion_exact_iff _ _ _ s.mouse.mouseButton, carried, empty, add_zero,
        ← conserved]
      exact add_right_inj s.decoded

/-! ### Runs -/

/-- In every run in relative mode, motion is conserved in all its states exactly if all its steps
are in range. -/
theorem motion_conserved_iff (actions : List MotionAction) (s : MotionRun)
    (run : Run motionStep Free .start actions s) :
    Run motionStep InRange .start actions s ↔
      ∀ before u, before <+: actions → Run motionStep Free .start before u → Conserved u := by
  let Inv := fun t : MotionRun => t.mouse.relativeMouse = true ∧ Conserved t
  have preserved : ∀ s a t, Inv s → InRange s a → motionStep s a = some t → Inv t := by
    intro s a t ⟨relative, conserved⟩ inRange taken
    obtain ⟨still, iff⟩ := step_conserved_iff relative conserved taken
    exact ⟨still, iff.mpr inRange⟩
  have forced : ∀ s a t, Inv s → motionStep s a = some t → Conserved t → InRange s a :=
    fun s a t inv taken after => (step_conserved_iff inv.1 inv.2 taken).2.mp after
  exact Run.guarded_iff preserved (fun _ inv => inv.2) forced ⟨rfl, rfl⟩ run

/-- Small motions in the short format, and a larger one in the extended format. -/
def smallMotions : List MotionAction :=
  [.moved 60 (-3), .interrupt 0x1000, .listen (0x63, 4), .moved 300 (-512), .interrupt 0x1000]

theorem small_motions_conserved :
    ∃ s, Run motionStep Free .start smallMotions s ∧ Conserved s := by
  have run : Run motionStep Free .start smallMotions _ := run_of_exec rfl
  have inRange : Run motionStep InRange .start smallMotions _ := run_of_guarded_exec rfl
  exact ⟨_, run, (motion_conserved_iff smallMotions _ run).mp inRange smallMotions _
    (List.prefix_refl _) run⟩

/-- The guest reads a motion of 64 to the right as one of 64 to the left. -/
theorem motion_of_64_lost :
    ¬ ∀ (actions : List MotionAction) (s : MotionRun),
      Run motionStep Free .start actions s → Conserved s := by
  intro conserved
  have lost := conserved [.moved 64 0, .interrupt 0x1000] _ (run_of_exec rfl)
  exact absurd lost (by decide)

end BasiliskII.ADB
