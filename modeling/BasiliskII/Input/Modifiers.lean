import BasiliskII.Input.Keyboard
import Mathlib.Data.List.GetD

/-!
# The modifiers

The left and the right key of a modifier are one Mac key. The code takes the
right key from the report before instead of the current one, and for Command it
tests the left key twice where it wants to know what was pressed. So the
modifiers mirror the keyboard in exactly the runs in which right keys are only
pressed or released while the left key is pressed.
-/
namespace BasiliskII.Input

open PressLog StepSystem

inductive Modifier where
  | control
  | shift
  | command
  | option
  deriving DecidableEq

namespace Modifier

/-- The Mac key. -/
def code : Modifier → Nat
  | .control => 54
  | .shift => 56
  | .command => 55
  | .option => 58

def left (m : Modifier) (w : BitVec 8) : Bool :=
  match m with
  | .control => w.getLsbD 0
  | .shift => w.getLsbD 1
  | .command => w.getLsbD 2
  | .option => w.getLsbD 3

def right (m : Modifier) (w : BitVec 8) : Bool :=
  match m with
  | .control => w.getLsbD 4
  | .shift => w.getLsbD 5
  | .command => w.getLsbD 6
  | .option => w.getLsbD 7

def held (m : Modifier) (w : BitVec 8) : Bool := m.left w || m.right w

/-- What the code takes for the state before. -/
def prevHeld (m : Modifier) (w : BitVec 8) : Bool :=
  match m with
  | .command => m.left w || m.left w
  | _ => m.held w

/-- The events for one modifier. -/
def edge (m : Modifier) (new prev : BitVec 8) : List (Event Nat) :=
  pressEdge m.code (m.left new || m.right prev) (m.prevHeld prev)

/-- The right key stays as it is unless the left one is pressed, and Command was not held by its
right key alone. -/
def Followed (m : Modifier) (new prev : BitVec 8) : Prop :=
  (m.left new = true ∨ m.right new = m.right prev) ∧ m.prevHeld prev = m.held prev

instance (m : Modifier) (new prev : BitVec 8) : Decidable (m.Followed new prev) :=
  inferInstanceAs (Decidable (_ ∧ _))

/-- In the order of the code. -/
def all : List Modifier := [.control, .shift, .command, .option]

theorem mem_all (m : Modifier) : m ∈ all := by
  cases m <;> decide

theorem code_injective {m m' : Modifier} (same : m.code = m'.code) : m = m' := by
  cases m <;> cases m' <;> first | rfl | cases same

theorem edge_key (m : Modifier) (new prev : BitVec 8) : ∀ e ∈ m.edge new prev, e.key = m.code :=
  pressEdge_key

theorem code_ne_capsLock (m : Modifier) : 57 ≠ m.code := by
  cases m <;> decide

end Modifier

theorem macKey_ne_modifier (code : KeyCode) (m : Modifier) : macKey code ≠ m.code := by
  have listed : ∀ key ∈ macKeys, key ∉ Modifier.all.map Modifier.code := by decide
  have own : m.code ∈ Modifier.all.map Modifier.code := List.mem_map_of_mem m.mem_all
  unfold macKey
  by_cases inside : code.val < macKeys.length
  · rw [List.getD_eq_getElem _ _ inside]
    exact fun same => listed _ (List.getElem_mem inside) (same ▸ own)
  · rw [List.getD_eq_default _ _ (not_lt.mp inside)]
    cases m <;> decide

theorem slots_key {new prev : Slot → KeyCode} {slots : List Slot} (m : Modifier) :
    ∀ e ∈ slots.flatMap (slotEvents new prev), e.key ≠ m.code := by
  intro e member
  obtain ⟨i, _, member⟩ := List.mem_flatMap.mp member
  unfold slotEvents at member
  split at member
  · rcases List.mem_cons.mp member with rfl | pressed
    · exact macKey_ne_modifier _ m
    · split at pressed
      · rw [List.mem_singleton.mp pressed]
        exact macKey_ne_modifier _ m
      · cases pressed
  · cases member

/-! ### One report -/

section Process

variable (st : Keyboard) (report : Report) (m : Modifier)

theorem process_calls : (process st report).calls =
    st.calls ++ (pressEdge 57 (report.locks.getLsbD 1) st.capsLock ++
      Modifier.all.flatMap (fun m => m.edge report.modifiers st.prevModifiers) ++
      (List.finRange 6).flatMap (slotEvents report.keycodes st.prevKeys)) := by
  simp only [process, Modifier.all, List.flatMap_cons, List.flatMap_nil, List.append_nil,
    List.append_assoc]
  rfl

/-- All that happens to a modifier happens in its own events. -/
theorem process_modifier : ∃ before after : List (Event Nat),
    (∀ e ∈ before, e.key ≠ m.code) ∧ (∀ e ∈ after, e.key ≠ m.code) ∧
      (process st report).calls =
        st.calls ++ (before ++ (m.edge report.modifiers st.prevModifiers ++ after)) := by
  obtain ⟨earlier, later, split⟩ := List.append_of_mem m.mem_all
  have nodup : (earlier ++ m :: later).Nodup := by
    rw [← split]
    decide
  have apart {ms : List Modifier} (absent : m ∉ ms) :
      ∀ e ∈ ms.flatMap (fun m => m.edge report.modifiers st.prevModifiers), e.key ≠ m.code := by
    intro e member same
    obtain ⟨m', listed, member⟩ := List.mem_flatMap.mp member
    rw [m'.edge_key _ _ e member] at same
    exact absent (Modifier.code_injective same ▸ listed)
  obtain ⟨absent, absent'⟩ : m ∉ earlier ∧ m ∉ later := by
    simp only [List.nodup_append, List.nodup_cons] at nodup
    exact ⟨fun inside => nodup.2.2 m inside m (List.mem_cons_self ..) rfl, nodup.2.1.1⟩
  refine ⟨pressEdge 57 (report.locks.getLsbD 1) st.capsLock ++
      earlier.flatMap (fun m => m.edge report.modifiers st.prevModifiers),
    later.flatMap (fun m => m.edge report.modifiers st.prevModifiers) ++
      (List.finRange 6).flatMap (slotEvents report.keycodes st.prevKeys), ?_, ?_, ?_⟩
  · intro e member
    rcases List.mem_append.mp member with caps | member
    · rw [pressEdge_key e caps]
      exact m.code_ne_capsLock
    · exact apart absent e member
  · intro e member
    rcases List.mem_append.mp member with member | slot
    · exact apart absent' e member
    · exact slots_key m e slot
  · rw [process_calls, split, List.flatMap_append, List.flatMap_cons]
    simp only [List.append_assoc]

theorem process_modifier_down : (process st report).isDown m.code =
    downAfter m.code (st.isDown m.code) (m.edge report.modifiers st.prevModifiers) := by
  obtain ⟨before, after, other, other', calls⟩ := process_modifier st report m
  rw [Keyboard.isDown, calls, downAfter_append, downAfter_append, downAfter_other other,
    downAfter_append, downAfter_other other', ← Keyboard.isDown]

theorem process_modifier_alternates : Alternates m.code false (process st report).calls ↔
    Alternates m.code false st.calls ∧
      Alternates m.code (st.isDown m.code) (m.edge report.modifiers st.prevModifiers) := by
  obtain ⟨before, after, other, other', calls⟩ := process_modifier st report m
  rw [calls, alternates_append, alternates_append, downAfter_other other, alternates_append,
    ← Keyboard.isDown]
  exact and_congr_right fun _ =>
    ⟨fun kept => kept.2.1, fun own => ⟨alternates_other other _, own, alternates_other other' _⟩⟩

end Process

/-! ### Runs -/

/-- Each modifier is down if one of its keys is pressed in the last report, and its presses and
releases alternate. -/
def MirrorsModifiers (st : Keyboard) : Prop :=
  ∀ m : Modifier, st.isDown m.code = m.held st.lastReport.modifiers ∧
    Alternates m.code false st.calls

/-- From a state that agrees with the report before, the events of a modifier lead to the new
report exactly if it was followed. -/
theorem edge_follows_iff (m : Modifier) (new prev : BitVec 8) :
    (downAfter m.code (m.held prev) (m.edge new prev) = m.held new ∧
      Alternates m.code (m.held prev) (m.edge new prev)) ↔ m.Followed new prev := by
  have known : m.prevHeld prev = m.held prev ∨ m.prevHeld prev = m.left prev := by
    cases m with
    | command => exact .inr (Bool.or_self _)
    | _ => exact .inl rfl
  rw [Modifier.edge, pressEdge_down, pressEdge_alternates, Modifier.Followed]
  revert known
  unfold Modifier.held
  generalize m.prevHeld prev = before
  -- what is left is about the two bits of either report
  cases m.left new <;> cases m.right new <;> cases m.left prev <;> cases m.right prev <;>
    cases before <;> simp

structure ModifiersKnown (st : Keyboard) : Prop where
  prevModifiers : st.prevModifiers = st.lastReport.modifiers
  mirrors : MirrorsModifiers st

theorem modifiersKnown_initial : ModifiersKnown Keyboard.initial where
  prevModifiers := rfl
  mirrors m := by
    cases m <;> exact ⟨rfl, trivial⟩

theorem process_mirrorsModifiers_iff {st : Keyboard} (known : ModifiersKnown st)
    (report : Report) : MirrorsModifiers (process st report) ↔
      ∀ m : Modifier, m.Followed report.modifiers st.prevModifiers := by
  refine forall_congr' fun m => ?_
  obtain ⟨down, alternates⟩ := known.mirrors m
  rw [← known.prevModifiers] at down
  rw [process_modifier_down, process_modifier_alternates, down, ← edge_follows_iff]
  exact and_congr_right fun _ => and_iff_right alternates

def modifierStep (st : Keyboard) (read : Read) : Option Keyboard :=
  some (handleKeyboard st read)

/-- The read processes no report, or one that follows the report before. -/
def FollowsModifiers (st : Keyboard) (read : Read) : Prop :=
  st.connected = true → ∀ report ∈ read.last,
    ∀ m ∈ Modifier.all, m.Followed report.modifiers st.prevModifiers

instance (st : Keyboard) (read : Read) : Decidable (FollowsModifiers st read) :=
  inferInstanceAs (Decidable (_ → ∀ report ∈ _, ∀ m ∈ _, _))

theorem step_modifiersKnown {st st' : Keyboard} {read : Read} (known : ModifiersKnown st)
    (follows : FollowsModifiers st read) (taken : modifierStep st read = some st') :
    ModifiersKnown st' := by
  cases taken
  rcases handleKeyboard_cases st read with
    ⟨report, connected, last, processed⟩ | ⟨connected, unchanged⟩
  · rw [processed]
    refine ⟨rfl, (process_mirrorsModifiers_iff known report).mpr fun m => ?_⟩
    exact follows connected report last m m.mem_all
  · rw [unchanged]
    exact ⟨known.prevModifiers, known.mirrors⟩

theorem step_followsModifiers {st st' : Keyboard} {read : Read} (known : ModifiersKnown st)
    (taken : modifierStep st read = some st') (mirrors : MirrorsModifiers st') :
    FollowsModifiers st read := by
  cases taken
  intro connected report last m _
  rw [handleKeyboard_report connected last] at mirrors
  exact (process_mirrorsModifiers_iff known report).mp mirrors m

/-- After every report of a run the modifiers mirror the keyboard exactly if every report
follows the one before. -/
theorem modifiers_mirror_iff {reads : List Read} {st : Keyboard}
    (run : Run modifierStep Free Keyboard.initial reads st) :
    Run modifierStep FollowsModifiers Keyboard.initial reads st ↔
      ∀ ms u, ms <+: reads → Run modifierStep Free Keyboard.initial ms u → MirrorsModifiers u :=
  Run.guarded_iff (fun _ _ _ known follows taken => step_modifiersKnown known follows taken)
    (fun _ known => known.mirrors)
    (fun _ _ _ known taken mirrors => step_followsModifiers known taken mirrors)
    modifiersKnown_initial run

/-- A read of one report without keys in the slots. -/
def modifierRead (modifiers : BitVec 8) : Read := .reports [⟨modifiers, 0, fun _ => 0⟩]

/-- Left Shift is pressed, then right Shift as well, and then left Shift is released. -/
theorem shift_changes_hands :
    let st := handleKeyboard (handleKeyboard (handleKeyboard .initial (modifierRead 0x02))
      (modifierRead 0x22)) (modifierRead 0x20)
    MirrorsModifiers st := by
  intro st
  let reads := [modifierRead 0x02, modifierRead 0x22, modifierRead 0x20]
  have run : Run modifierStep Free Keyboard.initial reads st := run_of_exec rfl
  have follows : Run modifierStep FollowsModifiers Keyboard.initial reads st :=
    run_of_guarded_exec rfl
  exact (modifiers_mirror_iff run).mp follows reads st (List.prefix_refl _) run

/-- Right Control is pressed alone. -/
theorem right_control_is_missed :
    ¬ ∀ reads st, Run modifierStep Free Keyboard.initial reads st → MirrorsModifiers st := by
  intro all
  let st := handleKeyboard .initial (modifierRead 0x10)
  have mirrors : MirrorsModifiers st := all [modifierRead 0x10] st (run_of_exec rfl)
  have down : st.isDown 54 = true := (mirrors .control).1.trans (by decide)
  have up : st.isDown 54 = false := by decide
  rw [up] at down
  cases down

end BasiliskII.Input
