import BasiliskII.Library.PressLog
import BasiliskII.Library.StepSystem
import Mathlib.Algebra.GroupWithZero.Nat
import Mathlib.Data.List.FinRange

/-!
# The USB keyboard

`handle_keyboard` of video_psp.cpp. It hands the changes between two HID
reports to ADB: first caps lock, then the modifiers, whose left and right keys
are one Mac key, then the six slots for the other keys, slot by slot. Key codes
are those of the HID usage page, which end where `mac_key` does.
-/
namespace BasiliskII.Input

open PressLog

def macKeys : List Nat :=
  [255, 255, 255, 255, 0, 11, 8, 2,
    14, 3, 5, 4, 34, 38, 40, 37,
    46, 45, 31, 35, 12, 15, 1, 17,
    32, 9, 13, 7, 16, 6, 18, 19,
    20, 21, 23, 22, 26, 28, 25, 29,
    36, 53, 51, 48, 49, 27, 24, 33,
    30, 42, 255, 41, 39, 50, 43, 47,
    44, 57, 122, 120, 99, 118, 96, 97,
    98, 100, 101, 109, 103, 111, 105, 107,
    113, 114, 115, 116, 117, 119, 121, 60,
    59, 61, 62, 71, 75, 67, 78, 69,
    76, 83, 84, 85, 86, 87, 88, 90,
    91, 92, 82, 65]

abbrev KeyCode := Fin 0xE8

instance keyCode_neZero : NeZero 0xE8 := ⟨by decide⟩

/-- `mac_key`; the rest of the table is 255 as well. -/
def macKey (code : KeyCode) : Nat := macKeys.getD code.val 255

abbrev Slot := Fin 6

instance slot_neZero : NeZero 6 := ⟨by decide⟩

/-- `SceHidKeyboardReport`: the modifier bits, the lock bits and the six slots. -/
structure Report where
  modifiers : BitVec 8
  locks : BitVec 8
  keycodes : Slot → KeyCode

def noKeys : Report := ⟨0, 0, fun _ => 0⟩

/-- `calls` are the calls of `ADBKeyDown` and `ADBKeyUp` so far, `lastReport` is the last report
processed; no step reads them. -/
structure Keyboard where
  connected : Bool
  capsLock : Bool
  prevKeys : Slot → KeyCode
  prevModifiers : BitVec 8
  calls : List (Event Nat)
  lastReport : Report

/-- No key is down and no report has been processed. -/
def Keyboard.initial : Keyboard := ⟨true, false, fun _ => 0, 0, [], noKeys⟩

/-- `sceHidKeyboardRead`: an error, or the reports it has filled in. -/
inductive Read where
  | error
  | reports (reports : List Report)

def pressEdge (code : Nat) (pressed prevPressed : Bool) : List (Event Nat) :=
  if pressed then (if prevPressed then [] else [.press code])
  else if prevPressed then [.release code] else []

-- The bits of `modifiers[0]`: left keys below, right keys above.

def control (new prev : BitVec 8) : List (Event Nat) :=
  pressEdge 54 (new.getLsbD 0 || prev.getLsbD 4) (prev.getLsbD 0 || prev.getLsbD 4)

def shift (new prev : BitVec 8) : List (Event Nat) :=
  pressEdge 56 (new.getLsbD 1 || prev.getLsbD 5) (prev.getLsbD 1 || prev.getLsbD 5)

/-- Both operands of `l_alt_prev_pressed` test the left bit. -/
def alt (new prev : BitVec 8) : List (Event Nat) :=
  pressEdge 55 (new.getLsbD 2 || prev.getLsbD 6) (prev.getLsbD 2 || prev.getLsbD 2)

def logo (new prev : BitVec 8) : List (Event Nat) :=
  pressEdge 58 (new.getLsbD 3 || prev.getLsbD 7) (prev.getLsbD 3 || prev.getLsbD 7)

/-- One slot of the loop over the key codes. -/
def slotEvents (new prev : Slot → KeyCode) (i : Slot) : List (Event Nat) :=
  if new i ≠ prev i then
    .release (macKey (prev i)) :: if new i ≠ 0 then [.press (macKey (new i))] else []
  else []

/-- Everything that is done with the last report of a read. -/
def process (st : Keyboard) (report : Report) : Keyboard :=
  { st with
    capsLock := report.locks.getLsbD 1
    prevKeys := report.keycodes
    prevModifiers := report.modifiers
    calls := st.calls ++ pressEdge 57 (report.locks.getLsbD 1) st.capsLock ++
      control report.modifiers st.prevModifiers ++ shift report.modifiers st.prevModifiers ++
      alt report.modifiers st.prevModifiers ++ logo report.modifiers st.prevModifiers ++
      (List.finRange 6).flatMap (slotEvents report.keycodes st.prevKeys)
    lastReport := report }

def handleKeyboard (st : Keyboard) (read : Read) : Keyboard :=
  if st.connected then
    match read with
    | .error => { st with connected := false }
    | .reports reports =>
      match reports.getLast? with
      | none => st
      | some report => process st report
  else st

/-- Whether a Mac key is down: its last `ADBKeyDown` has not been followed by `ADBKeyUp`. -/
def Keyboard.isDown (st : Keyboard) (macCode : Nat) : Bool := downAfter macCode false st.calls

end BasiliskII.Input

/-!
## The Mac keys mirror the USB keyboard

When a report is processed slot by slot, a key that moves to an earlier slot is
pressed there and then released in its old slot. The Mac keys mirror the
keyboard in exactly the runs in which no report moves a key that way.
-/
namespace BasiliskII.Input

open PressLog StepSystem

/-! ### Slots -/

section Slots

variable {new prev : Slot → KeyCode} {m : Nat}

/-- The loop presses `m` for slot `i`. -/
def Enters (new prev : Slot → KeyCode) (m : Nat) (i : Slot) : Prop :=
  new i ≠ prev i ∧ new i ≠ 0 ∧ macKey (new i) = m

/-- The loop releases `m` for slot `i`. -/
def Leaves (new prev : Slot → KeyCode) (m : Nat) (i : Slot) : Prop :=
  new i ≠ prev i ∧ macKey (prev i) = m

instance (new prev : Slot → KeyCode) (m : Nat) (i : Slot) : Decidable (Enters new prev m i) :=
  inferInstanceAs (Decidable (_ ∧ _))

instance (new prev : Slot → KeyCode) (m : Nat) (i : Slot) : Decidable (Leaves new prev m i) :=
  inferInstanceAs (Decidable (_ ∧ _))

/-- What a slot does to `m`. -/
def slotTurn (new prev : Slot → KeyCode) (m : Nat) (i : Slot) : Option Bool :=
  if Enters new prev m i then some true else if Leaves new prev m i then some false else none

theorem slotEvents_down (i : Slot) (down : Bool) :
    downAfter m down (slotEvents new prev i) = (slotTurn new prev m i).getD down := by
  unfold slotTurn
  by_cases changed : new i = prev i
  · simp [slotEvents, Enters, Leaves, changed]
  · have events : slotEvents new prev i =
        .release (macKey (prev i)) :: if new i ≠ 0 then [.press (macKey (new i))] else [] :=
      if_pos changed
    simp only [events, downAfter_cons, Enters, Leaves, ne_eq, changed, not_false_eq_true,
      true_and]
    by_cases empty : new i = 0
    · by_cases released : macKey (prev i) = m <;> simp [empty, Event.after, released]
    · by_cases pressed : macKey (new i) = m
      · simp [empty, Event.after, pressed]
      · by_cases released : macKey (prev i) = m <;>
          simp [empty, Event.after, pressed, released]

theorem slotTurn_press {i : Slot} : slotTurn new prev m i = some true ↔ Enters new prev m i := by
  unfold slotTurn
  split_ifs with enters <;> simp [enters]

theorem slotTurn_release {i : Slot} : slotTurn new prev m i = some false ↔
    Leaves new prev m i ∧ ¬ Enters new prev m i := by
  unfold slotTurn
  by_cases enters : Enters new prev m i
  · simp [enters]
  · by_cases leaves : Leaves new prev m i <;> simp [enters, leaves]

/-- After the loop a key is down that was down or is pressed, if each slot that releases it is
that of a press or comes before one. -/
theorem loop_down_iff (down : Bool) :
    downAfter m down ((List.finRange 6).flatMap (slotEvents new prev)) = true ↔
      (down = true ∨ ∃ i, Enters new prev m i) ∧
        ∀ i, Leaves new prev m i → ∃ k, i ≤ k ∧ Enters new prev m k := by
  rw [downAfter_flatMap slotEvents_down, afterTurns_iff (List.pairwise_lt_finRange 6)]
  simp only [List.mem_finRange, true_and, forall_const, slotTurn_press, slotTurn_release]
  refine and_congr_right fun _ => forall_congr' fun i => ?_
  constructor
  · intro kept leaves
    by_cases enters : Enters new prev m i
    · exact ⟨i, le_refl i, enters⟩
    · obtain ⟨k, later, press⟩ := kept ⟨leaves, enters⟩
      exact ⟨k, le_of_lt later, press⟩
  · rintro kept ⟨leaves, stays⟩
    obtain ⟨k, later, press⟩ := kept leaves
    exact ⟨k, lt_of_le_of_ne later fun same => stays (same ▸ press), press⟩

end Slots

/-! ### One report -/

section Edges

variable {code m : Nat} {pressed prevPressed : Bool}

theorem pressEdge_down (code : Nat) (pressed prevPressed down : Bool) :
    downAfter code down (pressEdge code pressed prevPressed) =
      if pressed = prevPressed then down else pressed := by
  cases pressed <;> cases prevPressed <;> simp [pressEdge, Event.after]

/-- An edge alternates if the state before agrees with what the code took it to be. -/
theorem pressEdge_alternates (code : Nat) (pressed prevPressed down : Bool) :
    Alternates code down (pressEdge code pressed prevPressed) ↔
      pressed = prevPressed ∨ down = prevPressed := by
  cases pressed <;> cases prevPressed <;> cases down <;> simp [pressEdge, Alternates]

theorem pressEdge_key : ∀ e ∈ pressEdge code pressed prevPressed, e.key = code := by
  cases pressed <;> cases prevPressed <;> simp [pressEdge]

theorem pressEdge_down_other (other : code ≠ m) (down : Bool) :
    downAfter m down (pressEdge code pressed prevPressed) = down :=
  downAfter_other (fun e member => by rwa [pressEdge_key e member]) down

end Edges

/-- The report a read ends with. -/
def Read.last : Read → Option Report
  | .error => none
  | .reports read => read.getLast?

/-- A read processes its last report or changes nothing but the connection. -/
theorem handleKeyboard_cases (st : Keyboard) (read : Read) :
    (∃ report, st.connected = true ∧ read.last = some report ∧
        handleKeyboard st read = process st report) ∨
      ∃ connected, handleKeyboard st read = { st with connected := connected } := by
  unfold handleKeyboard
  by_cases connected : st.connected = true
  · rw [if_pos connected]
    cases read with
    | error => exact .inr ⟨false, rfl⟩
    | reports read =>
      cases last : read.getLast? with
      | none => exact .inr ⟨st.connected, by simp only [last]⟩
      | some report => exact .inl ⟨report, connected, last, by simp only [last]⟩
  · exact .inr ⟨st.connected, if_neg connected⟩

theorem handleKeyboard_report {st : Keyboard} {read : Read} {report : Report}
    (connected : st.connected = true) (last : read.last = some report) :
    handleKeyboard st read = process st report := by
  unfold handleKeyboard
  rw [if_pos connected]
  cases read with
  | error => cases last
  | reports read =>
    change read.getLast? = some report at last
    simp only [last]

/-! ### The slots mirror the keyboard -/

/-- The Mac keys of caps lock and of the modifiers. -/
def modifierKeys : List Nat := [57, 54, 56, 55, 58]

/-- The other Mac keys that are down are those of the codes in the last report. -/
def MirrorsKeys (st : Keyboard) : Prop :=
  ∀ m ∉ modifierKeys, st.isDown m = true ↔
    ∃ i, st.lastReport.keycodes i ≠ 0 ∧ macKey (st.lastReport.keycodes i) = m

/-- Every code stands for a key. -/
def Report.Translatable (report : Report) : Prop :=
  ∀ i, report.keycodes i ≠ 0 → macKey (report.keycodes i) ≠ 255

instance (report : Report) : Decidable report.Translatable :=
  inferInstanceAs (Decidable (∀ _, _))

/-- No key leaves a slot while it is still in the report, unless it is newly in that slot or in
a later one. -/
def KeysKept (new prev : Slot → KeyCode) : Prop :=
  ∀ i j, prev i ≠ 0 → macKey (prev i) ∉ modifierKeys → Leaves new prev (macKey (prev i)) i →
    new j ≠ 0 → macKey (new j) = macKey (prev i) →
      ∃ k, i ≤ k ∧ Enters new prev (macKey (prev i)) k

instance (new prev : Slot → KeyCode) : Decidable (KeysKept new prev) :=
  inferInstanceAs (Decidable (∀ _ _, _))

theorem process_isDown (st : Keyboard) (report : Report) {m : Nat} (other : m ∉ modifierKeys) :
    (process st report).isDown m = downAfter m (st.isDown m)
      ((List.finRange 6).flatMap (slotEvents report.keycodes st.prevKeys)) := by
  simp only [modifierKeys, List.mem_cons, List.not_mem_nil, or_false, not_or] at other
  obtain ⟨caps, ctrl, shift', alt', logo'⟩ := other
  simp only [Keyboard.isDown, process, downAfter_append, control, shift, alt, logo,
    pressEdge_down_other (Ne.symm caps), pressEdge_down_other (Ne.symm ctrl),
    pressEdge_down_other (Ne.symm shift'), pressEdge_down_other (Ne.symm alt'),
    pressEdge_down_other (Ne.symm logo')]

/-- What is known of the slots in a state that mirrors the keyboard. -/
structure SlotsKnown (st : Keyboard) : Prop where
  prevKeys : st.prevKeys = st.lastReport.keycodes
  translatable : st.lastReport.Translatable
  mirrors : MirrorsKeys st

theorem slotsKnown_initial : SlotsKnown Keyboard.initial where
  prevKeys := rfl
  translatable := fun _ full => absurd rfl full
  mirrors := by
    intro m _
    simp [Keyboard.initial, noKeys, Keyboard.isDown]

section Process

variable {st : Keyboard} {report : Report}

theorem process_mirrors (known : SlotsKnown st) (translatable : report.Translatable)
    (kept : KeysKept report.keycodes st.prevKeys) : MirrorsKeys (process st report) := by
  obtain ⟨prevKeys, _, mirrors⟩ := known
  intro m other
  have before := mirrors m other
  rw [← prevKeys] at before
  rw [process_isDown st report other]
  rw [loop_down_iff, before]
  constructor
  · -- a key that was in a slot is in the report unless it left that slot, and then it is pressed
    rintro ⟨pressed, left⟩
    rcases pressed with ⟨i, full, same⟩ | ⟨i, _, full, same⟩
    · by_cases changed : report.keycodes i = st.prevKeys i
      · exact ⟨i, changed ▸ full, changed ▸ same⟩
      · obtain ⟨k, _, _, full', same'⟩ := left i ⟨changed, same⟩
        exact ⟨k, full', same'⟩
    · exact ⟨i, full, same⟩
  · rintro ⟨j, full, same⟩
    refine ⟨?_, fun i leaves => ?_⟩
    · by_cases changed : report.keycodes j = st.prevKeys j
      · exact .inl ⟨j, changed ▸ full, changed ▸ same⟩
      · exact .inr ⟨j, changed, full, same⟩
    · obtain ⟨changed, rfl⟩ := leaves
      have full' : st.prevKeys i ≠ 0 := by
        intro empty
        rw [empty] at same
        exact translatable j full same
      exact kept i j full' other ⟨changed, rfl⟩ full same

/-- A key that only moves to an earlier slot is up afterwards, though it is still pressed. -/
theorem keysKept_of_mirrors (mirrors : MirrorsKeys (process st report)) :
    KeysKept report.keycodes st.prevKeys := by
  intro i j _ other leaves full same
  have down : (process st report).isDown (macKey (st.prevKeys i)) = true :=
    (mirrors _ other).mpr ⟨j, full, same⟩
  rw [process_isDown st report other, loop_down_iff] at down
  exact down.2 i leaves

end Process

/-! ### Runs -/

/-- A read whose last report has only codes with a Mac key. -/
def TranslatableRead := { read : Read // ∀ report ∈ read.last, report.Translatable }

def keyboardStep (st : Keyboard) (read : TranslatableRead) : Option Keyboard :=
  some (handleKeyboard st read.val)

/-- The read processes no report, or one that keeps the keys. -/
def KeepsKeys (st : Keyboard) (read : TranslatableRead) : Prop :=
  st.connected = true → ∀ report ∈ read.val.last, KeysKept report.keycodes st.prevKeys

instance (st : Keyboard) (read : TranslatableRead) : Decidable (KeepsKeys st read) :=
  inferInstanceAs (Decidable (_ → ∀ report ∈ _, _))

theorem step_slotsKnown {st st' : Keyboard} {read : TranslatableRead} (known : SlotsKnown st)
    (keeps : KeepsKeys st read) (taken : keyboardStep st read = some st') : SlotsKnown st' := by
  cases taken
  rcases handleKeyboard_cases st read.val with
    ⟨report, connected, last, processed⟩ | ⟨connected, unchanged⟩
  · rw [processed]
    have translatable := read.property report last
    exact ⟨rfl, translatable, process_mirrors known translatable (keeps connected report last)⟩
  · rw [unchanged]
    exact ⟨known.prevKeys, known.translatable, known.mirrors⟩

theorem step_keepsKeys {st st' : Keyboard} {read : TranslatableRead}
    (taken : keyboardStep st read = some st') (mirrors : MirrorsKeys st') : KeepsKeys st read := by
  cases taken
  intro connected report last
  rw [handleKeyboard_report connected last] at mirrors
  exact keysKept_of_mirrors mirrors

/-- After every report of a run the keys mirror the keyboard exactly if every report keeps the
keys that only change their slot. -/
theorem pressed_keys_mirror_iff {reads : List TranslatableRead} {st : Keyboard}
    (run : Run keyboardStep Free Keyboard.initial reads st) :
    Run keyboardStep KeepsKeys Keyboard.initial reads st ↔
      ∀ ms u, ms <+: reads → Run keyboardStep Free Keyboard.initial ms u → MirrorsKeys u :=
  Run.guarded_iff (fun _ _ _ known keeps taken => step_slotsKnown known keeps taken)
    (fun _ known => known.mirrors) (fun _ _ _ _ taken mirrors => step_keepsKeys taken mirrors)
    slotsKnown_initial run

/-- A read of one report. -/
def TranslatableRead.single (report : Report) (translatable : report.Translatable) :
    TranslatableRead :=
  ⟨.reports [report], fun _ last => Option.some.inj last ▸ translatable⟩

/-- A report of two keys; a key code of 0 leaves its slot empty. -/
def twoKeys (first second : KeyCode) : Report :=
  ⟨0, 0, fun i => if i = 0 then first else if i = 1 then second else 0⟩

def aDown : TranslatableRead := .single (twoKeys 4 0) (by decide)

def bothDown : TranslatableRead := .single (twoKeys 4 5) (by decide)

def bDown : TranslatableRead := .single (twoKeys 5 0) (by decide)

/-- B is pressed and released while A is held. -/
theorem b_over_a_mirrors :
    let st := handleKeyboard (handleKeyboard (handleKeyboard .initial aDown.val) bothDown.val)
      aDown.val
    MirrorsKeys st := by
  intro st
  have run : Run keyboardStep Free Keyboard.initial [aDown, bothDown, aDown] st := run_of_exec rfl
  have kept : Run keyboardStep KeepsKeys Keyboard.initial [aDown, bothDown, aDown] st :=
    run_of_guarded_exec rfl
  exact (pressed_keys_mirror_iff run).mp kept _ st (List.prefix_refl _) run

/-- A is released while B is held, and B moves to the first slot. -/
theorem moved_key_goes_up :
    ¬ ∀ reads st, Run keyboardStep Free Keyboard.initial reads st → MirrorsKeys st := by
  intro all
  let st := handleKeyboard (handleKeyboard .initial bothDown.val) bDown.val
  have mirrors : MirrorsKeys st := all [bothDown, bDown] st (run_of_exec rfl)
  have down : st.isDown 11 = true := (mirrors 11 (by decide)).mpr ⟨0, by decide, rfl⟩
  have up : st.isDown 11 = false := by decide
  rw [up] at down
  cases down

end BasiliskII.Input
