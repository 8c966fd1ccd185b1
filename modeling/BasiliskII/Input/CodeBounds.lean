import BasiliskII.Input.HeldKeys
import BasiliskII.Input.Keyboard

/-!
# Codes and the tables of ADB

`ADBKeyDown` to `ADBMouseUp` of adb.cpp index their tables with the codes they
are given and check none. The codes come from `mac_key`, which the bytes of a
HID report index, and from the numbers in a map file. Every code is inside the
tables exactly if no slot changes from or to a byte without a Mac key, and the
maps that can be pressed have numbers in range.
-/
namespace BasiliskII.Input

open PressLog

/-! ### The tables -/

/-- `key_states` and `mouse_button`, with the bytes put into `key_buffer`. -/
structure AdbTables where
  keyStates : Fin 16 → BitVec 8
  mouseButton : Fin 3 → Bool
  queued : List (BitVec 8)

/-- An `int` as an index of a table with `n` entries; `none` outside. -/
def tableIndex (n : Nat) (i : Int) : Option (Fin n) :=
  if inside : 0 ≤ i ∧ i < n then some ⟨i.toNat, by omega⟩ else none

def keyBit (code : BitVec 32) : BitVec 8 := 1#8 <<< (~~~code &&& 7)

def adbKeyDown (s : AdbTables) (code : BitVec 32) : Option AdbTables :=
  (tableIndex 16 (code.sshiftRight 3).toInt).map fun i =>
    { s with
      queued := s.queued ++ [code.setWidth 8]
      keyStates := Function.update s.keyStates i (s.keyStates i ||| keyBit code) }

def adbKeyUp (s : AdbTables) (code : BitVec 32) : Option AdbTables :=
  (tableIndex 16 (code.sshiftRight 3).toInt).map fun i =>
    { s with
      queued := s.queued ++ [(code ||| 0x80).setWidth 8]  -- Key-up flag
      keyStates := Function.update s.keyStates i (s.keyStates i &&& ~~~keyBit code) }

def adbMouse (s : AdbTables) (button : BitVec 32) (down : Bool) : Option AdbTables :=
  (tableIndex 3 button.toInt).map fun i =>
    { s with mouseButton := Function.update s.mouseButton i down }

def adbMouseDown (s : AdbTables) (button : BitVec 32) : Option AdbTables := adbMouse s button true

def adbMouseUp (s : AdbTables) (button : BitVec 32) : Option AdbTables := adbMouse s button false

/-- A call into adb.cpp; `none` where it leaves a table. -/
def adbCall (s : AdbTables) : Event Target → Option AdbTables
  -- None of them compares the code with the size of its table.
  | .press (.key code) => adbKeyDown s code
  | .release (.key code) => adbKeyUp s code
  | .press (.button button) => adbMouseDown s button
  | .release (.button button) => adbMouseUp s button

def adbCalls : AdbTables → List (Event Target) → Option AdbTables
  | s, [] => some s
  | s, call :: rest => (adbCall s call).bind fun s => adbCalls s rest

/-- The byte a call puts into `key_buffer`. -/
def queuedByte : Event Target → Option (BitVec 8)
  | .press (.key code) => some (code.setWidth 8)
  | .release (.key code) => some ((code ||| 0x80).setWidth 8)
  | _ => none

def Target.Inside : Target → Prop
  | .key code => code.toNat ≤ 127
  | .button b => b.toNat ≤ 2

instance : (t : Target) → Decidable t.Inside
  | .key _ => inferInstanceAs (Decidable (_ ≤ _))
  | .button _ => inferInstanceAs (Decidable (_ ≤ _))

/-- The power key is 127, and its release is queued as 255. -/
def powerKey : Target := .key 127

/-- What calls are to keep to. -/
structure CallsSafe (calls : List (Event Target)) : Prop where
  codes : ∀ call ∈ calls, call.key.Inside
  tables : ∀ s, (adbCalls s calls).isSome
  noKey : ∀ call ∈ calls, queuedByte call = some 255 → call = .release powerKey

theorem tableIndex_isSome_iff (n : Nat) (i : Int) :
    (tableIndex n i).isSome ↔ 0 ≤ i ∧ i < n := by
  rw [tableIndex]
  split
  next inside => exact iff_of_true rfl inside
  next outside => exact iff_of_false (by simp) outside

theorem keyIndex_iff (code : BitVec 32) :
    (tableIndex 16 (code.sshiftRight 3).toInt).isSome ↔ code.toNat ≤ 127 := by
  rw [tableIndex_isSome_iff, BitVec.toInt_sshiftRight, Int.shiftRight_eq_div_pow,
    BitVec.toInt_eq_toNat_cond]
  have below := code.isLt
  split <;> omega

theorem buttonIndex_iff (button : BitVec 32) :
    (tableIndex 3 button.toInt).isSome ↔ button.toNat ≤ 2 := by
  rw [tableIndex_isSome_iff, BitVec.toInt_eq_toNat_cond]
  have below := button.isLt
  split <;> omega

/-- A call stays in its table exactly if its code is in range. -/
theorem adbCall_isSome_iff (s : AdbTables) (call : Event Target) :
    (adbCall s call).isSome ↔ call.key.Inside := by
  rcases call with ⟨code | button⟩ | ⟨code | button⟩
  · rw [adbCall, adbKeyDown, Option.isSome_map, keyIndex_iff]
    rfl
  · rw [adbCall, adbMouseDown, adbMouse, Option.isSome_map, buttonIndex_iff]
    rfl
  · rw [adbCall, adbKeyUp, Option.isSome_map, keyIndex_iff]
    rfl
  · rw [adbCall, adbMouseUp, adbMouse, Option.isSome_map, buttonIndex_iff]
    rfl

theorem adbCalls_isSome {calls : List (Event Target)} (inside : ∀ call ∈ calls, call.key.Inside)
    (s : AdbTables) : (adbCalls s calls).isSome := by
  -- No call changes the size of a table, so each can be checked on its own.
  induction calls generalizing s with
  | nil => rfl
  | cons call rest ih =>
    obtain ⟨t, called⟩ := Option.isSome_iff_exists.mp
      ((adbCall_isSome_iff s call).mpr (inside call (List.mem_cons_self ..)))
    rw [adbCalls, called, Option.bind_some]
    exact ih (fun later member => inside later (List.mem_cons_of_mem _ member)) t

/-- A code in range is queued as 255 when the power key is released. -/
theorem queuedByte_inside {call : Event Target} (inside : call.key.Inside)
    (queued : queuedByte call = some 255) : call = .release powerKey := by
  -- Both are facts about the 128 codes in range.
  have press : ∀ n : Fin 128, (BitVec.ofNat 32 n).setWidth 8 ≠ (255 : BitVec 8) := by decide
  have release : ∀ n : Fin 128,
      (BitVec.ofNat 32 n ||| 0x80).setWidth 8 = (255 : BitVec 8) → n = 127 := by decide
  rcases call with ⟨code | button⟩ | ⟨code | button⟩
  · have small : code.toNat < 128 := Nat.lt_succ_of_le inside
    have other := press ⟨code.toNat, small⟩
    rw [BitVec.ofNat_toNat, BitVec.setWidth_eq] at other
    exact absurd (Option.some.inj queued) other
  · cases queued
  · have small : code.toNat < 128 := Nat.lt_succ_of_le inside
    have power := release ⟨code.toNat, small⟩
    rw [BitVec.ofNat_toNat, BitVec.setWidth_eq] at power
    have value := congrArg Fin.val (power (Option.some.inj queued))
    rw [powerKey, show code = 127 from BitVec.eq_of_toNat_eq value]
  · cases queued

theorem callsSafe_iff (calls : List (Event Target)) :
    CallsSafe calls ↔ ∀ call ∈ calls, call.key.Inside :=
  ⟨CallsSafe.codes, fun inside =>
    ⟨inside, adbCalls_isSome inside, fun call member => queuedByte_inside (inside call member)⟩⟩

/-! ### The USB keyboard -/

/-- `SceHidKeyboardReport` as it is read: any byte may stand in a slot. -/
structure HidReport where
  modifiers : BitVec 8
  locks : BitVec 8
  keycodes : Slot → BitVec 8

/-- `caps_lock` and the statics of `handle_keyboard`. -/
structure HidKeyboard where
  capsLock : Bool
  prevKeys : Slot → BitVec 8
  prevModifiers : BitVec 8

/-- `mac_key[code]`; `none` behind the end of the table. -/
def macKeyAt (code : BitVec 8) : Option Nat :=
  if inside : code.toNat < 0xE8 then some (macKey ⟨code.toNat, inside⟩) else none

def keyTarget (macCode : Nat) : Target := .key (BitVec.ofNat 32 macCode)

def keyCall : Event Nat → Event Target
  | .press macCode => .press (keyTarget macCode)
  | .release macCode => .release (keyTarget macCode)

/-- One slot of the loop over the key codes. -/
def slotCalls (new prev : BitVec 8) : Option (List (Event Target)) :=
  if new ≠ prev then
    -- The key before is released even where there was none.
    (macKeyAt prev).bind fun up =>
      if new ≠ 0 then
        (macKeyAt new).map fun down => [.release (keyTarget up), .press (keyTarget down)]
      else some [.release (keyTarget up)]
  else some []

def slotLoop (new prev : Slot → BitVec 8) : List Slot → Option (List (Event Target))
  | [] => some []
  | i :: rest =>
    (slotCalls (new i) (prev i)).bind fun calls => (slotLoop new prev rest).map (calls ++ ·)

/-- Caps lock and the modifiers. -/
def modifierEvents (locked capsLock : Bool) (new prev : BitVec 8) : List (Event Nat) :=
  pressEdge 57 locked capsLock ++ control new prev ++ shift new prev ++ alt new prev ++
    logo new prev

/-- The calls `handle_keyboard` makes for a report. -/
def reportCalls (st : HidKeyboard) (report : HidReport) : Option (List (Event Target)) :=
  (slotLoop report.keycodes st.prevKeys (List.finRange 6)).map fun keys =>
    (modifierEvents (report.locks.getLsbD 1) st.capsLock report.modifiers st.prevModifiers).map
      keyCall ++ keys

/-- Nothing leaves a table for the report. -/
def ReportSafe (st : HidKeyboard) (report : HidReport) : Prop :=
  ∃ calls, reportCalls st report = some calls ∧ CallsSafe calls

/-- A byte with a key in `mac_key`; 50 is a filler among them. -/
def HasMacKey (code : BitVec 8) : Prop := 4 ≤ code.toNat ∧ code.toNat ≤ 99 ∧ code.toNat ≠ 50

/-- The slots that change had a key and get none or one. -/
def SlotsGood (prev new : Slot → BitVec 8) : Prop :=
  ∀ i, new i ≠ prev i → HasMacKey (prev i) ∧ (new i = 0 ∨ HasMacKey (new i))

instance (code : BitVec 8) : Decidable (HasMacKey code) := inferInstanceAs (Decidable (_ ∧ _))

theorem keyCode_toNat (code : KeyCode) : (BitVec.ofNat 8 code).toNat = code.val := by
  rw [BitVec.toNat_ofNat]
  exact Nat.mod_eq_of_lt (Nat.lt_trans code.isLt (by decide))

theorem keyCode_inj (code code' : KeyCode) :
    BitVec.ofNat 8 code = BitVec.ofNat 8 code' ↔ code = code' := by
  rw [← BitVec.toNat_inj, keyCode_toNat, keyCode_toNat, Fin.val_inj]

theorem macKeyAt_keyCode (code : KeyCode) :
    macKeyAt (BitVec.ofNat 8 code) = some (macKey code) := by
  rw [macKeyAt, dif_pos (by rw [keyCode_toNat]; exact code.isLt)]
  simp only [keyCode_toNat]

theorem slotCalls_keyCodes (new prev : Slot → KeyCode) (i : Slot) :
    slotCalls (BitVec.ofNat 8 (new i)) (BitVec.ofNat 8 (prev i)) =
      some ((slotEvents new prev i).map keyCall) := by
  have empty : BitVec.ofNat 8 (new i) = 0 ↔ new i = 0 := keyCode_inj (new i) 0
  rw [slotCalls, slotEvents, macKeyAt_keyCode, macKeyAt_keyCode]
  simp only [ne_eq, keyCode_inj, empty]
  by_cases changed : new i = prev i
  · simp [changed]
  · rw [if_pos changed, if_pos changed, Option.bind_some, Option.map_some]
    by_cases released : new i = 0
    · rw [if_neg (not_not_intro released), if_neg (not_not_intro released)]
      rfl
    · rw [if_pos released, if_pos released]
      rfl

/-- On the bytes that have an entry it is the loop over key codes. -/
theorem slotLoop_keyCodes (new prev : Slot → KeyCode) (slots : List Slot) :
    slotLoop (fun i => BitVec.ofNat 8 (new i)) (fun i => BitVec.ofNat 8 (prev i)) slots =
      some ((slots.flatMap (slotEvents new prev)).map keyCall) := by
  induction slots with
  | nil => rfl
  | cons i slots ih =>
    rw [slotLoop, ih, slotCalls_keyCodes, List.flatMap_cons, List.map_append]
    rfl

theorem macKeyAt_inside_iff (code : BitVec 8) :
    (∃ macCode, macKeyAt code = some macCode ∧ (keyTarget macCode).Inside) ↔ HasMacKey code := by
  have table : ∀ n : Fin 256,
      (macKeyAt (BitVec.ofNat 8 n)).any (fun macCode => decide (keyTarget macCode).Inside) =
        decide (HasMacKey (BitVec.ofNat 8 n)) := by
    decide +kernel
  have entry := table ⟨code.toNat, code.isLt⟩
  rw [BitVec.ofNat_toNat, BitVec.setWidth_eq] at entry
  rw [← decide_eq_true_iff (p := HasMacKey code), ← entry, Option.any_eq_true]
  simp only [decide_eq_true_eq]

theorem slotCalls_safe_iff (new prev : BitVec 8) :
    (∃ calls, slotCalls new prev = some calls ∧ ∀ call ∈ calls, call.key.Inside) ↔
      (new ≠ prev → HasMacKey prev ∧ (new = 0 ∨ HasMacKey new)) := by
  by_cases changed : new = prev
  · exact iff_of_true ⟨[], by simp [slotCalls, changed], by simp⟩ fun other => absurd changed other
  · rw [forall_prop_of_true changed, ← macKeyAt_inside_iff, ← macKeyAt_inside_iff, slotCalls,
      if_pos changed]
    -- The key before is released in any case, the new one is pressed unless it is 0.
    cases up : macKeyAt prev with
    | none => simp
    | some up =>
      by_cases empty : new = 0#8
      · simp [empty]
      · cases down : macKeyAt new with
        | none => simp [empty]
        | some down => simp [empty]

theorem slotLoop_safe_iff (new prev : Slot → BitVec 8) (slots : List Slot) :
    (∃ calls, slotLoop new prev slots = some calls ∧ ∀ call ∈ calls, call.key.Inside) ↔
      ∀ i ∈ slots, new i ≠ prev i → HasMacKey (prev i) ∧ (new i = 0 ∨ HasMacKey (new i)) := by
  induction slots with
  | nil => simp [slotLoop]
  | cons i slots ih =>
    rw [List.forall_mem_cons, ← ih, ← slotCalls_safe_iff, slotLoop]
    cases slotCalls (new i) (prev i) with
    | none => simp
    | some first =>
      cases slotLoop new prev slots with
      | none => simp
      | some rest => simp [or_imp, forall_and]

theorem pressEdge_inside {code : Nat} (small : code ≤ 127) (pressed prevPressed : Bool) :
    ∀ call ∈ (pressEdge code pressed prevPressed).map keyCall, call.key.Inside := by
  have value : (keyTarget code).Inside := by
    rw [keyTarget, Target.Inside, BitVec.toNat_ofNat]
    exact Nat.le_trans (Nat.mod_le _ _) small
  intro call member
  cases pressed <;> cases prevPressed <;> simp [pressEdge] at member
  · rw [member]
    exact value
  · rw [member]
    exact value

theorem modifiers_inside (locked capsLock : Bool) (new prev : BitVec 8) :
    ∀ call ∈ (modifierEvents locked capsLock new prev).map keyCall, call.key.Inside := by
  simp only [modifierEvents, List.map_append, List.forall_mem_append]
  exact ⟨⟨⟨⟨pressEdge_inside (by decide) _ _, pressEdge_inside (by decide) _ _⟩,
    pressEdge_inside (by decide) _ _⟩, pressEdge_inside (by decide) _ _⟩,
    pressEdge_inside (by decide) _ _⟩

/-- A report is safe exactly if the slots that change are good. -/
theorem reportSafe_iff (st : HidKeyboard) (report : HidReport) :
    ReportSafe st report ↔ SlotsGood st.prevKeys report.keycodes := by
  have slots := slotLoop_safe_iff report.keycodes st.prevKeys (List.finRange 6)
  simp only [List.mem_finRange, forall_true_left] at slots
  rw [SlotsGood, ← slots, ReportSafe, reportCalls]
  simp only [callsSafe_iff]
  cases slotLoop report.keycodes st.prevKeys (List.finRange 6) with
  | none => simp
  | some keys =>
    have modifiers := modifiers_inside (report.locks.getLsbD 1) st.capsLock report.modifiers
      st.prevModifiers
    -- The modifiers are in range in any report, so the slots decide.
    simp only [Option.map_some, Option.some.injEq, exists_eq_left', List.forall_mem_append]
    exact and_iff_right modifiers

/-- The report of a keyboard whose bytes all have an entry makes the calls of `process`. -/
theorem reportCalls_process (st : Keyboard) (report : Report) :
    ∃ calls, (process st report).calls = st.calls ++ calls ∧
      reportCalls ⟨st.capsLock, fun i => BitVec.ofNat 8 (st.prevKeys i), st.prevModifiers⟩
        ⟨report.modifiers, report.locks, fun i => BitVec.ofNat 8 (report.keycodes i)⟩ =
        some (calls.map keyCall) := by
  refine ⟨modifierEvents (report.locks.getLsbD 1) st.capsLock report.modifiers st.prevModifiers ++
    (List.finRange 6).flatMap (slotEvents report.keycodes st.prevKeys), ?_, ?_⟩
  · simp only [process, modifierEvents, List.append_assoc]
  · rw [reportCalls, slotLoop_keyCodes, Option.map_some, List.map_append]

/-! ### Input maps -/

/-- Some buttons meet the condition of the map. -/
def Map.Pressable (m : Map) : Prop := m.pressed &&& m.notPressed = 0

/-- The number stands for a key or a mouse button of the Mac. -/
def KeyGood (key : BitVec 32) : Prop :=
  if key &&& 0x100 ≠ 0 then (key &&& 7).toNat ≤ 2 else key.toNat ≤ 127

/-- A map that moves the mouse or toggles caps lock has no other keys, and 255 is none but as the
first one. -/
def Map.KeysGood (m : Map) : Prop :=
  m.moves = true ∨ m.key1 = 57 ∨
    (KeyGood m.key1 ∧ (m.key2 = 0xFF ∨ KeyGood m.key2) ∧ (m.key3 = 0xFF ∨ KeyGood m.key3) ∧
      (m.key4 = 0xFF ∨ KeyGood m.key4))

/-- The maps that can be pressed have good keys. -/
def MapsGood (table : MapIndex → Map) : Prop :=
  ∀ i ∈ liveMaps table, (table i).Pressable → (table i).KeysGood

/-- The loop of `VideoInterrupt`, for one state of the buttons after the other. -/
def mapLoops (st : Video) : List (BitVec 32) → Video
  | [] => st
  | buttons :: rest => mapLoops (mapLoop buttons (List.finRange 64) st) rest

theorem pressable_iff (m : Map) : m.Pressable ↔ ∃ buttons, m.pressedBy buttons = true := by
  simp only [Map.Pressable, Map.pressedBy, Bool.and_eq_true, decide_eq_true_eq]
  constructor
  · intro apart
    refine ⟨m.pressed, BitVec.and_self, ?_⟩
    apply BitVec.eq_of_getLsbD_eq
    intro i inside
    have bit : (m.pressed.getLsbD i && m.notPressed.getLsbD i) = false := by
      rw [← BitVec.getLsbD_and, apart]
      exact BitVec.getLsbD_zero
    rw [BitVec.getLsbD_and, BitVec.getLsbD_not, decide_eq_true inside, Bool.true_and]
    cases notPressed : m.notPressed.getLsbD i with
    | false => exact Bool.and_false _
    | true =>
      rw [notPressed, Bool.and_true] at bit
      rw [bit]
      rfl
  · rintro ⟨buttons, pressed, notPressed⟩
    -- What has to be pressed is among the buttons, what must not is among the others.
    calc m.pressed &&& m.notPressed
        = (buttons &&& m.pressed) &&& (~~~buttons &&& m.notPressed) := by rw [pressed, notPressed]
      _ = (buttons &&& ~~~buttons) &&& (m.pressed &&& m.notPressed) := by ac_rfl
      _ = 0 := by simp

theorem firstKey_inside_iff (key : BitVec 32) :
    (∀ t ∈ firstKey key, t.Inside) ↔ KeyGood key := by
  rw [firstKey, KeyGood]
  split <;> simp [Target.Inside]

theorem otherKey_inside_iff (key : BitVec 32) :
    (∀ t ∈ otherKey key, t.Inside) ↔ key = 0xFF ∨ KeyGood key := by
  rw [otherKey, KeyGood]
  by_cases button : key &&& 0x100 ≠ 0
  · -- 255 has no bit for a mouse button.
    have some : key ≠ 255#32 := by
      rintro rfl
      exact absurd button (by decide)
    rw [if_pos button, if_pos button]
    simp [Target.Inside, some]
  · rw [if_neg button, if_neg button]
    by_cases none : key = 255#32
    · simp [none]
    · simp [Target.Inside, none]

theorem keysGood_iff (m : Map) : m.KeysGood ↔ ∀ t ∈ m.targets, t.Inside := by
  rw [Map.KeysGood]
  by_cases moves : m.moves = true
  · exact iff_of_true (.inl moves) (by simp [targets_moves moves])
  · by_cases caps : m.key1 = 57
    · exact iff_of_true (.inr (.inl caps)) (by simp [targets_caps caps])
    · rw [targets_plain (Bool.eq_false_of_not_eq_true moves) caps]
      simp only [List.forall_mem_append, firstKey_inside_iff, otherKey_inside_iff, moves, caps,
        false_or, and_assoc]
      simp

/-! ### The calls of the loop -/

/-- The calls so far are in range, and so are the keys of the maps that are down. -/
structure MapsInside (table : MapIndex → Map) (st : Video) : Prop where
  same : SameMaps table st.buttonMap
  calls : ∀ call ∈ st.calls, call.key.Inside
  movesUp : MovesUp st.buttonMap
  down : ∀ i, (st.buttonMap i).down = true → ∀ t ∈ (table i).targets, t.Inside

theorem forall_called {calls : List (Event Target)} {targets : List Target}
    {event : Target → Event Target} (own : ∀ t, (event t).key = t)
    (inside : ∀ call ∈ calls, call.key.Inside) (range : ∀ t ∈ targets, t.Inside) :
    ∀ call ∈ calls ++ targets.map event, call.key.Inside := by
  refine List.forall_mem_append.mpr ⟨inside, fun call member => ?_⟩
  obtain ⟨t, target, rfl⟩ := List.mem_map.mp member
  rw [own]
  exact range t target

variable {st : Video} {i : MapIndex}

theorem keyDown_calls (inside : ∀ call ∈ st.calls, call.key.Inside)
    (targets : ∀ t ∈ (st.buttonMap i).targets, t.Inside) :
    ∀ call ∈ (keyDown st i).calls, call.key.Inside := by
  simp only [keyDown]
  split
  · exact inside
  next still =>
    split
    · exact inside
    · split
      next caps =>
        refine List.forall_mem_append.mpr ⟨inside, List.forall_mem_singleton.mpr ?_⟩
        have capsLock : capsLockKey.Inside := by decide
        split <;> exact capsLock
      next caps =>
        rw [targets_plain (Bool.eq_false_of_not_eq_true still) caps] at targets
        exact forall_called key_press inside targets

theorem keyUp_calls (inside : ∀ call ∈ st.calls, call.key.Inside)
    (still : (st.buttonMap i).moves = false) (targets : ∀ t ∈ (st.buttonMap i).targets, t.Inside) :
    ∀ call ∈ (keyUp st i).calls, call.key.Inside := by
  simp only [keyUp]
  split
  · exact inside
  · split
    · exact inside
    next caps =>
      rw [targets_plain still caps] at targets
      -- The keys are released the other way round.
      simp only [List.forall_mem_append] at targets
      obtain ⟨⟨⟨first, second⟩, third⟩, fourth⟩ := targets
      refine forall_called key_release inside ?_
      simp only [List.forall_mem_append]
      exact ⟨⟨⟨fourth, third⟩, second⟩, first⟩

theorem visitMap_flag {buttons : BitVec 32}
    (set : ((visitMap buttons st i).buttonMap i).down = true) :
    (st.buttonMap i).down = true ∨ (st.buttonMap i).pressedBy buttons = true := by
  by_contra neither
  rw [not_or] at neither
  rw [visitMap, if_neg neither.2, if_neg neither.1] at set
  exact neither.1 set

variable {table : MapIndex → Map}

/-- A visit keeps the calls in range, if the map has good keys when it can be pressed. -/
theorem visitMap_inside (buttons : BitVec 32) (inside : MapsInside table st)
    (good : (table i).Pressable → (table i).KeysGood) :
    MapsInside table (visitMap buttons st i) := by
  have targets : (st.buttonMap i).targets = (table i).targets := inside.same.targets i
  have pressed_inside : (st.buttonMap i).pressedBy buttons = true →
      ∀ t ∈ (table i).targets, t.Inside := by
    intro pressed
    rw [inside.same.pressedBy] at pressed
    exact (keysGood_iff _).mp (good ((pressable_iff _).mpr ⟨buttons, pressed⟩))
  refine ⟨inside.same.trans (visitMap_sameMaps buttons st i), ?_,
    visitMap_movesUp buttons inside.movesUp, ?_⟩
  · rw [visitMap]
    split
    next pressed => exact keyDown_calls inside.calls (targets ▸ pressed_inside pressed)
    · split
      next down =>
        -- Its keys went down before, so they are in range.
        have still : (st.buttonMap i).moves = false := by
          by_contra moves
          have up := inside.movesUp i (Bool.eq_true_of_not_eq_false moves)
          exact Bool.false_ne_true (up.symm.trans down)
        exact keyUp_calls inside.calls still (targets ▸ inside.down i down)
      · exact inside.calls
  · intro j down
    -- Only the flag of the map that is visited may have been set.
    by_cases own : j = i
    · subst own
      rcases visitMap_flag down with before | pressed
      · exact inside.down j before
      · exact pressed_inside pressed
    · rw [visitMap_other own] at down
      exact inside.down j down

theorem mapLoop_inside (good : MapsGood table) (buttons : BitVec 32) {maps : List MapIndex}
    (inside : MapsInside table st)
    (live : ∀ i ∈ maps.takeWhile fun i => (table i).pressed ≠ 0, i ∈ liveMaps table) :
    MapsInside table (mapLoop buttons maps st) := by
  -- Induction on the maps still to come, of which those before the first without buttons count.
  induction maps generalizing st with
  | nil => exact inside
  | cons i maps ih =>
    rw [mapLoop]
    split
    · exact inside
    next buttons_needed =>
      rw [inside.same.pressed] at buttons_needed
      rw [List.takeWhile_cons_of_pos (by simpa using buttons_needed), List.forall_mem_cons] at live
      exact ih (visitMap_inside buttons inside (good i live.1)) live.2

theorem mapLoops_inside (good : MapsGood table) (pads : List (BitVec 32))
    (inside : MapsInside table st) : MapsInside table (mapLoops st pads) := by
  induction pads generalizing st with
  | nil => exact inside
  | cons buttons pads ih => exact ih (mapLoop_inside good buttons inside fun _ member => member)

/-- A map file has been loaded, and no map has pressed its keys. -/
def afterLoad (capsLock : Bool) (file : CString) : Video :=
  { Video.initial with capsLock, buttonMap := parseImap file }

theorem afterLoad_up (capsLock : Bool) (file : CString) (i : MapIndex) :
    ((afterLoad capsLock file).buttonMap i).down = false := tableOf_up (parseMaps_up _ _ _) i

theorem afterLoad_inside (capsLock : Bool) (file : CString) :
    MapsInside (parseImap file) (afterLoad capsLock file) where
  same := .refl _
  calls := by simp [afterLoad, Video.initial]
  movesUp := fun i _ => afterLoad_up capsLock file i
  down := fun i down => absurd ((afterLoad_up capsLock file i).symm.trans down) Bool.false_ne_true

theorem pressed_called (st : Video) {buttons : BitVec 32} {t : Target} (same : st.buttonMap = table)
    (up : ∀ j, (table j).down = false) (live : i ∈ liveMaps table)
    (pressed : (table i).pressedBy buttons = true) (target : t ∈ (table i).targets)
    (other : t ≠ capsLockKey) :
    ∃ call ∈ (mapLoop buttons (List.finRange 64) st).calls, call.key = t := by
  have down : (mapLoop buttons (List.finRange 64) st).isDown t = true := by
    rw [mapLoop_isDown (List.nodup_finRange 64) (fun j _ => by rw [same]; exact up j) other, same]
    refine (afterTurns_iff (liveMaps_sorted table) _).mpr ⟨.inr ⟨i, live, ?_⟩, ?_⟩
    · exact (turn_press table buttons t i).mpr ⟨target, pressed, up i⟩
    · intro j _ released
      -- No map is down yet, so none releases anything.
      have was := ((turn_release table buttons t j).mp released).2.2
      exact absurd ((up j).symm.trans was) Bool.false_ne_true
  by_contra none
  push Not at none
  exact absurd (down.symm.trans (downAfter_other none false)) (by simp)

/-- The loop keeps to the tables, whatever buttons are pressed, exactly if the maps are good. -/
theorem mapsSafe_iff (capsLock : Bool) (file : CString) :
    (∀ pads, CallsSafe (mapLoops (afterLoad capsLock file) pads).calls) ↔
      MapsGood (parseImap file) := by
  simp only [callsSafe_iff]
  constructor
  · intro safe i live pressable
    obtain ⟨buttons, pressed⟩ := (pressable_iff _).mp pressable
    rw [keysGood_iff]
    intro t target
    by_cases caps : t = capsLockKey
    · rw [caps]
      decide
    · obtain ⟨call, member, rfl⟩ := pressed_called (afterLoad capsLock file) rfl
        (afterLoad_up capsLock file) live pressed target caps
      exact safe [buttons] call member
  · intro good pads
    exact (mapLoops_inside good pads (afterLoad_inside capsLock file)).calls

/-! ### Both -/

/-- For a report and a map file, nothing leaves a table exactly if the slots that change had a key
and get none or one, and the maps that can be pressed have numbers in range. -/
theorem codes_inside_iff (st : HidKeyboard) (report : HidReport) (capsLock : Bool)
    (file : CString) :
    (ReportSafe st report ∧ ∀ pads, CallsSafe (mapLoops (afterLoad capsLock file) pads).calls) ↔
      SlotsGood st.prevKeys report.keycodes ∧ MapsGood (parseImap file) := by
  rw [reportSafe_iff, mapsSafe_iff]

/-- The first key after the start, in an empty keyboard. -/
def firstPress : HidReport := ⟨0, 0, fun i => if i = 0 then 4 else 0⟩

/-- The slot held no key, and its filler is released. -/
theorem first_press_outside :
    ¬ ∀ (st : HidKeyboard) (report : HidReport) (capsLock : Bool) (file : CString),
      ReportSafe st report ∧ ∀ pads, CallsSafe (mapLoops (afterLoad capsLock file) pads).calls := by
  intro safe
  have report := (safe ⟨false, fun _ => 0, 0⟩ firstPress false []).1
  rw [reportSafe_iff] at report
  have filler := (report 0 (by decide)).1
  exact absurd filler (by decide)

end BasiliskII.Input
