import BasiliskII.Input.InputMaps
import BasiliskII.Library.StepSystem

/-!
# The keys held through input maps

Every map remembers in its flag that it has pressed its keys, but loading a map
file clears the flags of keys that are down, a key that two maps share goes up when one of them
does, and no map is looked at while the menu or the on-screen keyboard is shown.
The keys that are down are those of the pressed maps in exactly the runs in
which none of this changes what they want.
-/
namespace BasiliskII.Input

open PressLog StepSystem

/-! ### What the maps want -/

/-- The keys and buttons of a map. One that moves the mouse or toggles caps lock has none. -/
def Map.targets (m : Map) : List Target :=
  if m.moves || m.key1 = 57 then []
  else firstKey m.key1 ++ otherKey m.key2 ++ otherKey m.key3 ++ otherKey m.key4

/-- The maps the loop goes through: those before the first that has no buttons. -/
def liveMaps (table : MapIndex → Map) : List MapIndex :=
  (List.finRange 64).takeWhile fun i => (table i).pressed ≠ 0

/-- The keys and buttons of the maps whose condition the buttons of the pad meet. -/
def wanted (table : MapIndex → Map) (buttons : BitVec 32) : List Target :=
  ((liveMaps table).filter fun i => (table i).pressedBy buttons).flatMap fun i =>
    (table i).targets

theorem mem_wanted {table : MapIndex → Map} {buttons : BitVec 32} {t : Target} :
    t ∈ wanted table buttons ↔
      ∃ i ∈ liveMaps table, (table i).pressedBy buttons = true ∧ t ∈ (table i).targets := by
  simp only [wanted, List.mem_flatMap, List.mem_filter, and_assoc]

/-- The maps of the second table differ from those of the first in their flags only. -/
def SameMaps (table table' : MapIndex → Map) : Prop :=
  ∀ i, ∃ down, table' i = { table i with down := down }

theorem SameMaps.refl (table : MapIndex → Map) : SameMaps table table :=
  fun i => ⟨(table i).down, rfl⟩

theorem SameMaps.trans {table table' table'' : MapIndex → Map} (first : SameMaps table table')
    (second : SameMaps table' table'') : SameMaps table table'' := by
  intro i
  obtain ⟨_, same⟩ := first i
  obtain ⟨down, same'⟩ := second i
  exact ⟨down, by rw [same', same]⟩

section SameMaps

variable {table table' : MapIndex → Map} (same : SameMaps table table')
include same

theorem SameMaps.pressed (i : MapIndex) : (table' i).pressed = (table i).pressed := by
  obtain ⟨_, same⟩ := same i
  rw [same]

theorem SameMaps.pressedBy (i : MapIndex) : (table' i).pressedBy = (table i).pressedBy := by
  obtain ⟨_, same⟩ := same i
  rw [same]
  rfl

theorem SameMaps.targets (i : MapIndex) : (table' i).targets = (table i).targets := by
  obtain ⟨_, same⟩ := same i
  rw [same]
  rfl

theorem SameMaps.wanted (buttons : BitVec 32) : wanted table' buttons = wanted table buttons := by
  unfold Input.wanted liveMaps
  simp only [same.pressed, same.pressedBy, same.targets]

end SameMaps

/-! ### One map -/

theorem setDown_own (st : Video) (i : MapIndex) (down : Bool) :
    (st.setDown i down).buttonMap i = { st.buttonMap i with down := down } :=
  Function.update_self ..

theorem setDown_other (st : Video) {i j : MapIndex} (other : j ≠ i) (down : Bool) :
    (st.setDown i down).buttonMap j = st.buttonMap j :=
  Function.update_of_ne other ..

theorem setDown_sameMaps (st : Video) (i : MapIndex) (down : Bool) :
    SameMaps st.buttonMap (st.setDown i down).buttonMap := by
  intro j
  by_cases own : j = i
  · subst own
    exact ⟨down, setDown_own ..⟩
  · exact ⟨(st.buttonMap j).down, setDown_other st own down⟩

/-- What visiting a map does to a key or button. -/
def turn (table : MapIndex → Map) (buttons : BitVec 32) (t : Target) (i : MapIndex) :
    Option Bool :=
  if t ∈ (table i).targets ∧ (table i).pressedBy buttons ≠ (table i).down then
    some ((table i).pressedBy buttons)
  else none

section Visit

variable {st : Video} {i : MapIndex} {t : Target}

theorem targets_moves {m : Map} (moves : m.moves = true) : m.targets = [] := by
  simp [Map.targets, moves]

theorem targets_caps {m : Map} (caps : m.key1 = 57) : m.targets = [] := by
  simp [Map.targets, caps]

theorem targets_plain {m : Map} (still : m.moves = false) (caps : m.key1 ≠ 57) : m.targets =
    firstKey m.key1 ++ otherKey m.key2 ++ otherKey m.key3 ++ otherKey m.key4 := by
  rw [Map.targets, still, Bool.false_or, if_neg (by rwa [decide_eq_true_eq])]

theorem keyDown_isDown (up : (st.buttonMap i).down = false) (other : t ≠ capsLockKey) :
    (keyDown st i).isDown t = if t ∈ (st.buttonMap i).targets then true else st.isDown t := by
  unfold keyDown
  cases moves : (st.buttonMap i).moves with
  | true => simp [moves, targets_moves moves, Video.isDown]
  | false =>
    by_cases caps : (st.buttonMap i).key1 = 57
    · -- the event is about caps lock
      have apart : ∀ e : Event Target, e.key = capsLockKey →
          downAfter t false (st.calls ++ [e]) = st.isDown t := by
        intro e key
        rw [downAfter_append, downAfter_cons, after_other (key ▸ Ne.symm other)]
        rfl
      rw [targets_caps caps]
      simp only [moves, up, caps, Bool.false_eq_true, if_false, if_true, List.not_mem_nil]
      exact apart _ (by split <;> rfl)
    · rw [targets_plain moves caps]
      simp only [moves, up, caps, Bool.false_eq_true, if_false]
      exact (downAfter_append ..).trans (downAfter_presses ..)

theorem keyUp_isDown (down : (st.buttonMap i).down = true)
    (still : (st.buttonMap i).moves = false) :
    (keyUp st i).isDown t = if t ∈ (st.buttonMap i).targets then false else st.isDown t := by
  unfold keyUp
  by_cases caps : (st.buttonMap i).key1 = 57
  · simp [caps, down, targets_caps caps, Video.isDown, Video.setDown]
  · have reversed : t ∈ (st.buttonMap i).targets ↔ t ∈ otherKey (st.buttonMap i).key4 ++
        otherKey (st.buttonMap i).key3 ++ otherKey (st.buttonMap i).key2 ++
          firstKey (st.buttonMap i).key1 := by
      rw [targets_plain still caps]
      simp only [List.mem_append]
      tauto
    rw [if_congr reversed rfl rfl]
    simp only [down, caps, Bool.not_true, Bool.false_eq_true, if_false]
    exact (downAfter_append ..).trans (downAfter_releases ..)

theorem keyDown_again (down : (st.buttonMap i).down = true)
    (still : (st.buttonMap i).moves = false) : keyDown st i = st := by
  simp [keyDown, down, still]

theorem visitMap_isDown (buttons : BitVec 32)
    (up : (st.buttonMap i).moves = true → (st.buttonMap i).down = false)
    (other : t ≠ capsLockKey) :
    (visitMap buttons st i).isDown t = (turn st.buttonMap buttons t i).getD (st.isDown t) := by
  have still : (st.buttonMap i).down = true → (st.buttonMap i).moves = false := by
    intro down
    by_contra moves
    rw [up (Bool.not_eq_false _ ▸ moves)] at down
    cases down
  unfold visitMap turn
  cases pressed : (st.buttonMap i).pressedBy buttons with
  | true =>
    cases down : (st.buttonMap i).down with
    | true =>
      simp [keyDown_again down (still down)]
    | false =>
      rw [if_pos rfl, keyDown_isDown down other]
      by_cases target : t ∈ (st.buttonMap i).targets <;> simp [target]
  | false =>
    cases down : (st.buttonMap i).down with
    | true =>
      rw [if_neg Bool.false_ne_true, if_pos rfl, keyUp_isDown down (still down)]
      by_cases target : t ∈ (st.buttonMap i).targets <;> simp [target]
    | false => simp

/-- A visit changes no flag but that of the map, which is not set if the map moves the mouse. -/
theorem visitMap_table (buttons : BitVec 32) (st : Video) (i : MapIndex) :
    (visitMap buttons st i).buttonMap = st.buttonMap ∨
      ∃ down, (down = true → (st.buttonMap i).moves = false) ∧
        (visitMap buttons st i).buttonMap = (st.setDown i down).buttonMap := by
  unfold visitMap
  split
  · cases moves : (st.buttonMap i).moves with
    | true => exact .inl (by simp [keyDown, moves])
    | false =>
      cases down : (st.buttonMap i).down with
      | true => exact .inl (by simp [keyDown, moves, down])
      | false =>
        refine .inr ⟨true, fun _ => rfl, ?_⟩
        by_cases caps : (st.buttonMap i).key1 = 57 <;> simp only [keyDown, moves, down, caps] <;> rfl
  · split
    next down =>
      refine .inr ⟨false, fun set => absurd set Bool.false_ne_true, ?_⟩
      by_cases caps : (st.buttonMap i).key1 = 57 <;> simp only [keyUp, down, caps] <;> rfl
    · exact .inl rfl

theorem visitMap_other {buttons : BitVec 32} {j : MapIndex} (other : j ≠ i) :
    (visitMap buttons st i).buttonMap j = st.buttonMap j := by
  rcases visitMap_table buttons st i with same | ⟨_, _, set⟩
  · rw [same]
  · rw [set]
    exact setDown_other st other _

theorem visitMap_sameMaps (buttons : BitVec 32) (st : Video) (i : MapIndex) :
    SameMaps st.buttonMap (visitMap buttons st i).buttonMap := by
  rcases visitMap_table buttons st i with same | ⟨down, _, set⟩
  · rw [same]
    exact .refl _
  · rw [set]
    exact setDown_sameMaps st i down

/-- Maps that move the mouse press nothing. -/
def MovesUp (table : MapIndex → Map) : Prop :=
  ∀ i, (table i).moves = true → (table i).down = false

theorem visitMap_movesUp (buttons : BitVec 32) (up : MovesUp st.buttonMap) :
    MovesUp (visitMap buttons st i).buttonMap := by
  rcases visitMap_table buttons st i with same | ⟨down, still, set⟩
  · rwa [same]
  · rw [set]
    intro j moves
    by_cases own : j = i
    · subst own
      rw [setDown_own] at moves ⊢
      cases down with
      | false => rfl
      | true => exact absurd moves (Bool.eq_false_iff.mp (still rfl))
    · rw [setDown_other st own] at moves ⊢
      exact up j moves

end Visit

/-! ### The loop -/

section Loop

variable {buttons : BitVec 32} {maps : List MapIndex} {st : Video}

theorem mapLoop_sameMaps (buttons : BitVec 32) (maps : List MapIndex) (st : Video) :
    SameMaps st.buttonMap (mapLoop buttons maps st).buttonMap := by
  induction maps generalizing st with
  | nil => exact .refl _
  | cons i maps ih =>
    simp only [mapLoop]
    split
    · exact .refl _
    · exact (visitMap_sameMaps buttons st i).trans (ih _)

theorem mapLoop_oldButtons (buttons : BitVec 32) (maps : List MapIndex) (st : Video) :
    (mapLoop buttons maps st).oldButtons = st.oldButtons := by
  induction maps generalizing st with
  | nil => rfl
  | cons i maps ih =>
    have kept : (visitMap buttons st i).oldButtons = st.oldButtons := by
      unfold visitMap keyDown keyUp
      dsimp only
      repeat' split
      all_goals rfl
    simp only [mapLoop]
    split
    · rfl
    · rw [ih, kept]

theorem mapLoop_movesUp (buttons : BitVec 32) (maps : List MapIndex)
    (up : MovesUp st.buttonMap) : MovesUp (mapLoop buttons maps st).buttonMap := by
  induction maps generalizing st with
  | nil => exact up
  | cons i maps ih =>
    simp only [mapLoop]
    split
    · exact up
    · exact ih (visitMap_movesUp buttons up)

/-- The loop makes one turn for each map before the first without buttons. -/
theorem mapLoop_isDown (nodup : maps.Nodup) (up : MovesUp st.buttonMap) {t : Target}
    (other : t ≠ capsLockKey) :
    (mapLoop buttons maps st).isDown t = afterTurns (turn st.buttonMap buttons t) (st.isDown t)
      (maps.takeWhile fun i => (st.buttonMap i).pressed ≠ 0) := by
  induction maps generalizing st with
  | nil => rfl
  | cons i maps ih =>
    obtain ⟨absent, nodup⟩ := List.nodup_cons.mp nodup
    simp only [mapLoop]
    by_cases last : (st.buttonMap i).pressed = 0
    · simp [last]
    · have same := visitMap_sameMaps buttons st i
      rw [if_neg last, ih nodup (visitMap_movesUp buttons up), visitMap_isDown buttons (up i) other,
        List.takeWhile_cons_of_pos (by simpa using last), afterTurns_cons]
      simp only [same.pressed]
      -- the flags of the maps that are still to come are as they were
      refine afterTurns_congr (fun j member => ?_) _
      have later : j ≠ i := by
        rintro rfl
        exact absent (List.takeWhile_subset _ member)
      unfold turn
      rw [visitMap_other later]

theorem liveMaps_sorted (table : MapIndex → Map) : (liveMaps table).Pairwise (· < ·) :=
  (List.pairwise_lt_finRange 64).sublist (List.takeWhile_sublist _)

end Loop

/-! ### Runs -/

section Conditions

variable (table : MapIndex → Map) (buttons : BitVec 32) (t : Target) (i : MapIndex)

/-- The map goes down and presses `t`. -/
def Presses : Prop :=
  t ∈ (table i).targets ∧ (table i).pressedBy buttons = true ∧ (table i).down = false

/-- The map goes up and releases `t`. -/
def Releases : Prop :=
  t ∈ (table i).targets ∧ (table i).pressedBy buttons = false ∧ (table i).down = true

instance : Decidable (Presses table buttons t i) := inferInstanceAs (Decidable (_ ∧ _))

instance : Decidable (Releases table buttons t i) := inferInstanceAs (Decidable (_ ∧ _))

theorem turn_press : turn table buttons t i = some true ↔ Presses table buttons t i := by
  unfold turn Presses
  cases (table i).pressedBy buttons <;> cases (table i).down <;> simp

theorem turn_release : turn table buttons t i = some false ↔ Releases table buttons t i := by
  unfold turn Releases
  cases (table i).pressedBy buttons <;> cases (table i).down <;> simp

end Conditions

/-- It was wanted before or is pressed by a map, and no map releases it after that. -/
def StaysDown (table : MapIndex → Map) (seen buttons : BitVec 32) (t : Target) : Prop :=
  (t ∈ wanted table seen ∨ ∃ i ∈ liveMaps table, Presses table buttons t i) ∧
    ∀ i ∈ liveMaps table, Releases table buttons t i →
      ∃ j ∈ liveMaps table, i < j ∧ Presses table buttons t j

instance (table : MapIndex → Map) (seen buttons : BitVec 32) (t : Target) :
    Decidable (StaysDown table seen buttons t) :=
  inferInstanceAs (Decidable (_ ∧ _))

/-- What is wanted from now on stays down, and what is wanted no longer is released by a map. -/
def LoopKeeps (table : MapIndex → Map) (seen buttons : BitVec 32) : Prop :=
  (∀ t ∈ wanted table buttons, t ≠ capsLockKey → StaysDown table seen buttons t) ∧
    ∀ t ∈ wanted table seen, t ≠ capsLockKey → t ∉ wanted table buttons →
      ∃ i ∈ liveMaps table, Releases table buttons t i

/-- The maps there are now want from the buttons what the maps before wanted. -/
def SameWanted (table table' : MapIndex → Map) (seen buttons : BitVec 32) : Prop :=
  (∀ t ∈ wanted table seen, t ≠ capsLockKey → t ∈ wanted table' buttons) ∧
    ∀ t ∈ wanted table' buttons, t ≠ capsLockKey → t ∈ wanted table seen

instance (table : MapIndex → Map) (seen buttons : BitVec 32) :
    Decidable (LoopKeeps table seen buttons) :=
  inferInstanceAs (Decidable (_ ∧ _))

instance (table table' : MapIndex → Map) (seen buttons : BitVec 32) :
    Decidable (SameWanted table table' seen buttons) :=
  inferInstanceAs (Decidable (_ ∧ _))

def KeepsHeld (st : Video) (frame : Frame) : Prop :=
  if st.nextShowMenu frame then
    SameWanted st.buttonMap (frame.load.elim st.buttonMap parseImap) st.oldButtons frame.buttons
  else if st.nextInputMode frame then
    SameWanted st.buttonMap st.buttonMap st.oldButtons frame.buttons
  else LoopKeeps st.buttonMap st.oldButtons frame.buttons

instance (st : Video) (frame : Frame) : Decidable (KeepsHeld st frame) :=
  inferInstanceAs (Decidable (ite ..))

/-- Apart from caps lock, what is down is what the maps pressed by the pad want, and nothing is
down once all buttons are released. -/
structure HeldByMaps (st : Video) : Prop where
  held : ∀ t, t ≠ capsLockKey → (st.isDown t = true ↔ t ∈ wanted st.buttonMap st.oldButtons)
  released : st.oldButtons = 0 → ∀ t, t ≠ capsLockKey → st.isDown t = false

/-- A live map has buttons, so it is not pressed when none is. -/
theorem wanted_zero (table : MapIndex → Map) : wanted table 0 = [] := by
  refine List.eq_nil_iff_forall_not_mem.mpr fun t member => ?_
  obtain ⟨i, live, pressed, _⟩ := mem_wanted.mp member
  have buttons : (table i).pressed ≠ 0 := by
    simpa using List.mem_takeWhile_imp live
  simp only [Map.pressedBy, Bool.and_eq_true, decide_eq_true_eq] at pressed
  exact buttons (by simpa using pressed.1.symm)

theorem HeldByMaps.of_held {st : Video}
    (held : ∀ t, t ≠ capsLockKey → (st.isDown t = true ↔ t ∈ wanted st.buttonMap st.oldButtons)) :
    HeldByMaps st where
  held := held
  released := by
    intro none t other
    have := held t other
    rw [none, wanted_zero] at this
    simpa using this

theorem mapLoop_held_iff (st : Video) (seen buttons : BitVec 32) (up : MovesUp st.buttonMap)
    (held : ∀ t, t ≠ capsLockKey → (st.isDown t = true ↔ t ∈ wanted st.buttonMap seen)) :
    (∀ t, t ≠ capsLockKey → ((mapLoop buttons (List.finRange 64) st).isDown t = true ↔
      t ∈ wanted st.buttonMap buttons)) ↔ LoopKeeps st.buttonMap seen buttons := by
  have after {t : Target} (other : t ≠ capsLockKey) :
      (mapLoop buttons (List.finRange 64) st).isDown t = true ↔
        StaysDown st.buttonMap seen buttons t := by
    rw [mapLoop_isDown (List.nodup_finRange 64) up other]
    change afterTurns _ _ (liveMaps st.buttonMap) = true ↔ _
    rw [afterTurns_iff (liveMaps_sorted _), held t other]
    simp only [turn_press, turn_release, StaysDown]
  constructor
  · intro kept
    refine ⟨fun t now other => (after other).mp ((kept t other).mpr now), ?_⟩
    intro t before other gone
    by_contra unreleased
    push Not at unreleased
    exact gone ((kept t other).mp ((after other).mpr
      ⟨.inl before, fun i live released => absurd released (unreleased i live)⟩))
  · rintro ⟨stays, gone⟩ t other
    rw [after other]
    refine ⟨fun down => ?_, fun now => stays t now other⟩
    by_contra unwanted
    have unpressed : ¬ ∃ i ∈ liveMaps st.buttonMap, Presses st.buttonMap buttons t i := by
      rintro ⟨i, live, target, pressed, _⟩
      exact unwanted (mem_wanted.mpr ⟨i, live, pressed, target⟩)
    obtain ⟨pressed, released⟩ := down
    obtain ⟨i, live, release⟩ := gone t (pressed.resolve_right unpressed) other unwanted
    obtain ⟨j, live', _, press⟩ := released i live release
    exact unpressed ⟨j, live', press⟩

theorem same_held_iff {st : Video} {table : MapIndex → Map} {seen buttons : BitVec 32}
    (held : ∀ t, t ≠ capsLockKey → (st.isDown t = true ↔ t ∈ wanted st.buttonMap seen)) :
    (∀ t, t ≠ capsLockKey → (st.isDown t = true ↔ t ∈ wanted table buttons)) ↔
      SameWanted st.buttonMap table seen buttons := by
  constructor
  · intro kept
    exact ⟨fun t before other => (kept t other).mp ((held t other).mpr before),
      fun t after other => (held t other).mp ((kept t other).mpr after)⟩
  · rintro ⟨kept, fresh⟩ t other
    rw [held t other]
    exact ⟨fun before => kept t before other, fun after => fresh t after other⟩

theorem tableOf_up {maps : List Map} (up : ∀ m ∈ maps, m.down = false) (i : MapIndex) :
    (tableOf maps i).down = false := by
  unfold tableOf
  rw [List.getD_eq_getElem?_getD]
  cases row : maps[i.val]? with
  | none => rfl
  | some m => exact up m (List.mem_of_getElem? row)

theorem movesUp_tableOf {maps : List Map} (up : ∀ m ∈ maps, m.down = false) :
    MovesUp (tableOf maps) := fun i _ => tableOf_up up i

theorem scanMap_up {temp : CString} {m : Map} (scanned : scanMap temp = some m) :
    m.down = false := by
  simp only [scanMap, Option.bind_eq_bind, Option.bind_eq_some_iff, Option.pure_def,
    Option.some.injEq] at scanned
  obtain ⟨_, _, _, _, _, _, _, _, _, _, _, _, rfl⟩ := scanned
  rfl

theorem parseMaps_up (fuel room : Nat) (stream : CString) :
    ∀ m ∈ parseMaps fuel room stream, m.down = false := by
  induction fuel generalizing room stream with
  | zero => simp [parseMaps]
  | succ fuel ih =>
    cases room with
    | zero => simp [parseMaps]
    | succ room =>
      intro m member
      simp only [parseMaps] at member
      split at member
      · cases member
      · split at member
        · cases member
        · split at member
          · exact ih _ _ m member
          · split at member
            · cases member
            next scanned =>
              rcases List.mem_cons.mp member with rfl | later
              · exact scanMap_up scanned
              · exact ih _ _ m later

/-- The invariant of the runs in which the maps keep what they hold. -/
structure MapsKnown (st : Video) : Prop where
  movesUp : MovesUp st.buttonMap
  heldByMaps : HeldByMaps st

theorem mapsKnown_initial : MapsKnown Video.initial where
  movesUp := movesUp_tableOf (by decide)
  heldByMaps := by
    refine .of_held fun t _ => ?_
    have none : wanted Video.initial.buttonMap Video.initial.oldButtons = [] := wanted_zero _
    rw [none]
    simp [Video.initial, Video.isDown]

theorem heldByMaps_iff {st : Video} : HeldByMaps st ↔
    ∀ t, t ≠ capsLockKey → (st.isDown t = true ↔ t ∈ wanted st.buttonMap st.oldButtons) :=
  ⟨HeldByMaps.held, .of_held⟩

theorem videoInterrupt_held_iff {st : Video} {frame : Frame} (known : MapsKnown st) :
    HeldByMaps (videoInterrupt st frame) ↔ KeepsHeld st frame := by
  obtain ⟨up, held⟩ := known
  have held := held.held
  rw [heldByMaps_iff, videoInterrupt, KeepsHeld]
  by_cases menu : st.nextShowMenu frame = true
  · rw [if_pos menu, if_pos menu]
    cases frame.load <;> exact same_held_iff held
  · rw [if_neg menu, if_neg menu]
    by_cases typing : st.nextInputMode frame = true
    · rw [if_pos typing, if_pos typing]
      exact same_held_iff held
    · rw [if_neg typing, if_neg typing]
      let st' : Video := { st with
        oldButtons := frame.buttons
        inputMode := st.nextInputMode frame
        showMenu := st.nextShowMenu frame }
      have same := (mapLoop_sameMaps frame.buttons (List.finRange 64) st').wanted frame.buttons
      have loop := mapLoop_held_iff st' st.oldButtons frame.buttons up held
      rw [← same] at loop
      rw [mapLoop_oldButtons]
      exact loop

theorem videoInterrupt_movesUp {st : Video} (frame : Frame) (up : MovesUp st.buttonMap) :
    MovesUp (videoInterrupt st frame).buttonMap := by
  unfold videoInterrupt
  split
  · split
    · exact up
    · exact movesUp_tableOf (parseMaps_up _ _ _)
  · split
    · exact up
    · exact mapLoop_movesUp _ _ up

def interruptStep (st : Video) (frame : Frame) : Option Video := some (videoInterrupt st frame)

theorem step_mapsKnown {st st' : Video} {frame : Frame} (known : MapsKnown st)
    (keeps : KeepsHeld st frame) (taken : interruptStep st frame = some st') : MapsKnown st' := by
  cases taken
  exact ⟨videoInterrupt_movesUp frame known.movesUp, (videoInterrupt_held_iff known).mpr keeps⟩

theorem step_keepsHeld {st st' : Video} {frame : Frame} (known : MapsKnown st)
    (taken : interruptStep st frame = some st') (held : HeldByMaps st') : KeepsHeld st frame := by
  cases taken
  exact (videoInterrupt_held_iff known).mp held

/-- An interrupt without the on-screen keyboard. -/
def padFrame (buttons : BitVec 32) : Frame := ⟨buttons, false, none⟩

def interrupts (frames : List Frame) : Video := frames.foldl videoInterrupt Video.initial

def upImap : CString := ascii "0x0010 0x0000 49 255 255 255"

end BasiliskII.Input
