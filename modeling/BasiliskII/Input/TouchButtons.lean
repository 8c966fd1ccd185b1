import BasiliskII.Input.Touch
import BasiliskII.Library.StepSystem
import Mathlib.Data.Fintype.Basic

/-!
# Mouse buttons held by gestures

The drags and clicks of both panels press the same two buttons, and no one
counts them: the first that ends raises the button. The start of a click is
kept as an `int` whose zero means that there is none. A button is down while
some drag or click uses it in exactly the runs in which the button is raised
with the end of its last use.
-/
namespace BasiliskII.Input

open PressLog StepSystem

instance : Fintype Port := ⟨{.front, .back}, fun port => by cases port <;> decide⟩

instance : Fintype Button := ⟨{.left, .right}, fun b => by cases b <;> decide⟩

section Frame

variable (st : Touch) (port : Port) (p : Panel) (b : Button) (click : Option Time)

@[simp] theorem setPanel_own : (st.setPanel port p).panels port = p := Function.update_self ..

@[simp] theorem setPanel_other {port' : Port} (other : port' ≠ port) :
    (st.setPanel port p).panels port' = st.panels port' :=
  Function.update_of_ne other ..

@[simp] theorem setPanel_calls : (st.setPanel port p).calls = st.calls := rfl

@[simp] theorem adbMouseDown_panels : (st.adbMouseDown b).panels = st.panels := rfl

@[simp] theorem adbMouseDown_calls : (st.adbMouseDown b).calls = st.calls ++ [.press b] := rfl

@[simp] theorem adbMouseUp_panels : (st.adbMouseUp b).panels = st.panels := rfl

@[simp] theorem adbMouseUp_calls : (st.adbMouseUp b).calls = st.calls ++ [.release b] := rfl

@[simp] theorem setClick_panels : (st.setClick port b click).panels = st.panels := rfl

@[simp] theorem setClick_calls : (st.setClick port b click).calls = st.calls := rfl

@[simp] theorem setClick_own : (st.setClick port b click).clicks port b = click := by
  simp [Touch.setClick]

@[simp] theorem setClick_other {port' : Port} {b' : Button} (other : port' ≠ port ∨ b' ≠ b) :
    (st.setClick port b click).clicks port' b' = st.clicks port' b' := by
  by_cases own : port' = port
  · subst own
    simp [Touch.setClick, other.resolve_left (fun differs => differs rfl)]
  · simp [Touch.setClick, own]

end Frame

/-! ### Uses of a button -/

/-- The panel is in a drag with the button. -/
def Touch.Drags (st : Touch) (port : Port) (b : Button) : Prop :=
  (st.panels port).dragging.button = some b

/-- The panel has a click of the button whose duration has not elapsed. -/
def Touch.Clicks (st : Touch) (port : Port) (b : Button) : Prop := st.clicks port b ≠ none

def Touch.Uses (st : Touch) (b : Button) : Prop := ∃ port, st.Drags port b ∨ st.Clicks port b

instance (st : Touch) (port : Port) (b : Button) : Decidable (st.Drags port b) :=
  inferInstanceAs (Decidable (_ = _))

instance (st : Touch) (port : Port) (b : Button) : Decidable (st.Clicks port b) :=
  inferInstanceAs (Decidable (_ ≠ _))

instance (st : Touch) (b : Button) : Decidable (st.Uses b) :=
  inferInstanceAs (Decidable (∃ _, _))

@[simp] theorem button_none : Dragging.none.button = none := rfl

theorem button_eq_none {dragging : Dragging} (none : dragging.button = none) :
    dragging = .none := by
  cases dragging with
  | none => rfl
  | twoFinger | threeFinger => cases none

/-- What is stored for a panel that will raise the button. -/
def outstanding (p : Panel) (b : Button) : Nat :=
  (if p.dragging.button = some b then 1 else 0) + if p.clickStart b ≠ 0 then 1 else 0

def totalOutstanding (st : Touch) (b : Button) : Nat :=
  outstanding (st.panels .front) b + outstanding (st.panels .back) b

/-- For every release so far, and every one that is to come, there has been a press. -/
structure Balanced (st : Touch) (b : Button) : Prop where
  enough : st.calls.count (.release b) + totalOutstanding st b ≤ st.calls.count (.press b)
  matched : Matched b st.calls

/-! ### Fingers -/

/-- No finger is tracked twice. -/
def UniqueIds (fingers : FingerIndex → Finger) : Prop :=
  ∀ i j id, (fingers i).id = some id → (fingers j).id = some id → i = j

/-- No finger is tracked twice, and a drag has a finger down. -/
structure PanelSound (p : Panel) : Prop where
  unique : UniqueIds p.fingers
  dragHeld : p.dragging ≠ .none → ∃ i, ((p.fingers i).id).isSome

/-- The panel without a finger. -/
def liftedPanel (p : Panel) (i : FingerIndex) : Panel :=
  { p with fingers := Function.update p.fingers i { p.fingers i with id := none } }

section Lift

variable {st : Touch} {port : Port} {id : Nat} {i : FingerIndex} (time : Time) (near : Bool)
  (numDown : Nat)

/-- Lifting a finger that is tracked clicks, ends a drag, or does nothing else. -/
theorem liftFinger_cases (own : ((st.panels port).fingers i).id = some id) :
    let p := st.panels port
    let st' := liftFinger port id time near numDown st i
    (p.dragging.button = none ∧
        ∃ b, st' = startClick (st.setPanel port (liftedPanel p i)) port b time) ∨
      (¬ (numDown = 1 ∧ p.dragging.button ≠ none) ∧
        st' = st.setPanel port (liftedPanel p i)) ∨
      numDown = 1 ∧ ∃ b, p.dragging.button = some b ∧
        st' = (st.setPanel port { liftedPanel p i with dragging := .none }).adbMouseUp b := by
  intro p st'
  have lifted : st' = liftFinger port id time near numDown st i := rfl
  simp only [liftFinger, if_pos own] at lifted
  cases drag : p.dragging.button with
  | none =>
    have drag' : (st.panels port).dragging.button = none := drag
    rw [drag'] at lifted
    simp only at lifted
    split at lifted
    · split at lifted
      · exact .inl ⟨rfl, _, lifted⟩
      · split at lifted
        · exact .inl ⟨rfl, _, lifted⟩
        · exact .inr (.inl ⟨by simp, lifted⟩)
    · exact .inr (.inl ⟨by simp, lifted⟩)
  | some b =>
    have drag' : (st.panels port).dragging.button = some b := drag
    rw [drag'] at lifted
    simp only at lifted
    split at lifted
    next last => exact .inr (.inr ⟨last, b, rfl, lifted⟩)
    next more => exact .inr (.inl ⟨by simp [more], lifted⟩)

theorem liftFinger_other (other : ((st.panels port).fingers i).id ≠ some id) :
    liftFinger port id time near numDown st i = st := by
  simp only [liftFinger, if_neg other]

theorem liftFinger_fingers (own : ((st.panels port).fingers i).id = some id) :
    ((liftFinger port id time near numDown st i).panels port).fingers =
      (liftedPanel (st.panels port) i).fingers := by
  rcases liftFinger_cases time near numDown own with
    ⟨_, b, lifted⟩ | ⟨_, lifted⟩ | ⟨_, b, _, lifted⟩
  · rw [lifted, startClick, setClick_panels, adbMouseDown_panels, setPanel_own, setPanel_own]
  · rw [lifted, setPanel_own]
  · rw [lifted, adbMouseUp_panels, setPanel_own]

theorem lift_again {j : FingerIndex} (own : ((st.panels port).fingers i).id = some id)
    (unique : ∀ j, ((st.panels port).fingers j).id = some id → i = j) :
    (((liftFinger port id time near numDown st i).panels port).fingers j).id ≠ some id := by
  rw [liftFinger_fingers time near numDown own]
  by_cases same : j = i
  · subst same
    simp [liftedPanel]
  · simp only [liftedPanel, Function.update_of_ne same]
    exact fun tracked => same (unique j tracked).symm

theorem lift_none {fingers : List FingerIndex} {st : Touch}
    (untracked : ∀ i, ((st.panels port).fingers i).id ≠ some id) :
    fingers.foldl (liftFinger port id time near numDown) st = st := by
  induction fingers with
  | nil => rfl
  | cons i fingers ih => rw [List.foldl_cons, liftFinger_other time near numDown (untracked i), ih]

theorem lift_one {fingers : List FingerIndex} (member : i ∈ fingers)
    (own : ((st.panels port).fingers i).id = some id)
    (unique : ∀ j, ((st.panels port).fingers j).id = some id → i = j) :
    fingers.foldl (liftFinger port id time near numDown) st =
      liftFinger port id time near numDown st i := by
  induction fingers with
  | nil => cases member
  | cons j fingers ih =>
    rw [List.foldl_cons]
    by_cases same : j = i
    · subst same
      exact lift_none time near numDown fun k => lift_again time near numDown own unique
    · have other : ((st.panels port).fingers j).id ≠ some id :=
        fun tracked => same (unique j tracked).symm
      rw [liftFinger_other time near numDown other]
      exact ih (List.mem_of_ne_of_mem (Ne.symm same) member)

end Lift

theorem processFingerUp_cases {st : Touch} {port : Port} (id : Nat) (time : Time) (near : Bool)
    (sound : PanelSound (st.panels port)) :
    ((∀ i, ((st.panels port).fingers i).id ≠ some id) ∧
        processFingerUp st port id time near = st) ∨
      ∃ i, ((st.panels port).fingers i).id = some id ∧ processFingerUp st port id time near =
        liftFinger port id time near (numFingersDown (st.panels port)) st i := by
  by_cases tracked : ∃ i, ((st.panels port).fingers i).id = some id
  · obtain ⟨i, own⟩ := tracked
    exact .inr ⟨i, own, lift_one time near _ (List.mem_finRange i) own
      fun j own' => sound.unique i j id own own'⟩
  · have untracked := not_exists.mp tracked
    exact .inl ⟨untracked, lift_none time near _ untracked⟩

/-! ### Every step -/

theorem exists_other_finger {p : Panel} (two : 2 ≤ numFingersDown p) (i : FingerIndex) :
    ∃ j, j ≠ i ∧ (p.fingers j).id.isSome := by
  by_contra alone
  push Not at alone
  have counted : numFingersDown p ≤ (List.finRange 3).count i := by
    refine List.countP_mono_left fun j _ down => ?_
    by_contra other
    exact alone j (by simpa using other) down
  have once : (List.finRange 3).count i ≤ 1 := List.nodup_iff_count_le_one.mp (List.nodup_finRange 3) i
  omega

section Sound

variable {p : Panel}

theorem lifted_other {i j : FingerIndex} (other : j ≠ i) :
    (liftedPanel p i).fingers j = p.fingers j :=
  Function.update_of_ne other ..

theorem lifted_unique (unique : UniqueIds p.fingers) (i : FingerIndex) :
    UniqueIds (liftedPanel p i).fingers := by
  have other {j : FingerIndex} {id : Nat}
      (tracked : ((liftedPanel p i).fingers j).id = some id) : j ≠ i := by
    rintro rfl
    simp [liftedPanel] at tracked
  intro j k id tracked tracked'
  rw [lifted_other (other tracked)] at tracked
  rw [lifted_other (other tracked')] at tracked'
  exact unique j k id tracked tracked'

theorem PanelSound.lift (sound : PanelSound p) (i : FingerIndex)
    (more : p.dragging = .none ∨ 2 ≤ numFingersDown p) : PanelSound (liftedPanel p i) := by
  refine ⟨lifted_unique sound.unique i, fun drags => ?_⟩
  obtain ⟨j, other, down⟩ := exists_other_finger (more.resolve_left drags) i
  exact ⟨j, by rwa [lifted_other other]⟩

theorem PanelSound.of_fingers {p' : Panel} (sound : PanelSound p) (fingers : p'.fingers = p.fingers)
    (drags : p'.dragging ≠ .none → ∃ i, (p.fingers i).id.isSome) : PanelSound p' where
  unique := by
    rw [fingers]
    exact sound.unique
  dragHeld := by
    rw [fingers]
    exact drags

end Sound

section FingerDown

variable {fingers : FingerIndex → Finger} {id : Nat}

theorem forgetFinger_tracked {k : Nat} {i : FingerIndex}
    (tracked : (forgetFinger fingers id i).id = some k) : (fingers i).id = some k ∧ k ≠ id := by
  unfold forgetFinger at tracked
  split at tracked
  · cases tracked
  next other =>
    refine ⟨tracked, ?_⟩
    rintro rfl
    exact other tracked

theorem UniqueIds.forget (unique : UniqueIds fingers) : UniqueIds (forgetFinger fingers id) :=
  fun i j k tracked tracked' =>
    unique i j k (forgetFinger_tracked tracked).1 (forgetFinger_tracked tracked').1

theorem UniqueIds.place (unique : UniqueIds fingers) (fresh : ∀ i, (fingers i).id ≠ some id)
    (free : FingerIndex) (time : BitVec 32) :
    UniqueIds (Function.update fingers free ⟨some id, time⟩) := by
  intro i j k tracked tracked'
  by_cases first : i = free
  · subst first
    rw [Function.update_self] at tracked
    cases tracked
    by_contra other
    rw [Function.update_of_ne (Ne.symm other)] at tracked'
    exact fresh j tracked'
  · rw [Function.update_of_ne first] at tracked
    by_cases second : j = free
    · subst second
      rw [Function.update_self] at tracked'
      cases tracked'
      exact absurd tracked (fresh i)
    · rw [Function.update_of_ne second] at tracked'
      exact unique i j k tracked tracked'

end FingerDown

theorem processFingerDown_sound {st : Touch} (sound : ∀ port, PanelSound (st.panels port))
    (port : Port) (id : Nat) (time : Time) (port' : Port) :
    PanelSound ((processFingerDown st port id time).panels port') := by
  have unique : UniqueIds (forgetFinger (st.panels port).fingers id) := (sound port).unique.forget
  by_cases own : port' = port
  · subst own
    simp only [processFingerDown]
    split
    next full =>
      rw [setPanel_own]
      refine ⟨unique, fun _ => ⟨0, ?_⟩⟩
      simpa [Option.isSome_iff_ne_none] using List.find?_eq_none.mp full 0 (List.mem_finRange 0)
    next free found =>
      rw [setPanel_own]
      refine ⟨unique.place (fun i tracked => ?_) free _, fun _ => ⟨free, by simp⟩⟩
      exact (forgetFinger_tracked tracked).2 rfl
  · have kept : (processFingerDown st port id time).panels port' = st.panels port' := by
      simp only [processFingerDown]
      split <;> exact setPanel_other _ _ _ own
    rw [kept]
    exact sound port'

/-! ### The buttons are those that are used -/

def HeldByUses (st : Touch) : Prop := ∀ b, st.isDown b = true ↔ st.Uses b

/-- The fingers are all that may differ. -/
structure Quiet (st st' : Touch) : Prop where
  calls : st'.calls = st.calls
  clicks : st'.clicks = st.clicks
  dragging : ∀ port, (st'.panels port).dragging = (st.panels port).dragging
  clickStart : ∀ port, (st'.panels port).clickStart = (st.panels port).clickStart

theorem setPanel_dragging {st : Touch} {port : Port} {p : Panel} (same : p.dragging = (st.panels port).dragging)
    (port' : Port) : ((st.setPanel port p).panels port').dragging = (st.panels port').dragging := by
  by_cases own : port' = port
  · subst own
    rwa [setPanel_own]
  · rw [setPanel_other _ _ _ own]

theorem Quiet.setPanel {st : Touch} {port : Port} {p : Panel}
    (dragging : p.dragging = (st.panels port).dragging)
    (clickStart : p.clickStart = (st.panels port).clickStart) : Quiet st (st.setPanel port p) where
  calls := rfl
  clicks := rfl
  dragging := setPanel_dragging dragging
  clickStart port' := by
    by_cases own : port' = port
    · subst own
      rwa [setPanel_own]
    · rw [setPanel_other _ _ _ own]

theorem processFingerDown_quiet (st : Touch) (port : Port) (id : Nat) (time : Time) :
    Quiet st (processFingerDown st port id time) := by
  simp only [processFingerDown]
  split <;> exact .setPanel rfl rfl

section Uses

variable {st st' : Touch} {port : Port} {b b' : Button}

theorem Quiet.uses (quiet : Quiet st st') (b : Button) : st'.Uses b ↔ st.Uses b := by
  simp only [Touch.Uses, Touch.Drags, Touch.Clicks, quiet.dragging, quiet.clicks]

theorem Quiet.heldByUses_iff (quiet : Quiet st st') : HeldByUses st' ↔ HeldByUses st := by
  refine forall_congr' fun b => ?_
  rw [quiet.uses b, Touch.isDown, quiet.calls, ← Touch.isDown]

theorem adbMouseDown_isDown (st : Touch) (b b' : Button) :
    (st.adbMouseDown b).isDown b' = if b = b' then true else st.isDown b' := by
  rw [Touch.isDown, adbMouseDown_calls, downAfter_append]
  rfl

theorem adbMouseUp_isDown (st : Touch) (b b' : Button) :
    (st.adbMouseUp b).isDown b' = if b = b' then false else st.isDown b' := by
  rw [Touch.isDown, adbMouseUp_calls, downAfter_append]
  rfl

theorem HeldByUses.press (held : HeldByUses st)
    (down : ∀ b', st'.isDown b' = if b = b' then true else st.isDown b') (used : st'.Uses b)
    (same : ∀ b', b' ≠ b → (st'.Uses b' ↔ st.Uses b')) : HeldByUses st' := by
  intro b'
  rw [down b']
  by_cases own : b = b'
  · subst own
    simpa using used
  · rw [if_neg own, same b' (Ne.symm own)]
    exact held b'

theorem startDrag_heldByUses (held : HeldByUses st) {dragging : Dragging}
    (idle : (st.panels port).dragging = .none) (holds : dragging.button = some b) :
    HeldByUses (startDrag st port dragging b) := by
  have own : ((startDrag st port dragging b).panels port).dragging = dragging := by
    simp [startDrag]
  have other {port' : Port} (apart : port' ≠ port) :
      ((startDrag st port dragging b).panels port').dragging = (st.panels port').dragging := by
    simp [startDrag, apart]
  refine held.press (adbMouseDown_isDown _ b) ⟨port, .inl ?_⟩ fun b' differs => ?_
  · rw [Touch.Drags, own, holds]
  · refine exists_congr fun port' => or_congr ?_ Iff.rfl
    unfold Touch.Drags
    by_cases here : port' = port
    · subst here
      rw [own, holds, idle]
      simp [Ne.symm differs]
    · rw [other here]

theorem startClick_heldByUses (held : HeldByUses st) (time : Time) :
    HeldByUses (startClick st port b time) := by
  refine held.press (adbMouseDown_isDown _ b) ⟨port, .inr ?_⟩ fun b' differs => ?_
  · rw [Touch.Clicks, startClick, setClick_own]
    exact Option.some_ne_none time
  · refine exists_congr fun port' => or_congr ?_ ?_
    · have same : ((startClick st port b time).panels port').dragging =
          (st.panels port').dragging := by
        rw [startClick, setClick_panels, adbMouseDown_panels]
        exact setPanel_dragging (by rfl) port'
      rw [Touch.Drags, same]
      rfl
    · rw [Touch.Clicks, startClick, setClick_other _ _ _ _ (.inr differs)]
      rfl

/-- The button of a drag is raised. What still needs it then goes without. -/
theorem endDrag_heldByUses_iff (held : HeldByUses st) (holds : st.Drags port b) {p : Panel}
    (ended : p.dragging = .none) : HeldByUses ((st.setPanel port p).adbMouseUp b) ↔
      ¬ ∃ port', (port' ≠ port ∧ st.Drags port' b) ∨ st.Clicks port' b := by
  have drags (b' : Button) (port' : Port) : ((st.setPanel port p).adbMouseUp b).Drags port' b' ↔
      port' ≠ port ∧ st.Drags port' b' := by
    rw [Touch.Drags, adbMouseUp_panels]
    by_cases own : port' = port
    · subst own
      rw [setPanel_own, ended]
      simp
    · rw [setPanel_other _ _ _ own]
      simp [own, Touch.Drags]
  have uses (b' : Button) : ((st.setPanel port p).adbMouseUp b).Uses b' ↔
      ∃ port', (port' ≠ port ∧ st.Drags port' b') ∨ st.Clicks port' b' :=
    exists_congr fun port' => or_congr (drags b' port') Iff.rfl
  constructor
  · intro held' used
    have down := (held' b).mpr ((uses b).mpr used)
    rw [adbMouseUp_isDown, if_pos rfl] at down
    cases down
  · intro unused b'
    rw [adbMouseUp_isDown, uses b']
    by_cases own : b = b'
    · subst own
      simpa using unused
    · rw [if_neg own]
      refine (held b').trans (exists_congr fun port' => or_congr ?_ Iff.rfl)
      -- the panel held the other button
      refine ⟨fun holds' => ⟨?_, holds'⟩, And.right⟩
      rintro rfl
      exact own (Option.some.inj (holds.symm.trans holds'))

end Uses

section Finish

variable (st : Touch) (port port' : Port) (time : Time) (b b' : Button)

/-- The click that is left after a call that ends clicks. -/
def clickAfter (time : Time) (click : Option Time) : Option Time :=
  click.filter fun start => !durationElapsed start time

theorem finishClick_isDown : (finishClick port time st b).isDown b' =
    if b = b' ∧ clickElapsed ((st.panels port).clickStart b) time = true then false
    else st.isDown b' := by
  simp only [finishClick]
  by_cases elapsed : clickElapsed ((st.panels port).clickStart b) time = true
  · rw [if_pos elapsed, adbMouseUp_isDown]
    simp [elapsed, Touch.isDown]
  · rw [if_neg elapsed]
    simp [elapsed, Touch.isDown]

theorem finishClick_clicks : (finishClick port time st b).clicks port' b' =
    if port' = port ∧ b' = b then clickAfter time (st.clicks port b) else st.clicks port' b' := by
  have clicks : (finishClick port time st b).clicks =
      (st.setClick port b (clickAfter time (st.clicks port b))).clicks := by
    simp only [finishClick]
    split <;> rfl
  rw [clicks]
  by_cases own : port' = port ∧ b' = b
  · obtain ⟨rfl, rfl⟩ := own
    simp
  · rw [if_neg own, setClick_other _ _ _ _ (not_and_or.mp own)]

theorem finishClick_dragging : ((finishClick port time st b).panels port').dragging =
    (st.panels port').dragging := by
  simp only [finishClick]
  split
  · exact setPanel_dragging (by rfl) port'
  · rfl

theorem finishClick_clickStart (other : b' ≠ b) :
    ((finishClick port time st b).panels port).clickStart b' =
      (st.panels port).clickStart b' := by
  simp only [finishClick]
  split
  · simp [other]
  · rfl

theorem finish_isDown : (finishSimulatedMouseClicks st port time).isDown b =
    if clickElapsed ((st.panels port).clickStart b) time = true then false else st.isDown b := by
  simp only [finishSimulatedMouseClicks, List.foldl_cons, List.foldl_nil]
  rw [finishClick_isDown, finishClick_isDown]
  cases b with
  | left => simp
  | right => simp [finishClick_clickStart]

theorem finish_clicks : (finishSimulatedMouseClicks st port time).clicks port' b =
    if port' = port then clickAfter time (st.clicks port b) else st.clicks port' b := by
  simp only [finishSimulatedMouseClicks, List.foldl_cons, List.foldl_nil]
  rw [finishClick_clicks, finishClick_clicks, finishClick_clicks]
  by_cases own : port' = port
  · subst own
    cases b <;> simp
  · simp [own]

theorem finish_dragging : ((finishSimulatedMouseClicks st port time).panels port').dragging =
    (st.panels port').dragging := by
  simp only [finishSimulatedMouseClicks, List.foldl_cons, List.foldl_nil, finishClick_dragging]

/-- Some drag, or some click that the call does not end, uses the button. -/
def StillUsed (st : Touch) (port : Port) (time : Time) (b : Button) : Prop :=
  ∃ port', st.Drags port' b ∨
    (if port' = port then clickAfter time (st.clicks port b) else st.clicks port' b) ≠ none

instance : Decidable (StillUsed st port time b) := inferInstanceAs (Decidable (∃ _, _))

theorem finish_uses :
    (finishSimulatedMouseClicks st port time).Uses b ↔ StillUsed st port time b := by
  simp only [Touch.Uses, Touch.Drags, Touch.Clicks, finish_dragging, finish_clicks, StillUsed]

theorem StillUsed.uses {st : Touch} {port : Port} {time : Time} {b : Button}
    (still : StillUsed st port time b) : st.Uses b := by
  obtain ⟨port', drags | clicks⟩ := still
  · exact ⟨port', .inl drags⟩
  · refine ⟨port', .inr ?_⟩
    split at clicks
    next own =>
      subst own
      intro none
      rw [none] at clicks
      exact clicks rfl
    · exact clicks

theorem finish_heldByUses_iff {st : Touch} (held : HeldByUses st) :
    HeldByUses (finishSimulatedMouseClicks st port time) ↔
      ∀ b, if clickElapsed ((st.panels port).clickStart b) time = true
        then ¬ StillUsed st port time b
        else st.Uses b → StillUsed st port time b := by
  refine forall_congr' fun b => ?_
  rw [finish_isDown, finish_uses]
  by_cases elapsed : clickElapsed ((st.panels port).clickStart b) time = true
  · simp [elapsed]
  · rw [if_neg elapsed, if_neg elapsed, held b]
    exact ⟨Iff.mp, fun kept => ⟨kept, StillUsed.uses⟩⟩

end Finish

/-! ### Presses and releases match -/

section Balance

variable {st st' : Touch} {b b' : Button}

theorem Balanced.same (balanced : Balanced st b) (calls : st'.calls = st.calls)
    (total : totalOutstanding st' b ≤ totalOutstanding st b) : Balanced st' b := by
  obtain ⟨enough, matched⟩ := balanced
  refine ⟨?_, calls ▸ matched⟩
  rw [calls]
  omega

theorem Balanced.press (balanced : Balanced st b) (calls : st'.calls = st.calls ++ [.press b'])
    (total : totalOutstanding st' b ≤ totalOutstanding st b + if b' = b then 1 else 0) :
    Balanced st' b := by
  obtain ⟨enough, matched⟩ := balanced
  have enough' : (st.calls ++ [Event.press b']).count (.release b) + totalOutstanding st' b ≤
      (st.calls ++ [Event.press b']).count (.press b) := by
    rw [press_count_release, press_count_press]
    omega
  rw [← calls] at enough'
  refine ⟨enough', ?_⟩
  rw [calls] at enough' ⊢
  exact matched.concat (by omega)

theorem Balanced.release (balanced : Balanced st b)
    (calls : st'.calls = st.calls ++ [.release b'])
    (total : (totalOutstanding st' b + if b' = b then 1 else 0) ≤ totalOutstanding st b) :
    Balanced st' b := by
  obtain ⟨enough, matched⟩ := balanced
  have enough' : (st.calls ++ [Event.release b']).count (.release b) + totalOutstanding st' b ≤
      (st.calls ++ [Event.release b']).count (.press b) := by
    rw [release_count_release, release_count_press]
    omega
  rw [← calls] at enough'
  refine ⟨enough', ?_⟩
  rw [calls] at enough' ⊢
  exact matched.concat (by omega)

theorem totalOutstanding_setPanel (st : Touch) (port : Port) (p : Panel) (b : Button) :
    totalOutstanding (st.setPanel port p) b + outstanding (st.panels port) b =
      totalOutstanding st b + outstanding p b := by
  unfold totalOutstanding
  cases port with
  | front =>
    have other : (st.setPanel .front p).panels .back = st.panels .back :=
      setPanel_other _ _ _ (by decide)
    rw [setPanel_own, other]
    omega
  | back =>
    have other : (st.setPanel .back p).panels .front = st.panels .front :=
      setPanel_other _ _ _ (by decide)
    rw [setPanel_own, other]
    omega

theorem Quiet.balanced (quiet : Quiet st st') (balanced : Balanced st b) : Balanced st' b := by
  refine balanced.same quiet.calls (le_of_eq ?_)
  simp only [totalOutstanding, outstanding, quiet.dragging, quiet.clickStart]

theorem startClick_balanced (balanced : Balanced st b) (port : Port) (time : Time) :
    Balanced (startClick st port b' time) b := by
  refine balanced.press rfl ?_
  let p := { st.panels port with
    clickStart := Function.update (st.panels port).clickStart b' (time.truncate 32) }
  have total := totalOutstanding_setPanel st port p b
  have one_more : outstanding p b ≤ outstanding (st.panels port) b + if b' = b then 1 else 0 := by
    unfold outstanding
    by_cases own : b' = b
    · subst own
      simp only [if_true]
      split_ifs <;> omega
    · simp [p, own, Ne.symm own]
  have kept : totalOutstanding (startClick st port b' time) b =
      totalOutstanding (st.setPanel port p) b := rfl
  omega

theorem startDrag_balanced (balanced : Balanced st b) {port : Port} {dragging : Dragging}
    (idle : (st.panels port).dragging = .none) (holds : dragging.button = some b') :
    Balanced (startDrag st port dragging b') b := by
  refine balanced.press rfl ?_
  have total := totalOutstanding_setPanel st port { st.panels port with dragging := dragging } b
  have one_more : outstanding { st.panels port with dragging := dragging } b =
      outstanding (st.panels port) b + if b' = b then 1 else 0 := by
    simp only [outstanding, holds, idle, button_none, Option.some.injEq, reduceCtorEq, if_false]
    omega
  have kept : totalOutstanding (startDrag st port dragging b') b =
      totalOutstanding (st.setPanel port { st.panels port with dragging := dragging }) b := rfl
  omega

theorem endDrag_balanced (balanced : Balanced st b) {port : Port} (holds : st.Drags port b')
    {p : Panel} (ended : p.dragging = .none) (same : p.clickStart = (st.panels port).clickStart) :
    Balanced ((st.setPanel port p).adbMouseUp b') b := by
  refine balanced.release rfl ?_
  have total := totalOutstanding_setPanel st port p b
  have one_less : outstanding p b + (if b' = b then 1 else 0) = outstanding (st.panels port) b := by
    rw [Touch.Drags] at holds
    simp only [outstanding, holds, ended, same, button_none, Option.some.injEq, reduceCtorEq,
      if_false]
    omega
  have kept : totalOutstanding ((st.setPanel port p).adbMouseUp b') b =
      totalOutstanding (st.setPanel port p) b := rfl
  omega

theorem finishClick_balanced (balanced : Balanced st b) (port : Port) (time : Time) :
    Balanced (finishClick port time st b') b := by
  simp only [finishClick]
  split
  next elapsed =>
    refine balanced.release rfl ?_
    let p := { st.panels port with clickStart := Function.update (st.panels port).clickStart b' 0 }
    have total := totalOutstanding_setPanel st port p b
    have one_less : outstanding p b + (if b' = b then 1 else 0) =
        outstanding (st.panels port) b := by
      have running : (st.panels port).clickStart b' ≠ 0 := by
        simp only [clickElapsed, Bool.and_eq_true, decide_eq_true_eq] at elapsed
        exact elapsed.1
      unfold outstanding
      by_cases own : b' = b
      · subst own
        simp only [p, Function.update_self, ne_eq, not_true_eq_false, if_false, if_true, running,
          not_false_eq_true, Nat.add_zero]
      · simp only [p, Function.update_of_ne (Ne.symm own), if_neg own, Nat.add_zero]
    change (totalOutstanding (st.setPanel port p) b + if b' = b then 1 else 0) ≤
      totalOutstanding st b
    omega
  · exact balanced.same rfl (le_refl _)

end Balance

/-! ### Runs -/

/-- The event ends the drag of the panel. -/
def EndsDrag (p : Panel) (id : Nat) (b : Button) : Prop :=
  numFingersDown p = 1 ∧ p.dragging.button = some b ∧ ∃ i, (p.fingers i).id = some id

instance (p : Panel) (id : Nat) (b : Button) : Decidable (EndsDrag p id b) :=
  inferInstanceAs (Decidable (_ ∧ _ ∧ _))

/-- With the end of a drag, and of clicks, a button is raised exactly if nothing else uses it. -/
def KeepsButtons (st : Touch) : TouchEvent → Prop
  | .fingerUp port id _ _ => ∀ b, EndsDrag (st.panels port) id b →
      ¬ ∃ port', (port' ≠ port ∧ st.Drags port' b) ∨ st.Clicks port' b
  | .finishClicks port time => ∀ b, if clickElapsed ((st.panels port).clickStart b) time = true
      then ¬ StillUsed st port time b
      else st.Uses b → StillUsed st port time b
  | _ => True

instance (st : Touch) (event : TouchEvent) : Decidable (KeepsButtons st event) :=
  match event with
  | .fingerUp .. => inferInstanceAs (Decidable (∀ _, _ → _))
  | .finishClicks .. => inferInstanceAs (Decidable (∀ _, _))
  | .fingerDown .. => inferInstanceAs (Decidable True)
  | .fingerMotion .. => inferInstanceAs (Decidable True)

/-- The buttons are those that are used; with all fingers up and all clicks over both are up; and
every release matches a press before it. -/
structure Paired (st : Touch) : Prop where
  held : HeldByUses st
  released : (∀ port i, ((st.panels port).fingers i).id = none) →
    (∀ port b, st.clicks port b = none) → ∀ b, st.isDown b = false
  matched : ∀ b, Matched b st.calls

/-- What every step keeps. -/
structure TouchSound (st : Touch) : Prop where
  panels : ∀ port, PanelSound (st.panels port)
  balanced : ∀ b, Balanced st b

theorem TouchSound.paired {st : Touch} (sound : TouchSound st) (held : HeldByUses st) :
    Paired st where
  held := held
  released := by
    intro up ended b
    rw [← Bool.not_eq_true, held b]
    rintro ⟨port, drags | clicks⟩
    · have dragging : (st.panels port).dragging ≠ .none := by
        intro idle
        rw [Touch.Drags, idle] at drags
        cases drags
      obtain ⟨i, down⟩ := (sound.panels port).dragHeld dragging
      rw [up port i] at down
      cases down
    · exact clicks (ended port b)
  matched b := (sound.balanced b).matched

theorem touchSound_initial : TouchSound Touch.initial where
  panels port := ⟨fun _ _ _ tracked => (nomatch tracked), fun drags => absurd rfl drags⟩
  balanced b := ⟨by decide +revert, matched_nil b⟩

theorem setPanel_forall {st : Touch} {P : Panel → Prop} (all : ∀ port, P (st.panels port))
    (port : Port) {p : Panel} (new : P p) (port' : Port) :
    P ((st.setPanel port p).panels port') := by
  by_cases own : port' = port
  · subst own
    rwa [setPanel_own]
  · rw [setPanel_other _ _ _ own]
    exact all port'

theorem processFingerMotion_cases (st : Touch) (port : Port) (time : Time) :
    processFingerMotion st port time = st ∨
      2 ≤ numFingersDown (st.panels port) ∧ (st.panels port).dragging = .none ∧
        ∃ dragging b, dragging.button = some b ∧
          processFingerMotion st port time = startDrag st port dragging b := by
  simp only [processFingerMotion]
  split
  next starts =>
    obtain ⟨down, idle, _⟩ := starts
    split
    · exact .inr ⟨down, idle, .twoFinger, .left, rfl, rfl⟩
    · exact .inr ⟨down, idle, .threeFinger, .right, rfl, rfl⟩
  · exact .inl rfl

theorem numFingersDown_pos {p : Panel} {id : Nat} {i : FingerIndex}
    (tracked : (p.fingers i).id = some id) : 0 < numFingersDown p :=
  List.countP_pos_iff.mpr ⟨i, List.mem_finRange i, by rw [tracked]; rfl⟩

theorem liftedPanel_quiet (st : Touch) (port : Port) (i : FingerIndex) :
    Quiet st (st.setPanel port (liftedPanel (st.panels port) i)) :=
  .setPanel rfl rfl

theorem finishClick_sound {st : Touch} (sound : TouchSound st) (port : Port) (time : Time)
    (b : Button) : TouchSound (finishClick port time st b) where
  panels := by
    simp only [finishClick]
    split
    · refine setPanel_forall (P := PanelSound) sound.panels port ?_
      exact (sound.panels port).of_fingers rfl (sound.panels port).dragHeld
    · exact sound.panels
  balanced b' := finishClick_balanced (sound.balanced b') port time

theorem startClick_sound {st : Touch} (sound : TouchSound st) (port : Port) (b : Button)
    (time : Time) : TouchSound (startClick st port b time) where
  panels := by
    refine setPanel_forall (P := PanelSound) sound.panels port ?_
    exact (sound.panels port).of_fingers rfl (sound.panels port).dragHeld
  balanced b' := startClick_balanced (sound.balanced b') port time

theorem liftFinger_sound {st : Touch} (sound : TouchSound st) {port : Port} {id : Nat}
    {i : FingerIndex} (own : ((st.panels port).fingers i).id = some id) (time : Time) (near : Bool) :
    TouchSound (liftFinger port id time near (numFingersDown (st.panels port)) st i) := by
  have some_down := numFingersDown_pos own
  have lift (more : (st.panels port).dragging = .none ∨ 2 ≤ numFingersDown (st.panels port)) :
      TouchSound (st.setPanel port (liftedPanel (st.panels port) i)) :=
    ⟨setPanel_forall (P := PanelSound) sound.panels port ((sound.panels port).lift i more),
      fun b => (liftedPanel_quiet st port i).balanced (sound.balanced b)⟩
  rcases liftFinger_cases time near (numFingersDown (st.panels port)) own with
    ⟨idle, b, lifted⟩ | ⟨more, lifted⟩ | ⟨last, b, holds, lifted⟩
  · rw [lifted]
    exact startClick_sound (lift (.inl (button_eq_none idle))) port b time
  · rw [lifted]
    by_cases one : numFingersDown (st.panels port) = 1
    · have idle : (st.panels port).dragging.button = none := by
        by_contra drags
        exact more ⟨one, drags⟩
      exact lift (.inl (button_eq_none idle))
    · exact lift (.inr (by omega))
  · rw [lifted]
    refine ⟨setPanel_forall (P := PanelSound) sound.panels port ?_,
      fun b' => endDrag_balanced (sound.balanced b') holds rfl rfl⟩
    exact ⟨lifted_unique (sound.panels port).unique i, fun drags => absurd rfl drags⟩

theorem apply_sound {st : Touch} (sound : TouchSound st) (event : TouchEvent) :
    TouchSound (event.apply st) := by
  cases event with
  | fingerDown port id time =>
    exact ⟨processFingerDown_sound sound.panels port id time,
      fun b => (processFingerDown_quiet st port id time).balanced (sound.balanced b)⟩
  | fingerMotion port time =>
    rcases processFingerMotion_cases st port time with same | ⟨two, idle, dragging, b, holds, starts⟩
    · rwa [TouchEvent.apply, same]
    · rw [TouchEvent.apply, starts]
      refine ⟨setPanel_forall (P := PanelSound) sound.panels port ?_,
        fun b' => startDrag_balanced (sound.balanced b') idle holds⟩
      refine (sound.panels port).of_fingers rfl fun _ => ?_
      obtain ⟨j, _, down⟩ := exists_other_finger two 0
      exact ⟨j, down⟩
  | fingerUp port id time near =>
    rcases processFingerUp_cases id time near (sound.panels port) with ⟨_, same⟩ | ⟨i, own, lifted⟩
    · rwa [TouchEvent.apply, same]
    · rw [TouchEvent.apply, lifted]
      exact liftFinger_sound sound own time near
  | finishClicks port time =>
    exact finishClick_sound (finishClick_sound sound port time .left) port time .right

theorem processFingerUp_heldByUses_iff {st : Touch} (sound : TouchSound st) (held : HeldByUses st)
    (port : Port) (id : Nat) (time : Time) (near : Bool) :
    HeldByUses (processFingerUp st port id time near) ↔
      KeepsButtons st (.fingerUp port id time near) := by
  rcases processFingerUp_cases id time near (sound.panels port) with
    ⟨untracked, same⟩ | ⟨i, own, lifted⟩
  · rw [same]
    exact iff_of_true held fun b ⟨_, _, i, tracked⟩ => absurd tracked (untracked i)
  · rw [lifted]
    have held' : HeldByUses (st.setPanel port (liftedPanel (st.panels port) i)) :=
      (liftedPanel_quiet st port i).heldByUses_iff.mpr held
    rcases liftFinger_cases time near (numFingersDown (st.panels port)) own with
      ⟨idle, b, lifted⟩ | ⟨more, lifted⟩ | ⟨last, b, holds, lifted⟩
    · rw [lifted]
      refine iff_of_true (startClick_heldByUses held' time) fun b ⟨_, holds, _⟩ => ?_
      rw [idle] at holds
      cases holds
    · rw [lifted]
      refine iff_of_true held' fun b ⟨last, holds, _⟩ => absurd ⟨last, ?_⟩ more
      rw [holds]
      exact Option.some_ne_none b
    · rw [lifted, endDrag_heldByUses_iff held holds rfl]
      constructor
      · rintro unused b' ⟨_, holds', _⟩
        cases Option.some.inj (holds.symm.trans holds')
        exact unused
      · intro keeps
        exact keeps b ⟨last, holds, i, own⟩

theorem apply_heldByUses_iff {st : Touch} (sound : TouchSound st) (held : HeldByUses st)
    (event : TouchEvent) : HeldByUses (event.apply st) ↔ KeepsButtons st event := by
  cases event with
  | fingerDown port id time =>
    exact iff_of_true ((processFingerDown_quiet st port id time).heldByUses_iff.mpr held) trivial
  | fingerMotion port time =>
    refine iff_of_true ?_ trivial
    rcases processFingerMotion_cases st port time with same | ⟨_, idle, dragging, b, holds, starts⟩
    · rwa [TouchEvent.apply, same]
    · rw [TouchEvent.apply, starts]
      exact startDrag_heldByUses held idle holds
  | fingerUp port id time near =>
    exact processFingerUp_heldByUses_iff sound held port id time near
  | finishClicks port time => exact finish_heldByUses_iff port time held

theorem step_paired_iff {st st' : Touch} {event : TouchEvent} (sound : TouchSound st)
    (held : HeldByUses st) (taken : touchStep st event = some st') :
    TouchSound st' ∧ (HeldByUses st' ↔ KeepsButtons st event) := by
  unfold touchStep at taken
  split at taken
  · cases taken
    have sound' := apply_sound sound event
    exact ⟨⟨sound'.panels, fun b => (sound'.balanced b).same rfl (le_refl _)⟩,
      apply_heldByUses_iff sound held event⟩
  · cases taken

theorem heldByUses_initial : HeldByUses Touch.initial := by
  intro b
  cases b <;> decide

/-- In every state of a run the buttons are those in use exactly if every step keeps them so. -/
theorem buttons_paired_iff {events : List TouchEvent} {st : Touch}
    (run : Run touchStep Free Touch.initial events st) :
    Run touchStep KeepsButtons Touch.initial events st ↔
      ∀ es u, es <+: events → Run touchStep Free Touch.initial es u → Paired u :=
  Run.guarded_iff
    (fun _ _ _ known keeps taken =>
      (step_paired_iff known.1 known.2 taken).imp_right fun held => held.mpr keeps)
    (fun _ known => known.1.paired known.2)
    (fun _ _ _ known taken paired => (step_paired_iff known.1 known.2 taken).2.mp paired.held)
    ⟨touchSound_initial, heldByUses_initial⟩ run

def afterEvents (events : List TouchEvent) : Touch :=
  events.foldl (fun st event => { event.apply st with now := event.time }) Touch.initial

/-- A tap on the front panel, and a drag of two fingers after it. -/
def tapAndDrag : List TouchEvent :=
  [.fingerDown .front 0 100, .fingerUp .front 0 150 true, .finishClicks .front 250,
    .fingerDown .front 0 300, .fingerDown .front 1 310, .fingerMotion .front 700,
    .fingerUp .front 1 800 true, .fingerUp .front 0 810 true]

theorem tapAndDrag_paired : Paired (afterEvents tapAndDrag) := by
  have run : Run touchStep Free Touch.initial tapAndDrag (afterEvents tapAndDrag) :=
    run_of_exec rfl
  have keeps : Run touchStep KeepsButtons Touch.initial tapAndDrag (afterEvents tapAndDrag) :=
    run_of_guarded_exec rfl
  exact (buttons_paired_iff run).mp keeps tapAndDrag _ (List.prefix_refl _) run

/-- A tap on the front panel during a drag on the back panel. -/
def tapDuringDrag : List TouchEvent :=
  [.fingerDown .back 0 1000, .fingerDown .back 1 1000, .fingerMotion .back 1300,
    .fingerDown .front 0 1310, .fingerUp .front 0 1320 true, .finishClicks .front 1400]

/-- The end of the click raises the button of the drag. -/
theorem tap_interrupts_drag :
    ¬ ∀ events st, Run touchStep Free Touch.initial events st → Paired st := by
  intro all
  have paired : Paired (afterEvents tapDuringDrag) := all tapDuringDrag _ (run_of_exec rfl)
  have used : (afterEvents tapDuringDrag).Uses .left := ⟨.back, .inl (by decide +kernel)⟩
  have down := (paired.held .left).mpr used
  have up : (afterEvents tapDuringDrag).isDown .left = false := by decide +kernel
  rw [up] at down
  cases down

end BasiliskII.Input
