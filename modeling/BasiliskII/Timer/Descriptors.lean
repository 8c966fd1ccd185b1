import BasiliskII.Timer.Manager

/-!
# Descriptors of timer tasks

In every run a task has at most one descriptor in use, and an armed task has
one with its wakeup time. A pass of `TimerInterrupt` visits each slot once, and
what its callbacks do to other tasks leaves the descriptor of a task where it
is. So an active task that has expired is called once, until a callback
removes, primes or inserts it.
-/
namespace BasiliskII.Timer

open StepSystem

variable {st : Manager}

/-! ### What each operation leaves alone -/

/-- Slot `i` holds the descriptor of `tm`. -/
def Manager.Holds (st : Manager) (i : Slot) (tm : BitVec 32) : Prop :=
  (st.desc i).inUse = true ∧ (st.desc i).task = tm

theorem findDesc_cases (st : Manager) (tm : BitVec 32) :
    (∃ i, findDesc st tm = some i ∧ st.Holds i tm) ∨
      (findDesc st tm = none ∧ ∀ i, ¬ st.Holds i tm) := by
  cases found : findDesc st tm with
  | some i =>
    have passes := List.find?_some found
    exact .inl ⟨i, rfl, by simpa [Manager.Holds] using passes⟩
  | none =>
    refine .inr ⟨rfl, fun i held => ?_⟩
    have fails := List.find?_eq_none.mp found i (List.mem_finRange i)
    simp [held.1, held.2] at fails

variable {i : Slot}

theorem freeDesc_free (found : freeDesc st = some i) : (st.desc i).inUse = false := by
  have passes := List.find?_some found
  simpa using passes

@[simp] theorem setDesc_same (st : Manager) (i : Slot) (d : TMDesc) :
    (st.setDesc i d).desc i = d := by
  simp [Manager.setDesc]

theorem setDesc_other (st : Manager) {j : Slot} (d : TMDesc) (other : j ≠ i) :
    (st.setDesc i d).desc j = st.desc j := by
  simp [Manager.setDesc, other]

theorem setDesc_holds_other (st : Manager) {j : Slot} (d : TMDesc) (tm : BitVec 32) (other : j ≠ i) :
    (st.setDesc i d).Holds j tm ↔ st.Holds j tm := by
  simp only [Manager.Holds, setDesc_other st d other]

/-- Everything about `tm` is as it was: its record, its arming and the slots that hold it. -/
structure SameFor (tm : BitVec 32) (st st' : Manager) : Prop where
  task : st'.tasks tm = st.tasks tm
  armed : st'.armed tm = st.armed tm
  holds : ∀ i, st'.Holds i tm ↔ st.Holds i tm
  wakeup : ∀ i, st.Holds i tm → (st'.desc i).wakeup = (st.desc i).wakeup

theorem SameFor.refl (tm : BitVec 32) (st : Manager) : SameFor tm st st :=
  ⟨rfl, rfl, fun _ => Iff.rfl, fun _ _ => rfl⟩

variable {tm : BitVec 32}

theorem SameFor.trans {st st' st'' : Manager} (first : SameFor tm st st')
    (second : SameFor tm st' st'') : SameFor tm st st'' where
  task := second.task.trans first.task
  armed := second.armed.trans first.armed
  holds i := (second.holds i).trans (first.holds i)
  wakeup i held := (second.wakeup i ((first.holds i).mpr held)).trans (first.wakeup i held)

variable {other : BitVec 32}

theorem sameFor_setTask (st : Manager) (t : TMTask) (different : tm ≠ other) :
    SameFor tm st (st.setTask other t) :=
  ⟨by simp [Manager.setTask, different], rfl, fun _ => Iff.rfl, fun _ _ => rfl⟩

theorem sameFor_setArmed (st : Manager) (wakeup : Option TmTime) (different : tm ≠ other) :
    SameFor tm st (st.setArmed other wakeup) :=
  ⟨rfl, by simp [Manager.setArmed, different], fun _ => Iff.rfl, fun _ _ => rfl⟩

/-- A slot that does not hold `tm` may be overwritten, if it does not hold it then. -/
theorem sameFor_setDesc {d : TMDesc} (elsewhere : ¬ st.Holds i tm)
    (still : ¬ (d.inUse = true ∧ d.task = tm)) : SameFor tm st (st.setDesc i d) := by
  refine ⟨rfl, rfl, fun j => ?_, fun j held => ?_⟩
  · by_cases here : j = i
    · subst here
      simp only [Manager.Holds, setDesc_same]
      exact iff_of_false still elsewhere
    · exact setDesc_holds_other st d tm here
  · have other : j ≠ i := fun here => elsewhere (here ▸ held)
    rw [setDesc_other st d other]

theorem holds_other (held : st.Holds i other) (different : tm ≠ other) : ¬ st.Holds i tm :=
  fun also => different (also.2.symm.trans held.2)

theorem allocDesc_sameFor (different : tm ≠ other) : SameFor tm st (allocDesc st other) := by
  simp only [allocDesc]
  split
  next i found =>
    have free := freeDesc_free found
    refine sameFor_setDesc (fun held => ?_) fun also => different also.2.symm
    simp [held.1] at free
  · exact .refl tm st

theorem insTime_sameFor (trap : BitVec 16) (different : tm ≠ other) :
    SameFor tm st (insTime st other trap) := by
  simp only [insTime]
  split
  · exact sameFor_setTask st _ different
  · exact (sameFor_setTask st _ different).trans (allocDesc_sameFor different)

theorem rmvTime_sameFor (current : TmTime) (different : tm ≠ other) :
    SameFor tm st (rmvTime st other current) := by
  rcases findDesc_cases st other with ⟨i, found, held⟩ | ⟨found, _⟩
  · simp only [rmvTime, found, freeDescAt]
    refine ((sameFor_setTask st _ different).trans (sameFor_setDesc ?_ ?_)).trans
      (sameFor_setArmed _ none different)
    · exact holds_other held different
    · simp
  · simp only [rmvTime, found]
    exact .refl tm st

theorem primeTime_sameFor (time : BitVec 32) (now : TmTime) (different : tm ≠ other) :
    SameFor tm st (primeTime st other time now) := by
  rcases findDesc_cases st other with ⟨i, found, held⟩ | ⟨found, _⟩
  · simp only [primeTime, found]
    refine ((sameFor_setDesc ?_ ?_).trans (sameFor_setTask _ _ different)).trans
      (sameFor_setArmed _ _ different)
    · exact holds_other held different
    · exact fun also => different (also.2.symm.trans held.2)
  · simp only [primeTime, found]
    exact .refl tm st

theorem apply_sameFor (action : Action) (different : action.task ≠ tm) :
    SameFor tm st (action.apply st) := by
  cases action with
  | insTime other trap => exact insTime_sameFor trap different.symm
  | rmvTime other current => exact rmvTime_sameFor current different.symm
  | primeTime other time now => exact primeTime_sameFor time now different.symm

theorem foldl_sameFor {actions : List Action} (untouched : ∀ action ∈ actions, action.task ≠ tm)
    (st : Manager) : SameFor tm st (actions.foldl Action.apply st) := by
  induction actions generalizing st with
  | nil => exact .refl tm st
  | cons action actions ih =>
    have first : SameFor tm st (action.apply st) :=
      apply_sameFor action (untouched action (List.mem_cons_self ..))
    exact first.trans (ih (fun a member => untouched a (List.mem_cons_of_mem _ member)) _)

/-! ### The invariant -/

/-- At most one slot holds `tm`, and one with its wakeup time does if it is armed. -/
structure ConsistentFor (tm : BitVec 32) (st : Manager) : Prop where
  unique : ∀ i j, st.Holds i tm → st.Holds j tm → i = j
  armed : ∀ wakeup, st.armed tm = some wakeup → ∃ i, st.Holds i tm ∧ (st.desc i).wakeup = wakeup

def Consistent (st : Manager) : Prop := ∀ tm, ConsistentFor tm st

theorem ConsistentFor.congr {st st' : Manager} (consistent : ConsistentFor tm st)
    (same : SameFor tm st st') : ConsistentFor tm st' where
  unique i j held_i held_j :=
    consistent.unique i j ((same.holds i).mp held_i) ((same.holds j).mp held_j)
  armed wakeup armed := by
    rw [same.armed] at armed
    obtain ⟨i, held, at_i⟩ := consistent.armed wakeup armed
    exact ⟨i, (same.holds i).mpr held, (same.wakeup i held).trans at_i⟩

theorem allocDesc_consistentFor (consistent : ConsistentFor tm st)
    (none_held : ∀ i, ¬ st.Holds i tm) : ConsistentFor tm (allocDesc st tm) := by
  simp only [allocDesc]
  split
  next i found =>
    have only {j : Slot}
        (held : (st.setDesc i { st.desc i with task := tm, inUse := true }).Holds j tm) : j = i := by
      by_contra other
      exact none_held j ((setDesc_holds_other st _ tm other).mp held)
    refine ⟨fun j k held_j held_k => (only held_j).trans (only held_k).symm, ?_⟩
    intro wakeup armed
    obtain ⟨j, held, _⟩ := consistent.armed wakeup armed
    exact absurd held (none_held j)
  · exact consistent

theorem insTime_consistentFor (trap : BitVec 16) (consistent : ConsistentFor tm st) :
    ConsistentFor tm (insTime st tm trap) := by
  have marked (t : TMTask) : ConsistentFor tm (st.setTask tm t) :=
    ⟨consistent.unique, consistent.armed⟩
  simp only [insTime]
  split
  · exact marked _
  next absent =>
    refine allocDesc_consistentFor (marked _) ?_
    rcases findDesc_cases (st.setTask tm _) tm with ⟨i, found, _⟩ | ⟨_, none_held⟩
    · rw [found] at absent
      cases absent
    · exact none_held

theorem rmvTime_consistentFor (current : TmTime) (consistent : ConsistentFor tm st) :
    ConsistentFor tm (rmvTime st tm current) := by
  rcases findDesc_cases st tm with ⟨i, found, held⟩ | ⟨found, _⟩
  · simp only [rmvTime, found, freeDescAt]
    -- The one slot that held the task is free, and nothing is armed.
    have none_held {j : Slot} (held' : (st.setDesc i { st.desc i with inUse := false }).Holds j tm) :
        False := by
      by_cases here : j = i
      · subst here
        simp [Manager.Holds] at held'
      · exact here (consistent.unique j i ((setDesc_holds_other st _ tm here).mp held') held)
    refine ⟨fun j _ held' _ => (none_held held').elim, fun wakeup armed => ?_⟩
    simp [Manager.setArmed] at armed
  · simp only [rmvTime, found]
    exact consistent

theorem primeTime_consistentFor (time : BitVec 32) (now : TmTime) (consistent : ConsistentFor tm st) :
    ConsistentFor tm (primeTime st tm time now) := by
  rcases findDesc_cases st tm with ⟨i, found, held⟩ | ⟨found, _⟩
  · simp only [primeTime, found]
    generalize nextWakeup st i (st.tasks tm) time now = due
    have still (j : Slot) : (st.setDesc i { st.desc i with wakeup := due }).Holds j tm ↔
        st.Holds j tm := by
      by_cases here : j = i
      · subst here
        simp [Manager.Holds]
      · exact setDesc_holds_other st _ tm here
    refine ⟨fun j k held_j held_k =>
      consistent.unique j k ((still j).mp held_j) ((still k).mp held_k), fun wakeup armed => ?_⟩
    have same : due = wakeup := by simpa [Manager.setArmed] using armed
    refine ⟨i, (still i).mpr held, ?_⟩
    simp [Manager.setArmed, Manager.setTask, same]
  · simp only [primeTime, found]
    exact consistent

theorem apply_consistent (action : Action) (consistent : Consistent st) :
    Consistent (action.apply st) := by
  intro tm
  by_cases own : action.task = tm
  · subst own
    cases action with
    | insTime tm trap => exact insTime_consistentFor trap (consistent tm)
    | rmvTime tm current => exact rmvTime_consistentFor current (consistent tm)
    | primeTime tm time now => exact primeTime_consistentFor time now (consistent tm)
  · exact (consistent tm).congr (apply_sameFor action own)

theorem foldl_consistent (actions : List Action) (consistent : Consistent st) :
    Consistent (actions.foldl Action.apply st) := by
  induction actions generalizing st with
  | nil => exact consistent
  | cons action actions ih => exact ih (apply_consistent action consistent)

/-! ### The pass -/

/-- A task is taken out of the queue: its active bit and its arming are cleared. -/
def deactivate (st : Manager) (tm : BitVec 32) : Manager :=
  (st.setTask tm { st.tasks tm with qType := (st.tasks tm).qType &&& 0x7fff }).setArmed tm none

def Due (now : TmTime) (st : Manager) (i : Slot) (tm : BitVec 32) : Prop :=
  st.Holds i tm ∧ (st.tasks tm).active = true ∧ timerCmpTime (st.desc i).wakeup now < 0

variable (now : TmTime) (callbacks : Callbacks)

theorem visit_cases (st : Manager) (i : Slot) :
    ((∀ tm, ¬ Due now st i tm) ∧ visit now callbacks st i = (st, [])) ∨
      ∃ tm, Due now st i tm ∧
        (((st.tasks tm).tmAddr = 0 ∧ visit now callbacks st i = (deactivate st tm, [])) ∨
          ((st.tasks tm).tmAddr ≠ 0 ∧ ∃ actions : List Action, visit now callbacks st i =
            (actions.foldl Action.apply (deactivate st tm),
              .called tm :: actions.map .guest))) := by
  simp only [visit]
  split
  next due =>
    simp only [Bool.and_eq_true, decide_eq_true_eq] at due
    obtain ⟨⟨inUse, active⟩, expired⟩ := due
    refine .inr ⟨(st.desc i).task, ⟨⟨inUse, rfl⟩, active, expired⟩, ?_⟩
    have addr : (deactivate st (st.desc i).task |>.tasks (st.desc i).task).tmAddr =
        (st.tasks (st.desc i).task).tmAddr := by
      simp [deactivate, Manager.setTask, Manager.setArmed]
    by_cases nowhere : (st.tasks (st.desc i).task).tmAddr = 0
    · refine .inl ⟨nowhere, ?_⟩
      rw [← addr] at nowhere
      exact if_pos nowhere
    · refine .inr ⟨nowhere, callbacks (deactivate st (st.desc i).task)
        ((deactivate st (st.desc i).task).tasks (st.desc i).task).tmAddr (st.desc i).task, ?_⟩
      rw [← addr] at nowhere
      exact if_neg nowhere
  next idle =>
    refine .inl ⟨?_, rfl⟩
    rintro tm ⟨⟨inUse, rfl⟩, active, expired⟩
    exact idle (by simp [inUse, active, expired])

theorem deactivate_sameFor (different : tm ≠ other) : SameFor tm st (deactivate st other) :=
  (sameFor_setTask st _ different).trans (sameFor_setArmed _ none different)

theorem deactivate_consistent (tm : BitVec 32) (consistent : Consistent st) :
    Consistent (deactivate st tm) := by
  intro other
  by_cases own : other = tm
  · subst own
    refine ⟨(consistent other).unique, fun wakeup armed => ?_⟩
    simp [deactivate, Manager.setArmed] at armed
  · exact (consistent other).congr (deactivate_sameFor own)

theorem visit_consistent (i : Slot) (consistent : Consistent st) :
    Consistent (visit now callbacks st i).1 := by
  rcases visit_cases now callbacks st i with ⟨_, idle⟩ | ⟨tm, _, ⟨_, fired⟩ | ⟨_, actions, fired⟩⟩
  · rwa [idle]
  · rw [fired]
    exact deactivate_consistent tm consistent
  · rw [fired]
    exact foldl_consistent actions (deactivate_consistent tm consistent)

theorem pass_consistent (slots : List Slot) (consistent : Consistent st) :
    Consistent (pass now callbacks slots st).1 := by
  induction slots generalizing st with
  | nil => exact consistent
  | cons i slots ih => exact ih (visit_consistent now callbacks i consistent)

theorem step_consistent {st' : Manager} (event : Event) (consistent : Consistent st)
    (taken : step st event = some st') : Consistent st' := by
  cases event with
  | action action =>
    cases taken
    exact apply_consistent action consistent
  | interrupt now callbacks =>
    rw [← Option.some.inj taken]
    exact pass_consistent now callbacks _ consistent

theorem timerInit_consistent (desc : Slot → TMDesc) (tasks : BitVec 32 → TMTask) :
    Consistent (timerInit desc tasks) := by
  intro tm
  refine ⟨fun i j held => ?_, fun wakeup armed => ?_⟩
  · simp [Manager.Holds, timerInit] at held
  · cases armed

/-! ### Calls of a pass -/

/-- The calls of `tm` before the guest first does something to it. -/
def callsBefore (tm : BitVec 32) : List PassEvent → Nat
  | [] => 0
  | .called other :: rest => (if other = tm then 1 else 0) + callsBefore tm rest
  | .guest action :: rest => if action.task = tm then 0 else callsBefore tm rest

/-- A callback of the pass inserts, removes or primes `tm`. -/
def Touched (tm : BitVec 32) (log : List PassEvent) : Prop :=
  ∃ action, .guest action ∈ log ∧ action.task = tm

theorem callsBefore_append_untouched {first : List PassEvent} (untouched : ¬ Touched tm first)
    (later : List PassEvent) :
    callsBefore tm (first ++ later) = callsBefore tm first + callsBefore tm later := by
  induction first with
  | nil => simp [callsBefore]
  | cons event first ih =>
    have rest : ¬ Touched tm first := fun ⟨action, member, own⟩ =>
      untouched ⟨action, List.mem_cons_of_mem _ member, own⟩
    cases event with
    | called other => simp only [List.cons_append, callsBefore, ih rest, Nat.add_assoc]
    | guest action =>
      have other : action.task ≠ tm := fun own => untouched ⟨action, List.mem_cons_self .., own⟩
      simp only [List.cons_append, callsBefore, if_neg other, ih rest]

theorem callsBefore_append_touched {first : List PassEvent} (touched : Touched tm first)
    (later : List PassEvent) : callsBefore tm (first ++ later) = callsBefore tm first := by
  induction first with
  | nil =>
    obtain ⟨_, member, _⟩ := touched
    cases member
  | cons event first ih =>
    obtain ⟨action, member, own⟩ := touched
    cases event with
    | called other =>
      have rest : Touched tm first := ⟨action, by simpa using member, own⟩
      simp only [List.cons_append, callsBefore, ih rest]
    | guest first_action =>
      by_cases here : first_action.task = tm
      · simp [callsBefore, here]
      · have rest : Touched tm first := by
          rcases List.mem_cons.mp member with same | inside
          · cases same
            exact absurd own here
          · exact ⟨action, inside, own⟩
        simp only [List.cons_append, callsBefore, if_neg here, ih rest]

theorem callsBefore_guest (tm : BitVec 32) (actions : List Action) :
    callsBefore tm (actions.map .guest) = 0 := by
  induction actions with
  | nil => rfl
  | cons action actions ih => simp [callsBefore, ih]

/-- After a round in which no callback touches `tm` and which does not call it, everything about
`tm` is as it was. -/
theorem visit_other (elsewhere : ¬ Due now st i tm) :
    callsBefore tm (visit now callbacks st i).2 = 0 ∧
      (Touched tm (visit now callbacks st i).2 ∨ SameFor tm st (visit now callbacks st i).1) := by
  rcases visit_cases now callbacks st i with
    ⟨_, idle⟩ | ⟨other, due, ⟨_, fired⟩ | ⟨_, actions, fired⟩⟩
  · rw [idle]
    exact ⟨rfl, .inr (.refl tm st)⟩
  · have different : tm ≠ other := fun same => elsewhere (same ▸ due)
    rw [fired]
    exact ⟨rfl, .inr (deactivate_sameFor different)⟩
  · have different : tm ≠ other := fun same => elsewhere (same ▸ due)
    rw [fired]
    refine ⟨by simp [callsBefore, different.symm, callsBefore_guest], ?_⟩
    by_cases untouched : ∀ action ∈ actions, action.task ≠ tm
    · exact .inr ((deactivate_sameFor different).trans (foldl_sameFor untouched _))
    · obtain ⟨action, member, own⟩ := by simpa using untouched
      exact .inl ⟨action, by simpa using member, own⟩

/-- The round of its own slot calls a task. Then it is inactive, until a callback touches it. -/
theorem visit_own (due : Due now st i tm) (addr : (st.tasks tm).tmAddr ≠ 0) :
    callsBefore tm (visit now callbacks st i).2 = 1 ∧
      (Touched tm (visit now callbacks st i).2 ∨
        ((visit now callbacks st i).1.tasks tm).active = false) := by
  rcases visit_cases now callbacks st i with ⟨idle, _⟩ | ⟨other, due', rest⟩
  · exact absurd due (idle tm)
  · obtain rfl : other = tm := due'.1.2.symm.trans due.1.2
    rcases rest with ⟨nowhere, _⟩ | ⟨_, actions, fired⟩
    · exact absurd nowhere addr
    · rw [fired]
      refine ⟨by simp [callsBefore, callsBefore_guest], ?_⟩
      by_cases untouched : ∀ action ∈ actions, action.task ≠ other
      · right
        rw [(foldl_sameFor untouched _).task]
        simp only [deactivate, Manager.setTask, Manager.setArmed, if_true, TMTask.active,
          BitVec.and_assoc]
        simp
      · obtain ⟨action, member, own⟩ := by simpa using untouched
        exact .inl ⟨action, by simpa using member, own⟩

/-- A task that is not active is not called unless a callback touches it first. -/
theorem pass_inactive (slots : List Slot) (inactive : (st.tasks tm).active = false) :
    callsBefore tm (pass now callbacks slots st).2 = 0 := by
  induction slots generalizing st with
  | nil => rfl
  | cons i slots ih =>
    have elsewhere : ¬ Due now st i tm := fun due => by simp [due.2.1] at inactive
    obtain ⟨none_called, touched | same⟩ := visit_other now callbacks elsewhere
    · exact (callsBefore_append_touched touched _).trans none_called
    · by_cases touched : Touched tm (visit now callbacks st i).2
      · exact (callsBefore_append_touched touched _).trans none_called
      · refine (callsBefore_append_untouched touched _).trans ?_
        have still_inactive : ((visit now callbacks st i).1.tasks tm).active = false := by
          rw [same.task]
          exact inactive
        rw [none_called, Nat.zero_add]
        exact ih still_inactive

/-- A task that is due in a slot still to come is called once, or a callback touches it first. -/
theorem pass_due {slots : List Slot} (ahead : i ∈ slots) (consistent : Consistent st)
    (due : Due now st i tm) (addr : (st.tasks tm).tmAddr ≠ 0) :
    callsBefore tm (pass now callbacks slots st).2 = 1 ∨
      (callsBefore tm (pass now callbacks slots st).2 = 0 ∧
        Touched tm (pass now callbacks slots st).2) := by
  -- Induction on the slots ahead; the rounds before slot `i` leave the task due or touch it.
  induction slots generalizing st with
  | nil => cases ahead
  | cons j slots ih =>
    have log : (pass now callbacks (j :: slots) st).2 = (visit now callbacks st j).2 ++
        (pass now callbacks slots (visit now callbacks st j).1).2 := rfl
    rw [log]
    by_cases here : j = i
    · subst here
      left
      obtain ⟨called, after⟩ := visit_own now callbacks due addr
      by_cases touched : Touched tm (visit now callbacks st j).2
      · rw [callsBefore_append_touched touched, called]
      · have inactive := after.resolve_left touched
        rw [callsBefore_append_untouched touched, called, pass_inactive now callbacks _ inactive]
    · have elsewhere : ¬ Due now st j tm := fun due' =>
        here ((consistent tm).unique j i due'.1 due.1)
      obtain ⟨none_called, after⟩ := visit_other now callbacks elsewhere
      by_cases touched : Touched tm (visit now callbacks st j).2
      · right
        rw [callsBefore_append_touched touched]
        obtain ⟨action, member, own⟩ := touched
        exact ⟨none_called, action, List.mem_append_left _ member, own⟩
      · have same := after.resolve_left touched
        have still_due : Due now (visit now callbacks st j).1 i tm :=
          ⟨(same.holds i).mpr due.1, by rw [same.task]; exact due.2.1,
            by rw [same.wakeup i due.1]; exact due.2.2⟩
        rw [callsBefore_append_untouched touched, none_called, Nat.zero_add]
        rcases ih ((List.mem_cons.mp ahead).resolve_left (Ne.symm here))
          (visit_consistent now callbacks j consistent) still_due (by rwa [same.task]) with
          once | ⟨never, action, member, own⟩
        · exact .inl once
        · exact .inr ⟨never, action, List.mem_append_right _ member, own⟩

/-- `PrimeTime` of a task with a descriptor arms it. -/
theorem primeTime_arms (held : findDesc st tm = some i) (time : BitVec 32) (now : TmTime) :
    (primeTime st tm time now).armed tm = some (nextWakeup st i (st.tasks tm) time now) ∧
      ((primeTime st tm time now).tasks tm).active = true := by
  simp only [primeTime, held, Manager.setArmed, Manager.setTask, if_true, TMTask.active, true_and]
  generalize (if (st.tasks tm).extended = true then _ else _ : TMTask).qType = qType
  simp only [decide_eq_true_eq]
  intro none
  have bit := congrArg (·.getLsbD 15) none
  simp at bit

/-- In every run each task has at most one descriptor, an armed task has one with its wakeup
time, and a pass calls an active task that has expired once, or a callback touches it first. -/
theorem descriptors_consistent (desc : Slot → TMDesc) (tasks : BitVec 32 → TMTask)
    (events : List Event) (st : Manager) (run : Run step Free (timerInit desc tasks) events st) :
    (∀ tm i j, st.Holds i tm → st.Holds j tm → i = j) ∧
      (∀ tm wakeup, st.armed tm = some wakeup →
        ∃ i, st.Holds i tm ∧ (st.desc i).wakeup = wakeup) ∧
      ∀ tm wakeup now callbacks, st.armed tm = some wakeup → (st.tasks tm).active = true →
        (st.tasks tm).tmAddr ≠ 0 → wakeup.toNat < now.toNat →
          now.toNat ≤ wakeup.toNat + 2 ^ 31 →
            callsBefore tm (timerInterrupt now callbacks st).2 = 1 ∨
              (callsBefore tm (timerInterrupt now callbacks st).2 = 0 ∧
                Touched tm (timerInterrupt now callbacks st).2) := by
  have consistent : Consistent st := run.invariant
    (fun _ event _ before _ taken => step_consistent event before taken)
    (timerInit_consistent desc tasks)
  refine ⟨fun tm => (consistent tm).unique, fun tm => (consistent tm).armed, ?_⟩
  intro tm wakeup now callbacks armed active addr past recent
  obtain ⟨i, held, at_i⟩ := (consistent tm).armed wakeup armed
  have due : Due now st i tm := by
    refine ⟨held, active, ?_⟩
    rw [at_i]
    exact timerCmpTime_neg past recent
  exact pass_due now callbacks (List.mem_finRange i) consistent due addr

/-! ### Runs -/

def idleTasks : BitVec 32 → TMTask := fun _ => ⟨0, 0x1000, 0, 0⟩

def unusedDescs : Slot → TMDesc := fun _ => ⟨0, 0, false⟩

/-- Two tasks are primed for one and two milliseconds. -/
def twoPrimed : List Event :=
  [.action (.insTime 0x100 0), .action (.primeTime 0x100 1 0), .action (.insTime 0x200 0),
    .action (.primeTime 0x200 2 0)]

/-- The callback of the first task removes the second, which has expired as well. -/
def removesSecond : Callbacks := fun _ _ tm => if tm = 0x100 then [.rmvTime 0x200 3000] else []

theorem first_called_once :
    ∃ st, Run step Free (timerInit unusedDescs idleTasks) twoPrimed st ∧
      (callsBefore 0x100 (timerInterrupt 3000 removesSecond st).2 = 1 ∨
        (callsBefore 0x100 (timerInterrupt 3000 removesSecond st).2 = 0 ∧
          Touched 0x100 (timerInterrupt 3000 removesSecond st).2)) := by
  have run : Run step Free (timerInit unusedDescs idleTasks) twoPrimed _ := run_of_exec rfl
  refine ⟨_, run, (descriptors_consistent unusedDescs idleTasks twoPrimed _ run).2.2 0x100 1000
    3000 removesSecond ?_ ?_ ?_ ?_ ?_⟩
  all_goals decide +kernel

/-- `InsTime` on a task that is already in clears its active bit, and the task is never called. -/
theorem reinserted_not_called :
    ∃ st, Run step Free (timerInit unusedDescs idleTasks)
        [.action (.insTime 0x100 0), .action (.primeTime 0x100 1 0), .action (.insTime 0x100 0)]
        st ∧
      st.armed 0x100 = some 1000 ∧ (timerInterrupt 3000 removesSecond st).2 = [] := by
  refine ⟨_, run_of_exec rfl, ?_, ?_⟩
  all_goals decide +kernel

end BasiliskII.Timer
