import BasiliskII.Timer.Descriptors

/-!
# Active tasks are scheduled

Only `PrimeTime` sets the active bit of a task that has a descriptor: `InsTime`
clears it before the task gets one. So in every run an active task with a
descriptor is armed, and its descriptor holds the wakeup time it is armed for.
-/
namespace BasiliskII.Timer

open StepSystem

variable {st : Manager}

def ScheduledFor (tm : BitVec 32) (st : Manager) : Prop :=
  ∀ i, st.Holds i tm → (st.tasks tm).active = true → st.armed tm = some (st.desc i).wakeup

/-- The invariant of the descriptors, and that active tasks are armed. -/
structure Scheduled (st : Manager) : Prop where
  consistent : Consistent st
  armed : ∀ tm, ScheduledFor tm st

variable {tm : BitVec 32}

theorem ScheduledFor.congr {st' : Manager} (scheduled : ScheduledFor tm st)
    (same : SameFor tm st st') : ScheduledFor tm st' := by
  intro i held active
  have before := (same.holds i).mp held
  rw [same.task] at active
  rw [same.armed, same.wakeup i before]
  exact scheduled i before active

theorem scheduledFor_inactive (inactive : (st.tasks tm).active = false) : ScheduledFor tm st := by
  intro i _ active
  rw [inactive] at active
  contradiction

/-- The one descriptor of an armed task is the one it is armed by. -/
theorem scheduledFor_armed {wakeup : TmTime} (consistent : ConsistentFor tm st)
    (armed : st.armed tm = some wakeup) : ScheduledFor tm st := by
  intro i held _
  obtain ⟨j, held', at_j⟩ := consistent.armed wakeup armed
  rw [armed, consistent.unique i j held held', at_j]

theorem findDesc_holds {i : Slot} (found : findDesc st tm = some i) : st.Holds i tm := by
  rcases findDesc_cases st tm with ⟨k, found', held⟩ | ⟨absent, _⟩
  · cases found.symm.trans found'
    exact held
  · cases found.symm.trans absent

theorem findDesc_held {i : Slot} (consistent : ConsistentFor tm st) (held : st.Holds i tm) :
    findDesc st tm = some i := by
  rcases findDesc_cases st tm with ⟨k, found, held'⟩ | ⟨_, absent⟩
  · rw [found, consistent.unique k i held' held]
  · exact absurd held (absent i)

theorem active_eq (t : TMTask) : t.active = t.qType.getLsbD 15 := by
  have bit := BitVec.and_twoPow t.qType 15
  rw [show BitVec.twoPow 16 15 = 0x8000 from rfl] at bit
  rw [TMTask.active, bit]
  cases t.qType.getLsbD 15 <;> rfl

theorem deactivate_inactive (st : Manager) (tm : BitVec 32) :
    ((deactivate st tm).tasks tm).active = false := by
  simp [deactivate, Manager.setArmed, Manager.setTask, active_eq]

@[simp] theorem allocDesc_tasks (st : Manager) (tm : BitVec 32) :
    (allocDesc st tm).tasks = st.tasks := by
  rw [allocDesc]
  split <;> rfl

theorem insTime_inactive (st : Manager) (tm : BitVec 32) (trap : BitVec 16) :
    ((insTime st tm trap).tasks tm).active = false := by
  simp only [insTime]
  split <;> simp [Manager.setTask, active_eq]

theorem rmvTime_inactive {i : Slot} (found : findDesc st tm = some i) (current : TmTime) :
    ((rmvTime st tm current).tasks tm).active = false := by
  simp only [rmvTime, found, freeDescAt, Manager.setArmed, Manager.setDesc, Manager.setTask,
    if_true]
  split
  · simp [active_eq]
  next idle => simpa [TMTask.active] using idle

theorem apply_scheduled (action : Action) (scheduled : Scheduled st) :
    Scheduled (action.apply st) := by
  have consistent := apply_consistent action scheduled.consistent
  refine ⟨consistent, fun tm => ?_⟩
  -- A call about another task is a frame; of the three about this one, only `PrimeTime` leaves it
  -- active, and arms it.
  by_cases own : action.task = tm
  · subst own
    cases action with
    | insTime tm trap => exact scheduledFor_inactive (insTime_inactive st tm trap)
    | rmvTime tm current =>
      rcases findDesc_cases st tm with ⟨i, found, _⟩ | ⟨absent, _⟩
      · exact scheduledFor_inactive (rmvTime_inactive found current)
      · simp only [Action.apply, Action.task, rmvTime, absent]
        exact scheduled.armed tm
    | primeTime tm time now =>
      rcases findDesc_cases st tm with ⟨i, found, _⟩ | ⟨absent, _⟩
      · exact scheduledFor_armed (consistent tm) (primeTime_arms found time now).1
      · simp only [Action.apply, Action.task, primeTime, absent]
        exact scheduled.armed tm
  · exact (scheduled.armed tm).congr (apply_sameFor action own)

theorem foldl_scheduled (actions : List Action) (scheduled : Scheduled st) :
    Scheduled (actions.foldl Action.apply st) := by
  induction actions generalizing st with
  | nil => exact scheduled
  | cons action actions ih => exact ih (apply_scheduled action scheduled)

theorem deactivate_scheduled (tm : BitVec 32) (scheduled : Scheduled st) :
    Scheduled (deactivate st tm) := by
  refine ⟨deactivate_consistent tm scheduled.consistent, fun other => ?_⟩
  by_cases own : other = tm
  · subst own
    exact scheduledFor_inactive (deactivate_inactive st other)
  · exact (scheduled.armed other).congr (deactivate_sameFor own)

theorem visit_scheduled (now : TmTime) (callbacks : Callbacks) (i : Slot)
    (scheduled : Scheduled st) : Scheduled (visit now callbacks st i).1 := by
  rcases visit_cases now callbacks st i with ⟨_, idle⟩ | ⟨tm, _, ⟨_, fired⟩ | ⟨_, actions, fired⟩⟩
  · rwa [idle]
  · rw [fired]
    exact deactivate_scheduled tm scheduled
  · rw [fired]
    exact foldl_scheduled actions (deactivate_scheduled tm scheduled)

theorem pass_scheduled (now : TmTime) (callbacks : Callbacks) (slots : List Slot)
    (scheduled : Scheduled st) : Scheduled (pass now callbacks slots st).1 := by
  induction slots generalizing st with
  | nil => exact scheduled
  | cons i slots ih => exact ih (visit_scheduled now callbacks i scheduled)

theorem step_scheduled {st' : Manager} (event : Event) (scheduled : Scheduled st)
    (taken : step st event = some st') : Scheduled st' := by
  cases event with
  | action action =>
    cases taken
    exact apply_scheduled action scheduled
  | interrupt now callbacks =>
    rw [← Option.some.inj taken]
    exact pass_scheduled now callbacks _ scheduled

theorem timerInit_scheduled (desc : Slot → TMDesc) (tasks : BitVec 32 → TMTask) :
    Scheduled (timerInit desc tasks) := by
  refine ⟨timerInit_consistent desc tasks, fun tm i held => ?_⟩
  simp [Manager.Holds, timerInit] at held

/-- In every run the active tasks with a descriptor are armed. -/
theorem run_scheduled {desc : Slot → TMDesc} {tasks : BitVec 32 → TMTask} {events : List Event}
    (run : Run step Free (timerInit desc tasks) events st) : Scheduled st :=
  run.invariant (fun _ event _ before _ taken => step_scheduled event before taken)
    (timerInit_scheduled desc tasks)

end BasiliskII.Timer
