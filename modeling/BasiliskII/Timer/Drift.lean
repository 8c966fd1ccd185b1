import BasiliskII.Timer.TimeLeft
import Mathlib.Logic.Function.Basic

/-!
# Drift of extended tasks

An extended task that has been scheduled before is primed relative to what is in
its descriptor. That is the time it was last scheduled for as long as it is in
the descriptor it was last primed in, and no other task has been primed there
since. A task that stays in the queue keeps its descriptor, so its wakeup times
are a delay apart however late it is called.
-/
namespace BasiliskII.Timer

open StepSystem

/-- What happens to tasks, one at a time: a call of the guest, a task taken out of the queue in a
round of `TimerInterrupt`, or the guest writing the record of a task. -/
inductive Move where
  | call (action : Action)
  | fire (tm : BitVec 32)
  | write (tm : BitVec 32) (t : TMTask)

/-- The manager with what `PrimeTime` did so far: the time a task was last scheduled for, the
descriptor it was primed in, and the task last primed in a descriptor. `driftFree` says that every
task primed relative to its last schedule was scheduled from there. -/
structure History where
  manager : Manager
  scheduled : BitVec 32 → Option TmTime
  primedIn : BitVec 32 → Option Slot
  lastIn : Slot → Option (BitVec 32)
  driftFree : Bool

/-- `PrimeTime` is to go on from the last schedule. -/
def Continues (t : TMTask) : Prop := t.extended = true ∧ t.tmWakeUp ≠ 0

instance (t : TMTask) : Decidable (Continues t) := inferInstanceAs (Decidable (_ ∧ _))

/-- `PrimeTime` of the task in slot `i`. -/
def History.prime (h : History) (tm : BitVec 32) (time : BitVec 32) (now : TmTime) (i : Slot) :
    History :=
  let wakeup := nextWakeup h.manager i (h.manager.tasks tm) time now
  -- `none` for a task that was never scheduled: there is nothing to go on from.
  let due := (h.scheduled tm).map fun last => timerAddTime last (timerMac2hostTime time)
  { manager := primeTime h.manager tm time now
    scheduled := Function.update h.scheduled tm (some wakeup)
    primedIn := Function.update h.primedIn tm (some i)
    lastIn := Function.update h.lastIn i (some tm)
    driftFree := h.driftFree && (!decide (Continues (h.manager.tasks tm)) || due = some wakeup) }

def History.move (h : History) : Move → History
  | .call (.primeTime tm time now) =>
    match findDesc h.manager tm with
    | some i => h.prime tm time now i
    | none => h
  | .call action => { h with manager := action.apply h.manager }
  | .fire tm => { h with manager := deactivate h.manager tm }
  | .write tm t => { h with manager := h.manager.setTask tm t }

def History.step (h : History) (move : Move) : Option History := some (h.move move)

/-- Nothing has been primed yet. -/
def History.start (st : Manager) : History := ⟨st, fun _ => none, fun _ => none, fun _ => none, true⟩

/-- A task that goes on from its last schedule is in the descriptor it was last primed in, and no
other task has been primed there since. -/
def OwnSlot (h : History) : Move → Prop
  | .call (.primeTime tm _ _) =>
    ∀ i, findDesc h.manager tm = some i → Continues (h.manager.tasks tm) →
      h.primedIn tm = some i ∧ h.lastIn i = some tm
  | _ => True

/-! ### The moves of a run of the code -/

/-- The moves of one round: the task of the slot is taken out, and its callback makes its calls. -/
def roundMoves (now : TmTime) (callbacks : Callbacks) (st : Manager) (i : Slot) : List Move :=
  let tm := (st.desc i).task
  if (st.desc i).inUse && (st.tasks tm).active && timerCmpTime (st.desc i).wakeup now < 0 then
    let out := deactivate st tm
    let addr := (out.tasks tm).tmAddr
    .fire tm :: if addr = 0 then [] else (callbacks out addr tm).map .call
  else []

/-- The moves of the rounds for the slots still to come. -/
def passMoves (now : TmTime) (callbacks : Callbacks) : List Slot → Manager → List Move
  | [], _ => []
  | i :: rest, st =>
    roundMoves now callbacks st i ++ passMoves now callbacks rest (visit now callbacks st i).1

def eventMoves (st : Manager) : Event → List Move
  | .action action => [.call action]
  | .interrupt now callbacks => passMoves now callbacks (List.finRange NUM_DESCS) st

def runMoves : Manager → List Event → List Move
  | _, [] => []
  | st, event :: events =>
    eventMoves st event ++ ((step st event).elim [] fun st' => runMoves st' events)

theorem prime_manager (h : History) (tm : BitVec 32) (time : BitVec 32) (now : TmTime) (i : Slot) :
    (h.prime tm time now i).manager = primeTime h.manager tm time now := rfl

theorem call_manager (h : History) (action : Action) :
    (h.move (.call action)).manager = action.apply h.manager := by
  cases action with
  | insTime tm trap => rfl
  | rmvTime tm current => rfl
  | primeTime tm time now =>
    cases found : findDesc h.manager tm with
    | some i => simp only [History.move, found, prime_manager, Action.apply]
    | none => simp only [History.move, found, Action.apply, primeTime]

theorem calls_manager (h : History) (actions : List Action) :
    ((actions.map Move.call).foldl History.move h).manager =
      actions.foldl Action.apply h.manager := by
  induction actions generalizing h with
  | nil => rfl
  | cons action actions ih =>
    rw [List.map_cons, List.foldl_cons, ih, call_manager]
    rfl

theorem round_moves (now : TmTime) (callbacks : Callbacks) (i : Slot) (h : History) :
    ((roundMoves now callbacks h.manager i).foldl History.move h).manager =
      (visit now callbacks h.manager i).1 := by
  rw [roundMoves, visit]
  split
  next due =>
    generalize (h.manager.desc i).task = tm
    have fired : (h.move (.fire tm)).manager = deactivate h.manager tm := rfl
    by_cases nowhere : ((deactivate h.manager tm).tasks tm).tmAddr = 0
    · calc
        _ = (h.move (.fire tm)).manager := by
          simp only [nowhere, if_true, List.foldl_cons, List.foldl_nil]
        _ = (deactivate h.manager tm, ([] : List PassEvent)).1 := fired
        _ = _ := congrArg Prod.fst (if_pos nowhere).symm
    · generalize acts :
        callbacks (deactivate h.manager tm) ((deactivate h.manager tm).tasks tm).tmAddr tm = actions
      calc
        _ = actions.foldl Action.apply (deactivate h.manager tm) := by
          simp only [nowhere, if_false, List.foldl_cons, calls_manager, fired, acts]
        _ = (actions.foldl Action.apply (deactivate h.manager tm),
              PassEvent.called tm :: actions.map .guest).1 := rfl
        _ = _ := by
          rw [← acts]
          exact congrArg Prod.fst (if_neg nowhere).symm
  next idle => rfl

/-- A pass does what its moves do. -/
theorem pass_moves (now : TmTime) (callbacks : Callbacks) (slots : List Slot) (h : History) :
    ((passMoves now callbacks slots h.manager).foldl History.move h).manager =
      (pass now callbacks slots h.manager).1 := by
  induction slots generalizing h with
  | nil => rfl
  | cons i slots ih =>
    have first := round_moves now callbacks i h
    have later := ih ((roundMoves now callbacks h.manager i).foldl History.move h)
    rw [first] at later
    rw [passMoves, List.foldl_append]
    exact later

theorem run_of_foldl (h : History) (moves : List Move) :
    Run History.step Free h moves (moves.foldl History.move h) := by
  induction moves generalizing h with
  | nil => exact .done h
  | cons move moves ih => exact .next trivial rfl (ih (h.move move))

/-- A run of the code is a run of its moves. -/
theorem run_moves {st st' : Manager} {events : List Event} (run : Run step Free st events st')
    (h : History) (same : h.manager = st) :
    ((runMoves st events).foldl History.move h).manager = st' := by
  induction run generalizing h with
  | done => exact same
  | @next s t u event events _ taken _ ih =>
    rw [runMoves, taken, List.foldl_append]
    refine ih _ ?_
    subst same
    cases event with
    | action action =>
      rw [← Option.some.inj taken]
      exact call_manager h action
    | interrupt now callbacks =>
      rw [← Option.some.inj taken]
      exact pass_moves now callbacks _ h

/-! ### What is in a descriptor -/

theorem insTime_wakeup (st : Manager) (tm : BitVec 32) (trap : BitVec 16) (i : Slot) :
    ((insTime st tm trap).desc i).wakeup = (st.desc i).wakeup := by
  simp only [insTime, allocDesc]
  split
  · rfl
  · split
    next j _ =>
      by_cases here : i = j
      · simp [here, Manager.setDesc, Manager.setTask]
      · rw [setDesc_other _ _ here]
        rfl
    · rfl

theorem rmvTime_wakeup (st : Manager) (tm : BitVec 32) (current : TmTime) (i : Slot) :
    ((rmvTime st tm current).desc i).wakeup = (st.desc i).wakeup := by
  rcases findDesc_cases st tm with ⟨j, found, _⟩ | ⟨absent, _⟩
  · simp only [rmvTime, found, freeDescAt, Manager.setArmed, Manager.setDesc]
    split
    next here => rw [here]; rfl
    · rfl
  · simp only [rmvTime, absent]

variable {tm : BitVec 32} {i : Slot}

/-- `PrimeTime` writes its wakeup time into the descriptor of the task, and leaves the rest of
the descriptors and who holds them alone. -/
theorem primeTime_desc {st : Manager} (found : findDesc st tm = some i) (time : BitVec 32)
    (now : TmTime) (k : Slot) :
    (primeTime st tm time now).desc k =
      if k = i then { st.desc i with wakeup := nextWakeup st i (st.tasks tm) time now }
      else st.desc k := by
  simp only [primeTime, found, Manager.setArmed, Manager.setTask, Manager.setDesc]

/-- The task last primed in a descriptor, if it has not been primed elsewhere since, was last
scheduled for the time the descriptor holds. -/
def Kept (h : History) : Prop :=
  ∀ i tm, h.lastIn i = some tm → h.primedIn tm = some i →
    h.scheduled tm = some (h.manager.desc i).wakeup

variable {h : History}

theorem prime_kept (kept : Kept h) (found : findDesc h.manager tm = some i) (time : BitVec 32)
    (now : TmTime) : Kept (h.prime tm time now i) := by
  intro k other last primed
  simp only [History.prime] at last primed ⊢
  rw [primeTime_desc found]
  -- The task primed now has slot `i`; any other one was last primed in a slot that stays as it is.
  by_cases own : other = tm
  · subst own
    rw [Function.update_self] at primed
    cases primed
    rw [Function.update_self, if_pos rfl]
  · rw [Function.update_of_ne own] at primed ⊢
    have elsewhere : k ≠ i := by
      rintro rfl
      rw [Function.update_self] at last
      exact own (Option.some.inj last).symm
    rw [Function.update_of_ne elsewhere] at last
    rw [if_neg elsewhere]
    exact kept k other last primed

theorem move_kept (kept : Kept h) (move : Move) : Kept (h.move move) := by
  cases move with
  | call action =>
    cases action with
    | insTime tm trap =>
      intro i other last primed
      exact (kept i other last primed).trans (congrArg some (insTime_wakeup _ tm trap i).symm)
    | rmvTime tm current =>
      intro i other last primed
      exact (kept i other last primed).trans (congrArg some (rmvTime_wakeup _ tm current i).symm)
    | primeTime tm time now =>
      cases found : findDesc h.manager tm with
      | some i =>
        simp only [History.move, found]
        exact prime_kept kept found time now
      | none => simpa only [History.move, found] using kept
  | fire tm => exact kept
  | write tm t => exact kept

theorem run_kept {h' : History} {moves : List Move} {guard : History → Move → Prop}
    (run : Run History.step guard h moves h') (kept : Kept h) : Kept h' := by
  refine run.invariant (fun t move t' before _ taken => ?_) kept
  rw [← Option.some.inj taken]
  exact move_kept before move

/-- In its own descriptor a task that goes on is scheduled a delay after its last schedule. -/
theorem nextWakeup_continues (kept : Kept h) (continuing : Continues (h.manager.tasks tm))
    (primed : h.primedIn tm = some i) (last : h.lastIn i = some tm) (time : BitVec 32)
    (now : TmTime) :
    (h.scheduled tm).map (fun wakeup => timerAddTime wakeup (timerMac2hostTime time)) =
      some (nextWakeup h.manager i (h.manager.tasks tm) time now) := by
  have goes_on : ((h.manager.tasks tm).extended && (h.manager.tasks tm).tmWakeUp ≠ 0) = true := by
    simpa [Continues] using continuing
  rw [kept i tm last primed, nextWakeup, if_pos goes_on]
  rfl

theorem move_driftFree (kept : Kept h) {move : Move} (own : OwnSlot h move)
    (driftFree : h.driftFree = true) : (h.move move).driftFree = true := by
  cases move with
  | call action =>
    cases action with
    | insTime tm trap => exact driftFree
    | rmvTime tm current => exact driftFree
    | primeTime tm time now =>
      cases found : findDesc h.manager tm with
      | some i =>
        simp only [History.move, found, History.prime, driftFree, Bool.true_and]
        -- A task that starts from the present time cannot drift.
        by_cases continuing : Continues (h.manager.tasks tm)
        · obtain ⟨primed, last⟩ := own i found continuing
          simp [nextWakeup_continues kept continuing primed last time now]
        · simp [continuing]
      | none => simpa only [History.move, found] using driftFree
  | fire tm => exact driftFree
  | write tm t => exact driftFree

/-! ### A task that primes itself -/

/-- The move neither removes the task, puts it in anew, nor writes its record, and primes it only
for the delay `d`. -/
def Reprimes (tm d : BitVec 32) : Move → Prop
  | .call (.primeTime other time _) => other = tm → time = d
  | .call action => action.task ≠ tm
  | .fire _ => True
  | .write other _ => other ≠ tm

def Move.primes (tm : BitVec 32) : Move → Bool
  | .call (.primeTime other _ _) => other = tm
  | _ => false

/-- The task was last primed in slot `i`, which it holds, and is to go on from there. -/
structure GoesOn (tm : BitVec 32) (i : Slot) (h : History) : Prop where
  found : findDesc h.manager tm = some i
  continuing : Continues (h.manager.tasks tm)
  primed : h.primedIn tm = some i
  last : h.lastIn i = some tm

theorem findDesc_congr {st st' : Manager} (same : ∀ i, st'.Holds i tm ↔ st.Holds i tm) :
    findDesc st' tm = findDesc st tm := by
  rw [findDesc, findDesc]
  congr 1
  funext i
  rw [Bool.eq_iff_iff]
  simpa [Manager.Holds] using same i

theorem GoesOn.congr {h' : History} (goesOn : GoesOn tm i h)
    (same : SameFor tm h.manager h'.manager) (primed : h'.primedIn tm = h.primedIn tm)
    (last : h'.lastIn i = h.lastIn i) : GoesOn tm i h' where
  found := (findDesc_congr same.holds).trans goesOn.found
  continuing := by
    rw [same.task]
    exact goesOn.continuing
  primed := primed.trans goesOn.primed
  last := last.trans goesOn.last

theorem primeTime_holds {st : Manager} (found : findDesc st tm = some i) (time : BitVec 32)
    (now : TmTime) (k : Slot) (other : BitVec 32) :
    (primeTime st tm time now).Holds k other ↔ st.Holds k other := by
  rw [Manager.Holds, Manager.Holds, primeTime_desc found]
  split
  next here => rw [here]
  · rfl

/-- Every task that is extended goes on once it has been primed. -/
theorem prime_goesOn (found : findDesc h.manager tm = some i)
    (extended : (h.manager.tasks tm).extended = true) (time : BitVec 32) (now : TmTime) :
    GoesOn tm i (h.prime tm time now i) where
  found := (findDesc_congr fun k => primeTime_holds found time now k tm).trans found
  continuing := by
    rw [extended_eq] at extended
    simp [prime_manager, primeTime, found, Manager.setArmed, Manager.setTask, Continues,
      extended_eq, extended]
  primed := Function.update_self ..
  last := Function.update_self ..

theorem fire_goesOn (goesOn : GoesOn tm i h) (other : BitVec 32) :
    GoesOn tm i (h.move (.fire other)) := by
  by_cases own : other = tm
  · subst own
    refine ⟨goesOn.found, ?_, goesOn.primed, goesOn.last⟩
    obtain ⟨extended, set⟩ := goesOn.continuing
    rw [extended_eq] at extended
    simpa [History.move, deactivate, Manager.setArmed, Manager.setTask, Continues, extended_eq,
      extended] using set
  · exact goesOn.congr (deactivate_sameFor (Ne.symm own)) rfl rfl

/-- Such a move leaves the task to go on, and schedules it a delay later if it primes it. -/
theorem move_goesOn {d : BitVec 32} (kept : Kept h) (goesOn : GoesOn tm i h) {move : Move}
    (reprimes : Reprimes tm d move) :
    GoesOn tm i (h.move move) ∧
      (h.move move).scheduled tm =
        if move.primes tm then
          (h.scheduled tm).map fun last => timerAddTime last (timerMac2hostTime d)
        else h.scheduled tm := by
  cases move with
  | call action =>
    cases action with
    | insTime other trap =>
      have different : tm ≠ other := Ne.symm reprimes
      exact ⟨goesOn.congr (insTime_sameFor trap different) rfl rfl, rfl⟩
    | rmvTime other current =>
      have different : tm ≠ other := Ne.symm reprimes
      exact ⟨goesOn.congr (rmvTime_sameFor current different) rfl rfl, rfl⟩
    | primeTime other time now =>
      by_cases own : other = tm
      · subst own
        obtain rfl : time = d := reprimes rfl
        simp only [History.move, goesOn.found, Move.primes, decide_true, if_true]
        refine ⟨prime_goesOn goesOn.found goesOn.continuing.1 time now, ?_⟩
        rw [nextWakeup_continues kept goesOn.continuing goesOn.primed goesOn.last time now]
        exact Function.update_self ..
      · have unprimed : Move.primes tm (.call (.primeTime other time now)) = false := by
          simp [Move.primes, own]
        rw [unprimed, if_neg (by decide)]
        cases found : findDesc h.manager other with
        | none =>
          simp only [History.move, found]
          exact ⟨goesOn, trivial⟩
        | some k =>
          -- Two tasks are not in one descriptor, so the other one is not primed in slot `i`.
          have elsewhere : i ≠ k := by
            rintro rfl
            exact own ((findDesc_holds found).2.symm.trans (findDesc_holds goesOn.found).2)
          simp only [History.move, found]
          exact ⟨goesOn.congr (primeTime_sameFor time now (Ne.symm own))
            (Function.update_of_ne (Ne.symm own) ..) (Function.update_of_ne elsewhere ..),
            Function.update_of_ne (Ne.symm own) ..⟩
  | fire other => exact ⟨fire_goesOn goesOn other, rfl⟩
  | write other t =>
    exact ⟨goesOn.congr (sameFor_setTask _ t (Ne.symm reprimes)) rfl rfl, rfl⟩

/-- The schedules of a task that primes itself are a delay apart. -/
theorem run_goesOn {h' : History} {d : BitVec 32} {moves : List Move}
    (run : Run History.step Free h moves h') (kept : Kept h) (goesOn : GoesOn tm i h)
    (reprimes : ∀ move ∈ moves, Reprimes tm d move) {first : TmTime}
    (scheduled : h.scheduled tm = some first) :
    h'.scheduled tm =
      some (first + BitVec.ofNat 64 (moves.countP (Move.primes tm)) * timerMac2hostTime d) := by
  -- Induction on the run; each move that primes the task adds one delay to where it starts.
  induction run generalizing first with
  | done => simpa using scheduled
  | @next s t u move moves _ taken _ ih =>
    obtain rfl : s.move move = t := Option.some.inj taken
    have own : Reprimes tm d move := reprimes move (List.mem_cons_self ..)
    obtain ⟨still, after⟩ := move_goesOn kept goesOn own
    have rest : ∀ other ∈ moves, Reprimes tm d other :=
      fun other member => reprimes other (List.mem_cons_of_mem _ member)
    rw [scheduled, Option.map_some] at after
    by_cases primes : move.primes tm = true
    · rw [if_pos primes] at after
      rw [ih (move_kept kept move) still rest after, List.countP_cons_of_pos primes, Nat.add_comm,
        BitVec.ofNat_add, BitVec.add_mul, BitVec.one_mul, timerAddTime, BitVec.add_assoc]
    · rw [if_neg primes] at after
      rw [ih (move_kept kept move) still rest after, List.countP_cons_of_neg primes]

/-- A task is primed for one millisecond, called late and primed again. -/
def primedLate : List Move :=
  [.call (.insTime 0x100 0x400), .call (.primeTime 0x100 1 0), .fire 0x100,
    .call (.primeTime 0x100 1 1700)]

/-- It goes on with one other task about. -/
def primedLater : List Move :=
  [.fire 0x100, .call (.insTime 0x200 0), .call (.primeTime 0x200 5 3100),
    .call (.primeTime 0x100 1 3400), .fire 0x100, .call (.primeTime 0x100 1 4900)]

/-- An extended task is primed for one millisecond, and removed half a millisecond later. Another
task is primed in the descriptor it had before it is put back and primed again. -/
def tradedDescriptor : List Event :=
  [.action (.insTime 0x100 0x400), .action (.primeTime 0x100 1 0), .action (.rmvTime 0x100 500),
    .action (.insTime 0x200 0), .action (.primeTime 0x200 5 600), .action (.rmvTime 0x200 700),
    .action (.insTime 0x100 0x400), .action (.primeTime 0x100 1 800)]

end BasiliskII.Timer
