import BasiliskII.Timer.Scheduled
import BasiliskII.Timer.Conversions

/-!
# Tasks called on time

`timer_cmp_time` narrows the difference of two times to an `int`, so its sign is
the right one exactly where the low 32 bits of their distance show it. A round of
`TimerInterrupt` calls a task exactly when its scheduled time is past, as long as
they do; tasks scheduled more than 2^31 microseconds ahead are called early, and
tasks as long overdue are not called.
-/
namespace BasiliskII.Timer

open StepSystem SignedWidth

/-- The result has the sign the comment of `timer_cmp_time` promises. -/
def ComparesRight (a b : TmTime) : Prop :=
  (timerCmpTime a b < 0 ↔ a.toNat < b.toNat) ∧ (timerCmpTime a b = 0 ↔ a.toNat = b.toNat) ∧
    (0 < timerCmpTime a b ↔ b.toNat < a.toNat)

/-- Where `a` is before `b`, the low bits of the distance show it. -/
def EarlierShows (a b : TmTime) : Prop :=
  a.toNat < b.toNat → 0 < (b.toNat - a.toNat) % 2 ^ 32 ∧ (b.toNat - a.toNat) % 2 ^ 32 ≤ 2 ^ 31

def NotEarlierShows (a b : TmTime) : Prop :=
  b.toNat ≤ a.toNat → (a.toNat - b.toNat) % 2 ^ 32 < 2 ^ 31

def LaterShows (a b : TmTime) : Prop :=
  b.toNat < a.toNat → 0 < (a.toNat - b.toNat) % 2 ^ 32 ∧ (a.toNat - b.toNat) % 2 ^ 32 < 2 ^ 31

theorem timerCmpTime_eq (a b : TmTime) :
    timerCmpTime a b =
      if ((a.toNat : Int) - b.toNat) % 4294967296 < 2147483648 then
        ((a.toNat : Int) - b.toNat) % 4294967296
      else ((a.toNat : Int) - b.toNat) % 4294967296 - 4294967296 := by
  have size := a.isLt
  have size' := b.isLt
  have low : (((a - b).setWidth 32).toNat : Int) = ((a.toNat : Int) - b.toNat) % 4294967296 := by
    rw [BitVec.toNat_setWidth, BitVec.toNat_sub]
    omega
  rw [timerCmpTime, BitVec.toInt_eq_toNat_cond]
  split <;> split <;> omega

theorem timerCmpTime_neg_iff (a b : TmTime) :
    (timerCmpTime a b < 0 ↔ a.toNat < b.toNat) ↔ EarlierShows a b ∧ NotEarlierShows a b := by
  have size := a.isLt
  have size' := b.isLt
  rw [timerCmpTime_eq, EarlierShows, NotEarlierShows]
  split <;> omega

theorem comparesRight_iff (a b : TmTime) :
    ComparesRight a b ↔ EarlierShows a b ∧ LaterShows a b := by
  have size := a.isLt
  have size' := b.isLt
  rw [ComparesRight, timerCmpTime_eq, EarlierShows, LaterShows]
  split <;> omega

variable (now : TmTime)

/-- A wakeup time one delay away compares as the delay's own sign. -/
theorem timerCmpTime_delay (time : BitVec 32) :
    timerCmpTime (timerAddTime now (timerMac2hostTime time)) now =
      (timerMac2hostTime time).toInt := by
  -- The delay has been widened from an `int`, which the narrowing gives back.
  have distance : now + timerMac2hostTime time - now = timerMac2hostTime time := by grind
  rw [timerCmpTime, timerAddTime, distance, toInt_setWidth_iff (by decide) (by decide)]
  exact timerMac2hostTime_fits time

theorem delay_comparesRight_iff (time : BitVec 32) :
    ComparesRight (timerAddTime now (timerMac2hostTime time)) now ↔
      0 ≤ now.toNat + (timerMac2hostTime time).toInt ∧
        now.toNat + (timerMac2hostTime time).toInt < 2 ^ 64 := by
  have delay := timerMac2hostTime_fits time
  have size := now.isLt
  rw [ComparesRight, timerCmpTime_delay, timerAddTime, BitVec.toNat_add]
  generalize timerMac2hostTime time = wait at *
  have width := wait.isLt
  rw [BitVec.toInt_eq_toNat_cond] at delay ⊢
  rw [Fits] at delay
  split at delay <;> split <;> omega

/-! ### The rounds of a pass -/

variable {st : Manager}

/-- The state each round of the loop starts in. -/
def rounds (now : TmTime) (callbacks : Callbacks) : List Slot → Manager → List (Manager × Slot)
  | [], _ => []
  | i :: rest, st => (st, i) :: rounds now callbacks rest (visit now callbacks st i).1

variable (callbacks : Callbacks)

theorem pass_log (slots : List Slot) (st : Manager) :
    (pass now callbacks slots st).2 =
      (rounds now callbacks slots st).flatMap fun round =>
        (visit now callbacks round.1 round.2).2 := by
  induction slots generalizing st with
  | nil => rfl
  | cons i slots ih =>
    rw [rounds, List.flatMap_cons, ← ih]
    rfl

theorem rounds_scheduled (slots : List Slot) (scheduled : Scheduled st) :
    ∀ round ∈ rounds now callbacks slots st, Scheduled round.1 := by
  induction slots generalizing st with
  | nil => simp [rounds]
  | cons i slots ih =>
    intro round member
    rcases List.mem_cons.mp member with rfl | later
    · exact scheduled
    · exact ih (visit_scheduled now callbacks i scheduled) round later

/-- A round calls the task of its slot when it is due and has a timer function. -/
theorem called_iff (st : Manager) (i : Slot) (tm : BitVec 32) :
    .called tm ∈ (visit now callbacks st i).2 ↔ Due now st i tm ∧ (st.tasks tm).tmAddr ≠ 0 := by
  rcases visit_cases now callbacks st i with
    ⟨idle, same⟩ | ⟨other, due, ⟨nowhere, fired⟩ | ⟨somewhere, actions, fired⟩⟩
  · rw [same]
    simp [idle tm]
  · -- Without a timer function the task is only taken out.
    rw [fired]
    refine iff_of_false (by simp) ?_
    rintro ⟨due', somewhere⟩
    obtain rfl : other = tm := due.1.2.symm.trans due'.1.2
    exact somewhere nowhere
  · have not_guest : PassEvent.called tm ∉ actions.map .guest := by simp
    rw [fired, List.mem_cons, or_iff_left not_guest]
    constructor
    · intro called
      cases called
      exact ⟨due, somewhere⟩
    · rintro ⟨due', _⟩
      obtain rfl : other = tm := due.1.2.symm.trans due'.1.2
      rfl

/-- The round calls the active task of its slot exactly when the time it is scheduled for lies
before the time of the pass, and no other task. -/
def CallsOnTime (now : TmTime) (callbacks : Callbacks) (st : Manager) (i : Slot) : Prop :=
  ∀ tm, .called tm ∈ (visit now callbacks st i).2 ↔
    st.Holds i tm ∧ (st.tasks tm).active = true ∧ (st.tasks tm).tmAddr ≠ 0 ∧
      ∃ wakeup, st.armed tm = some wakeup ∧ wakeup.toNat < now.toNat

/-- For an active task in the slot, the low bits of the distance show whether it is due. -/
def TimeShows (now : TmTime) (st : Manager) (i : Slot) : Prop :=
  ∀ tm, st.Holds i tm → (st.tasks tm).active = true → (st.tasks tm).tmAddr ≠ 0 →
    EarlierShows (st.desc i).wakeup now ∧ NotEarlierShows (st.desc i).wakeup now

theorem callsOnTime_iff (i : Slot) (scheduled : Scheduled st) :
    CallsOnTime now callbacks st i ↔ TimeShows now st i := by
  -- For the active task of the slot, both sides compare the same wakeup time.
  have at_task (tm : BitVec 32) (held : st.Holds i tm) (active : (st.tasks tm).active = true) :
      (∃ wakeup, st.armed tm = some wakeup ∧ wakeup.toNat < now.toNat) ↔
        (st.desc i).wakeup.toNat < now.toNat := by
    rw [scheduled.armed tm i held active]
    simp
  constructor
  · intro onTime tm held active somewhere
    have called := onTime tm
    rw [called_iff, at_task tm held active] at called
    rw [← timerCmpTime_neg_iff]
    constructor
    · intro negative
      exact (called.mp ⟨⟨held, active, negative⟩, somewhere⟩).2.2.2
    · intro past
      exact (called.mpr ⟨held, active, somewhere, past⟩).1.2.2
  · intro shows tm
    rw [called_iff]
    constructor
    · rintro ⟨⟨held, active, negative⟩, somewhere⟩
      have sign := (timerCmpTime_neg_iff _ _).mpr (shows tm held active somewhere)
      exact ⟨held, active, somewhere, (at_task tm held active).mpr (sign.mp negative)⟩
    · rintro ⟨held, active, somewhere, past⟩
      have sign := (timerCmpTime_neg_iff _ _).mpr (shows tm held active somewhere)
      exact ⟨⟨held, active, sign.mpr ((at_task tm held active).mp past)⟩, somewhere⟩

/-- Comparisons are right exactly where the low 32 bits show the order, for a wakeup time one
delay away exactly where adding the delay does not wrap around; and in every run, the rounds of a
pass that call on time are those in which they show it. -/
theorem on_time_iff (desc : Slot → TMDesc) (tasks : BitVec 32 → TMTask) (events : List Event)
    (st : Manager) (run : Run step Free (timerInit desc tasks) events st) (now : TmTime)
    (callbacks : Callbacks) :
    (∀ a b, ComparesRight a b ↔ EarlierShows a b ∧ LaterShows a b) ∧
    (∀ time, ComparesRight (timerAddTime now (timerMac2hostTime time)) now ↔
      0 ≤ now.toNat + (timerMac2hostTime time).toInt ∧
        now.toNat + (timerMac2hostTime time).toInt < 2 ^ 64) ∧
    (timerInterrupt now callbacks st).2 =
      (rounds now callbacks (List.finRange NUM_DESCS) st).flatMap (fun round =>
        (visit now callbacks round.1 round.2).2) ∧
    ∀ round ∈ rounds now callbacks (List.finRange NUM_DESCS) st,
      (CallsOnTime now callbacks round.1 round.2 ↔ TimeShows now round.1 round.2) := by
  refine ⟨comparesRight_iff, delay_comparesRight_iff now, pass_log now callbacks _ st, ?_⟩
  intro round member
  have scheduled := rounds_scheduled now callbacks _ (run_scheduled run) round member
  exact callsOnTime_iff now callbacks round.2 scheduled

theorem on_time_two_primed :
    ∃ st, Run step Free (timerInit unusedDescs idleTasks) twoPrimed st ∧
      ∀ round ∈ rounds 3000 removesSecond (List.finRange NUM_DESCS) st,
        (CallsOnTime 3000 removesSecond round.1 round.2 ↔ TimeShows 3000 round.1 round.2) := by
  have run : Run step Free (timerInit unusedDescs idleTasks) twoPrimed _ := run_of_exec rfl
  exact ⟨_, run, (on_time_iff unusedDescs idleTasks twoPrimed _ run 3000 removesSecond).2.2.2⟩

/-- An extended task primed twice for 2000 seconds. -/
def primedTwice : List Event :=
  [.action (.insTime 0x100 0x400), .action (.primeTime 0x100 2000000 0),
    .action (.primeTime 0x100 2000000 0)]

/-- A task scheduled 4000 seconds ahead is called one microsecond later. -/
theorem not_on_time :
    ¬ ∀ (desc : Slot → TMDesc) (tasks : BitVec 32 → TMTask) (events : List Event) (st : Manager),
      Run step Free (timerInit desc tasks) events st → ∀ (now : TmTime) (callbacks : Callbacks),
        ∀ round ∈ rounds now callbacks (List.finRange NUM_DESCS) st,
          CallsOnTime now callbacks round.1 round.2 := by
  intro onTime
  have run : Run step Free (timerInit unusedDescs idleTasks) primedTwice _ := run_of_exec rfl
  have called := (onTime _ _ _ _ run 1 (fun _ _ _ => []) (_, ⟨0, by decide⟩) (.head _) 0x100).mp
    (by decide +kernel)
  obtain ⟨wakeup, armed, past⟩ := called.2.2.2
  have scheduled : some (4000000000 : TmTime) = some wakeup := armed
  cases scheduled
  exact absurd past (by decide)

end BasiliskII.Timer
