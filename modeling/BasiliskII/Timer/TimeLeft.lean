import BasiliskII.Timer.Scheduled
import BasiliskII.Timer.Conversions

/-!
# The time left of a removed task

`RmvTime` stores the difference between the wakeup time and the present one in
`tmCount`. The difference is unsigned, so a task that has expired and was not yet
called is given one of nearly 2^64 microseconds. A task put back with its
`tmCount` starts from the present time, or, when it is an extended one that has
been scheduled before, from the time in the descriptor it happens to get.
-/
namespace BasiliskII.Timer

open StepSystem SignedWidth

/-! ### The count -/

def timeLeft (wakeup now : TmTime) : Int := max 0 (wakeup.toNat - now.toNat)

/-- `count` is the Mac time for a duration: microseconds where they fit, milliseconds where not. -/
def Encodes (count : BitVec 32) (duration : Int) : Prop :=
  if duration ≤ 0x7fffffff then count.toInt = -duration else count.toInt = duration / 1000

instance (count : BitVec 32) (duration : Int) : Decidable (Encodes count duration) :=
  inferInstanceAs (Decidable
    (if duration ≤ 0x7fffffff then count.toInt = -duration else count.toInt = duration / 1000))

theorem timerSubTime_ahead {wakeup now : TmTime} (ahead : now.toNat ≤ wakeup.toNat) :
    (timerSubTime wakeup now).toNat = wakeup.toNat - now.toNat := by
  rw [timerSubTime, BitVec.toNat_sub_of_le ahead]

theorem timerSubTime_expired {wakeup now : TmTime} (expired : wakeup.toNat < now.toNat) :
    (timerSubTime wakeup now).toNat = 2 ^ 64 - (now.toNat - wakeup.toNat) := by
  have size := now.isLt
  rw [timerSubTime, BitVec.toNat_sub]
  omega

theorem encodes_ahead_iff {wakeup now : TmTime} (ahead : now.toNat ≤ wakeup.toNat) :
    Encodes (timerHost2macTime (timerSubTime wakeup now)) (timeLeft wakeup now) ↔
      (wakeup.toNat - now.toNat) / 1000 < 2 ^ 31 := by
  have left : timeLeft wakeup now = (wakeup.toNat - now.toNat : Nat) := by
    rw [timeLeft]
    omega
  have difference := timerSubTime_ahead ahead
  rw [left, Encodes]
  by_cases short : wakeup.toNat - now.toNat ≤ 0x7fffffff
  · rw [if_pos (by omega), timerHost2macTime_short (by omega), difference]
    exact iff_of_true rfl (by omega)
  · rw [if_neg (by omega), BitVec.toInt_eq_toNat_cond, timerHost2macTime_long (by omega),
      difference]
    split <;> omega

theorem encodes_expired_iff {wakeup now : TmTime} (expired : wakeup.toNat < now.toNat) :
    Encodes (timerHost2macTime (timerSubTime wakeup now)) (timeLeft wakeup now) ↔
      0x7fffffff < 2 ^ 64 - (now.toNat - wakeup.toNat) ∧
        (2 ^ 64 - (now.toNat - wakeup.toNat)) / 1000 % 2 ^ 32 = 0 := by
  have left : timeLeft wakeup now = 0 := by
    rw [timeLeft]
    omega
  have size := now.isLt
  have difference := timerSubTime_expired expired
  rw [left, Encodes, if_pos (by decide)]
  by_cases short : 2 ^ 64 - (now.toNat - wakeup.toNat) ≤ 0x7fffffff
  · rw [timerHost2macTime_short (by omega), difference]
    omega
  · rw [BitVec.toInt_eq_toNat_cond, timerHost2macTime_long (by omega), difference]
    split <;> omega

/-! ### Putting the task back -/

variable {st : Manager} {tm : BitVec 32}

/-- The task is removed at time `now`, put back, and primed with its count at time `later`. -/
def putBack (st : Manager) (tm : BitVec 32) (trap : BitVec 16) (now later : TmTime) : Manager :=
  let removed := rmvTime st tm now
  primeTime (insTime removed tm trap) tm (removed.tasks tm).tmCount later

/-- The time an extended task that has been scheduled before goes on from: what is in the first
descriptor that is free or its own. -/
def continuesFrom (st : Manager) (tm : BitVec 32) (trap : BitVec 16) : Option TmTime :=
  if trap.getLsbD 10 && (st.tasks tm).tmWakeUp ≠ 0 then
    ((List.finRange NUM_DESCS).find? fun i =>
      !(st.desc i).inUse || (st.desc i).task = tm).map fun i => (st.desc i).wakeup
  else none

theorem extended_eq (t : TMTask) : t.extended = t.qType.getLsbD 14 := by
  have bit := BitVec.and_twoPow t.qType 14
  rw [show BitVec.twoPow 16 14 = 0x4000 from rfl] at bit
  rw [TMTask.extended, bit]
  cases t.qType.getLsbD 14 <;> rfl

/-- The record and the descriptors `RmvTime` of an active task leaves. -/
theorem rmvTime_active {i : Slot} (found : findDesc st tm = some i)
    (active : (st.tasks tm).active = true) (now : TmTime) :
    ((rmvTime st tm now).tasks tm).tmCount =
        timerHost2macTime (timerSubTime (st.desc i).wakeup now) ∧
      ((rmvTime st tm now).tasks tm).tmWakeUp = (st.tasks tm).tmWakeUp ∧
      ∀ k, (rmvTime st tm now).desc k =
        if k = i then { st.desc i with inUse := false } else st.desc k := by
  simp [rmvTime, found, active, freeDescAt, Manager.setArmed, Manager.setDesc, Manager.setTask]

/-- A task without a descriptor gets the first free one, whose wakeup time stays. -/
theorem insTime_fresh {j : Slot} (absent : ∀ i, ¬ st.Holds i tm) (free : freeDesc st = some j)
    (trap : BitVec 16) :
    (insTime st tm trap).Holds j tm ∧
      ((insTime st tm trap).desc j).wakeup = (st.desc j).wakeup ∧
      ((insTime st tm trap).tasks tm).extended = trap.getLsbD 10 ∧
      ((insTime st tm trap).tasks tm).tmWakeUp = (st.tasks tm).tmWakeUp := by
  have not_found (t : TMTask) : findDesc (st.setTask tm t) tm = none := by
    rcases findDesc_cases (st.setTask tm t) tm with ⟨i, _, held⟩ | ⟨none_found, _⟩
    · exact absurd held (absent i)
    · exact none_found
  have still_free (t : TMTask) : freeDesc (st.setTask tm t) = some j := free
  simp only [insTime, not_found, allocDesc, still_free]
  refine ⟨?_, ?_, ?_, ?_⟩
  · simp [Manager.Holds]
  · simp [Manager.setTask]
  · simp [Manager.setDesc, Manager.setTask, extended_eq]
  · simp [Manager.setDesc, Manager.setTask]

theorem putBack_armed (consistent : Consistent st) {i : Slot} (held : st.Holds i tm)
    (active : (st.tasks tm).active = true) (trap : BitVec 16) (now later : TmTime) :
    (putBack st tm trap now later).armed tm =
      some (timerAddTime ((continuesFrom st tm trap).getD later)
        (timerMac2hostTime (timerHost2macTime (timerSubTime (st.desc i).wakeup now)))) := by
  have found := findDesc_held (consistent tm) held
  obtain ⟨count, woken, descs⟩ := rmvTime_active found active now
  -- Once removed the task has no descriptor, so `InsTime` allocates the first free one.
  have removed_consistent : Consistent (rmvTime st tm now) :=
    apply_consistent (.rmvTime tm now) consistent
  have none_held (k : Slot) : ¬ (rmvTime st tm now).Holds k tm := by
    intro held'
    rw [Manager.Holds, descs] at held'
    by_cases here : k = i
    · simp [here] at held'
    · rw [if_neg here] at held'
      exact here ((consistent tm).unique k i held' held)
  -- The descriptors that are free now were free or the task's own.
  have free_eq : freeDesc (rmvTime st tm now) =
      (List.finRange NUM_DESCS).find? fun k => !(st.desc k).inUse || (st.desc k).task = tm := by
    rw [freeDesc]
    congr 1
    funext k
    rw [descs]
    by_cases here : k = i
    · simp [here, held.2]
    · have other : (st.desc k).inUse = true → (st.desc k).task ≠ tm :=
        fun inUse same => here ((consistent tm).unique k i ⟨inUse, same⟩ held)
      cases inUse : (st.desc k).inUse
      · simp [here, inUse]
      · simp [here, inUse, other inUse]
  obtain ⟨j, free⟩ : ∃ j, freeDesc (rmvTime st tm now) = some j := by
    rw [free_eq]
    refine Option.isSome_iff_exists.mp (List.find?_isSome.mpr ⟨i, List.mem_finRange i, ?_⟩)
    simp [held.2]
  obtain ⟨held_j, same_wakeup, extended, scheduled⟩ := insTime_fresh none_held free trap
  have found_j : findDesc (insTime (rmvTime st tm now) tm trap) tm = some j :=
    findDesc_held (insTime_consistentFor trap (removed_consistent tm)) held_j
  have wakeup_j : ((rmvTime st tm now).desc j).wakeup = (st.desc j).wakeup := by
    rw [descs]
    by_cases here : j = i
    · simp [here]
    · simp [here]
  rw [putBack, (primeTime_arms found_j _ later).1, nextWakeup, extended, scheduled, same_wakeup,
    wakeup_j, count, woken, continuesFrom, ← free_eq, free]
  split <;> rfl

/-! ### When the time left is kept -/

/-- The delay a duration becomes on its way through `tmCount`, as an `int`. -/
def delayLeft (left : Nat) : Int := (BitVec.ofNat 32 (macPrecision left)).toInt

/-- When the count is the time left and starting again with it is no later than the wakeup time
was. `continued` is the time an extended task goes on from. -/
def KeepsTimeLeft (continued : Option TmTime) (wakeup now later : TmTime) : Prop :=
  if now.toNat ≤ wakeup.toNat then
    (wakeup.toNat - now.toNat) / 1000 < 2 ^ 31 ∧
      match continued with
      | none => 0 ≤ later.toNat + delayLeft (wakeup.toNat - now.toNat)
      | some last =>
        (last.toNat + delayLeft (wakeup.toNat - now.toNat)) % 2 ^ 64 ≤
          wakeup.toNat + (later.toNat - now.toNat)
  else
    -- The difference is taken for one ahead; by chance its milliseconds are a multiple of 2^32.
    0x7fffffff < 2 ^ 64 - (now.toNat - wakeup.toNat) ∧
      (2 ^ 64 - (now.toNat - wakeup.toNat)) / 1000 % 2 ^ 32 = 0 ∧
      ∃ last, continued = some last ∧ last.toNat ≤ wakeup.toNat + (later.toNat - now.toNat)

theorem delayLeft_le (left : Nat) : delayLeft left ≤ left := by
  have below := toInt_fits (BitVec.ofNat 32 (macPrecision left))
  by_cases short : left ≤ 0x7fffffff
  · have value : (BitVec.ofNat 32 (macPrecision left)).toNat = left := by
      rw [macPrecision, if_pos short, BitVec.toNat_ofNat]
      omega
    rw [delayLeft, BitVec.toInt_eq_toNat_cond, value]
    split <;> omega
  · rw [delayLeft]
    have := below.2
    omega

/-- The delay the count of a task that has not expired stands for. -/
theorem delay_ahead {wakeup now : TmTime} (ahead : now.toNat ≤ wakeup.toNat)
    (fits : (wakeup.toNat - now.toNat) / 1000 < 2 ^ 31) :
    (timerMac2hostTime (timerHost2macTime (timerSubTime wakeup now))).toInt =
      delayLeft (wakeup.toNat - now.toNat) := by
  have difference := timerSubTime_ahead ahead
  rw [timerMac2hostTime_eq, BitVec.toInt_signExtend_of_le (by decide),
    macMicroseconds_timerHost2macTime (by rwa [difference]), difference, delayLeft,
    BitVec.ofInt_natCast]

/-- A count of zero is no delay. -/
theorem delay_expired {count : BitVec 32} (zero : count.toInt = 0) :
    timerMac2hostTime count = 0#64 := by
  have none_left : count = 0 := BitVec.eq_of_toInt_eq zero
  rw [none_left]
  rfl

theorem timerAddTime_toNat (base delay : TmTime) :
    ((timerAddTime base delay).toNat : Int) = (base.toNat + delay.toInt) % 2 ^ 64 := by
  rw [timerAddTime, BitVec.toNat_add, BitVec.toInt_eq_toNat_cond]
  split <;> omega

theorem keepsTimeLeft_ahead_iff (continued : Option TmTime) {wakeup now later : TmTime}
    (ahead : now.toNat ≤ wakeup.toNat) (forward : now.toNat ≤ later.toNat) :
    (Encodes (timerHost2macTime (timerSubTime wakeup now)) (timeLeft wakeup now) ∧
      (timerAddTime (continued.getD later)
        (timerMac2hostTime (timerHost2macTime (timerSubTime wakeup now)))).toNat ≤
          wakeup.toNat + (later.toNat - now.toNat)) ↔
      KeepsTimeLeft continued wakeup now later := by
  rw [KeepsTimeLeft.eq_def, if_pos ahead, encodes_ahead_iff ahead]
  refine and_congr_right fun fits => ?_
  have delay := delay_ahead ahead fits
  have sum := timerAddTime_toNat (continued.getD later)
    (timerMac2hostTime (timerHost2macTime (timerSubTime wakeup now)))
  rw [delay] at sum
  cases continued with
  | some last =>
    rw [Option.getD_some] at sum ⊢
    dsimp only
    omega
  | none =>
    -- A fresh start is late only when a negative delay wraps around below zero.
    have small := delayLeft_le (wakeup.toNat - now.toNat)
    have least : -2 ^ 31 ≤ delayLeft (wakeup.toNat - now.toNat) := (toInt_fits _).1
    have size := later.isLt
    rw [Option.getD_none] at sum ⊢
    dsimp only
    omega

theorem keepsTimeLeft_expired_iff (continued : Option TmTime) {wakeup now later : TmTime}
    (expired : wakeup.toNat < now.toNat) (forward : now.toNat ≤ later.toNat) :
    (Encodes (timerHost2macTime (timerSubTime wakeup now)) (timeLeft wakeup now) ∧
      (timerAddTime (continued.getD later)
        (timerMac2hostTime (timerHost2macTime (timerSubTime wakeup now)))).toNat ≤
          wakeup.toNat + (later.toNat - now.toNat)) ↔
      KeepsTimeLeft continued wakeup now later := by
  rw [KeepsTimeLeft.eq_def, if_neg (by omega), ← and_assoc, ← encodes_expired_iff expired]
  refine and_congr_right fun zero => ?_
  have none_left : timeLeft wakeup now = 0 := by
    rw [timeLeft]
    omega
  rw [none_left, Encodes, if_pos (by decide)] at zero
  rw [delay_expired (by simpa using zero), timerAddTime, BitVec.add_zero]
  cases continued with
  | some last => simp
  | none =>
    rw [Option.getD_none]
    exact iff_of_false (by omega) (by simp)

/-- The count of an active task is the time left, and a task put back with it is no later than it
was, exactly when the task has not expired, what is left is less than 2^31 milliseconds, and
priming it starts from the present time late enough or from an early enough schedule. -/
theorem time_left_iff (desc : Slot → TMDesc) (tasks : BitVec 32 → TMTask) (events : List Event)
    (st : Manager) (run : Run step Free (timerInit desc tasks) events st) (tm : BitVec 32)
    (wakeup : TmTime) (active : (st.tasks tm).active = true) (armed : st.armed tm = some wakeup)
    (trap : BitVec 16) (now later : TmTime) (forward : now.toNat ≤ later.toNat) :
    (Encodes ((rmvTime st tm now).tasks tm).tmCount (timeLeft wakeup now) ∧
      ∀ again, (putBack st tm trap now later).armed tm = some again →
        again.toNat ≤ wakeup.toNat + (later.toNat - now.toNat)) ↔
      KeepsTimeLeft (continuesFrom st tm trap) wakeup now later := by
  have consistent := (run_scheduled run).consistent
  obtain ⟨i, held, at_i⟩ := (consistent tm).armed wakeup armed
  have found := findDesc_held (consistent tm) held
  have count := (rmvTime_active found active now).1
  have again_at := putBack_armed consistent held active trap now later
  rw [at_i] at count again_at
  simp only [count, again_at, Option.some.injEq, forall_eq']
  by_cases ahead : now.toNat ≤ wakeup.toNat
  · exact keepsTimeLeft_ahead_iff _ ahead forward
  · exact keepsTimeLeft_expired_iff _ (Nat.lt_of_not_le ahead) forward

theorem time_left_first_primed :
    ∃ st, Run step Free (timerInit unusedDescs idleTasks) twoPrimed st ∧
      ((Encodes ((rmvTime st 0x100 400).tasks 0x100).tmCount (timeLeft 1000 400) ∧
        ∀ again, (putBack st 0x100 0 400 500).armed 0x100 = some again →
          again.toNat ≤ (1000 : TmTime).toNat + ((500 : TmTime).toNat - (400 : TmTime).toNat)) ↔
        KeepsTimeLeft (continuesFrom st 0x100 0) 1000 400 500) := by
  have run : Run step Free (timerInit unusedDescs idleTasks) twoPrimed _ := run_of_exec rfl
  refine ⟨_, run, time_left_iff unusedDescs idleTasks twoPrimed _ run 0x100 1000 ?_ ?_ 0 400 500
    (by decide)⟩
  all_goals decide +kernel

/-- A task that expired two milliseconds ago is told that 1271310317 milliseconds are left. -/
theorem not_time_left :
    ¬ ∀ (desc : Slot → TMDesc) (tasks : BitVec 32 → TMTask) (events : List Event) (st : Manager),
      Run step Free (timerInit desc tasks) events st → ∀ (tm : BitVec 32) (wakeup : TmTime),
        (st.tasks tm).active = true → st.armed tm = some wakeup → ∀ now : TmTime,
          Encodes ((rmvTime st tm now).tasks tm).tmCount (timeLeft wakeup now) := by
  intro reports
  have run : Run step Free (timerInit unusedDescs idleTasks) twoPrimed _ := run_of_exec rfl
  have zero := reports _ _ _ _ run 0x100 1000 (by decide +kernel) (by decide +kernel) 3000
  exact absurd zero (by decide +kernel)

end BasiliskII.Timer
