import BasiliskII.Cpu.ExecuteLoop
import BasiliskII.Cpu.StackPointers

/-!
# Calls into guest code return to their caller

Every M68K_EXEC_RETURN ends the innermost loop and no other, to any depth of
calls inside `EmulOp`s inside calls. A guest routine that returns normally
leaves its caller's PC and record as they should be; A7 is back as well if the
pass over the special flags after M68K_EXEC_RETURN takes no exception.
-/
namespace BasiliskII.Cpu

open ByteMemory

/-! ### Guest code without the two flags -/

/-- `m68k_execute` inside an `EmulOp`, when `run` is the guest code up to its
M68K_EXEC_RETURN: one more pass over the special flags ends the loop. -/
def nestedLoop (env : Env) (run : Core → Option Core) (st : Emulator) : Option Emulator :=
  (run st.core).bind fun c => (serviceFlags env (poll env c)).map (⟨·, false, true⟩)

/-- Guest code from `c` on up to the M68K_EXEC_RETURN that ends it. What `EmulOp`s call in
between runs to an M68K_EXEC_RETURN of its own. -/
def runToReturn (env : Env) : Nat → Core → Option Core
  | 0, _ => none
  | fuel + 1, c =>
    if getWord c.machine.mem c.regs.pc = m68kExecReturn then some c
    else
      ((dispatch env (nestedLoop env (runToReturn env fuel)) ⟨c, false, false⟩).bind fun st =>
        serviceFlags env (poll env st.core)).bind (runToReturn env fuel)

/-- Neither flag is set: the state while guest code or an `EmulOp` runs. -/
def Emulator.Running (st : Emulator) : Prop := st.brk = false ∧ st.quitProgram = false

/-- `loop` does from every running state what `nestedLoop` does with `run`. -/
def Nests (env : Env) (loop : Emulator → Option Emulator) (run : Core → Option Core) : Prop :=
  ∀ c, loop ⟨c, false, false⟩ = nestedLoop env run ⟨c, false, false⟩

variable {env : Env} {loop : Emulator → Option Emulator} {run : Core → Option Core} {st : Emulator}

theorem execute68k_nests (nests : Nests env loop run) (call : Call) (r : M68kRegisters)
    (running : st.Running) :
    execute68k loop call r st = execute68k (nestedLoop env run) call r st := by
  obtain ⟨core, brk, quit⟩ := st
  obtain ⟨rfl, rfl⟩ := running
  simp only [execute68k, nests (call.enter r core)]

variable {call : Call} {r : M68kRegisters} {st' : Emulator}

theorem execute68k_running {r' : M68kRegisters}
    (returns : execute68k (nestedLoop env run) call r st = some (r', st')) : st'.Running := by
  simp only [execute68k, nestedLoop, Option.map_eq_some_iff, Option.bind_eq_some_iff,
    Prod.mk.injEq] at returns
  obtain ⟨_, ⟨_, _, _, _, rfl⟩, _, rfl⟩ := returns
  exact ⟨rfl, rfl⟩

/-- An `EmulOp` starts every loop in a running state and is left in one. -/
theorem runNative_nests (nests : Nests env loop run) (native : Native) (running : st.Running) :
    runNative loop native st = runNative (nestedLoop env run) native st ∧
      ∀ r' st', runNative (nestedLoop env run) native st = some (r', st') → st'.Running := by
  induction native generalizing st with
  | done r =>
    refine ⟨rfl, ?_⟩
    intro r' st' ends
    cases ends
    exact running
  | access step next ih =>
    simp only [runNative]
    exact ih (step st.core.host) running
  | execute call r next ih =>
    simp only [runNative, execute68k_nests nests call r running]
    cases returns : execute68k (nestedLoop env run) call r st with
    | none => simp
    | some result =>
      obtain ⟨r', st'⟩ := result
      simp only [Option.bind_some]
      exact ih r' (execute68k_running returns)

theorem m68kEmulop_nests (nests : Nests env loop run) (opcode : BitVec 16) (running : st.Running) :
    m68kEmulop env loop opcode st = m68kEmulop env (nestedLoop env run) opcode st ∧
      ∀ st', m68kEmulop env (nestedLoop env run) opcode st = some st' → st'.Running := by
  have entered : Emulator.Running { st with
      core := { st.core with machine := { st.core.machine with regs := makeSR st.core.regs } } } :=
    running
  obtain ⟨same, ends⟩ := runNative_nests nests (env.emulOp opcode st.core.regs.record) entered
  refine ⟨?_, ?_⟩
  · simp only [m68kEmulop, same]
  · intro st' returns
    simp only [m68kEmulop, Option.map_eq_some_iff] at returns
    obtain ⟨⟨r', after⟩, native, rfl⟩ := returns
    exact ends r' after native

/-- Every instruction but M68K_EXEC_RETURN leaves the two flags alone. -/
theorem dispatch_nests (nests : Nests env loop run) (running : st.Running)
    (goes_on : getWord st.core.machine.mem st.core.regs.pc ≠ m68kExecReturn) :
    dispatch env loop st = dispatch env (nestedLoop env run) st ∧
      ∀ st', dispatch env (nestedLoop env run) st = some st' → st'.Running := by
  simp only [dispatch, if_neg goes_on]
  split
  · obtain ⟨same, ends⟩ := m68kEmulop_nests nests (getWord st.core.machine.mem st.core.regs.pc)
      running
    refine ⟨by rw [same], ?_⟩
    intro st' returns
    obtain ⟨after, emulop, rfl⟩ := Option.map_eq_some_iff.mp returns
    exact ends after emulop
  · refine ⟨rfl, ?_⟩
    intro st' returns
    cases returns
    exact running

variable {c : Core}

theorem waitStopped_running (env : Env) (rounds : Nat) (running : c.stop = false) :
    waitStopped env rounds c = some c := by
  cases rounds <;> simp [waitStopped, running]

theorem serviceFlags_idle (env : Env) (idle : (Emulator.mk c false false).special = false) :
    serviceFlags env c = some c := by
  simp only [Emulator.special, Bool.or_eq_false_iff, Bool.or_false] at idle
  obtain ⟨⟨⟨⟨stop, int⟩, trace⟩, dotrace⟩, doint⟩ := idle
  simp [serviceFlags, dotrace, waitStopped_running env _ stop, trace, doint, int]

theorem m68kExecute_nests {doExecute : Emulator → Option Emulator} (nests : Nests env doExecute run)
    (rounds : Nat) : Nests env (m68kExecute doExecute (rounds + 2)) run := by
  intro c
  simp only [m68kExecute, Bool.false_eq_true, if_false, nests c, nestedLoop]
  cases run c with
  | none => rfl
  | some c' =>
    simp only [Option.bind_some]
    cases serviceFlags env (poll env c') <;> rfl

/-- Each M68K_EXEC_RETURN ends the innermost `m68k_do_execute` and only that: the loop is the
guest code up to its own M68K_EXEC_RETURN and the pass after it. -/
theorem m68kDoExecute_nests (env : Env) (fuel : Nat) :
    Nests env (m68kDoExecute env fuel) (runToReturn env fuel) := by
  induction fuel with
  | zero => exact fun _ => rfl
  | succ fuel ih =>
    intro c
    have inner := m68kExecute_nests ih fuel
    by_cases returns : getWord c.machine.mem c.regs.pc = m68kExecReturn
    · -- BRK is set, so the pass is made and ends the loop.
      simp only [m68kDoExecute, nestedLoop, runToReturn, dispatch, if_pos returns,
        m68kEmulopReturn, Option.bind_some, Emulator.special, Bool.or_true, Bool.true_or, if_true,
        m68kDoSpecialties]
      cases serviceFlags env (poll env c) <;> rfl
    · have running : Emulator.Running ⟨c, false, false⟩ := ⟨rfl, rfl⟩
      obtain ⟨same, ends⟩ := dispatch_nests inner running returns
      simp only [m68kDoExecute, same, nestedLoop, runToReturn, if_neg returns]
      cases dispatched : dispatch env (nestedLoop env (runToReturn env fuel)) ⟨c, false, false⟩ with
      | none => rfl
      | some st =>
        obtain ⟨next, brk, quit⟩ := st
        obtain ⟨rfl, rfl⟩ := ends _ dispatched
        simp only [Option.bind_some]
        split
        · simp only [m68kDoSpecialties]
          cases serviceFlags env (poll env next) with
          | none => rfl
          | some serviced => exact ih serviced
        next idle =>
          rw [serviceFlags_idle env (Bool.eq_false_of_not_eq_true idle)]
          exact ih (poll env next)

/-! ### Exceptions and the registers -/

/-- D0-D7 and A0-A6. -/
def Regs.data (regs : Regs) : (BitVec 3 → BitVec 32) × (BitVec 3 → BitVec 32) :=
  (regs.dreg, fun k => if k = sp then 0 else regs.areg k)

theorem M68kRegisters.store_congr (r : M68kRegisters) {regs given : Regs}
    (same : regs.data = given.data) : r.store regs = r.store given := by
  obtain ⟨dreg, areg⟩ := Prod.mk.inj same
  simp only [M68kRegisters.store, dreg, M68kRegisters.mk.injEq, true_and, and_true]
  funext k
  have here := congrFun areg k
  by_cases stack : k = sp
  · simp [stack]
  · simpa [stack] using here

@[simp] theorem setA7_data (regs : Regs) (value : BitVec 32) :
    (regs.setA7 value).data = regs.data := by
  simp only [Regs.data, Regs.setA7, Regs.setAreg, Prod.mk.injEq, true_and]
  funext k
  split
  · rfl
  · simp

@[simp] theorem pushWord_data (st : Machine) (value : BitVec 16) :
    (st.pushWord value).regs.data = st.regs.data := setA7_data _ _

@[simp] theorem pushLong_data (st : Machine) (value : BitVec 32) :
    (st.pushLong value).regs.data = st.regs.data := setA7_data _ _

@[simp] theorem setPc_data (c : Core) (pc : BitVec 32) :
    (c.setPc pc).regs.data = c.regs.data := rfl

variable (cpu : CPUType)

theorem enterSupervisor_data (regs : Regs) : (enterSupervisor cpu regs).data = regs.data := by
  simp only [enterSupervisor]
  split
  · rfl
  · exact setA7_data { regs with usp := regs.a7 } _

variable {nr : Nat}

/-- The exceptions the flags raise, trace and the interrupts, leave the data registers alone. -/
theorem exception_data (fault : Fault) (vector : nr ≠ 2 ∧ nr ≠ 3) (oldpc : BitVec 32) (st : Machine) :
    (exception cpu fault nr oldpc st).regs.data = st.regs.data := by
  obtain ⟨not2, not3⟩ := vector
  have entered : (enterSupervisor cpu (makeSR st.regs)).data = st.regs.data :=
    enterSupervisor_data cpu (makeSR st.regs)
  have handler (m : Machine) : (enterHandler nr m).regs.data = m.regs.data := rfl
  have switched (regs : Regs) : (toInterruptStack regs).data = regs.data := setA7_data _ _
  simp only [exception, handler, pushWord_data]
  split
  · rw [pushLong_data]
    simp only [pushFormat, not2, not3, or_self, if_false]
    repeat' split
    all_goals simp [switched, entered]
  · simp [not2, not3, entered]

theorem doTrace_machine (env : Env) (c : Core) : (doTrace env c).machine = c.machine := by
  simp only [doTrace]
  repeat' split
  all_goals rfl

theorem poll_machine (env : Env) (c : Core) : (poll env c).machine = c.machine := by
  simp only [poll]
  split <;> rfl

theorem poll_regs (env : Env) (c : Core) : (poll env c).regs = c.regs :=
  congrArg Machine.regs (poll_machine env c)

theorem poll_stop (env : Env) (c : Core) : (poll env c).stop = c.stop := by
  simp only [poll]
  split <;> rfl

/-- The data registers are kept; on the interrupt stack, `bytes` are pushed on it. -/
structure Pushed (bytes : Nat) (regs regs' : Regs) : Prop where
  data : regs'.data = regs.data
  lower : regs.s = true → regs.m = false →
    regs'.s = true ∧ regs'.m = false ∧ regs'.a7 = regs.a7 - BitVec.ofNat 32 bytes
  none : bytes = 0 → regs' = regs

theorem Pushed.refl (regs : Regs) : Pushed 0 regs regs :=
  ⟨rfl, fun super interrupt => ⟨super, interrupt, by simp⟩, fun _ => rfl⟩

theorem Pushed.trans {k n : Nat} {regs regs' regs'' : Regs} (first : Pushed k regs regs')
    (second : Pushed n regs' regs'') : Pushed (k + n) regs regs'' where
  data := second.data.trans first.data
  lower super interrupt := by
    obtain ⟨super', interrupt', a7'⟩ := first.lower super interrupt
    obtain ⟨super'', interrupt'', a7''⟩ := second.lower super' interrupt'
    refine ⟨super'', interrupt'', ?_⟩
    rw [a7'', a7', BitVec.ofNat_add, BitVec.sub_sub]
  none no_bytes := (second.none (by omega)).trans (first.none (by omega))

/-- The frame of a trace exception or an interrupt. -/
def frameBytes (cpu : CPUType) (nr : Nat) : Nat :=
  if cpu.level = 0 then 6 else if nr = 9 then 12 else 8

theorem frameBytes_bounds (nr : Nat) : 0 < frameBytes cpu nr ∧ frameBytes cpu nr ≤ 12 := by
  simp only [frameBytes]
  repeat' split
  all_goals decide

@[simp] theorem pushWord_a7 (st : Machine) (value : BitVec 16) :
    (st.pushWord value).regs.a7 = st.regs.a7 - 2 := Regs.a7_setA7 _ _

@[simp] theorem pushLong_a7 (st : Machine) (value : BitVec 32) :
    (st.pushLong value).regs.a7 = st.regs.a7 - 4 := Regs.a7_setA7 _ _

theorem exception_a7 (fault : Fault) (vector : nr = 9 ∨ 24 ≤ nr) (oldpc : BitVec 32) {st : Machine}
    (super : st.regs.s = true) (interrupt : st.regs.m = false) :
    (exception cpu fault nr oldpc st).regs.a7 =
      st.regs.a7 - BitVec.ofNat 32 (frameBytes cpu nr) := by
  have entered : enterSupervisor cpu (makeSR st.regs) = makeSR st.regs := by
    simp [enterSupervisor, makeSR, super]
  have a7 : (makeSR st.regs).a7 = st.regs.a7 := rfl
  have master : (makeSR st.regs).m = false := interrupt
  have handler (m : Machine) : (enterHandler nr m).regs.a7 = m.regs.a7 := rfl
  have fault_free : ¬ (nr = 2 ∨ nr = 3) := by omega
  simp only [exception, handler, entered, pushWord_a7]
  by_cases later : cpu.level > 0
  · have level : ¬ cpu.level = 0 := by omega
    simp only [if_pos later, pushLong_a7, pushFormat, if_neg fault_free, frameBytes, if_neg level]
    by_cases traced : nr = 9
    · simp [traced, a7, BitVec.sub_sub]
    · have interrupted : ¬ (nr = 5 ∨ nr = 6 ∨ nr = 7 ∨ nr = 9) := by omega
      rw [if_neg interrupted]
      simp [traced, master, a7, BitVec.sub_sub]
  · have level : cpu.level = 0 := by omega
    simp [level, fault_free, frameBytes, a7, BitVec.sub_sub]

theorem exception_pushed (fault : Fault) (vector : nr = 9 ∨ 24 ≤ nr) (oldpc : BitVec 32)
    (st : Machine) : Pushed (frameBytes cpu nr) st.regs (exception cpu fault nr oldpc st).regs where
  data := exception_data cpu fault (by omega) oldpc st
  lower super interrupt :=
    ⟨exception_super cpu fault nr oldpc st, rfl,
      exception_a7 cpu fault vector oldpc super interrupt⟩
  none no_bytes := by
    have some_bytes := (frameBytes_bounds cpu nr).1
    omega

theorem Core.interrupt_pushed (env : Env) (c : Core) :
    ∃ bytes, 0 < bytes ∧ bytes ≤ 12 ∧ Pushed bytes c.regs (c.interrupt env).regs := by
  have vector : (BitVec.ofNat 3 c.intlev).toNat + 24 = 9 ∨
      24 ≤ (BitVec.ofNat 3 c.intlev).toNat + 24 := by omega
  have pushed := exception_pushed env.cpu env.fault vector 0 c.machine
  obtain ⟨some_bytes, few⟩ := frameBytes_bounds env.cpu ((BitVec.ofNat 3 c.intlev).toNat + 24)
  exact ⟨_, some_bytes, few, pushed.data, pushed.lower, by omega⟩

/-! ### The pass after M68K_EXEC_RETURN -/

/-- The pass takes no exception: none is traced, the CPU is not stopped, and no interrupt that
the mask lets through is due. -/
structure Core.Quiet (c : Core) : Prop where
  untraced : c.dotrace = false
  running : c.stop = false
  uninterrupted : ¬ (c.doint = true ∧ c.Accepts)

theorem waitStopped_pushed (env : Env) (rounds : Nat) {c' : Core}
    (waited : waitStopped env rounds c = some c') :
    ∃ bytes ≤ 12, Pushed bytes c.regs c'.regs ∧ (bytes = 0 → c.stop = false ∧ c' = c) := by
  -- An interrupt clears STOP, which ends the loop; until then no register changes.
  induction rounds generalizing c with
  | zero =>
    simp only [waitStopped] at waited
    split at waited
    · cases waited
    next running =>
      cases waited
      exact ⟨0, by omega, .refl _, fun _ => ⟨Bool.eq_false_of_not_eq_true running, rfl⟩⟩
  | succ rounds ih =>
    have still_stopped {given : Core} (same : given.machine = c.machine)
        (stopped : given.stop = true) (waited : waitStopped env rounds given = some c') :
        ∃ bytes ≤ 12, Pushed bytes c.regs c'.regs ∧ (bytes = 0 → c.stop = false ∧ c' = c) := by
      obtain ⟨bytes, few, pushed, none_pushed⟩ := ih waited
      refine ⟨bytes, few, ?_, ?_⟩
      · rwa [Core.regs, same] at pushed
      · intro none
        rw [(none_pushed none).1] at stopped
        cases stopped
    simp only [waitStopped] at waited
    by_cases stopped : c.stop = true
    · rw [if_pos stopped] at waited
      by_cases interrupted : (c.int || c.doint) = true
      · rw [if_pos interrupted] at waited
        by_cases accepted : Core.Accepts { c with int := false, doint := false }
        · rw [if_pos accepted, waitStopped_running env rounds rfl] at waited
          cases waited
          obtain ⟨bytes, some_bytes, few, pushed⟩ :=
            Core.interrupt_pushed env { c with int := false, doint := false }
          exact ⟨bytes, few, pushed, by omega⟩
        · rw [if_neg accepted] at waited
          have same := poll_machine env { c with int := false, doint := false }
          have still := poll_stop env { c with int := false, doint := false }
          exact still_stopped same (still.trans stopped) waited
      · rw [if_neg interrupted] at waited
        exact still_stopped (poll_machine env c) ((poll_stop env c).trans stopped) waited
    · rw [if_neg stopped] at waited
      cases waited
      exact ⟨0, by omega, .refl _, fun _ => ⟨Bool.eq_false_of_not_eq_true stopped, rfl⟩⟩

/-- The second half of the pass, when no trace exception was due and the CPU runs. -/
def Core.finishPass (env : Env) (c : Core) : Core :=
  let c := if c.trace then doTrace env c else c
  let c :=
    if c.doint then
      let c := { c with doint := false }
      if c.Accepts then c.interrupt env else c
    else c
  if c.int then { c with int := false, doint := true } else c

theorem serviceFlags_eq (env : Env) (c : Core) :
    serviceFlags env c =
      (waitStopped env env.patience (if c.dotrace then c.exception env 9 c.lastTraceAd else c)).map
        (·.finishPass env) := rfl

theorem doTrace_accepts (env : Env) (c : Core) :
    (doTrace env c).doint = c.doint ∧ ((doTrace env c).Accepts ↔ c.Accepts) := by
  simp only [doTrace]
  repeat' split
  all_goals exact ⟨rfl, Iff.rfl⟩

theorem finishPass_pushed (env : Env) (c : Core) :
    ∃ bytes ≤ 12, Pushed bytes c.regs (c.finishPass env).regs ∧
      (bytes = 0 ↔ ¬ (c.doint = true ∧ c.Accepts)) := by
  have traced : (if c.trace then doTrace env c else c).machine = c.machine := by
    split
    · exact doTrace_machine env c
    · rfl
  have same : (if c.trace then doTrace env c else c).doint = c.doint ∧
      ((if c.trace then doTrace env c else c).Accepts ↔ c.Accepts) := by
    split
    · exact doTrace_accepts env c
    · exact ⟨rfl, Iff.rfl⟩
  have shifted (given : Core) :
      (if given.int then { given with int := false, doint := true } else given).regs =
        given.regs := by
    split <;> rfl
  obtain ⟨due, accepts⟩ := same
  simp only [Core.finishPass, shifted, ← due, ← accepts, Core.regs, ← traced]
  generalize (if c.trace then doTrace env c else c) = given
  split
  next due =>
    have mask : given.Accepts ↔ Core.Accepts { given with doint := false } := Iff.rfl
    rw [mask]
    by_cases accepted : Core.Accepts { given with doint := false }
    · obtain ⟨bytes, some_bytes, few, pushed⟩ :=
        Core.interrupt_pushed env { given with doint := false }
      refine ⟨bytes, few, ?_, by simp [due, accepted]; omega⟩
      rw [if_pos accepted]
      exact pushed
    · refine ⟨0, by omega, ?_, by simp [accepted]⟩
      rw [if_neg accepted]
      exact .refl _
  next idle => exact ⟨0, by omega, .refl _, by simp [idle]⟩

theorem serviceFlags_pushed (env : Env) {c' : Core} (passed : serviceFlags env c = some c') :
    ∃ bytes ≤ 36, Pushed bytes c.regs c'.regs ∧ (bytes = 0 → c.Quiet) := by
  rw [serviceFlags_eq] at passed
  obtain ⟨waited, wait, rfl⟩ := Option.map_eq_some_iff.mp passed
  obtain ⟨last, few_last, pushed_last, quiet_last⟩ := finishPass_pushed env waited
  obtain ⟨middle, few_middle, pushed_middle, quiet_middle⟩ := waitStopped_pushed env _ wait
  split at pushed_middle
  · obtain ⟨some_bytes, few⟩ := frameBytes_bounds env.cpu 9
    have pushed : Pushed (frameBytes env.cpu 9) c.regs (c.exception env 9 c.lastTraceAd).regs :=
      exception_pushed env.cpu env.fault (.inl rfl) c.lastTraceAd c.machine
    exact ⟨_, by omega, (pushed.trans pushed_middle).trans pushed_last, by omega⟩
  next untraced =>
    refine ⟨_, by omega, pushed_middle.trans pushed_last, ?_⟩
    intro none
    obtain ⟨running, rfl⟩ := quiet_middle (by omega)
    simp only [untraced] at running quiet_last
    exact ⟨by simpa using untraced, running, quiet_last.mp (by omega)⟩

theorem serviceFlags_quiet (env : Env) (quiet : c.Quiet) :
    ∃ c', serviceFlags env c = some c' ∧ c'.regs = c.regs := by
  obtain ⟨bytes, _, pushed, none⟩ := finishPass_pushed env c
  refine ⟨c.finishPass env, ?_, pushed.none (none.mpr quiet.uninterrupted)⟩
  simp [serviceFlags_eq, quiet.untraced, waitStopped_running env _ quiet.running]

/-! ### The calls -/

/-- The routine of `call`, entered from `c`, runs to its M68K_EXEC_RETURN in `c'`: it has popped
what it was called with and left its stack as it was. -/
structure ReturnsNormally (env : Env) (fuel : Nat) (call : Call) (r : M68kRegisters)
    (c c' : Core) : Prop where
  runs : runToReturn env fuel (call.enter r c) = some c'
  pc : c'.regs.pc = c.regs.a7 - 2
  a7 : c'.regs.a7 = c.regs.a7 - call.cleanUp

/-- PC, A7 and the flags of the caller are back, and its record holds the registers of `c'`. -/
structure Isolated (c c' : Core) (r r' : M68kRegisters) (st' : Emulator) : Prop where
  pc : st'.core.regs.pc = c.regs.pc
  a7 : st'.core.regs.a7 = c.regs.a7
  record : r' = r.store c'.regs
  running : st'.Running

/-- The calls as the code makes them, with the loops it runs. -/
def execute (env : Env) (fuel : Nat) (call : Call) (r : M68kRegisters) (st : Emulator) :
    Option (M68kRegisters × Emulator) :=
  execute68k (m68kExecute (m68kDoExecute env fuel) (fuel + 2)) call r st

theorem execute_eq (env : Env) (fuel : Nat) (call : Call) (r : M68kRegisters) (running : st.Running) :
    execute env fuel call r st =
      execute68k (nestedLoop env (runToReturn env fuel)) call r st :=
  execute68k_nests (m68kExecute_nests (m68kDoExecute_nests env fuel) fuel) call r running

variable {fuel : Nat}

/-- What the pass pushes after a normal return stays on the caller's stack. -/
theorem execute_pushed {c' : Core} (normal : ReturnsNormally env fuel call r c c') :
    execute env fuel call r ⟨c, false, false⟩ =
      (serviceFlags env (poll env c')).map fun passed =>
        (r.store passed.regs,
          ⟨{ passed with
              machine :=
                { passed.machine with regs := passed.regs.setA7 (passed.regs.a7 + call.cleanUp) }
              }.setPc c.regs.pc, false, false⟩) := by
  rw [execute_eq env fuel call r ⟨rfl, rfl⟩]
  simp only [execute68k, nestedLoop, normal.runs, Option.bind_some, Option.map_map]
  refine congrArg (Option.map · _) (funext fun passed => ?_)
  simp only [Function.comp_apply, Prod.mk.injEq, and_true]
  apply r.store_congr
  rw [setPc_data]
  exact setA7_data passed.regs _

theorem execute_isolated_of_quiet {c' : Core} (normal : ReturnsNormally env fuel call r c c')
    (quiet : (poll env c').Quiet) :
    ∃ r' st', execute env fuel call r ⟨c, false, false⟩ = some (r', st') ∧
      Isolated c c' r r' st' := by
  obtain ⟨passed, serviced, same⟩ := serviceFlags_quiet env quiet
  rw [poll_regs] at same
  refine ⟨_, _, by rw [execute_pushed normal, serviced]; rfl, rfl, ?_, ?_, rfl, rfl⟩
  · have lifted : (passed.regs.setA7 (passed.regs.a7 + call.cleanUp)).a7 = c.regs.a7 := by
      rw [Regs.a7_setA7, same, normal.a7, BitVec.sub_add_cancel]
    exact lifted
  · rw [same]

/-- On the interrupt stack every frame the pass pushes stays below A7. -/
theorem quiet_of_execute_isolated {r' : M68kRegisters} {c' : Core}
    (normal : ReturnsNormally env fuel call r c c') (super : c'.regs.s = true)
    (interrupt : c'.regs.m = false)
    (executed : execute env fuel call r ⟨c, false, false⟩ = some (r', st'))
    (isolated : Isolated c c' r r' st') : (poll env c').Quiet := by
  rw [execute_pushed normal] at executed
  obtain ⟨passed, serviced, result⟩ := Option.map_eq_some_iff.mp executed
  obtain ⟨bytes, few, pushed, quiet⟩ := serviceFlags_pushed env serviced
  rw [poll_regs] at pushed
  apply quiet
  have a7 : (passed.regs.setA7 (passed.regs.a7 + call.cleanUp)).a7 = c.regs.a7 := by
    cases result
    exact isolated.a7
  rw [Regs.a7_setA7, (pushed.lower super interrupt).2.2, normal.a7] at a7
  have zero : BitVec.ofNat 32 bytes = 0 := by grind
  have value := congrArg BitVec.toNat zero
  rw [BitVec.toNat_ofNat, Nat.mod_eq_of_lt (by omega)] at value
  simpa using value

theorem runNative_pc (loop : Emulator → Option Emulator) (native : Native) {r' : M68kRegisters}
    (ends : runNative loop native st = some (r', st')) : st'.core.regs.pc = st.core.regs.pc := by
  induction native generalizing st with
  | done r =>
    cases ends
    rfl
  | access step next ih =>
    simp only [runNative] at ends
    have kept := ih (step st.core.host) ends
    exact kept
  | execute call r next ih =>
    simp only [runNative] at ends
    obtain ⟨⟨result, after⟩, executed, goes_on⟩ := Option.bind_eq_some_iff.mp ends
    obtain ⟨_, _, returned⟩ := Option.map_eq_some_iff.mp executed
    cases returned
    have kept := ih _ goes_on
    exact kept

theorem makeFromSR_pc (regs : Regs) : (makeFromSR cpu regs).pc = regs.pc := by
  simp only [makeFromSR]
  repeat' split
  all_goals rfl

/-- The outer loop goes on at the instruction after the emulator trap. -/
theorem dispatch_emulop_pc (env : Env) (loop : Emulator → Option Emulator) (st : Emulator)
    (emulop : isEmulop (getWord st.core.machine.mem st.core.regs.pc) = true)
    (dispatched : dispatch env loop st = some st') : st'.core.regs.pc = st.core.regs.pc + 2 := by
  have goes_on : getWord st.core.machine.mem st.core.regs.pc ≠ m68kExecReturn := by
    simp only [isEmulop, Bool.and_eq_true, decide_eq_true_eq] at emulop
    exact emulop.2
  simp only [dispatch, if_neg goes_on, if_pos emulop, m68kEmulop, Option.map_map,
    Option.map_eq_some_iff] at dispatched
  obtain ⟨⟨r', after⟩, native, rfl⟩ := dispatched
  have kept := runNative_pc loop _ native
  have written : (after.core.writeBack env r').regs.pc = after.core.regs.pc :=
    makeFromSR_pc env.cpu _
  exact congrArg (· + 2) (written.trans kept)

/-- Each M68K_EXEC_RETURN ends the innermost loop and nothing else, and an emulator trap is
left with no flag set, at the instruction after it. -/
structure LoopsNest (env : Env) (fuel : Nat) : Prop where
  innermost : ∀ c, m68kExecute (m68kDoExecute env fuel) (fuel + 2) ⟨c, false, false⟩ =
    nestedLoop env (runToReturn env fuel) ⟨c, false, false⟩
  resumes : ∀ (c : Core) (st' : Emulator),
    isEmulop (getWord c.machine.mem c.regs.pc) = true →
      dispatch env (m68kExecute (m68kDoExecute env fuel) (fuel + 2)) ⟨c, false, false⟩ = some st' →
        st'.Running ∧ st'.core.regs.pc = c.regs.pc + 2

theorem loopsNest (env : Env) (fuel : Nat) : LoopsNest env fuel where
  innermost := m68kExecute_nests (m68kDoExecute_nests env fuel) fuel
  resumes c st' emulop dispatched := by
    have inner := m68kExecute_nests (m68kDoExecute_nests env fuel) fuel
    have goes_on : getWord c.machine.mem c.regs.pc ≠ m68kExecReturn := by
      simp only [isEmulop, Bool.and_eq_true, decide_eq_true_eq] at emulop
      exact emulop.2
    have running : Emulator.Running ⟨c, false, false⟩ := ⟨rfl, rfl⟩
    obtain ⟨same, ends⟩ := dispatch_nests inner running goes_on
    rw [same] at dispatched
    refine ⟨ends st' dispatched, ?_⟩
    exact dispatch_emulop_pc env _ ⟨c, false, false⟩ emulop dispatched

/-- To any depth of calls, the loops nest, and a call whose routine returns normally is isolated
if, and on the interrupt stack only if, the pass after its M68K_EXEC_RETURN is quiet. -/
theorem execute68k_isolated_when (env : Env) (fuel : Nat) (call : Call) (r : M68kRegisters)
    {c c' : Core} (normal : ReturnsNormally env fuel call r c c') :
    LoopsNest env fuel ∧
      ((poll env c').Quiet →
        ∃ r' st', execute env fuel call r ⟨c, false, false⟩ = some (r', st') ∧
          Isolated c c' r r' st') ∧
      (c'.regs.s = true → c'.regs.m = false → ∀ r' st',
        execute env fuel call r ⟨c, false, false⟩ = some (r', st') → Isolated c c' r r' st' →
          (poll env c').Quiet) :=
  ⟨loopsNest env fuel, execute_isolated_of_quiet normal, fun super interrupt _ _ =>
    quiet_of_execute_isolated normal super interrupt⟩

/-! ### Runs -/

/-- RTS, and an A-line trap that returns at once. -/
def plainInstruction (opcode : BitVec 16) (c : Core) : Core :=
  if opcode = 0x4e75 then
    let a7 := c.regs.a7
    { c with machine := { c.machine with regs := c.regs.setA7 (a7 + 4) } }.setPc
      (getLong c.machine.mem a7)
  else c.setPc (c.regs.pc + 2)

/-- EMULOP 1 and RTS at 0x1000, and the supervisor stack at 0x2000. -/
def routineAt1000 : Core where
  machine :=
    { regs :=
        { dreg := fun _ => 0
          areg := fun k => if k = sp then 0x2000 else 0
          pc := 0x3000
          intmask := 0
          vbr := 0
          usp := 0
          isp := 0
          msp := 0
          sr := 0
          t1 := false
          t0 := false
          s := true
          m := false
          flags := ⟨false, false, false, false, false⟩ }
      mem := putLong (fun _ => 0) 0x1000 0x71014e75 }
  interruptFlags := 0
  stop := false
  int := false
  doint := false
  trace := false
  dotrace := false
  lastTraceAd := 0
  time := 0

/-- The `EmulOp` executes a trap. -/
def trappingEnv (devices : Nat → Option (BitVec 32)) : Env where
  cpu := .mc68020
  fault := ⟨0, 0, 0⟩
  instruction := plainInstruction
  emulOp _ r := .execute (.trap 0xa000) r .done
  devices := devices
  patience := 1

/-- A call whose routine executes a trap inside an `EmulOp`. -/
theorem nested_call_isolated : ∃ c',
    ReturnsNormally (trappingEnv fun _ => none) 5 (.subroutine 0x1000) routineAt1000.regs.record
      routineAt1000 c' ∧
    ∃ r' st', execute (trappingEnv fun _ => none) 5 (.subroutine 0x1000)
      routineAt1000.regs.record ⟨routineAt1000, false, false⟩ = some (r', st') ∧
        Isolated routineAt1000 c' routineAt1000.regs.record r' st' := by
  have normal : ReturnsNormally (trappingEnv fun _ => none) 5 (.subroutine 0x1000)
      routineAt1000.regs.record routineAt1000 _ := ⟨rfl, by decide, by decide⟩
  refine ⟨_, normal, (execute68k_isolated_when _ _ _ _ normal).2.1 ?_⟩
  exact ⟨by decide, by decide, by decide⟩

/-- A device interrupts during the RTS at 0x1002: the interrupt is accepted after
M68K_EXEC_RETURN, and its frame stays on the stack of the caller. -/
theorem interrupt_at_return_not_isolated :
    ∃ (env : Env) (fuel : Nat) (call : Call) (r : M68kRegisters) (c c' : Core),
      ReturnsNormally env fuel call r c c' ∧
        ¬ ∃ r' st', execute env fuel call r ⟨c, false, false⟩ = some (r', st') ∧
          Isolated c c' r r' st' := by
  refine ⟨trappingEnv fun time => if time = 0 then some 1 else none, 2, .subroutine 0x1002,
    routineAt1000.regs.record, routineAt1000, _, ⟨rfl, by decide, by decide⟩, ?_⟩
  rintro ⟨r', st', executed, isolated⟩
  have a7 : (execute (trappingEnv fun time => if time = 0 then some 1 else none) 2
      (.subroutine 0x1002) routineAt1000.regs.record ⟨routineAt1000, false, false⟩).map
        (fun result => result.2.core.regs.a7) = some 0x1ff8 := by decide
  rw [executed] at a7
  have same : st'.core.regs.a7 = 0x2000 := isolated.a7
  simp [same] at a7

end BasiliskII.Cpu
