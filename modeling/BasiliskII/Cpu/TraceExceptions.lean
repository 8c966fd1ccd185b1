import BasiliskII.Cpu.InstructionRounds
import BasiliskII.Cpu.LongDivision

/-!
# Trace exceptions

`SPCFLAG_TRACE` says that the SR asks for tracing, `SPCFLAG_DOTRACE` that the instruction to come
is traced. Between two instructions the first is always taken over into the second, and every
exception clears both, so that each traced instruction has its exception and no other has one.
-/
namespace BasiliskII.Cpu

open ByteMemory

/-- `m68k_reset` -/
def Core.reset (romBaseMac : BitVec 32) (c : Core) : Core :=
  { c with
    machine := { c.machine with
      regs := { c.regs.setA7 0x2000 with
        pc := romBaseMac + 0x2a
        s := true
        m := false
        t1 := false
        t0 := false
        flags := ⟨false, false, false, false, false⟩
        intmask := 7
        vbr := 0 } }
    -- `SPCFLAGS_INIT(0)`
    stop := false
    int := false
    doint := false
    trace := false
    dotrace := false }

/-- The frame of a trace exception. On the 68000 it has the PC and the SR alone. -/
structure TraceFrame (cpu : CPUType) (address following : BitVec 32) (after : Machine) : Prop where
  returns : getLong after.mem (after.regs.a7 + 2) = following
  format : cpu ≠ .mc68000 → getWord after.mem (after.regs.a7 + 6) = 0x2024
  instruction : cpu ≠ .mc68000 → getLong after.mem (after.regs.a7 + 8) = address

/-- What is traced in a round, with the address of its instruction and the PC after it. -/
structure TracedRight (env : Env) (r : Round) : Prop where
  traced : r.start.regs.t1 = true → r.raised = [] → ∃ later,
    r.taken = ⟨9, r.start.regs.pc, r.after.machine⟩ :: later ∧ (∀ call ∈ later, call.nr ≠ 9) ∧
      TraceFrame env.cpu r.start.regs.pc r.after.regs.pc
        (exception env.cpu env.fault 9 r.start.regs.pc r.after.machine)
  untraced : r.start.regs.t1 = false → ∀ call ∈ r.taken, call.nr ≠ 9

theorem exception_traceFrame (cpu : CPUType) (fault : Fault) (address : BitVec 32) (st : Machine) :
    TraceFrame cpu address st.regs.pc (exception cpu fault 9 address st) := by
  have frame (later : cpu ≠ .mc68000) := enterHandler_frame 9
    ((⟨enterSupervisor cpu (makeSR st.regs), st.mem⟩ : Machine).pushLong address)
    (0x2000 + vectorOffset 9) st.regs.srValue st.regs.pc
  constructor
  · exact exception_stackedPc cpu fault (by decide) address st
  · intro later
    rw [exception_withAddress later fault (by decide)]
    exact (frame later).1.format
  · intro later
    rw [exception_withAddress later fault (by decide), (frame later).2]
    simp only [Machine.pushLong, Regs.a7_setA7]
    exact getLong_putLong (by decide) ..

/-! ### The two flags in an instruction -/

/-- In an instruction: T1 does not go unnoticed, and nothing else is traced while T0 is clear. -/
structure Core.Noticed (c : Core) : Prop where
  traced : c.regs.t1 = true → c.trace = true ∨ c.dotrace = true
  tracing : c.trace = true → c.regs.t1 = true ∨ c.regs.t0 = true

theorem Core.Noticed.exception (env : Env) (nr : Nat) (oldpc : BitVec 32) (c : Core) :
    (c.exception env nr oldpc).Noticed where
  traced := fun traced => Bool.noConfusion traced
  tracing := fun tracing => Bool.noConfusion tracing

theorem Core.Noticed.makeFromSR (env : Env) (newsr : BitVec 16) (c : Core) :
    (c.makeFromSR env newsr).Noticed where
  traced := fun traced => .inl (Bool.or_eq_true_iff.mpr (.inl traced))
  tracing := fun tracing => Bool.or_eq_true_iff.mp tracing

/-- What an instruction does to the flags, by the exceptions it raises. -/
structure Traces (c d : Core) (raised : List Taken) : Prop where
  noticed : d.Noticed
  /-- Only an exception takes DOTRACE away. -/
  kept : raised = [] → d.dotrace = c.dotrace ∧ d.lastTraceAd = c.lastTraceAd
  /-- No instruction sets it. -/
  untraced : c.dotrace = false → d.dotrace = false

variable {c : Core}

theorem Body.run_traces (env : Env) (body : Body) (noticed : c.Noticed) :
    Traces c (body.run env c).1 (body.run env c).2 := by
  induction body generalizing c with
  | done => exact ⟨noticed, fun _ => ⟨rfl, rfl⟩, id⟩
  | compute f next ih =>
    have same : ({ c with machine := f.run c.machine } : Core).Noticed := by
      refine ⟨fun traced => noticed.traced ?_, fun tracing => ?_⟩
      · rw [← traced]
        exact (f.t1 c.machine).symm
      · have before := noticed.tracing tracing
        rw [← f.t1, ← f.t0] at before
        exact before
    exact ⟨(ih _ same).noticed, (ih _ same).kept, (ih _ same).untraced⟩
  | setSR newsr next ih =>
    have rest := ih (c.makeFromSR env newsr).machine (Core.Noticed.makeFromSR env newsr c)
    exact ⟨rest.noticed, rest.kept, rest.untraced⟩
  | raise nr oldpc next ih =>
    -- Nothing of the flags is left, and nothing sets DOTRACE again.
    have rest := ih (c.exception env nr oldpc).machine (Core.Noticed.exception env nr oldpc c)
    exact ⟨rest.noticed, fun empty => absurd empty (List.cons_ne_nil _ _),
      fun _ => rest.untraced rfl⟩
  | setStopped next ih =>
    have same : c.setStopped.Noticed ∧ c.setStopped.dotrace = c.dotrace ∧
        c.setStopped.lastTraceAd = c.lastTraceAd := by
      unfold Core.setStopped
      split
      · exact ⟨noticed, rfl, rfl⟩
      · exact ⟨⟨noticed.traced, noticed.tracing⟩, rfl, rfl⟩
    have rest := ih same.1
    refine ⟨rest.noticed, fun empty => ?_, fun untraced => ?_⟩
    · exact ⟨(rest.kept empty).1.trans same.2.1, (rest.kept empty).2.trans same.2.2⟩
    · exact rest.untraced (same.2.1.trans untraced)

/-! ### The pass over the special flags -/

/-- Between two instructions: the one to come is traced if T1 is set, at its own address. -/
structure Core.Latched (c : Core) : Prop where
  trace : c.trace = false
  dotrace : c.dotrace = c.regs.t1
  address : c.dotrace = true → c.lastTraceAd = c.regs.pc

/-- In the pass, when the trace exception is behind: TRACE says what T1 does. -/
structure Core.Served (c : Core) : Prop where
  dotrace : c.dotrace = false
  trace : c.trace = c.regs.t1
  t0 : c.regs.t0 = false

theorem Core.Latched.noticed (latched : c.Latched) : c.Noticed where
  traced := fun traced => .inr (latched.dotrace.trans traced)
  tracing := fun tracing => absurd (latched.trace.symm.trans tracing) Bool.false_ne_true

theorem Core.Latched.interrupt (env : Env) (c : Core) : (c.interrupt env).Latched :=
  ⟨rfl, rfl, fun dotrace => Bool.noConfusion dotrace⟩

theorem interruptCall_nr (c : Core) : c.interruptCall.nr ≠ 9 := by
  change (BitVec.ofNat 3 c.intlev).toNat + 24 ≠ 9
  omega

theorem Core.Served.poll (env : Env) (served : c.Served) : (poll env c).Served := by
  unfold Cpu.poll
  split <;> exact ⟨served.dotrace, served.trace, served.t0⟩

/-- A stopped CPU is woken by interrupts, never by a trace exception. -/
theorem waitTaking_served (env : Env) (rounds : Nat) {d : Core} {calls : List Taken}
    (served : c.Served) (waited : waitTaking env rounds c = some (d, calls)) :
    d.Served ∧ ∀ call ∈ calls, call.nr ≠ 9 := by
  induction rounds generalizing c calls with
  | zero =>
    unfold waitTaking at waited
    split at waited
    · cases waited
    · cases waited
      exact ⟨served, fun _ none => absurd none List.not_mem_nil⟩
  | succ rounds ih =>
    unfold waitTaking at waited
    have looked : ({ c with int := false, doint := false } : Core).Served :=
      ⟨served.dotrace, served.trace, served.t0⟩
    split at waited
    · split at waited
      · dsimp only at waited
        split at waited
        · obtain ⟨⟨e, later⟩, woken, same⟩ := Option.map_eq_some_iff.mp waited
          cases same
          obtain ⟨after, others⟩ := ih ⟨rfl, rfl, rfl⟩ woken
          refine ⟨after, fun call taken => ?_⟩
          rcases List.mem_cons.mp taken with rfl | taken
          · exact interruptCall_nr _
          · exact others call taken
        · exact ih (looked.poll env) waited
      · exact ih (served.poll env) waited
    · cases waited
      exact ⟨served, fun _ none => absurd none List.not_mem_nil⟩

/-- `do_trace` announces the trace exception of the instruction to come. -/
theorem doTrace_latched (env : Env) (served : c.Served) :
    (if c.trace then doTrace env c else c).Latched := by
  split
  next tracing =>
    have t1 : c.regs.t1 = true := served.trace.symm.trans tracing
    rw [doTrace, served.t0, Bool.false_and, if_neg Bool.false_ne_true, if_pos t1]
    exact ⟨rfl, t1.symm, fun _ => rfl⟩
  next quiet =>
    rw [Bool.not_eq_true] at quiet
    have untraced : c.dotrace ≠ true := by simp [served.dotrace]
    exact ⟨quiet, served.dotrace.trans (quiet.symm.trans served.trace),
      fun dotrace => absurd dotrace untraced⟩

/-- An interrupt before the instruction puts its own handler in its place. -/
theorem takeInterrupt_latched (env : Env) (latched : c.Latched) :
    (takeInterrupt env c).1.Latched ∧ ∀ call ∈ (takeInterrupt env c).2, call.nr ≠ 9 := by
  unfold takeInterrupt
  dsimp only
  split
  · split
    · refine ⟨Core.Latched.interrupt env _, fun call taken => ?_⟩
      rw [List.mem_singleton.mp taken]
      exact interruptCall_nr _
    · exact ⟨⟨latched.trace, latched.dotrace, latched.address⟩,
        fun _ none => absurd none List.not_mem_nil⟩
  · exact ⟨latched, fun _ none => absurd none List.not_mem_nil⟩

/-- When an instruction is over, with T0 clear. -/
structure Core.Over (c : Core) : Prop where
  t0 : c.regs.t0 = false
  noticed : c.Noticed

theorem takeTrace_served (env : Env) (ended : c.Over) : (takeTrace env c).1.Served := by
  unfold takeTrace
  split
  · exact ⟨rfl, rfl, rfl⟩
  next untraced =>
    rw [Bool.not_eq_true] at untraced
    refine ⟨untraced, ?_, ended.t0⟩
    cases tracing : c.trace with
    | true => exact ((ended.noticed.tracing tracing).resolve_right (by simp [ended.t0])).symm
    | false =>
      refine (Bool.eq_false_iff.mpr fun traced => ?_).symm
      rcases ended.noticed.traced traced with tracing' | dotrace
      · simp [tracing] at tracing'
      · simp [untraced] at dotrace

/-- After the pass the next instruction is latched; DOTRACE had its exception, first of all. -/
theorem serviceTaking_latched (env : Env) {d : Core} {taken : List Taken} (ended : c.Over)
    (serviced : serviceTaking env c = some (d, taken)) :
    d.Latched ∧ ∃ later, taken = (takeTrace env c).2 ++ later ∧ ∀ call ∈ later, call.nr ≠ 9 := by
  unfold serviceTaking at serviced
  dsimp only at serviced
  obtain ⟨⟨woken, calls⟩, waited, same⟩ := Option.map_eq_some_iff.mp serviced
  cases same
  obtain ⟨served, others⟩ := waitTaking_served env _ (takeTrace_served env ended) waited
  obtain ⟨latched, interrupts⟩ := takeInterrupt_latched env (doTrace_latched env served)
  -- INT turns into DOINT, which is for the pass after the next instruction.
  have announced {c : Core} (latched : c.Latched) :
      (if c.int then { c with int := false, doint := true } else c).Latched := by
    split
    · exact ⟨latched.trace, latched.dotrace, latched.address⟩
    · exact latched
  refine ⟨announced latched, _, List.append_assoc .., fun call found => ?_⟩
  rcases List.mem_append.mp found with found | found
  · exact others call found
  · exact interrupts call found

/-! ### Rounds and runs -/

variable {env : Env} {bodies : BitVec 16 → Body}

theorem Core.Over.poll (ended : c.Over) : (poll env c).Over := by
  unfold Cpu.poll
  split <;> exact ⟨ended.t0, ended.noticed.traced, ended.noticed.tracing⟩

theorem poll_fields (env : Env) (c : Core) :
    (poll env c).machine = c.machine ∧ (poll env c).dotrace = c.dotrace ∧
      (poll env c).trace = c.trace ∧ (poll env c).lastTraceAd = c.lastTraceAd := by
  unfold Cpu.poll
  split <;> exact ⟨rfl, rfl, rfl, rfl⟩

theorem executeRound_traced {r : Round} (latched : c.Latched)
    (executed : executeRound env bodies c = some r) (t0 : r.after.regs.t0 = false) :
    r.next.Latched ∧ TracedRight env r := by
  unfold executeRound at executed
  dsimp only at executed
  split at executed
  · cases executed
  have traces := (bodies (getWord c.machine.mem c.regs.pc)).run_traces env latched.noticed
  set after := ((bodies (getWord c.machine.mem c.regs.pc)).run env c).1
  set raised := ((bodies (getWord c.machine.mem c.regs.pc)).run env c).2
  obtain ⟨machine, dotrace, trace, address⟩ := poll_fields env after
  split at executed
  next =>
    obtain ⟨⟨next, taken⟩, serviced, same⟩ := Option.map_eq_some_iff.mp executed
    cases same
    have ended : after.Over := ⟨t0, traces.noticed⟩
    obtain ⟨next_latched, later, rfl, others⟩ := serviceTaking_latched env ended.poll serviced
    refine ⟨next_latched, ?_, ?_⟩
    · intro t1 unraised
      obtain ⟨kept, kept_address⟩ := traces.kept unraised
      have latch : after.dotrace = true := kept.trans (latched.dotrace.trans t1)
      have here : after.lastTraceAd = c.regs.pc :=
        kept_address.trans (latched.address (latched.dotrace.trans t1))
      refine ⟨later, ?_, others, exception_traceFrame env.cpu env.fault c.regs.pc after.machine⟩
      rw [takeTrace, if_pos (dotrace.trans latch), machine, address, here]
      rfl
    · intro t1 call taken
      have latch : after.dotrace = false := traces.untraced (latched.dotrace.trans t1)
      rw [takeTrace, if_neg (by simp [dotrace, latch]), List.nil_append] at taken
      exact others call taken
  next quiet =>
    cases executed
    -- No flag is set, not even one of the two.
    simp only [Emulator.special, Bool.or_eq_true, not_or, Bool.not_eq_true, dotrace, trace]
      at quiet
    obtain ⟨⟨⟨-, no_trace⟩, no_dotrace⟩, -⟩ := quiet
    have t1 : after.regs.t1 = false := by
      refine Bool.eq_false_iff.mpr fun traced => ?_
      rcases traces.noticed.traced traced with tracing | tracing
      · simp [no_trace] at tracing
      · simp [no_dotrace] at tracing
    refine ⟨⟨trace.trans no_trace, ?_, fun tracing => ?_⟩, ?_, ?_⟩
    · change (poll env after).dotrace = (poll env after).machine.regs.t1
      rw [dotrace, machine, no_dotrace]
      exact t1.symm
    · change (poll env after).dotrace = true at tracing
      simp [dotrace, no_dotrace] at tracing
    · intro traced unraised
      have latch := (traces.kept unraised).1.trans (latched.dotrace.trans traced)
      simp [no_dotrace] at latch
    · exact fun _ _ none => absurd none List.not_mem_nil

theorem Core.Latched.reset (romBaseMac : BitVec 32) (c : Core) : (c.reset romBaseMac).Latched :=
  ⟨rfl, rfl, fun dotrace => Bool.noConfusion dotrace⟩

theorem rounds_latched {d : Core} {rs : List Round} (run : Rounds env bodies c rs d)
    (t0 : ∀ r ∈ rs, r.after.regs.t0 = false) (latched : c.Latched) :
    d.Latched ∧ ∀ r ∈ rs, TracedRight env r := by
  induction run with
  | done c => exact ⟨latched, fun _ none => absurd none List.not_mem_nil⟩
  | next executed _ ih =>
    rw [List.forall_mem_cons] at t0
    obtain ⟨next, right⟩ := executeRound_traced latched executed t0.1
    obtain ⟨last, rest⟩ := ih t0.2 next
    exact ⟨last, List.forall_mem_cons.mpr ⟨right, rest⟩⟩

/-- `MOVE #0xa000,SR`, which begins untraced, and then `ORI.B #0,D0`, which is traced. -/
def tracedBodies (opcode : BitVec 16) : Body :=
  let forward : Computation :=
    ⟨fun st => { st with regs := { st.regs with pc := st.regs.pc + 4 } }, fun _ => rfl, fun _ => rfl⟩
  if opcode = 0x46fc then .compute forward fun _ => .setSR 0xa000 fun _ => .done
  else .compute forward fun _ => .done

def tracedEnv : Env where
  cpu := .mc68040
  fault := ⟨0, 0, 0⟩
  instruction := fun _ c => c
  emulOp := fun _ r => .done r
  devices := fun _ => none
  patience := 0

def tracedStart : Core where
  machine := ⟨zeroRegs, putWord (fun _ => 0) 0x2a 0x46fc⟩
  interruptFlags := 0
  stop := false
  int := false
  doint := false
  trace := false
  dotrace := false
  lastTraceAd := 0
  time := 0

/-- As long as `m68k_do_execute` has turns left, it comes to the state after the rounds. -/
theorem m68kDoExecute_rounds {env : Env} {bodies : BitVec 16 → Body} {c d : Core} {rs : List Round}
    (run : Rounds env bodies c rs d) (fuel : Nat) (quit : Bool) :
    m68kDoExecute (env.withBodies bodies) (fuel + rs.length) ⟨c, false, quit⟩ =
      m68kDoExecute (env.withBodies bodies) fuel ⟨d, false, quit⟩ := by
  induction run with
  | done c => rfl
  | @next c d r rs executed _ ih =>
    -- There is no round where the loop would call an emulator routine.
    have ordinary : ¬(getWord c.machine.mem c.regs.pc = m68kExecReturn ∨
        isEmulop (getWord c.machine.mem c.regs.pc)) := by
      intro native
      rw [executeRound, if_pos native] at executed
      cases executed
    rw [List.length_cons, ← Nat.add_assoc, m68kDoExecute_round _ _ _ _ _ ordinary, executed]
    exact ih

theorem m68kDoExecute_rounds_ori :
    ∃ (rs : List Round) (d : Core), rs.map (fun r => r.start.regs.pc) = [0x2a, 0x2e] ∧ ∀ fuel,
      m68kDoExecute (tracedEnv.withBodies tracedBodies) (fuel + rs.length)
          ⟨tracedStart.reset 0, false, false⟩ =
        m68kDoExecute (tracedEnv.withBodies tracedBodies) fuel ⟨d, false, false⟩ := by
  have run : Rounds tracedEnv tracedBodies (tracedStart.reset 0) [_, _] _ :=
    .next rfl (.next rfl (.done _))
  exact ⟨_, _, rfl, fun fuel => m68kDoExecute_rounds run fuel false⟩

end BasiliskII.Cpu
