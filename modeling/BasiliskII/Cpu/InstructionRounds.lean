import BasiliskII.Cpu.ExecuteLoop
import BasiliskII.Cpu.StackPointers

/-!
# Rounds of the execution loop

`m68k_do_execute` of newcpu.cpp on guest code without emulator opcodes, with the exceptions that are
taken on the way. An instruction is a tree of what its handler does to T1, T0 and the special flags,
and of computations that leave them alone.
-/
namespace BasiliskII.Cpu

open ByteMemory

/-- What a handler does between its calls of `MakeFromSR`, `Exception` and `m68k_setstopped`. -/
structure Computation where
  run : Machine → Machine
  t1 : ∀ st, (run st).regs.t1 = st.regs.t1
  t0 : ∀ st, (run st).regs.t0 = st.regs.t0

/-- The handler of an instruction. -/
inductive Body
  | done
  | compute (f : Computation) (next : Machine → Body)
  /-- `regs.sr = newsr; MakeFromSR()` -/
  | setSR (newsr : BitVec 16) (next : Machine → Body)
  /-- `Exception(nr, oldpc)` -/
  | raise (nr : Nat) (oldpc : BitVec 32) (next : Machine → Body)
  /-- `m68k_setstopped(1)` -/
  | setStopped (next : Body)

/-- A call of `Exception`, with the machine it finds. -/
structure Taken where
  nr : Nat
  oldpc : BitVec 32
  found : Machine

/-- `MakeFromSR`, which looks at T1 and T0 when it is done. -/
def Core.makeFromSR (env : Env) (newsr : BitVec 16) (c : Core) : Core :=
  let machine := c.machine.setSR env.cpu newsr
  { c with machine, int := true, trace := machine.regs.t1 || machine.regs.t0 }

/-- A traced STOP instruction does not stop. -/
def Core.setStopped (c : Core) : Core := if c.dotrace then c else { c with stop := true }

/-- The state after an instruction, and the exceptions it raised. -/
def Body.run (env : Env) : Body → Core → Core × List Taken
  | .done, c => (c, [])
  | .compute f next, c =>
    let c := { c with machine := f.run c.machine }
    (next c.machine).run env c
  | .setSR newsr next, c =>
    let c := c.makeFromSR env newsr
    (next c.machine).run env c
  | .raise nr oldpc next, c =>
    let call : Taken := ⟨nr, oldpc, c.machine⟩
    let c := c.exception env nr oldpc
    let (c, calls) := (next c.machine).run env c
    (c, call :: calls)
  | .setStopped next, c => next.run env c.setStopped

/-- The call of `Exception` in `Interrupt(intr)`. -/
def Core.interruptCall (c : Core) : Taken :=
  ⟨(BitVec.ofNat 3 c.intlev).toNat + 24, 0, c.machine⟩

/-- `waitStopped` with the exceptions it takes. -/
def waitTaking (env : Env) : Nat → Core → Option (Core × List Taken)
  | 0, c => if c.stop then none else some (c, [])
  | rounds + 1, c =>
    if c.stop then
      if c.int || c.doint then
        let c := { c with int := false, doint := false }
        if c.Accepts then
          (waitTaking env rounds { c.interrupt env with stop := false }).map fun (d, calls) =>
            (d, c.interruptCall :: calls)
        else waitTaking env rounds (poll env c)
      else waitTaking env rounds (poll env c)
    else some (c, [])

/-- The trace exception of the pass over the special flags. -/
def takeTrace (env : Env) (c : Core) : Core × List Taken :=
  if c.dotrace then (c.exception env 9 c.lastTraceAd, [⟨9, c.lastTraceAd, c.machine⟩]) else (c, [])

/-- Its interrupt, if one was announced in the pass before. -/
def takeInterrupt (env : Env) (c : Core) : Core × List Taken :=
  if c.doint then
    let c := { c with doint := false }
    if c.Accepts then (c.interrupt env, [c.interruptCall]) else (c, [])
  else (c, [])

/-- `serviceFlags` with the exceptions it takes. -/
def serviceTaking (env : Env) (c : Core) : Option (Core × List Taken) :=
  let (c, traced) := takeTrace env c
  (waitTaking env env.patience c).map fun (c, woken) =>
    let c := if c.trace then doTrace env c else c
    let (c, interrupted) := takeInterrupt env c
    (if c.int then { c with int := false, doint := true } else c, traced ++ woken ++ interrupted)

/-- One round of the loop: the state before and after the instruction, with the exceptions it
raised, and those of the pass over the special flags, with the state after it. -/
structure Round where
  start : Core
  after : Core
  raised : List Taken
  taken : List Taken
  next : Core

variable (env : Env) (bodies : BitVec 16 → Body)

/-- The round from a state; `none` for an emulator opcode and while the CPU is stopped. -/
def executeRound (c : Core) : Option Round :=
  let opcode := getWord c.machine.mem c.regs.pc
  if opcode = m68kExecReturn ∨ isEmulop opcode then none
  else
    let (after, raised) := (bodies opcode).run env c
    let polled := poll env after
    if (Emulator.mk polled false false).special then
      (serviceTaking env polled).map fun (next, taken) => ⟨c, after, raised, taken, next⟩
    else some ⟨c, after, raised, [], polled⟩

/-- The rounds of a run. -/
inductive Rounds : Core → List Round → Core → Prop
  | done (c : Core) : Rounds c [] c
  | next {c d : Core} {r : Round} {rs : List Round} :
      executeRound env bodies c = some r → Rounds r.next rs d → Rounds c (r :: rs) d

/-- The environment whose handlers these are. -/
def Env.withBodies : Env := { env with instruction := fun opcode c => ((bodies opcode).run env c).1 }

/-! ### The loop of the model makes these rounds -/

theorem waitTaking_core (rounds : Nat) (c : Core) :
    (waitTaking env rounds c).map Prod.fst = waitStopped env rounds c := by
  induction rounds generalizing c with
  | zero =>
    unfold waitTaking waitStopped
    split <;> rfl
  | succ rounds ih =>
    unfold waitTaking waitStopped
    split
    · split
      · dsimp only
        split
        · rw [← ih, Option.map_map]
          rfl
        · exact ih _
      · exact ih _
    · rfl

theorem serviceTaking_core (c : Core) : (serviceTaking env c).map Prod.fst = serviceFlags env c := by
  have traced : (takeTrace env c).1 = if c.dotrace then c.exception env 9 c.lastTraceAd else c := by
    unfold takeTrace
    split <;> rfl
  have interrupted (c : Core) : (takeInterrupt env c).1 =
      if c.doint then
        let c := { c with doint := false }
        if c.Accepts then c.interrupt env else c
      else c := by
    unfold takeInterrupt
    dsimp only
    split
    · split <;> rfl
    · rfl
  unfold serviceTaking serviceFlags
  dsimp only
  rw [← traced, ← waitTaking_core, Option.map_map, Option.map_map]
  congr 1
  funext waited
  dsimp only [Function.comp]
  rw [interrupted]

/-- The handlers are not used outside of `dispatch`. -/
theorem waitStopped_withBodies (rounds : Nat) (c : Core) :
    waitStopped (env.withBodies bodies) rounds c = waitStopped env rounds c := by
  induction rounds generalizing c with
  | zero => rfl
  | succ rounds ih =>
    unfold waitStopped
    simp only [ih]
    rfl

theorem serviceFlags_withBodies (c : Core) :
    serviceFlags (env.withBodies bodies) c = serviceFlags env c := by
  unfold serviceFlags
  simp only [waitStopped_withBodies]
  rfl

/-- `m68k_do_execute` goes on with the state after the round. -/
theorem m68kDoExecute_round (fuel : Nat) (quit : Bool) (c : Core)
    (ordinary : ¬(getWord c.machine.mem c.regs.pc = m68kExecReturn ∨
      isEmulop (getWord c.machine.mem c.regs.pc))) :
    m68kDoExecute (env.withBodies bodies) (fuel + 1) ⟨c, false, quit⟩ =
      (executeRound env bodies c).bind fun r =>
        m68kDoExecute (env.withBodies bodies) fuel ⟨r.next, false, quit⟩ := by
  set opcode := getWord c.machine.mem c.regs.pc
  set after := ((bodies opcode).run env c).1
  have dispatched (loop : Emulator → Option Emulator) :
      dispatch (env.withBodies bodies) loop ⟨c, false, quit⟩ = some ⟨after, false, quit⟩ := by
    rw [not_or] at ordinary
    unfold dispatch
    dsimp only
    rw [if_neg ordinary.1, if_neg ordinary.2]
    rfl
  have served (d : Core) : m68kDoSpecialties (env.withBodies bodies) ⟨d, false, quit⟩ =
      (serviceTaking env d).map fun (next, _) => (false, ⟨next, false, quit⟩) := by
    unfold m68kDoSpecialties
    rw [serviceFlags_withBodies, ← serviceTaking_core, Option.map_map]
    rfl
  rw [m68kDoExecute, executeRound]
  dsimp only
  rw [dispatched, if_neg ordinary]
  dsimp only [Option.bind_some]
  -- Nobody sets BRK without an EMULOP_RETURN.
  have quiet : (Emulator.mk (poll env after) false quit).special =
      (Emulator.mk (poll env after) false false).special := rfl
  change (if (Emulator.mk (poll env after) false quit).special then _ else _) = _
  rw [quiet]
  split
  · rw [served, Option.bind_map, Option.bind_map]
    rfl
  · rfl

end BasiliskII.Cpu
