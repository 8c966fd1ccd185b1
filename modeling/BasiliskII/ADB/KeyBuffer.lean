import BasiliskII.Library.RingBuffer
import BasiliskII.Library.StepSystem

/-!
# The keyboard event buffer of the ADB emulation

`ADBKeyDown`, `ADBKeyUp` and the keyboard part of `ADBInterrupt` of adb.cpp, in
any interleaving of the thread that queues key events and the CPU thread. A
step is one access to the buffer or to one of its pointers. The guest code
`ADBInterrupt` calls may be interrupted, and then runs `ADBInterrupt` once more.
-/
namespace BasiliskII.ADB

open RingBuffer StepSystem

def keyBufferSize : Nat := 16

abbrev KeyBuffer := Ring (BitVec 8) keyBufferSize

/-- The call of `ADBKeyDown` or `ADBKeyUp` under way. -/
inductive KeyCall where
  | idle
  | storing (code : BitVec 8)
  | advancing (code : BitVec 8)
  deriving DecidableEq, Repr

/-- The register 0 packet at `tmp_data`. -/
structure Packet where
  length : BitVec 8
  code : BitVec 8
  second : BitVec 8
  deriving DecidableEq, Repr

def keyPacket (macCode : BitVec 8) : Packet :=
  ⟨2, macCode, if macCode = 0x7f then 0x7f else 0xff⟩

/-- Where a running `ADBInterrupt` is. -/
inductive Point where
  | mouse
  | loopTest
  | reading
  | advancing (macCode : BitVec 8)
  | calling (macCode : BitVec 8)
  | handler
  deriving DecidableEq, Repr

/-- `queued` and `handed` record the history of the run; no step reads them. -/
structure System where
  buffer : KeyBuffer
  keyCall : KeyCall
  /-- The runs of `ADBInterrupt`, the innermost first. -/
  interrupts : List Point
  queued : List (BitVec 8)
  handed : List Packet

inductive Action where
  | keyDown (code : BitVec 32)
  | keyUp (code : BitVec 32)
  | keyStep
  /-- `ADBInterrupt` is called; `adbBase` is what it finds at 0xcf8. -/
  | interrupt (adbBase : BitVec 32)
  | interruptStep
  deriving DecidableEq, Repr

def keyEvent (s : System) (code : BitVec 8) : Option System :=
  if s.keyCall = .idle then some { s with keyCall := .storing code } else none

def keyStep (s : System) : Option System :=
  match s.keyCall with
  | .idle => none
  | .storing code =>
    some { s with buffer := s.buffer.writeSlot code, keyCall := .advancing code }
  | .advancing code =>
    some
      { s with
        buffer := s.buffer.advanceWrite
        keyCall := .idle
        queued := s.queued ++ [code] }

/-- Guest code runs: no interrupt under way, or the innermost one is in a guest handler. -/
def guestRuns : List Point → Bool
  | [] | .mouse :: _ | .handler :: _ => true
  | _ => false

def interrupt (s : System) (adbBase : BitVec 32) : Option System :=
  if !guestRuns s.interrupts then none
  else if adbBase = 0 ∨ adbBase = 0xffffffff then some s
  else some { s with interrupts := .mouse :: s.interrupts }

def interruptStep (s : System) : Option System :=
  match s.interrupts with
  | [] => none
  | .mouse :: outer => some { s with interrupts := .loopTest :: outer }
  | .loopTest :: outer =>
    if s.buffer.readPtr ≠ s.buffer.writePtr then some { s with interrupts := .reading :: outer }
    else some { s with interrupts := outer }
  | .reading :: outer =>
    some { s with interrupts := .advancing (s.buffer.slots s.buffer.readPtr) :: outer }
  | .advancing macCode :: outer =>
    some { s with buffer := s.buffer.advanceRead, interrupts := .calling macCode :: outer }
  | .calling macCode :: outer =>
    some { s with interrupts := .handler :: outer, handed := s.handed ++ [keyPacket macCode] }
  | .handler :: outer => some { s with interrupts := .loopTest :: outer }

def step (s : System) : Action → Option System
  | .keyDown code => keyEvent s (code.setWidth 8)
  | .keyUp code => keyEvent s ((code ||| 0x80).setWidth 8)
  | .keyStep => keyStep s
  | .interrupt adbBase => interrupt s adbBase
  | .interruptStep => interruptStep s

def start : System where
  buffer := ⟨fun _ => 0, ⟨0, by decide⟩, ⟨0, by decide⟩⟩
  keyCall := .idle
  interrupts := []
  queued := []
  handed := []

def System.handedCodes (s : System) : List (BitVec 8) := s.handed.map Packet.code

/-- What `ADBInterrupt` has taken from the buffer but not handed over. -/
def System.taken (s : System) : List (BitVec 8) :=
  match s.interrupts with
  | .reading :: _ => [s.buffer.slots s.buffer.readPtr]
  | .advancing macCode :: _ | .calling macCode :: _ => [macCode]
  | _ => []

/-- The buffer behind what has been taken. -/
def System.rest (s : System) : KeyBuffer :=
  match s.interrupts with
  | .reading :: _ | .advancing _ :: _ => s.buffer.advanceRead
  | _ => s.buffer

/-- A key event overwrites no slot that is being read and does not take the last free one. -/
def HasRoom (s : System) : Action → Prop
  | .keyStep =>
    match s.keyCall with
    | .idle => True
    | .storing _ => s.interrupts.head? = some .reading → s.buffer.readPtr ≠ s.buffer.writePtr
    | .advancing _ => ¬ s.rest.Full
  | _ => True

/-- The key events that are still there: handed over, taken or in the buffer. -/
def System.accounted (s : System) : List (BitVec 8) :=
  s.handedCodes ++ s.taken ++ s.rest.contents

/-- The runs of `ADBInterrupt` under the innermost one are in guest code. -/
def Nested (interrupts : List Point) : Prop :=
  ∀ point ∈ interrupts.tail, point = .mouse ∨ point = .handler

structure SystemInvariant (s : System) : Prop where
  kept : s.queued = s.accounted
  stored : ∀ code, s.keyCall = .advancing code → s.buffer.slots s.buffer.writePtr = code
  nested : Nested s.interrupts

theorem start_invariant : SystemInvariant start where
  kept := rfl
  stored := by
    intro code advancing
    cases advancing
  nested := by
    intro point member
    cases member

-- The thread that queues key events.

variable {s t : System} {code : BitVec 8}

theorem keyEvent_invariant (invariant : SystemInvariant s) (stepped : keyEvent s code = some t) :
    SystemInvariant t := by
  unfold keyEvent at stepped
  split at stepped
  · cases stepped
    refine ⟨invariant.kept, fun other advancing => ?_, invariant.nested⟩
    cases advancing
  · cases stepped

/-- Filling the free slot leaves alone what has been taken and what has not. -/
theorem storing_keeps (s : System) (code : BitVec 8)
    (room : s.interrupts.head? = some .reading → s.buffer.readPtr ≠ s.buffer.writePtr) :
    { s with buffer := s.buffer.writeSlot code }.taken = s.taken ∧
      { s with buffer := s.buffer.writeSlot code }.rest = s.rest.writeSlot code := by
  cases running : s.interrupts with
  | nil => simp [System.taken, System.rest, running]
  | cons point others =>
    cases point with
    | reading =>
      rw [running] at room
      simp [System.taken, System.rest, running, Ring.writeSlot, Ring.advanceRead, room rfl]
    | mouse | loopTest | advancing | calling | handler =>
      simp [System.taken, System.rest, running, Ring.writeSlot, Ring.advanceRead]

theorem advancing_keeps (s : System) :
    { s with buffer := s.buffer.advanceWrite }.taken = s.taken ∧
      { s with buffer := s.buffer.advanceWrite }.rest = s.rest.advanceWrite := by
  cases running : s.interrupts with
  | nil => simp [System.taken, System.rest, running]
  | cons point others =>
    cases point <;>
      simp [System.taken, System.rest, running, Ring.advanceWrite, Ring.advanceRead]

theorem rest_writePtr (s : System) :
    s.rest.writePtr = s.buffer.writePtr ∧ s.rest.slots = s.buffer.slots := by
  unfold System.rest
  split <;> exact ⟨rfl, rfl⟩

theorem storing_accounted
    (room : s.interrupts.head? = some .reading → s.buffer.readPtr ≠ s.buffer.writePtr) :
    { s with buffer := s.buffer.writeSlot code }.accounted = s.accounted := by
  obtain ⟨same_taken, same_rest⟩ := storing_keeps s code room
  rw [System.accounted, same_taken, same_rest, Ring.contents_writeSlot]
  rfl

theorem advancing_accounted (room : ¬ s.rest.Full) :
    { s with buffer := s.buffer.advanceWrite }.accounted =
      s.accounted ++ [s.buffer.slots s.buffer.writePtr] := by
  obtain ⟨same_taken, same_rest⟩ := advancing_keeps s
  obtain ⟨same_write, same_slots⟩ := rest_writePtr s
  rw [System.accounted, same_taken, same_rest, Ring.contents_advanceWrite room, same_write,
    same_slots, System.accounted, List.append_assoc _ s.rest.contents]
  rfl

theorem advancing_full_accounted (full : s.rest.Full) :
    { s with buffer := s.buffer.advanceWrite }.accounted = s.handedCodes ++ s.taken := by
  obtain ⟨same_taken, same_rest⟩ := advancing_keeps s
  rw [System.accounted, same_taken, same_rest, Ring.contents_advanceWrite_full full,
    List.append_nil]
  rfl

theorem keyStep_invariant (invariant : SystemInvariant s) (room : HasRoom s .keyStep)
    (stepped : keyStep s = some t) : SystemInvariant t := by
  obtain ⟨kept, stored, nested⟩ := invariant
  unfold keyStep at stepped
  unfold HasRoom at room
  cases calling : s.keyCall with
  | idle =>
    rw [calling] at stepped
    cases stepped
  | storing code =>
    rw [calling] at stepped room
    cases stepped
    refine ⟨kept.trans (storing_accounted room).symm, fun other advancing => ?_, nested⟩
    cases advancing
    exact if_pos rfl
  | advancing code =>
    rw [calling] at stepped room
    cases stepped
    have appended := advancing_accounted room
    rw [stored code calling, ← kept] at appended
    refine ⟨appended.symm, fun other storing => ?_, nested⟩
    cases storing

-- The CPU thread.

theorem accounted_of_guest {outer : List Point}
    (guest : ∀ point ∈ outer, point = .mouse ∨ point = .handler) :
    { s with interrupts := outer }.taken = [] ∧ { s with interrupts := outer }.rest = s.buffer := by
  cases outer with
  | nil => exact ⟨rfl, rfl⟩
  | cons point others =>
    rcases guest point (List.mem_cons_self ..) with rfl | rfl <;> exact ⟨rfl, rfl⟩

/-- What a step of the CPU thread leaves as it was. -/
structure Kept (s t : System) : Prop where
  queued : t.queued = s.queued
  accounted : t.accounted = s.accounted
  keyCall : t.keyCall = s.keyCall
  slots : t.buffer.slots = s.buffer.slots
  writePtr : t.buffer.writePtr = s.buffer.writePtr
  nested : Nested t.interrupts

theorem Kept.invariant (kept : Kept s t) (invariant : SystemInvariant s) : SystemInvariant t where
  kept := by rw [kept.queued, invariant.kept, kept.accounted]
  stored := by
    rw [kept.keyCall, kept.slots, kept.writePtr]
    exact invariant.stored
  nested := kept.nested

theorem interrupt_kept {adbBase : BitVec 32} (nested : Nested s.interrupts)
    (stepped : interrupt s adbBase = some t) : Kept s t := by
  unfold interrupt at stepped
  split at stepped
  · cases stepped
  next guest =>
    split at stepped
    · cases stepped
      exact ⟨rfl, rfl, rfl, rfl, rfl, nested⟩
    · cases stepped
      have in_guest : ∀ point ∈ s.interrupts, point = .mouse ∨ point = .handler := by
        cases running : s.interrupts with
        | nil => simp
        | cons point others =>
          rw [running] at guest nested
          cases point <;> simp_all [guestRuns, Nested]
      have before : s.taken = [] ∧ s.rest = s.buffer := accounted_of_guest in_guest
      refine ⟨rfl, ?_, rfl, rfl, rfl, in_guest⟩
      rw [System.accounted, System.accounted, before.1, before.2]
      rfl

theorem interruptStep_kept (nested : Nested s.interrupts) (stepped : interruptStep s = some t) :
    Kept s t := by
  unfold interruptStep at stepped
  cases running : s.interrupts with
  | nil =>
    rw [running] at stepped
    cases stepped
  | cons point others =>
    rw [running] at stepped nested
    replace nested : ∀ point ∈ others, point = .mouse ∨ point = .handler := nested
    cases point with
    | mouse | handler | reading | advancing =>
      cases stepped
      refine ⟨rfl, ?_, rfl, rfl, rfl, nested⟩
      simp only [System.accounted, System.taken, System.rest, running]
      rfl
    | loopTest =>
      dsimp only at stepped
      split at stepped
      next some_waiting =>
        cases stepped
        refine ⟨rfl, ?_, rfl, rfl, rfl, nested⟩
        simp [System.accounted, System.taken, System.rest, running, System.handedCodes,
          Ring.contents_advanceRead some_waiting]
      · cases stepped
        obtain ⟨none_taken, all_rest⟩ := accounted_of_guest (s := s) nested
        refine ⟨rfl, ?_, rfl, rfl, rfl, fun point member => nested point (List.mem_of_mem_tail member)⟩
        rw [System.accounted, none_taken, all_rest]
        simp only [System.accounted, System.taken, System.rest, running]
        rfl
    | calling macCode =>
      cases stepped
      refine ⟨rfl, ?_, rfl, rfl, rfl, nested⟩
      simp [System.accounted, System.taken, System.rest, running, System.handedCodes, keyPacket]

variable {a : Action}

theorem step_invariant (invariant : SystemInvariant s) (room : HasRoom s a)
    (stepped : step s a = some t) : SystemInvariant t := by
  cases a with
  | keyDown code | keyUp code => exact keyEvent_invariant invariant stepped
  | keyStep => exact keyStep_invariant invariant room stepped
  | interrupt adbBase => exact (interrupt_kept invariant.nested stepped).invariant invariant
  | interruptStep => exact (interruptStep_kept invariant.nested stepped).invariant invariant

theorem reachable_invariant (reached : Reachable step HasRoom start s) : SystemInvariant s :=
  reached.invariant start_invariant fun _ _ _ invariant room stepped =>
    step_invariant invariant room stepped

/-- No key event waits or is under way. -/
structure Drained (s : System) : Prop where
  idle : s.keyCall = .idle
  empty : s.buffer.readPtr = s.buffer.writePtr
  taken : s.taken = []

theorem Drained.all_handed (drained : Drained s) (invariant : SystemInvariant s) :
    s.handedCodes = s.queued := by
  obtain ⟨idle, empty, taken⟩ := drained
  have rest : s.rest = s.buffer := by
    unfold System.taken at taken
    unfold System.rest
    split at taken <;> simp_all
  rw [invariant.kept, System.accounted, taken, rest, Ring.contents_of_eq empty, List.append_nil,
    List.append_nil]

def Action.isKeyEvent : Action → Bool
  | .keyDown _ | .keyUp _ => true
  | _ => false

/-- The run of `ADBInterrupt` under way returns. -/
def Returns (s t : System) : Prop :=
  interruptStep s = some t ∧ t.interrupts.length < s.interrupts.length

theorem Returns.drained (returned : Returns s t) (invariant : SystemInvariant s)
    (idle : t.keyCall = .idle) : Drained t := by
  obtain ⟨stepped, fewer⟩ := returned
  have nested := invariant.nested
  unfold interruptStep at stepped
  cases running : s.interrupts with
  | nil =>
    rw [running] at stepped
    cases stepped
  | cons point others =>
    rw [running] at stepped fewer nested
    cases point with
    | loopTest =>
      dsimp only at stepped
      split at stepped
      · cases stepped
        exact absurd fewer (Nat.lt_irrefl _)
      next none_waiting =>
        cases stepped
        exact ⟨idle, Decidable.of_not_not none_waiting, (accounted_of_guest nested).1⟩
    | mouse | reading | advancing | calling | handler =>
      cases stepped
      exact absurd fewer (Nat.lt_irrefl _)

theorem Drained.kept_by_step (drained : Drained s) (invariant : SystemInvariant s)
    (quiet : a.isKeyEvent = false) (stepped : step s a = some t) : Drained t := by
  obtain ⟨idle, empty, none_taken⟩ := drained
  cases a with
  | keyDown | keyUp => cases quiet
  | keyStep =>
    simp only [step, keyStep, idle] at stepped
    cases stepped
  | interrupt adbBase =>
    simp only [step, interrupt] at stepped
    split at stepped
    · cases stepped
    · split at stepped <;> cases stepped
      · exact ⟨idle, empty, none_taken⟩
      · exact ⟨idle, empty, rfl⟩
  | interruptStep =>
    have nested := invariant.nested
    simp only [step, interruptStep] at stepped
    cases running : s.interrupts with
    | nil =>
      rw [running] at stepped
      cases stepped
    | cons point others =>
      rw [running] at stepped nested
      simp only [System.taken, running] at none_taken
      cases point with
      | mouse | handler =>
        cases stepped
        exact ⟨idle, empty, rfl⟩
      | loopTest =>
        simp only [empty, ne_eq, not_true, if_false] at stepped
        cases stepped
        exact ⟨idle, empty, (accounted_of_guest nested).1⟩
      | reading | advancing | calling => cases none_taken

variable {actions : List Action}

theorem Drained.all_handed_after (drained : Drained s) (invariant : SystemInvariant s)
    (run : Run step HasRoom s actions t) (quiet : ∀ a ∈ actions, a.isKeyEvent = false) :
    t.handedCodes = t.queued := by
  induction run with
  | done => exact drained.all_handed invariant
  | next room stepped _ ih =>
    apply ih
    · exact drained.kept_by_step invariant (quiet _ (List.mem_cons_self ..)) stepped
    · exact step_invariant invariant room stepped
    · exact fun a member => quiet a (List.mem_cons_of_mem _ member)

/-- Fewer key events are accounted for than have been queued. -/
structure Lost (s : System) : Prop where
  idle : s.keyCall = .idle
  fewer : s.accounted.length < s.queued.length
  nested : Nested s.interrupts

theorem Lost.after (lost : Lost s) (quiet : a.isKeyEvent = false) (stepped : step s a = some t) :
    Lost t := by
  have of_kept : Kept s t → Lost t := by
    rintro ⟨queued, accounted, keyCall, _, _, nested⟩
    refine ⟨keyCall.trans lost.idle, ?_, nested⟩
    rw [queued, accounted]
    exact lost.fewer
  cases a with
  | keyDown | keyUp => cases quiet
  | keyStep =>
    simp only [step, keyStep, lost.idle] at stepped
    cases stepped
  | interrupt adbBase => exact of_kept (interrupt_kept lost.nested stepped)
  | interruptStep => exact of_kept (interruptStep_kept lost.nested stepped)

theorem Lost.at_end (lost : Lost s) (run : Run step Free s actions t)
    (quiet : ∀ a ∈ actions, a.isKeyEvent = false) : Lost t := by
  induction run with
  | done => exact lost
  | next _ stepped _ ih =>
    apply ih
    · exact lost.after (quiet _ (List.mem_cons_self ..)) stepped
    · exact fun a member => quiet a (List.mem_cons_of_mem _ member)

/-- A key event that takes the last free slot is lost together with all that wait: no interrupt
after it makes up for them. -/
theorem key_without_room_lost {u : System} (invariant : SystemInvariant s)
    (advancing : s.keyCall = .advancing code) (full : s.rest.Full)
    (stepped : step s .keyStep = some t) (run : Run step Free t actions u)
    (quiet : ∀ a ∈ actions, a.isKeyEvent = false) : u.handedCodes ≠ u.queued := by
  simp only [step, keyStep, advancing] at stepped
  cases stepped
  have emptied := advancing_full_accounted full
  have lost : Lost
      { s with
        buffer := s.buffer.advanceWrite, keyCall := .idle, queued := s.queued ++ [code] } := by
    refine ⟨rfl, ?_, invariant.nested⟩
    show { s with buffer := s.buffer.advanceWrite }.accounted.length < (s.queued ++ [code]).length
    rw [emptied, invariant.kept, System.accounted]
    simp only [List.length_append, List.length_cons, List.length_nil]
    omega
  have at_end : Lost u := lost.at_end run quiet
  intro equal
  have fewer := at_end.fewer
  rw [← equal, System.accounted] at fewer
  simp only [List.length_append] at fewer
  omega

/-- As long as no key event takes the last free slot, the guest gets a prefix of the key events,
and all of them once `ADBInterrupt` has returned and no key event follows. The first one that does
is lost for good. -/
theorem keys_kept_while_room {s : System} (reached : Reachable step HasRoom start s) :
    s.handedCodes <+: s.queued ∧
      (∀ t u actions, Returns s t → t.keyCall = .idle → Run step HasRoom t actions u →
        (∀ a ∈ actions, a.isKeyEvent = false) → u.handedCodes = u.queued) ∧
      ∀ t u code actions, s.keyCall = .advancing code → s.rest.Full → step s .keyStep = some t →
        Run step Free t actions u → (∀ a ∈ actions, a.isKeyEvent = false) →
          u.handedCodes ≠ u.queued := by
  have invariant := reachable_invariant reached
  refine ⟨?_, ?_, ?_⟩
  · refine ⟨s.taken ++ s.rest.contents, ?_⟩
    rw [invariant.kept, System.accounted, List.append_assoc]
  · intro t u actions returned idle run quiet
    have after := (interruptStep_kept invariant.nested returned.1).invariant invariant
    exact (returned.drained invariant idle).all_handed_after after run quiet
  · intro t u code actions advancing full stepped run quiet
    exact key_without_room_lost invariant advancing full stepped run quiet

instance (s : System) (a : Action) : Decidable (HasRoom s a) := by
  unfold HasRoom
  split
  · split
    · infer_instance
    · infer_instance
    · infer_instance
  · infer_instance

/-- Key 0x31 goes down and up; then the interrupt hands both over. -/
def spaceTyped : List Action :=
  [.keyDown 0x31, .keyStep, .keyStep, .keyUp 0x31, .keyStep, .keyStep, .interrupt 0x1000] ++
    List.replicate 11 .interruptStep

theorem space_typed_handed : ∃ s t, Reachable step HasRoom start s ∧ Returns s t ∧
    t.handedCodes = t.queued ∧ t.queued = [0x31, 0xb1] := by
  have run : Run step HasRoom start spaceTyped _ := run_of_guarded_exec rfl
  refine ⟨_, _, ⟨_, run⟩, ⟨rfl, by decide⟩, ?_, by decide⟩
  exact (keys_kept_while_room ⟨_, run⟩).2.1 _ _ [] ⟨rfl, by decide⟩ (by decide) (.done _) (by simp)

/-- The keys 0, 1, … go down one after the other, and only then the interrupt comes. -/
def burst (n : Nat) : List Action :=
  (List.range n).flatMap (fun k => [.keyDown (BitVec.ofNat 32 k), .keyStep, .keyStep]) ++
    [.interrupt 0x1000, .interruptStep]

/-- Sixteen key events make the buffer look empty. -/
theorem burst_lost :
    (∃ s t, Reachable step Free start s ∧ Returns s t ∧ t.keyCall = .idle ∧
      t.queued.length = 16 ∧ t.handedCodes = []) ∧
    ∃ s, Reachable step Free start s ∧ ¬ s.handedCodes <+: s.queued := by
  constructor
  · have run : Run step Free start (burst 16) _ := run_of_exec rfl
    exact ⟨_, _, ⟨_, run⟩, ⟨rfl, by decide⟩, by decide, by decide, by decide⟩
  · have run : Run step Free start (burst 17 ++ List.replicate 5 .interruptStep) _ :=
      run_of_exec rfl
    exact ⟨_, ⟨_, run⟩, by decide⟩

end BasiliskII.ADB
