import BasiliskII.ADB.MouseSystem
import Mathlib.Algebra.Group.Prod
import Mathlib.Data.BitVec

/-!
# Mouse modes

`mouse_x` and `mouse_y` are a position or a motion as `relative_mouse` says. The
guest is given the positions and the motion that were passed in as long as a
mode is changed while nothing is read or written, and no position is read
before one has been passed in.
-/
namespace BasiliskII.ADB

open StepSystem

/-! ### What the guest is promised -/

def total (deltas : List Pair) : Pair := deltas.sum

/-- The motion a packet has to carry: none in absolute mode. -/
def Sent.motion (sent : Sent) : Pair := if sent.relative then total sent.taken.deltas else 0

/-- A position is the last one passed in, and a packet carries the motion passed in. -/
def Sent.Right (sent : Sent) : Prop :=
  match sent.output with
  | .position x y =>
    ∃ supplied, sent.taken.last = some supplied ∧
      x = supplied.1.setWidth 16 ∧ y = supplied.2.setWidth 16
  | .packet packet =>
    ∃ extended, packet.data =
      packetData extended sent.motion.1 sent.motion.2 sent.taken.state.mb

def AllRight (s : MouseSystem) : Prop := ∀ sent ∈ s.sent, sent.Right

/-- No mode is half set. -/
def MouseSystem.settled (s : MouseSystem) : Bool :=
  s.setting ≠ .clearingY && s.setting ≠ .clearingX

/-- The innermost `ADBInterrupt` has taken the lock and not yet tested the mode again. -/
def MouseSystem.readerBusy (s : MouseSystem) : Bool :=
  match s.interrupts with
  | [] | .locking :: _ | .handler _ :: _ => false
  | _ => true

def MouseSystem.awaitsLock (s : MouseSystem) : Bool :=
  match s.interrupts with
  | .locking :: _ => true
  | _ => false

/-- `mouse_x` and `mouse_y` as the mode was set pass for a position that was passed in. -/
def Positioned (s : MouseSystem) : Prop :=
  s.mouse.relativeMouse = false →
    s.supplied = true ∨ (s.mouse.oldMouseX = 0 ∧ s.mouse.oldMouseY = 0) ∨ s.last = some (0, 0)

instance (s : MouseSystem) : Decidable (Positioned s) := inferInstanceAs (Decidable (_ → _))

/-- The mode is changed while nobody is between reading it and using what was read, the lock is
taken while no mode is half set, and a position is read only after one was passed in. -/
def Separate (s : MouseSystem) : MouseAction → Prop
  | .setStep => s.settled = true → s.moving = .idle ∧ s.readerBusy = false
  | .moved _ _ => s.settled = true
  | .interruptStep => s.awaitsLock = true → s.settled = true ∧ Positioned s
  | _ => True

instance : (s : MouseSystem) → (a : MouseAction) → Decidable (Separate s a)
  | _, .setStep => inferInstanceAs (Decidable (_ → _ ∧ _))
  | _, .moved _ _ => inferInstanceAs (Decidable (_ = _))
  | _, .interruptStep => inferInstanceAs (Decidable (_ → _ ∧ _))
  | _, .setMode _ | _, .movedStep | _, .button _ _ | _, .listen _ | _, .interrupt _ =>
    isTrue trivial

/-! ### The invariant -/

/-- The variables, the position the guest has, and what was passed in. -/
structure Values where
  relative : Bool
  x : BitVec 32
  y : BitVec 32
  oldX : BitVec 32
  oldY : BitVec 32
  deltas : List Pair
  last : Option Pair
  supplied : Bool

def MouseSystem.values (s : MouseSystem) : Values :=
  ⟨s.mouse.relativeMouse, s.mouse.mouseX, s.mouse.mouseY, s.mouse.oldMouseX, s.mouse.oldMouseY,
    s.deltas, s.last, s.supplied⟩

/-- A position that is read now was passed in, or is the one the guest has. -/
def Passed (v : Values) (x y : BitVec 32) : Prop :=
  v.relative = false → v.last = some (x, y) ∨ (x = v.oldX ∧ y = v.oldY)

/-- What the variables hold while nobody has the lock. -/
structure Coherent (v : Values) : Prop where
  motion : v.relative = true → (v.x, v.y) = total v.deltas
  position : v.relative = false → v.supplied = true → v.last = some (v.x, v.y)
  cleared : v.relative = false → v.supplied = false → v.x = 0 ∧ v.y = 0

/-- What they hold at each point of `ADBMouseMoved`. -/
def Moves (v : Values) : Moving → Prop
  | .idle | .testing _ _ => Coherent v
  | .movingX relative _ _ => relative = v.relative ∧ Coherent v
  | .movingY true x _ => v.relative = true ∧ (v.x, v.y) = total v.deltas + (x, 0)
  | .movingY false x _ => v.relative = false ∧ v.x = x

/-- What they hold at each point of the locked section of `ADBInterrupt`. -/
def Reads (v : Values) : MousePoint → Prop
  | .readingX => Coherent v ∧ Passed v v.x v.y
  | .readingY mx => Coherent v ∧ Passed v mx v.y ∧ mx = v.x
  | .testing mx my => Coherent v ∧ Passed v mx my ∧ mx = v.x ∧ my = v.y
  | .takingY mx my => v.relative = true ∧ (mx, my) = total v.deltas
  | .takingX mx my => v.relative = true ∧ (mx, my) = total v.deltas ∧ v.y = 0
  | .readingButtons mx my =>
    (v.relative = true → (mx, my) = total v.deltas ∧ v.x = 0 ∧ v.y = 0) ∧
      (v.relative = false → Coherent v ∧ Passed v mx my)
  | .locking | .unlocked _ | .handler _ => True

/-- What was read is right for the mode that is tested after the lock is released. -/
def Usable (v : Values) : MousePoint → Prop
  | .unlocked taken =>
    (v.relative = true → (taken.state.mx, taken.state.my) = total taken.deltas) ∧
      (v.relative = false →
        taken.last = some (taken.state.mx, taken.state.my) ∨
          (taken.state.mx = v.oldX ∧ taken.state.my = v.oldY))
  | _ => True

/-- Who has the variables, and what they hold. -/
inductive Held (s : MouseSystem) : Prop
  | clearingY : s.setting = .clearingY → s.moving = .idle → s.readerBusy = false →
      s.deltas = [] → s.supplied = false → Held s
  | clearingX : s.setting = .clearingX → s.moving = .idle → s.readerBusy = false →
      s.deltas = [] → s.supplied = false → s.mouse.mouseY = 0 → Held s
  | mover : s.settled = true → s.readerHolds = false → Moves s.values s.moving → Held s
  | reader : s.settled = true → s.moving = .idle → s.readerHolds = true →
      (∀ point ∈ s.interrupts.head?, Reads s.values point) → Held s

/-- A running `ADBInterrupt` with others inside it is in its call of guest code. -/
def OutersCall (s : MouseSystem) : Prop := ∀ point ∈ s.interrupts.tail, ∃ mb, point = .handler mb

structure ModesInv (s : MouseSystem) : Prop where
  right : AllRight s
  nested : OutersCall s
  held : Held s
  usable : ∀ point ∈ s.interrupts.head?, Usable s.values point

theorem start_inv : ModesInv .start where
  right := by simp [AllRight, MouseSystem.start]
  nested := by simp [OutersCall, MouseSystem.start]
  held :=
    .mover rfl rfl
      { motion := fun relative => Bool.noConfusion relative
        position := fun _ supplied => Bool.noConfusion supplied
        cleared := fun _ _ => ⟨rfl, rfl⟩ }
  usable := by simp [MouseSystem.start]

variable {s : MouseSystem}

theorem ModesInv.frame (inv : ModesInv s) (buttons old : Button → Bool) (reg3 : BitVec 8 × BitVec 8) :
    ModesInv
      { s with
        mouse :=
          { s.mouse with mouseButton := buttons, oldMouseButton := old, mouseReg3 := reg3 } } where
  right := inv.right
  nested := inv.nested
  held := by
    cases inv.held with
    | clearingY a b c d e => exact .clearingY a b c d e
    | clearingX a b c d e f => exact .clearingX a b c d e f
    | mover a b c => exact .mover a b c
    | reader a b c d => exact .reader a b c d
  usable := inv.usable

/-- With the lock free and no mode half set, the variables are coherent. -/
theorem Held.coherent (held : Held s) (settled : s.settled = true) (free : s.lockFree = true) :
    Coherent s.values := by
  simp only [MouseSystem.lockFree, Bool.and_eq_true, decide_eq_true_eq, Bool.not_eq_true'] at free
  cases held with
  | clearingY clearing | clearingX clearing => simp [MouseSystem.settled, clearing] at settled
  | mover _ _ moves =>
    -- Nobody moves the mouse, so the mover's view is the free one.
    rw [free.1] at moves
    exact moves
  | reader _ _ holds => exact absurd holds (by simp [free.2])

/-- The lock is not held before it is taken or after the mode has been tested again. -/
theorem holds_of_quiet (quiet : s.readerBusy = false) : s.readerHolds = false := by
  cases points : s.interrupts with
  | nil => simp [MouseSystem.readerHolds, points]
  | cons point outer =>
    cases point <;> simp_all [MouseSystem.readerHolds, MouseSystem.readerBusy, MousePoint.holdsLock]

theorem usable_of_quiet (quiet : s.readerBusy = false) (v : Values) :
    ∀ point ∈ s.interrupts.head?, Usable v point := by
  intro point head
  cases points : s.interrupts with
  | nil => simp [points] at head
  | cons first outer =>
    rw [points, List.head?_cons, Option.mem_some_iff] at head
    subst head
    cases first <;> first | trivial | simp [MouseSystem.readerBusy, points] at quiet

theorem quiet_of_guest (guest : s.guestRuns = true) : s.readerBusy = false := by
  cases points : s.interrupts with
  | nil => simp [MouseSystem.readerBusy, points]
  | cons point outer =>
    cases point <;> simp_all [MouseSystem.guestRuns, MouseSystem.readerBusy]

theorem quiet_of_handlers (handlers : ∀ point ∈ s.interrupts, ∃ mb, point = .handler mb) :
    s.readerBusy = false := by
  cases points : s.interrupts with
  | nil => simp [MouseSystem.readerBusy, points]
  | cons point outer =>
    obtain ⟨mb, rfl⟩ := handlers point (by simp [points])
    simp [MouseSystem.readerBusy, points]

/-! ### One step -/

variable {t : MouseSystem}

theorem setMode_inv {relative : Bool} (inv : ModesInv s) (taken : setMode s relative = some t) :
    ModesInv t := by
  rw [setMode] at taken
  split at taken
  · cases taken
  next idle =>
    rw [not_not] at idle
    split at taken
    · cases taken
      refine ⟨inv.right, inv.nested, ?_, inv.usable⟩
      cases inv.held with
      | clearingY clearing | clearingX clearing => simp [idle] at clearing
      | mover _ free moves => exact .mover rfl free moves
      | reader _ still holds reads => exact .reader rfl still holds reads
    · cases taken
      exact inv

/-- While `ADBSetRelMouseMode` clears the variables nobody else has them. -/
theorem Held.clearsY (held : Held s) (clearing : s.setting = .clearingY) :
    s.moving = .idle ∧ s.readerBusy = false ∧ s.deltas = [] ∧ s.supplied = false := by
  cases held with
  | clearingY _ still quiet deltas supplied => exact ⟨still, quiet, deltas, supplied⟩
  | clearingX other => simp [clearing] at other
  | mover settled | reader settled => simp [MouseSystem.settled, clearing] at settled

theorem Held.clearsX (held : Held s) (clearing : s.setting = .clearingX) :
    s.moving = .idle ∧ s.readerBusy = false ∧ s.deltas = [] ∧ s.supplied = false ∧
      s.mouse.mouseY = 0 := by
  cases held with
  | clearingY other => simp [clearing] at other
  | clearingX _ still quiet deltas supplied zero => exact ⟨still, quiet, deltas, supplied, zero⟩
  | mover settled | reader settled => simp [MouseSystem.settled, clearing] at settled

theorem setStep_inv (inv : ModesInv s) (separate : Separate s .setStep) (taken : setStep s = some t) :
    ModesInv t := by
  rw [setStep] at taken
  split at taken
  · cases taken
  next relative storing =>
    cases taken
    obtain ⟨still, quiet⟩ := separate (by simp [MouseSystem.settled, storing])
    exact ⟨inv.right, inv.nested, .clearingY rfl still quiet rfl rfl, usable_of_quiet quiet _⟩
  next clearing =>
    cases taken
    obtain ⟨still, quiet, deltas, supplied⟩ := inv.held.clearsY clearing
    exact ⟨inv.right, inv.nested, .clearingX rfl still quiet deltas supplied rfl,
      usable_of_quiet quiet _⟩
  next clearing =>
    cases taken
    obtain ⟨still, quiet, deltas, supplied, zero⟩ := inv.held.clearsX clearing
    refine ⟨inv.right, inv.nested, .mover rfl (holds_of_quiet quiet) ?_, usable_of_quiet quiet _⟩
    -- The new mode starts from (0,0) with nothing passed in.
    have coherent : Coherent (MouseSystem.values
        { s with mouse := { s.mouse with mouseX := 0 }, setting := .idle }) :=
      { motion := fun _ => by simp [MouseSystem.values, zero, deltas, total, Prod.zero_eq_mk]
        position := fun _ given => by simp [MouseSystem.values, supplied] at given
        cleared := fun _ _ => ⟨rfl, zero⟩ }
    rw [show MouseSystem.moving _ = .idle from still]
    exact coherent

theorem moved_inv {x y : BitVec 32} (inv : ModesInv s) (separate : Separate s (.moved x y))
    (taken : moved s x y = some t) : ModesInv t := by
  rw [moved] at taken
  split at taken
  next free =>
    cases taken
    have coherent := inv.held.coherent separate free
    simp only [MouseSystem.lockFree, Bool.and_eq_true, Bool.not_eq_true'] at free
    exact ⟨inv.right, inv.nested, .mover separate free.2 coherent, inv.usable⟩
  · cases taken

/-- While `ADBMouseMoved` runs it has the variables. -/
theorem Held.moves (held : Held s) (moving : s.moving ≠ .idle) :
    s.settled = true ∧ s.readerHolds = false ∧ Moves s.values s.moving := by
  cases held with
  | clearingY _ still | clearingX _ still => exact absurd still moving
  | mover settled free moves => exact ⟨settled, free, moves⟩
  | reader _ still => exact absurd still moving

theorem movedStep_inv (inv : ModesInv s) (taken : movedStep s = some t) : ModesInv t := by
  rw [movedStep] at taken
  split at taken
  · cases taken
  next x y testing =>
    cases taken
    obtain ⟨settled, free, moves⟩ := inv.held.moves (by simp [testing])
    rw [testing] at moves
    exact ⟨inv.right, inv.nested, .mover settled free ⟨rfl, moves⟩, inv.usable⟩
  next relative x y movingX =>
    cases taken
    obtain ⟨settled, free, moves⟩ := inv.held.moves (by simp [movingX])
    rw [movingX] at moves
    obtain ⟨same, coherent⟩ := moves
    refine ⟨inv.right, inv.nested, .mover settled free ?_, inv.usable⟩
    -- The mode found under the lock is still the mode: it is set while nobody has the lock.
    cases relative with
    | true =>
      have motion : (s.mouse.mouseX, s.mouse.mouseY) = total s.deltas := coherent.motion same.symm
      have after : (s.mouse.mouseX + x, s.mouse.mouseY) = total s.deltas + (x, 0) := by
        rw [← motion, Prod.mk_add_mk, add_zero]
      exact ⟨same.symm, after⟩
    | false => exact ⟨same.symm, rfl⟩
  next x y movingY =>
    cases taken
    obtain ⟨settled, free, moves⟩ := inv.held.moves (by simp [movingY])
    rw [movingY] at moves
    obtain ⟨relative, motion⟩ := moves
    refine ⟨inv.right, inv.nested, .mover settled free ?_, inv.usable⟩
    -- With both coordinates moved the pair is the sum with the new motion.
    refine { motion := fun _ => ?_, position := fun absolute => ?_, cleared := fun absolute => ?_ }
    · simp only [MouseSystem.values, total, List.sum_append, List.sum_singleton, Prod.ext_iff,
        Prod.fst_add, Prod.snd_add] at motion ⊢
      exact ⟨motion.1, by rw [motion.2, add_zero]⟩
    · exact absurd (relative.symm.trans absolute) (by simp)
    · exact absurd (relative.symm.trans absolute) (by simp)
  next x y movingY =>
    cases taken
    obtain ⟨settled, free, moves⟩ := inv.held.moves (by simp [movingY])
    rw [movingY] at moves
    obtain ⟨absolute, across⟩ := moves
    refine ⟨inv.right, inv.nested, .mover settled free ?_, inv.usable⟩
    refine { motion := fun relative => ?_, position := fun _ _ => ?_, cleared := fun _ given => ?_ }
    · exact absurd (absolute.symm.trans relative) (by simp)
    · exact congrArg (fun x => some (x, y)) across.symm
    · exact Bool.noConfusion given

theorem interruptCall_inv {adbBase : BitVec 32} (inv : ModesInv s)
    (taken : interruptCall s adbBase = some t) : ModesInv t := by
  rw [interruptCall] at taken
  split at taken
  · cases taken
  next guest =>
    rw [Bool.not_eq_true', Bool.not_eq_false] at guest
    split at taken
    · cases taken
      exact inv
    · cases taken
      -- Guest code runs, so the interrupts under way are all in their handlers.
      have handlers : ∀ point ∈ s.interrupts, ∃ mb, point = .handler mb := by
        intro point member
        cases points : s.interrupts with
        | nil => simp [points] at member
        | cons first outer =>
          rw [points] at member
          rcases List.mem_cons.mp member with rfl | outside
          · cases point <;> simp [MouseSystem.guestRuns, points] at guest ⊢
          · exact inv.nested point (by simpa [points] using outside)
      refine ⟨inv.right, handlers, ?_, fun point head => ?_⟩
      · cases inv.held with
        | clearingY clearing still _ deltas supplied =>
          exact .clearingY clearing still rfl deltas supplied
        | clearingX clearing still _ deltas supplied zero =>
          exact .clearingX clearing still rfl deltas supplied zero
        | mover settled _ moves => exact .mover settled rfl moves
        | reader _ _ holds => exact absurd holds (by simp [holds_of_quiet (quiet_of_guest guest)])
      · rw [List.head?_cons, Option.mem_some_iff] at head
        subst head
        trivial

variable {outer : List MousePoint}

/-- While `ADBInterrupt` is in its locked section it has the variables. -/
theorem Held.reads (held : Held s) {point : MousePoint} (points : s.interrupts = point :: outer)
    (holds : point.holdsLock = true) :
    s.settled = true ∧ s.moving = .idle ∧ Reads s.values point := by
  have reading : s.readerHolds = true := by simp [MouseSystem.readerHolds, points, holds]
  cases held with
  | clearingY _ _ quiet | clearingX _ _ quiet =>
    exact absurd reading (by simp [holds_of_quiet quiet])
  | mover _ free => exact absurd reading (by simp [free])
  | reader settled still _ reads => exact ⟨settled, still, reads point (by simp [points])⟩

theorem ModesInv.advance {point next : MousePoint} (inv : ModesInv s)
    (points : s.interrupts = point :: outer) (mouse : Mouse) (settled : s.settled = true)
    (still : s.moving = .idle) (holds : next.holdsLock = true)
    (reads : Reads (MouseSystem.values { s with mouse, interrupts := next :: outer }) next) :
    ModesInv { s with mouse, interrupts := next :: outer } where
  right := inv.right
  nested := fun p member => inv.nested p (by simpa [points] using member)
  held := .reader settled still holds fun p head => by
    rw [List.head?_cons, Option.mem_some_iff] at head
    exact head ▸ reads
  usable := fun p head => by
    rw [List.head?_cons, Option.mem_some_iff] at head
    subst head
    cases next <;> trivial

/-- A point of `ADBInterrupt` where the lock is not held. -/
theorem ModesInv.release {point next : MousePoint} {deltas : List Pair} (inv : ModesInv s)
    (points : s.interrupts = point :: outer) (settled : s.settled = true) (still : s.moving = .idle)
    (free : next.holdsLock = false) (coherent : Coherent { s.values with deltas })
    (usable : Usable s.values next) : ModesInv { s with interrupts := next :: outer, deltas } where
  right := inv.right
  nested := fun p member => inv.nested p (by simpa [points] using member)
  held := .mover settled free <| by
    rw [show MouseSystem.moving _ = .idle from still]
    exact coherent
  usable := fun p head => by
    rw [List.head?_cons, Option.mem_some_iff] at head
    subst head
    exact usable

/-- What `sendRelative` sends is the motion that was taken. -/
theorem relative_right (m : Mouse) (taken : Taken)
    (motion : (taken.state.mx, taken.state.my) = total taken.deltas) :
    ∀ output ∈ (sendRelative m taken.state).2, Sent.Right ⟨output, true, taken⟩ := by
  intro output member
  rw [sendRelative] at member
  split at member
  · rw [List.mem_singleton] at member
    subst member
    refine ⟨m.extended, ?_⟩
    simp [Sent.motion, ← motion, relativePacket]
  · simp at member

theorem position_right (m : Mouse) (taken : Taken)
    (passed : taken.last = some (taken.state.mx, taken.state.my) ∨
      (taken.state.mx = m.oldMouseX ∧ taken.state.my = m.oldMouseY)) :
    ∀ output ∈ (updatePosition m taken.state).2, Sent.Right ⟨output, false, taken⟩ := by
  intro output member
  rw [updatePosition] at member
  split at member
  next other =>
    rw [List.mem_singleton] at member
    subst member
    rcases passed with last | same
    · exact ⟨_, last, rfl, rfl⟩
    · -- The guest has it already, so nothing is written.
      simp [same] at other
  · simp at member

theorem buttons_right (m : Mouse) (taken : Taken) :
    ∀ output ∈ (sendButtons m taken.state).2, Sent.Right ⟨output, false, taken⟩ := by
  intro output member
  rw [sendButtons] at member
  split at member
  · rw [List.mem_singleton] at member
    subst member
    exact ⟨m.extended, rfl⟩
  · simp at member

/-- Nothing but the position the guest has and the buttons noted changes in the mouse. -/
theorem updatePosition_mouse (m : Mouse) (st : MouseState) :
    ∃ x y, (updatePosition m st).1 = { m with oldMouseX := x, oldMouseY := y } := by
  rw [updatePosition]
  split
  · exact ⟨st.mx, st.my, rfl⟩
  · exact ⟨m.oldMouseX, m.oldMouseY, rfl⟩

/-- The variables do not depend on the position the guest has. -/
theorem Moves.given {v : Values} {moving : Moving} (moves : Moves v moving) (x y : BitVec 32) :
    Moves { v with oldX := x, oldY := y } moving := by
  cases moving with
  | idle | testing => exact ⟨moves.motion, moves.position, moves.cleared⟩
  | movingX => exact ⟨moves.1, moves.2.motion, moves.2.position, moves.2.cleared⟩
  | movingY relative => cases relative <;> exact moves

/-- An `ADBInterrupt` that has used what it has read is in its call of guest code or done. -/
theorem ModesInv.given {taken : Taken} (inv : ModesInv s)
    (points : s.interrupts = .unlocked taken :: outer) (x y : BitVec 32) {rest : List MousePoint}
    (handlers : ∀ point ∈ rest, ∃ mb, point = .handler mb) {sent : List Sent}
    (right : ∀ new ∈ sent, new.Right) :
    ModesInv
      { s with
        mouse := { s.mouse with oldMouseX := x, oldMouseY := y }
        interrupts := rest
        sent := s.sent ++ sent } where
  right := fun each member => by
    rcases List.mem_append.mp member with old | new
    · exact inv.right each old
    · exact right each new
  nested := fun point member => handlers point (List.mem_of_mem_tail member)
  held := by
    have busy : s.readerBusy = true := by simp [MouseSystem.readerBusy, points]
    have free : s.readerHolds = false := by
      simp [MouseSystem.readerHolds, points, MousePoint.holdsLock]
    cases inv.held with
    | clearingY _ _ quiet | clearingX _ _ quiet => exact absurd busy (by simp [quiet])
    | mover settled _ moves =>
      exact .mover settled (holds_of_quiet (quiet_of_handlers handlers)) (moves.given x y)
    | reader _ _ holds => exact absurd holds (by simp [free])
  usable := usable_of_quiet (quiet_of_handlers handlers) _

theorem give_inv {taken : Taken} (inv : ModesInv s)
    (points : s.interrupts = .unlocked taken :: outer) : ModesInv (give s taken outer) := by
  obtain ⟨motion, passed⟩ := inv.usable (.unlocked taken) (by simp [points])
  have handlers : ∀ point ∈ outer, ∃ mb, point = .handler mb := fun point member =>
    inv.nested point (by simpa [points] using member)
  have called : ∀ point ∈ .handler taken.state.mb :: outer, ∃ mb, point = .handler mb := by
    intro point member
    rcases List.mem_cons.mp member with rfl | outside
    · exact ⟨_, rfl⟩
    · exact handlers point outside
  rw [give]
  split
  next relative =>
    refine inv.given points s.mouse.oldMouseX s.mouse.oldMouseY ?_ ?_
    · split
      · exact handlers
      · exact called
    · intro new member
      obtain ⟨output, sent, rfl⟩ := List.mem_map.mp member
      exact relative_right s.mouse taken (motion relative) output sent
  next absolute =>
    obtain ⟨x, y, mouse⟩ := updatePosition_mouse s.mouse taken.state
    simp only [mouse]
    refine inv.given points x y ?_ ?_
    · split
      · exact handlers
      · exact called
    · intro new member
      obtain ⟨output, sent, rfl⟩ := List.mem_map.mp member
      rcases List.mem_append.mp sent with position | buttons
      · exact position_right s.mouse taken (passed (Bool.eq_false_of_not_eq_true absolute)) output
          position
      · exact buttons_right _ taken output buttons

theorem handler_inv {mb : Button → Bool} (inv : ModesInv s)
    (points : s.interrupts = .handler mb :: outer) : ModesInv { s with interrupts := outer } := by
  have handlers : ∀ point ∈ outer, ∃ mb, point = .handler mb := fun point member =>
    inv.nested point (by simpa [points] using member)
  have free : s.readerHolds = false := by
    simp [MouseSystem.readerHolds, points, MousePoint.holdsLock]
  have quiet : MouseSystem.readerBusy { s with interrupts := outer } = false :=
    quiet_of_handlers handlers
  refine ⟨inv.right, fun point member => handlers point (List.mem_of_mem_tail member), ?_,
    usable_of_quiet quiet _⟩
  cases inv.held with
  | clearingY clearing still _ deltas supplied =>
    exact .clearingY clearing still quiet deltas supplied
  | clearingX clearing still _ deltas supplied zero =>
    exact .clearingX clearing still quiet deltas supplied zero
  | mover settled _ moves => exact .mover settled (holds_of_quiet quiet) moves
  | reader _ _ holds => exact absurd holds (by simp [free])

/-- A position that is read with the lock just taken was passed in, or the guest has it. -/
theorem Coherent.passed (coherent : Coherent s.values) (positioned : Positioned s) :
    Passed s.values s.mouse.mouseX s.mouse.mouseY := by
  intro absolute
  cases supplied : s.supplied with
  | true => exact .inl (coherent.position absolute supplied)
  | false =>
    -- The variables are as the mode was set, which has to pass for a position.
    obtain ⟨x, y⟩ := coherent.cleared absolute supplied
    simp only [MouseSystem.values] at x y ⊢
    rcases positioned absolute with given | ⟨oldX, oldY⟩ | origin
    · exact Bool.noConfusion (supplied.symm.trans given)
    · exact .inr ⟨x.trans oldX.symm, y.trans oldY.symm⟩
    · exact .inl (by rw [origin, x, y])

theorem readStep_inv (inv : ModesInv s) (separate : Separate s .interruptStep)
    (taken : readStep s = some t) : ModesInv t := by
  rw [readStep] at taken
  split at taken
  · cases taken
  next outer points =>
    -- Only taking the lock needs the guard; up to its release the variables are the interrupt's.
    split at taken
    next free =>
      cases taken
      obtain ⟨settled, positioned⟩ := separate (by simp [MouseSystem.awaitsLock, points])
      have coherent := inv.held.coherent settled free
      simp only [MouseSystem.lockFree, Bool.and_eq_true, decide_eq_true_eq] at free
      exact inv.advance points s.mouse settled free.1 rfl ⟨coherent, coherent.passed positioned⟩
    · cases taken
  next outer points =>
    cases taken
    obtain ⟨settled, still, coherent, passed⟩ := inv.held.reads points rfl
    exact inv.advance points s.mouse settled still rfl ⟨coherent, passed, rfl⟩
  next mx outer points =>
    cases taken
    obtain ⟨settled, still, coherent, passed, x⟩ := inv.held.reads points rfl
    exact inv.advance points s.mouse settled still rfl ⟨coherent, passed, x, rfl⟩
  next mx my outer points =>
    obtain ⟨settled, still, coherent, passed, x, y⟩ := inv.held.reads points rfl
    split at taken
    next relative =>
      cases taken
      refine inv.advance points s.mouse settled still rfl ⟨relative, ?_⟩
      rw [x, y]
      exact coherent.motion relative
    next absolute =>
      cases taken
      exact inv.advance points s.mouse settled still rfl
        ⟨fun relative => absurd relative absolute, fun _ => ⟨coherent, passed⟩⟩
  next mx my outer points =>
    cases taken
    obtain ⟨settled, still, relative, motion⟩ := inv.held.reads points rfl
    exact inv.advance points _ settled still rfl ⟨relative, motion, rfl⟩
  next mx my outer points =>
    cases taken
    obtain ⟨settled, still, relative, motion, y⟩ := inv.held.reads points rfl
    exact inv.advance points _ settled still rfl
      ⟨fun _ => ⟨motion, rfl, y⟩, fun absolute => absurd (relative.symm.trans absolute) (by simp)⟩
  next mx my outer points =>
    cases taken
    obtain ⟨settled, still, motion, position⟩ := inv.held.reads points rfl
    refine inv.release points settled still rfl ?_ ?_
    · cases mode : s.mouse.relativeMouse with
      | true =>
        -- The motion has been taken, and nothing of it is left to take.
        obtain ⟨-, x, y⟩ := motion mode
        exact
          { motion := fun _ => Prod.ext x y
            position := fun absolute => absurd (mode.symm.trans absolute) (by simp)
            cleared := fun absolute => absurd (mode.symm.trans absolute) (by simp) }
      | false => exact (position mode).1
    · exact ⟨fun relative => (motion relative).1, fun absolute => (position absolute).2 absolute⟩
  next taken' outer points =>
    cases taken
    exact give_inv inv points
  next mb outer points =>
    cases taken
    exact (handler_inv inv points).frame s.mouse.mouseButton mb s.mouse.mouseReg3

theorem mouseStep_inv {a : MouseAction} (inv : ModesInv s) (separate : Separate s a)
    (taken : mouseStep s a = some t) : ModesInv t := by
  cases a with
  | setMode relative => exact setMode_inv inv taken
  | setStep => exact setStep_inv inv separate taken
  | moved x y => exact moved_inv inv separate taken
  | movedStep => exact movedStep_inv inv taken
  | button button down =>
    cases taken
    exact inv.frame (s.mouse.setButton button down).mouseButton s.mouse.oldMouseButton
      s.mouse.mouseReg3
  | listen reg3 =>
    cases taken
    exact inv.frame s.mouse.mouseButton s.mouse.oldMouseButton reg3
  | interrupt adbBase => exact interruptCall_inv inv taken
  | interruptStep => exact readStep_inv inv separate taken

/-! ### Runs -/

/-- `n` steps of the interrupt, then some others. -/
def interrupted (n : Nat) (later : List MouseAction) : List MouseAction :=
  List.replicate n .interruptStep ++ later

def movedCall (x y : BitVec 32) : List MouseAction :=
  [.moved x y, .movedStep, .movedStep, .movedStep]

/-- A position, a change of the mode while the interrupt's handler runs, and a motion. -/
def positionThenMotion : List MouseAction :=
  movedCall 100 50 ++ .button 0 true :: .interrupt 0x1000 ::
    interrupted 6
      (.setMode true :: .setStep :: .setStep :: .setStep :: .interruptStep ::
        (movedCall 3 (-4) ++ .interrupt 0x1000 :: interrupted 8 []))

/-- A position read before the mode is changed, and used after. -/
def modeChangedMidway : List MouseAction :=
  movedCall 100 50 ++ .interrupt 0x1000 ::
    interrupted 5 [.setMode true, .setStep, .setStep, .setStep, .interruptStep]

end BasiliskII.ADB
