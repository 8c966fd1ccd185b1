import BasiliskII.Interrupts.CpuLoop

/-!
# No waiting interrupt is stranded

What the CPU thread has still to do shows that a latch it takes down is put up
again, or `intlev` looked at, before the next test. Two predicates on the list
of operations say so, and one invariant ties them to the flag word.
-/
namespace BasiliskII.Interrupts

open StepSystem

variable {Thread : Type}

/-- No test: the CPU thread goes on to the next operation in any case. -/
def Op.straight : Op → Bool
  | .set _ | .storeSet _ _ | .clear _ | .storeClear _ _ | .loadSR _ | .setIntmask _
  | .clearTraceBits | .clearStopped | .setStopped | .quit | .returned | .clearFlag _
  | .storeFlag _ _ => true
  | _ => false

/-- The next test and the operations before it. -/
def Reaches (goal : Op → Bool) : List Op → Bool
  | [] => false
  | op :: rest => goal op || op.straight && Reaches goal rest

def nextTest (todo : List Op) : Option Op := todo.find? fun op => !op.straight

def Op.sets (flags : BitVec 32) : Op → Bool
  | .set mask | .storeSet mask _ => spcflagsTest mask flags
  | _ => false

def Op.clears (flags : BitVec 32) : Op → Bool
  | .clear mask | .storeClear mask _ => spcflagsTest mask flags
  | _ => false

/-- `intlev` is compared with the mask, or the mask is raised since it was. -/
def Op.looks : Op → Bool
  | .checkStopInt | .checkDoint => true
  | .setIntmask nr => nr ≠ 0
  | _ => false

def Op.resolves (op : Op) : Bool := op.sets (spcflagInt ||| spcflagDoint) || op.looks

/-- The operation may lower the mask. -/
def Op.unmasks : Op → Bool
  | .loadSR _ => true
  | .setIntmask nr => nr = 0
  | _ => false

/-- What may stand behind an operation: no latch goes down and no mask is lowered for good,
and the last two tests of a pass come after the test of `SPCFLAG_DOINT`. -/
structure Op.Followed (op : Op) (rest : List Op) : Prop where
  latch : op.clears (spcflagInt ||| spcflagDoint) ∨ op.unmasks → Reaches Op.resolves rest
  doint : op.clears spcflagDoint → Reaches Op.looks rest ∧ nextTest rest ≠ some .testBrk
  int : op.straight ∨ op ∈ [.testDoint, .checkDoint, .testInt] ∨ nextTest rest ≠ some .testInt
  brk : op.straight ∨ op = .testInt ∨ nextTest rest ≠ some .testBrk

def Disciplined : List Op → Prop
  | [] => True
  | op :: rest => op.Followed rest ∧ Disciplined rest

def Doint (spcflags : BitVec 32) : Prop := spcflagsTest spcflags spcflagDoint

/-- The waiting interrupt is latched or about to be looked at. -/
structure Served (spcflags : BitVec 32) (todo : List Op) (passBegan : Bool)
    (passesWaited : Nat) : Prop where
  latched : Latched spcflags ∨ Reaches Op.resolves todo
  ripe : 0 < passesWaited → Doint spcflags ∨ Reaches Op.looks todo
  past : 0 < passesWaited → nextTest todo = some .testInt ∨ nextTest todo = some .testBrk →
    Reaches Op.looks todo
  converted : passBegan → nextTest todo = some .testBrk →
    Doint spcflags ∨ Reaches (Op.sets spcflagDoint) todo
  bound : passesWaited ≤ 1

section Bits

variable {word : BitVec 32}

theorem test_twoPow {mask : BitVec 32} {i : Nat} (inside : i < 32)
    (same : mask = BitVec.twoPow 32 i) : spcflagsTest word mask = word.getLsbD i := by
  have meets : FlagWord.Meets word (BitVec.twoPow 32 i) ↔ word.getLsbD i = true :=
    FlagWord.meets_twoPow inside
  rw [← same] at meets
  exact Bool.eq_iff_iff.mpr (decide_eq_true_iff.trans meets)

@[simp] theorem test_doint : spcflagsTest word spcflagDoint = word[5] :=
  test_twoPow (by decide) rfl

@[simp] theorem test_int : spcflagsTest word spcflagInt = word[1] :=
  test_twoPow (by decide) rfl

@[simp] theorem test_latch :
    spcflagsTest word (spcflagInt ||| spcflagDoint) = (word[1] || word[5]) := by
  rw [← test_int, ← test_doint, Bool.eq_iff_iff, Bool.or_eq_true]
  simp only [spcflagsTest, decide_eq_true_iff]
  exact FlagWord.meets_or

theorem latchKept_iff {loaded current mask : BitVec 32} :
    LatchKept loaded current mask ↔
      (current[1] → ¬ mask[1] → loaded[1]) ∧ (current[5] → ¬ mask[5] → loaded[5]) := by
  have test : LatchKept loaded current mask ↔
      ¬ spcflagsTest (current &&& ~~~loaded &&& ~~~mask) (spcflagInt ||| spcflagDoint) := by
    simp only [LatchKept, spcflagsTest, decide_eq_true_iff, ne_eq, not_not]
  rw [test, test_latch]
  simp only [BitVec.getElem_and, BitVec.getElem_not]
  generalize current[1] = i, current[5] = d, loaded[1] = i', loaded[5] = d', mask[1] = i'',
    mask[5] = d''
  revert i d i' d' i'' d''
  decide

theorem latched_iff : Latched word ↔ word[1] ∨ word[5] := by
  unfold Latched
  rw [test_latch, Bool.or_eq_true]

theorem doint_iff : Doint word ↔ word[5] := by
  unfold Doint
  rw [test_doint]

end Bits

section Lists

theorem nextTest_straight {op : Op} (straight : op.straight) (rest : List Op) :
    nextTest (op :: rest) = nextTest rest := by
  simp [nextTest, straight]

/-- An operation that takes down no latch and lowers no mask may stand before anything. -/
theorem Op.Followed.free {op : Op} {rest : List Op} (straight : op.straight)
    (clears : op.clears (spcflagInt ||| spcflagDoint) = false) (unmasks : op.unmasks = false) :
    op.Followed rest where
  latch := by simp [clears, unmasks]
  doint cleared := by
    cases op <;> simp_all [Op.clears]
  int := .inl straight
  brk := .inl straight

theorem clears_test {op : Op} (test : ¬ op.straight) (flags : BitVec 32) :
    op.clears flags = false := by
  cases op <;> first | rfl | exact absurd rfl test

theorem unmasks_test {op : Op} (test : ¬ op.straight) : op.unmasks = false := by
  cases op <;> first | rfl | exact absurd rfl test

/-- A test of a pass up to the one of `SPCFLAG_DOINT`, or the head of a loop. -/
theorem Op.Followed.early {op : Op} {rest : List Op} (test : ¬ op.straight)
    (int : nextTest rest ≠ some .testInt) (brk : nextTest rest ≠ some .testBrk) :
    op.Followed rest where
  latch := by simp [clears_test test, unmasks_test test]
  doint := by simp only [clears_test test, Bool.false_eq_true, false_implies]
  int := .inr (.inr int)
  brk := .inr (.inr brk)

theorem Op.Followed.notBrk {op : Op} {rest : List Op} (followed : op.Followed rest)
    (test : ¬ op.straight) (other : op ≠ .testInt) : nextTest rest ≠ some .testBrk :=
  (followed.brk.resolve_left test).resolve_left other

theorem Op.Followed.notInt {op : Op} {rest : List Op} (followed : op.Followed rest)
    (test : ¬ op.straight) (other : op ∉ [.testDoint, .checkDoint, .testInt]) :
    nextTest rest ≠ some .testInt :=
  (followed.int.resolve_left test).resolve_left other

theorem exception_disciplined {rest : List Op} (disciplined : Disciplined rest) :
    Disciplined (exception ++ rest) := by
  simp only [exception, List.cons_append, List.nil_append, Disciplined]
  exact ⟨.free rfl rfl rfl, .free rfl rfl rfl, .free rfl rfl rfl, disciplined⟩

theorem interrupt_disciplined {rest : List Op} (disciplined : Disciplined rest) :
    Disciplined (interrupt 1 ++ rest) := by
  rw [interrupt, List.append_assoc]
  apply exception_disciplined
  simp only [List.cons_append, List.nil_append, Disciplined]
  exact ⟨.free rfl rfl rfl, .free rfl rfl rfl, disciplined⟩

theorem makeFromSR_disciplined {rest : List Op} (sr : BitVec 16)
    (disciplined : Disciplined rest) : Disciplined (makeFromSR sr ++ rest) := by
  simp only [makeFromSR, List.cons_append, List.nil_append, Disciplined]
  refine ⟨⟨fun _ => rfl, nofun, .inl rfl, .inl rfl⟩, .free rfl rfl rfl, ?_, disciplined⟩
  split
  · exact .free rfl rfl rfl
  · exact .free rfl rfl rfl

/-- The list is not in the last two tests of a pass. -/
def Early (todo : List Op) : Prop :=
  nextTest todo ≠ some .testInt ∧ nextTest todo ≠ some .testBrk

theorem Early.straight {op : Op} {rest : List Op} (straight : op.straight)
    (early : Early rest) : Early (op :: rest) := by
  unfold Early
  rwa [nextTest_straight straight]

theorem doSpecialties_disciplined {rest : List Op} (early : Early rest)
    (disciplined : Disciplined rest) : Disciplined (doSpecialties ++ rest) := by
  simp only [doSpecialties, List.cons_append, List.nil_append, Disciplined]
  refine ⟨.early nofun nofun nofun, .early nofun nofun nofun, .early nofun nofun nofun, ?_, ?_,
    .early nofun early.1 early.2, disciplined⟩
  · exact ⟨nofun, nofun, .inr (.inl (by decide)), .inr (.inr nofun)⟩
  · exact ⟨nofun, nofun, .inr (.inl (by decide)), .inr (.inl rfl)⟩

/-- The operations of an instruction end at the test of the special flags. -/
theorem effects_disciplined {rest : List Op} (effects : List Effect)
    (disciplined : Disciplined rest) (early : Early rest) :
    Disciplined (effects.flatMap Effect.ops ++ rest) ∧
      Early (effects.flatMap Effect.ops ++ rest) := by
  induction effects with
  | nil => exact ⟨disciplined, early⟩
  | cons effect effects ih =>
    obtain ⟨ih, ihEarly⟩ := ih
    rw [List.flatMap_cons, List.append_assoc]
    generalize effects.flatMap Effect.ops ++ rest = later at ih ihEarly ⊢
    cases effect with
    | makeFromSR sr =>
      refine ⟨makeFromSR_disciplined sr ih, .straight rfl (.straight rfl (.straight ?_ ihEarly))⟩
      split <;> rfl
    | exception =>
      exact ⟨exception_disciplined ih,
        .straight rfl (.straight rfl (.straight rfl ihEarly))⟩
    | stop => exact ⟨⟨.free rfl rfl rfl, ih⟩, .straight rfl ihEarly⟩
    | execReturn =>
      exact ⟨⟨.free rfl rfl rfl, .free rfl rfl rfl, ih⟩, .straight rfl (.straight rfl ihEarly)⟩
    | emulOp => exact ⟨⟨.early nofun ihEarly.1 ihEarly.2, ih⟩, nofun, nofun⟩

end Lists

section Served

variable {w : BitVec 32} {op : Op} {todo rest : List Op} {began : Bool} {waited : Nat}

theorem Served.fresh (latched : Latched w ∨ Reaches Op.resolves todo) :
    Served w todo false 0 :=
  ⟨latched, nofun, nofun, nofun, by omega⟩

theorem Served.mono {todo' : List Op} (served : Served w todo began waited)
    (resolves : Reaches Op.resolves todo → Reaches Op.resolves todo')
    (looks : Reaches Op.looks todo → Reaches Op.looks todo')
    (sets : Reaches (Op.sets spcflagDoint) todo → Reaches (Op.sets spcflagDoint) todo')
    (next : nextTest todo' = nextTest todo) : Served w todo' began waited where
  latched := served.latched.imp_right resolves
  ripe late := (served.ripe late).imp_right looks
  past late test := looks (served.past late (next ▸ test))
  converted counted test := (served.converted counted (next ▸ test)).imp_right sets
  bound := served.bound

/-- A straight operation without a part in the latch is done. -/
theorem Served.done (served : Served w (op :: rest) began waited) (straight : op.straight)
    (resolves : op.resolves = false) (sets : op.sets spcflagDoint = false) :
    Served w rest began waited := by
  have looks : op.looks = false := by
    unfold Op.resolves at resolves
    exact (Bool.or_eq_false_iff.mp resolves).2
  refine served.mono ?_ ?_ ?_ (nextTest_straight straight rest).symm
  · simp [Reaches, resolves]
  · simp [Reaches, looks]
  · simp [Reaches, sets]

section Writes

variable {mask loaded : BitVec 32}

theorem LatchKept.set_doint (kept : LatchKept loaded w mask) (up : Doint w) :
    Doint (loaded ||| mask) := by
  rw [doint_iff] at up ⊢
  have doint := (latchKept_iff.mp kept).2 up
  rw [BitVec.getElem_or, Bool.or_eq_true]
  by_cases h : mask[5]
  · exact .inr h
  · exact .inl (doint h)

theorem LatchKept.set_latched (kept : LatchKept loaded w mask) (up : Latched w) :
    Latched (loaded ||| mask) := by
  rcases latched_iff.mp up with int | doint
  · rw [latched_iff, BitVec.getElem_or, Bool.or_eq_true]
    by_cases h : mask[1]
    · exact .inl (.inr h)
    · exact .inl (.inl ((latchKept_iff.mp kept).1 int h))
  · exact latched_iff.mpr (.inr (doint_iff.mp (kept.set_doint (doint_iff.mpr doint))))

theorem LatchKept.clear_doint (kept : LatchKept loaded w mask) (up : Doint w)
    (other : spcflagsTest mask spcflagDoint = false) : Doint (loaded &&& ~~~mask) := by
  rw [doint_iff] at up ⊢
  rw [test_doint] at other
  have doint := (latchKept_iff.mp kept).2 up (by simp [other])
  rw [BitVec.getElem_and, BitVec.getElem_not, other, doint]
  rfl

theorem LatchKept.clear_latched (kept : LatchKept loaded w mask) (up : Latched w)
    (other : spcflagsTest mask (spcflagInt ||| spcflagDoint) = false) :
    Latched (loaded &&& ~~~mask) := by
  rw [test_latch, Bool.or_eq_false_iff] at other
  rcases latched_iff.mp up with int | doint
  · have loadedInt := (latchKept_iff.mp kept).1 int (by simp [other.1])
    refine latched_iff.mpr (.inl ?_)
    rw [BitVec.getElem_and, BitVec.getElem_not, other.1, loadedInt]
    rfl
  · refine latched_iff.mpr (.inr (doint_iff.mp (kept.clear_doint (doint_iff.mpr doint) ?_)))
    rw [test_doint]
    exact other.2

theorem Served.storeSet (served : Served w (.storeSet mask loaded :: rest) began waited)
    (kept : LatchKept loaded w mask) : Served (loaded ||| mask) rest began waited := by
  have next : nextTest (.storeSet mask loaded :: rest) = nextTest rest := nextTest_straight rfl rest
  constructor
  · rcases served.latched with up | reaches
    · exact .inl (kept.set_latched up)
    · rcases (Bool.or_eq_true _ _).mp reaches with own | later
      · -- the write itself latches
        refine .inl ?_
        simp only [Op.resolves, Op.sets, Op.looks, Bool.or_false, test_latch,
          Bool.or_eq_true] at own
        rw [latched_iff, BitVec.getElem_or, BitVec.getElem_or, Bool.or_eq_true, Bool.or_eq_true]
        exact own.imp .inr .inr
      · exact .inr later
  · exact fun late => (served.ripe late).imp_left kept.set_doint
  · exact fun late test => served.past late (next ▸ test)
  · intro counted test
    rcases served.converted counted (next ▸ test) with up | reaches
    · exact .inl (kept.set_doint up)
    · rcases (Bool.or_eq_true _ _).mp reaches with own | later
      · refine .inl ?_
        simp only [Op.sets, test_doint] at own
        rw [doint_iff, BitVec.getElem_or, own, Bool.or_true]
      · exact .inr later
  · exact served.bound

/-- `SPCFLAGS_CLEAR` writes, and no other thread's latch is undone. -/
theorem Served.storeClear (served : Served w (.storeClear mask loaded :: rest) began waited)
    (followed : Op.Followed (.storeClear mask loaded) rest)
    (kept : LatchKept loaded w mask) : Served (loaded &&& ~~~mask) rest began waited := by
  have next : nextTest (.storeClear mask loaded :: rest) = nextTest rest :=
    nextTest_straight rfl rest
  constructor
  · by_cases own : spcflagsTest mask (spcflagInt ||| spcflagDoint)
    · exact .inr (followed.latch (.inl own))
    · rcases served.latched with up | later
      · exact .inl (kept.clear_latched up (by simpa using own))
      · exact .inr later
  · intro late
    by_cases own : spcflagsTest mask spcflagDoint
    · exact .inr (followed.doint own).1
    · exact (served.ripe late).imp_left fun up => kept.clear_doint up (by simpa using own)
  · exact fun late test => served.past late (next ▸ test)
  · intro counted test
    by_cases own : spcflagsTest mask spcflagDoint
    · exact absurd test (followed.doint own).2
    · exact (served.converted counted (next ▸ test)).imp_left
        fun up => kept.clear_doint up (by simpa using own)
  · exact served.bound

end Writes

theorem Served.atTest (served : Served w (op :: rest) began waited) (test : ¬ op.straight)
    (plain : op.looks = false) : Latched w ∧ (0 < waited → Doint w) := by
  have sets : ∀ flags, op.sets flags = false := by
    intro flags
    cases op <;> first | rfl | exact absurd rfl test
  have stops : op.straight = false := by simpa using test
  constructor
  · simpa [Reaches, stops, plain, Op.resolves, sets] using served.latched
  · intro late
    simpa [Reaches, stops, plain] using served.ripe late

/-- At the last two tests of a pass the interrupt has waited through none: nothing would look
at `intlev` any more. -/
theorem Served.firstPass (served : Served w (op :: rest) began waited)
    (last : op = .testInt ∨ op = .testBrk) : waited = 0 := by
  by_contra again
  have late : 0 < waited := Nat.pos_of_ne_zero again
  rcases last with rfl | rfl
  · have looks := served.past late (.inl rfl)
    cases looks
  · have looks := served.past late (.inr rfl)
    cases looks

theorem Served.early (latched : Latched w) (ripe : 0 < waited → Doint w) (early : Early todo)
    (bound : waited ≤ 1) : Served w todo began waited where
  latched := .inl latched
  ripe late := .inl (ripe late)
  past _ test := (test.elim early.1 early.2).elim
  converted _ test := (early.2 test).elim
  bound := bound

/-- The interrupt is delivered: `Interrupt` raises the mask to its level. -/
theorem Served.delivered (bound : waited ≤ 1) (brk : nextTest todo ≠ some .testBrk) :
    Served w (interrupt 1 ++ todo) began waited where
  latched := .inr rfl
  ripe _ := .inr rfl
  past _ _ := rfl
  converted _ test := (brk test).elim
  bound := bound

end Served

/-- What holds after a step, before the history is looked at. -/
structure Machine.Core (s : Machine Thread) : Prop where
  announced : s.announced &&& ~~~s.interruptFlags = 0
  disciplined : Disciplined s.todo
  served : s.Waiting → Served s.spcflags s.todo s.passBegan s.passesWaited

structure Machine.Inv (s : Machine Thread) : Prop extends s.Core where
  idle : ¬ s.Waiting → s.passBegan = false ∧ s.passesWaited = 0

theorem Machine.Core.observe {s : Machine Thread} (core : s.Core) : s.observe.Inv := by
  unfold Machine.observe
  split
  next waiting => exact ⟨core, fun idle => absurd waiting idle⟩
  next idle =>
    exact ⟨⟨core.announced, core.disciplined, fun waiting => absurd waiting idle⟩,
      fun _ => ⟨rfl, rfl⟩⟩

/-- `intlev` sees an interrupt that waits. -/
theorem Machine.Core.intlev {s : Machine Thread} (core : s.Core) (waiting : s.Waiting) :
    intlev s.interruptFlags = 1 := by
  have up : s.interruptFlags ≠ 0 := by
    intro zero
    have announced := core.announced
    rw [zero] at announced
    apply waiting.1
    simpa only [BitVec.ofNat_eq_ofNat, BitVec.not_zero, BitVec.and_allOnes] using announced
  exact if_pos up

theorem Machine.Core.goOn {s : Machine Thread} {todo : List Op} (core : s.Core)
    (disciplined : Disciplined todo)
    (served : s.Waiting → Served s.spcflags s.todo s.passBegan s.passesWaited →
      Served s.spcflags todo s.passBegan s.passesWaited) :
    Machine.Core { s with todo := todo } :=
  ⟨core.announced, disciplined, fun waiting => served waiting (core.served waiting)⟩

theorem writeFlags_core {s : Machine Thread} (core : s.Core) (word : BitVec 32) :
    (s.writeFlags word).Core := by
  refine ⟨?_, core.disciplined, fun waiting => core.served ⟨?_, waiting.2⟩⟩
  · simp only [Machine.writeFlags, BitVec.and_assoc, BitVec.and_not_self]
    exact BitVec.and_zero
  · intro zero
    apply waiting.1
    simp only [Machine.writeFlags, zero]
    exact BitVec.zero_and

section Perform

variable {cpuType : Nat} {traced : Bool} {s t : Machine Thread} {op : Op} {rest : List Op}

theorem Machine.Core.head (core : s.Core) (todo : s.todo = op :: rest) :
    op.Followed rest ∧ Disciplined rest := by
  have disciplined := core.disciplined
  rwa [todo] at disciplined

theorem Machine.Core.servedHead (core : s.Core) (todo : s.todo = op :: rest)
    (waiting : s.Waiting) : Served s.spcflags (op :: rest) s.passBegan s.passesWaited :=
  todo ▸ core.served waiting

theorem Machine.Inv.unmask {nr : Nat} {t1 t0 : Bool} (inv : s.Inv) (todo : s.todo = op :: rest)
    (straight : op.straight) (resolves : op.resolves = false)
    (sets : op.sets spcflagDoint = false) (unmasks : nr < 1 → op.unmasks) :
    Machine.Core { s with intmask := nr, t1 := t1, t0 := t0, todo := rest } := by
  obtain ⟨followed, disciplined⟩ := inv.head todo
  refine ⟨inv.announced, disciplined, ?_⟩
  rintro ⟨announced, low⟩
  by_cases before : s.Waiting
  · exact (inv.servedHead todo before).done straight resolves sets
  · obtain ⟨noPass, noWait⟩ := inv.idle before
    dsimp only
    rw [noPass, noWait]
    exact .fresh (.inr (followed.latch (.inr (unmasks low))))

theorem perform_straight_core (inv : s.Inv) (todo : s.todo = op :: rest) (straight : op.straight)
    (safe : LatchSafe s (.cpuStep traced)) (taken : s.perform cpuType traced rest op = some t) :
    t.Core := by
  obtain ⟨followed, disciplined⟩ := inv.head todo
  have done : op.resolves = false → op.sets spcflagDoint = false → s.Waiting →
      Served s.spcflags rest s.passBegan s.passesWaited := fun resolves sets waiting =>
    (inv.servedHead todo waiting).done straight resolves sets
  cases op with
  | set mask | clear mask =>
    cases taken
    refine inv.goOn ⟨⟨followed.latch, followed.doint, .inl rfl, .inl rfl⟩, disciplined⟩ ?_
    intro waiting _
    exact (inv.servedHead todo waiting).mono id id id rfl
  | storeSet mask loaded =>
    cases taken
    refine ⟨inv.announced, disciplined, fun waiting => ?_⟩
    simp only [LatchSafe, todo] at safe
    exact (inv.servedHead todo waiting).storeSet (safe waiting)
  | storeClear mask loaded =>
    cases taken
    refine ⟨inv.announced, disciplined, fun waiting => ?_⟩
    simp only [LatchSafe, todo] at safe
    exact (inv.servedHead todo waiting).storeClear followed (safe waiting)
  | loadSR sr =>
    cases taken
    exact inv.unmask todo rfl rfl rfl (fun _ => rfl)
  | setIntmask nr =>
    cases taken
    rcases Nat.eq_zero_or_pos nr with rfl | high
    · exact inv.unmask todo rfl rfl rfl (fun _ => rfl)
    · -- the mask holds every interrupt back
      exact ⟨inv.announced, disciplined, fun waiting => absurd waiting.2 (Nat.not_lt.mpr high)⟩
  | clearTraceBits | clearStopped | quit | returned =>
    cases taken
    exact ⟨inv.announced, disciplined, fun waiting => done rfl rfl waiting⟩
  | setStopped =>
    cases taken
    refine ⟨inv.announced, ?_, fun (waiting : s.Waiting) => ?_⟩
    · dsimp only
      split
      · exact disciplined
      · exact ⟨.free rfl rfl rfl, disciplined⟩
    · dsimp only
      split
      · exact done rfl rfl waiting
      · exact (done rfl rfl waiting).mono id id id (nextTest_straight rfl rest)
  | clearFlag flag =>
    cases taken
    refine inv.goOn ⟨.free rfl rfl rfl, disciplined⟩ ?_
    intro waiting _
    exact (inv.servedHead todo waiting).mono id id id rfl
  | storeFlag flag loaded =>
    cases taken
    have core := writeFlags_core inv.toCore (clearFlag loaded flag)
    refine core.goOn disciplined ?_
    intro waiting served
    rw [show (s.writeFlags (clearFlag loaded flag)).todo = _ from todo] at served
    exact served.done rfl rfl rfl
  | _ => cases straight

theorem Machine.Core.early (core : s.Core) (todo : s.todo = op :: rest) (test : ¬ op.straight)
    (before : op ∉ [.testDoint, .checkDoint, .testInt]) : Early rest := by
  obtain ⟨followed, _⟩ := core.head todo
  refine ⟨followed.notInt test before, followed.notBrk test ?_⟩
  rintro rfl
  simp at before

theorem Early.append {ops : List Op} (straight : ops.all Op.straight) (early : Early rest) :
    Early (ops ++ rest) := by
  induction ops with
  | nil => exact early
  | cons op ops ih =>
    obtain ⟨first, later⟩ := (Bool.and_eq_true _ _).mp straight
    exact .straight first (ih later)

theorem nextTest_append {ops : List Op} (straight : ops.all Op.straight) :
    nextTest (ops ++ rest) = nextTest rest := by
  induction ops with
  | nil => rfl
  | cons op ops ih =>
    obtain ⟨first, later⟩ := (Bool.and_eq_true _ _).mp straight
    rw [List.cons_append, nextTest_straight first, ih later]

/-- `intlev` is compared with the mask: an interrupt that waits is delivered. -/
theorem accept_core {tail : List Op} (inv : s.Inv) (disciplined : Disciplined rest)
    (tailDisciplined : Disciplined (tail ++ rest))
    (brk : nextTest (tail ++ rest) ≠ some .testBrk) :
    Machine.Core
      { s with
        todo :=
          (if intlev s.interruptFlags > s.intmask then
            interrupt (intlev s.interruptFlags) ++ tail
          else []) ++ rest } := by
  refine ⟨inv.announced, ?_, fun (waiting : s.Waiting) => ?_⟩
  · dsimp only
    split
    next above =>
      have one : intlev s.interruptFlags = 1 := by
        unfold intlev at above ⊢
        split at above
        next up => exact if_pos up
        · omega
      rw [one, List.append_assoc]
      exact interrupt_disciplined tailDisciplined
    · exact disciplined
  · have one := inv.intlev waiting
    have above := waiting.2
    dsimp only
    rw [one, if_pos above, List.append_assoc]
    exact .delivered (inv.served waiting).bound brk

theorem doTrace_cases {t1 t0 : Bool} :
    doTrace cpuType t1 t0 traced = [] ∨
      doTrace cpuType t1 t0 traced = [.clear spcflagTrace, .set spcflagDotrace] := by
  unfold doTrace
  by_cases flow : (if t0 && cpuType ≥ 2 then traced else t1) = true
  · exact .inr (if_pos flow)
  · exact .inl (if_neg flow)

/-- At a test that does not look at the flags an interrupt that waits is latched, and stays so. -/
theorem Machine.Inv.servedEarly (inv : s.Inv) (todo : s.todo = op :: rest) (test : ¬ op.straight)
    (plain : op.looks = false) {began : Bool} {list : List Op} (early : Early list)
    (waiting : s.Waiting) : Served s.spcflags list began s.passesWaited := by
  have served := inv.servedHead todo waiting
  obtain ⟨latched, ripe⟩ := served.atTest test plain
  exact .early latched ripe early served.bound

/-- A test that goes on with more to do where its condition holds. -/
theorem branch_core (inv : s.Inv) (todo : s.todo = op :: rest) (test : ¬ op.straight)
    (plain : op.looks = false) (early : Early rest) (disciplined : Disciplined rest) {c : Prop}
    [Decidable c] {list : List Op} (branch : Disciplined (list ++ rest))
    (branchEarly : Early (list ++ rest)) :
    Machine.Core { s with todo := (if c then list else []) ++ rest } := by
  refine ⟨inv.announced, ?_, inv.servedEarly todo test plain ?_⟩
  · dsimp only
    split
    · exact branch
    · exact disciplined
  · split
    · exact branchEarly
    · exact early

theorem perform_early_core (inv : s.Inv) (todo : s.todo = op :: rest) (test : ¬ op.straight)
    (before : op ∉ [.testDoint, .checkDoint, .testInt, .testBrk])
    (taken : s.perform cpuType traced rest op = some t) : t.Core := by
  obtain ⟨_, disciplined⟩ := inv.head todo
  have early : Early rest := inv.early todo test (by simp_all)
  cases op with
  | boundary | emulOp => cases taken
  | testAll =>
    simp only [Machine.perform] at taken
    split at taken <;> cases taken
    · exact ⟨inv.announced, doSpecialties_disciplined early disciplined,
        inv.servedEarly todo test rfl ⟨nofun, nofun⟩⟩
    · exact ⟨inv.announced, disciplined, inv.servedEarly todo test rfl early⟩
  | testDotrace =>
    cases taken
    exact branch_core inv todo test rfl early disciplined (exception_disciplined disciplined)
      (.append rfl early)
  | testStop =>
    cases taken
    exact branch_core inv todo test rfl early disciplined
      ⟨.early nofun nofun nofun, .early nofun early.1 early.2, disciplined⟩ ⟨nofun, nofun⟩
  | testStopInt =>
    cases taken
    exact branch_core inv todo test rfl early disciplined
      ⟨⟨fun _ => rfl, fun _ => ⟨rfl, nofun⟩, .inl rfl, .inl rfl⟩,
        .early nofun early.1 early.2, disciplined⟩ ⟨nofun, nofun⟩
  | checkStopInt =>
    cases taken
    have stops : Early ([.clearStopped, .clear spcflagStop] ++ rest) := .append rfl early
    exact accept_core inv disciplined
      ⟨.free rfl rfl rfl, .free rfl rfl rfl, disciplined⟩ stops.2
  | testTrace =>
    cases taken
    have trace : doTrace cpuType s.t1 s.t0 traced = [] ∨
        doTrace cpuType s.t1 s.t0 traced = [.clear spcflagTrace, .set spcflagDotrace] :=
      doTrace_cases
    rcases trace with none | some
    · rw [none]
      exact branch_core inv todo test rfl early disciplined disciplined early
    · rw [some]
      exact branch_core inv todo test rfl early disciplined
        ⟨.free rfl rfl rfl, .free rfl rfl rfl, disciplined⟩ (.append rfl early)
  | leave =>
    simp only [Machine.perform] at taken
    split at taken
    next outer loop =>
      cases taken
      obtain ⟨outerFollowed, outerDisciplined⟩ := disciplined
      have outerEarly : Early outer :=
        ⟨outerFollowed.notInt nofun (by decide), outerFollowed.notBrk nofun nofun⟩
      refine ⟨inv.announced, ?_, inv.servedEarly todo test rfl ?_⟩
      · dsimp only
        split
        · exact outerDisciplined
        · exact ⟨outerFollowed, outerDisciplined⟩
      · split
        · exact outerEarly
        · exact ⟨nofun, nofun⟩
    · cases taken
  | testDoint | checkDoint | testInt | testBrk => simp at before
  | _ => exact absurd rfl test

/-- The tests of `SPCFLAG_DOINT` and `SPCFLAG_INT` and the end of a pass. -/
theorem perform_late_core (inv : s.Inv) (todo : s.todo = op :: rest)
    (late : op ∈ [.testDoint, .checkDoint, .testInt, .testBrk])
    (taken : s.perform cpuType traced rest op = some t) : t.Core := by
  obtain ⟨followed, disciplined⟩ := inv.head todo
  have head := inv.servedHead todo
  cases op with
  | testDoint =>
    have brk : nextTest rest ≠ some .testBrk := followed.notBrk nofun nofun
    cases taken
    refine ⟨inv.announced, ?_, fun (waiting : s.Waiting) => ?_⟩
    · dsimp only
      split
      · exact ⟨⟨fun _ => rfl, fun _ => ⟨rfl, nofun⟩, .inl rfl, .inl rfl⟩,
          ⟨nofun, nofun, .inr (.inl (by decide)), .inr (.inr brk)⟩, disciplined⟩
      · exact disciplined
    · obtain ⟨latched, ripe⟩ := (head waiting).atTest nofun rfl
      have bound := (head waiting).bound
      dsimp only
      split
      · exact .early latched ripe ⟨nofun, nofun⟩ bound
      next down =>
        -- a second pass finds the flag set, so this one is the first
        exact
          { latched := .inl latched
            ripe := fun late => absurd (ripe late) down
            past := fun late _ => absurd (ripe late) down
            converted := fun _ test => absurd test brk
            bound := bound }
  | checkDoint =>
    have brk : nextTest rest ≠ some .testBrk := followed.notBrk nofun nofun
    cases taken
    exact accept_core inv disciplined ⟨.free rfl rfl rfl, disciplined⟩
      (by rwa [nextTest_append rfl])
  | testInt =>
    cases taken
    refine ⟨inv.announced, ?_, fun (waiting : s.Waiting) => ?_⟩
    · dsimp only
      split
      · exact ⟨⟨fun _ => rfl, nofun, .inl rfl, .inl rfl⟩, .free rfl rfl rfl, disciplined⟩
      · exact disciplined
    · have served := head waiting
      obtain ⟨latched, _⟩ := served.atTest nofun rfl
      have first := served.firstPass (.inl rfl)
      dsimp only
      rw [first]
      split
      · exact ⟨.inr rfl, nofun, nofun, fun _ _ => .inr rfl, by omega⟩
      next down =>
        have doint : Doint s.spcflags := by
          rw [latched_iff] at latched
          rw [test_int] at down
          exact doint_iff.mpr (latched.resolve_left down)
        exact ⟨.inl latched, nofun, nofun, fun _ _ => .inl doint, by omega⟩
  | testBrk =>
    have early : Early rest := inv.early todo nofun (by decide)
    cases taken
    refine ⟨inv.announced, ?_, fun (waiting : s.Waiting) => ?_⟩
    · dsimp only
      split
      · exact ⟨.free rfl rfl rfl, .early nofun early.1 early.2, disciplined⟩
      · exact disciplined
    · have served := head waiting
      obtain ⟨latched, _⟩ := served.atTest nofun rfl
      have first := served.firstPass (.inr rfl)
      refine .early latched ?_ ?_ ?_
      · intro counted
        dsimp only at counted
        rw [first] at counted
        have began : s.passBegan := by
          by_contra never
          simp [never] at counted
        have converted := served.converted began rfl
        exact converted.resolve_right nofun
      · split
        · exact ⟨nofun, nofun⟩
        · exact early
      · dsimp only
        rw [first]
        split <;> omega
  | _ => simp at late

theorem perform_core (inv : s.Inv) (todo : s.todo = op :: rest)
    (safe : LatchSafe s (.cpuStep traced)) (taken : s.perform cpuType traced rest op = some t) :
    t.Core := by
  by_cases straight : op.straight
  · exact perform_straight_core inv todo straight safe taken
  · by_cases late : op ∈ [.testDoint, .checkDoint, .testInt, .testBrk]
    · exact perform_late_core inv todo late taken
    · exact perform_early_core inv todo straight late taken

end Perform

/-- The CPU thread is told what to do at an instruction boundary or in an `EmulOp`. -/
theorem begin_core {s t : Machine Thread} {ops : List Op} (head : Op) (inv : s.Inv)
    (test : ¬ head.straight) (plain : head.looks = false)
    (pushed : ∀ rest, head.Followed rest → Disciplined rest →
      Disciplined (ops ++ rest) ∧ Early (ops ++ rest))
    (taken : s.begin head ops = some t) : t.Core := by
  unfold Machine.begin at taken
  split at taken
  next op rest todo =>
    split at taken
    next same =>
      cases taken
      subst same
      obtain ⟨followed, disciplined⟩ := inv.head todo
      obtain ⟨pushedDisciplined, early⟩ := pushed rest followed disciplined
      exact inv.goOn pushedDisciplined fun waiting _ =>
        inv.servedEarly todo test plain early waiting
    · cases taken
  · cases taken

/-- `TriggerInterrupt` writes the flag word. -/
theorem latching_core {s : Machine Thread} {loaded : BitVec 32} {devices : Thread → Device}
    (inv : s.Inv) (kept : s.Waiting → LatchKept loaded s.spcflags spcflagInt) :
    Machine.Core
      { s with
        spcflags := loaded ||| spcflagInt
        announced := s.interruptFlags
        devices := devices } := by
  have latched : Latched (loaded ||| spcflagInt) := by
    rw [latched_iff, BitVec.getElem_or]
    exact .inl (by simp [spcflagInt])
  refine ⟨BitVec.and_not_self s.interruptFlags, inv.disciplined, fun _ => ?_⟩
  by_cases before : s.Waiting
  · have served := inv.served before
    exact
      { latched := .inl latched
        ripe := fun late => (served.ripe late).imp_left (kept before).set_doint
        past := served.past
        converted := fun counted test =>
          (served.converted counted test).imp_left (kept before).set_doint
        bound := served.bound }
  · obtain ⟨noPass, noWait⟩ := inv.idle before
    dsimp only
    rw [noPass, noWait]
    exact .fresh (.inl latched)

theorem Machine.Inv.notStranded {s : Machine Thread} (inv : s.Inv) : s.NotStranded where
  latched := by
    intro boundary waiting
    obtain ⟨rest, todo⟩ : ∃ rest, s.todo = .boundary :: rest :=
      List.head?_eq_some_iff.mp boundary
    exact ((inv.servedHead todo waiting).atTest nofun rfl).1
  delivered := by
    by_cases waiting : s.Waiting
    · exact (inv.served waiting).bound
    · rw [(inv.idle waiting).2]
      exact Nat.zero_le 1

theorem reset_inv (interruptFlags : BitVec 32) : (reset interruptFlags : Machine Thread).Inv where
  announced := BitVec.and_not_self interruptFlags
  disciplined := ⟨.early nofun nofun nofun, trivial⟩
  served waiting := absurd waiting.2 (by simp [reset])
  idle _ := ⟨rfl, rfl⟩

variable [DecidableEq Thread]

theorem deviceGoesOn_core {s t : Machine Thread} {thread : Thread} (inv : s.Inv)
    (safe : LatchSafe s (.deviceStep thread)) (taken : deviceGoesOn s thread = some t) :
    t.Core := by
  unfold deviceGoesOn at taken
  split at taken
  · cases taken
  next flag loaded device =>
    cases taken
    obtain ⟨announced, disciplined, served⟩ := writeFlags_core inv.toCore (setFlag loaded flag)
    exact ⟨announced, disciplined, served⟩
  next device =>
    cases taken
    exact ⟨inv.announced, inv.disciplined, inv.served⟩
  next loaded device =>
    cases taken
    simp only [LatchSafe, device] at safe
    exact latching_core inv safe

theorem act_core {cpuType : Nat} {s t : Machine Thread} {e : Event Thread} (inv : s.Inv)
    (safe : LatchSafe s e) (taken : act cpuType s e = some t) : t.Core := by
  cases e with
  | setInterruptFlag thread flag =>
    simp only [act, setInterrupt] at taken
    split at taken
    · cases taken
      exact ⟨inv.announced, inv.disciplined, inv.served⟩
    · cases taken
  | deviceStep thread => exact deviceGoesOn_core inv safe taken
  | instruction effects =>
    refine begin_core .boundary inv nofun rfl ?_ taken
    intro rest followed disciplined
    rw [List.append_assoc]
    exact effects_disciplined effects ⟨.early nofun nofun nofun, followed, disciplined⟩
      ⟨nofun, nofun⟩
  | execute68k =>
    have again : Machine.Inv { s with quitProgram := false } :=
      ⟨⟨inv.announced, inv.disciplined, inv.served⟩, inv.idle⟩
    refine begin_core .emulOp again nofun rfl ?_ taken
    intro rest followed disciplined
    exact ⟨⟨.early nofun nofun nofun, .free rfl rfl rfl, followed, disciplined⟩, nofun, nofun⟩
  | clearInterruptFlag flag =>
    refine begin_core .emulOp inv nofun rfl ?_ taken
    intro rest followed disciplined
    exact ⟨⟨.free rfl rfl rfl, followed, disciplined⟩, nofun, nofun⟩
  | emulOpEnds sr =>
    refine begin_core .emulOp inv nofun rfl ?_ taken
    intro rest followed disciplined
    refine ⟨makeFromSR_disciplined sr disciplined, .append ?_ ?_⟩
    · simp only [makeFromSR]
      split <;> rfl
    · exact ⟨followed.notInt nofun (by decide), followed.notBrk nofun nofun⟩
  | cpuStep traced =>
    simp only [act] at taken
    split at taken
    next op rest todo => exact perform_core inv todo safe taken
    · cases taken

theorem cpuLoopStep_inv {cpuType : Nat} (s : Machine Thread) (e : Event Thread)
    (t : Machine Thread) (inv : s.Inv) (safe : LatchSafe s e)
    (taken : cpuLoopStep cpuType s e = some t) : t.Inv := by
  obtain ⟨u, acted, rfl⟩ := Option.map_eq_some_iff.mp taken
  exact (act_core inv safe acted).observe

/-- In a run in which no write to `regs.spcflags` undoes another thread's while an interrupt
waits, no waiting interrupt is ever stranded. -/
theorem pending_interrupt_delivered {cpuType : Nat} {interruptFlags : BitVec 32}
    {s : Machine Thread} {events : List (Event Thread)}
    (run : Run (cpuLoopStep cpuType) LatchSafe (reset interruptFlags) events s) :
    s.NotStranded :=
  (run.invariant cpuLoopStep_inv (reset_inv interruptFlags)).notStranded

instance (s : Machine Thread) (e : Event Thread) : Decidable (LatchSafe s e) := by
  unfold LatchSafe
  split
  · split
    · exact inferInstanceAs (Decidable (_ → _ = _))
    · exact .isTrue trivial
  · split
    · exact inferInstanceAs (Decidable (_ → _ = _))
    · exact inferInstanceAs (Decidable (_ → _ = _))
    · exact .isTrue trivial
  · exact .isTrue trivial

def cpuSteps (count : Nat) : List (Event Bool) := List.replicate count (.cpuStep false)

/-- The mask goes down to 0, and the latch `MakeFromSR` has set runs out. -/
def unmasked : List (Event Bool) :=
  [.instruction [.makeFromSR 0x2000]] ++ cpuSteps 16 ++ [.instruction []] ++ cpuSteps 10

/-- A key event on another thread: `SetInterruptFlag` and `TriggerInterrupt`. -/
def keyEvent : List (Event Bool) :=
  [.setInterruptFlag true .adb, .deviceStep true, .deviceStep true, .deviceStep true]

/-- The event comes at an instruction boundary, and the second boundary after it is in the
interrupt. -/
def delivered : List (Event Bool) :=
  unmasked ++ keyEvent ++ [.instruction []] ++ cpuSteps 11 ++ [.instruction []] ++ cpuSteps 23

set_option maxRecDepth 4000 in
theorem pending_interrupt_delivered_key :
    ∃ s, Run (cpuLoopStep 4) LatchSafe (reset 0 : Machine Bool) delivered s ∧ s.NotStranded ∧
      s.todo = [.boundary] ∧ s.intmask = 1 := by
  have run : Run (cpuLoopStep 4) LatchSafe (reset 0 : Machine Bool) delivered _ :=
    run_of_guarded_exec rfl
  exact ⟨_, run, pending_interrupt_delivered run, rfl, rfl⟩

/-- The event comes while `Exception` clears the trace flags: between its read and its write
of `regs.spcflags`. -/
def stranded : List (Event Bool) :=
  unmasked ++ [.instruction [.exception]] ++ cpuSteps 4 ++ keyEvent ++ cpuSteps 2

set_option maxRecDepth 4000 in
theorem interrupt_stranded :
    ∃ s, Run (cpuLoopStep 4) Free (reset 0 : Machine Bool) stranded s ∧
      s.todo.head? = some .boundary ∧ s.Waiting ∧ ¬ Latched s.spcflags := by
  have run : Run (cpuLoopStep 4) Free (reset 0 : Machine Bool) stranded _ := run_of_exec rfl
  exact ⟨_, run, rfl, by decide, by decide⟩

end BasiliskII.Interrupts
