import BasiliskII.Interrupts.IrqHandler

/-!
# When every event is served

The history of a run and the flag word are tied together by one invariant; a
step that meets `Undisturbed` preserves it, and any other step loses an event.
-/
namespace BasiliskII.Interrupts

open StepSystem

variable {Thread : Type}

/-- From the test that found the flag raised to the write that clears it. The audio flag is cleared
before its handler. -/
def Stage.Holds : Stage → IntFlag → Prop
  | .testing, _ => False
  | .running held _, flag => held = flag ∧ held ≠ .audio
  | .loading held, flag | .clearing held _, flag => held = flag

/-- The pass has still to test the flag, or to clear it. -/
def Pass.Ahead (pass : Pass) (flag : IntFlag) : Prop :=
  flag ∈ pass.untested ∨ pass.stage.Holds flag

theorem Pass.Ahead.next_or_later {pass : Pass} {flag first : IntFlag} {rest : List IntFlag}
    (ahead : pass.Ahead flag) (testing : pass.stage = .testing)
    (tests : pass.untested = first :: rest) : flag = first ∨ flag ∈ rest := by
  rw [Pass.Ahead, testing, tests] at ahead
  exact List.mem_cons.mp (ahead.resolve_right id)

theorem Pass.Ahead.held {pass next : Pass} {flag : IntFlag} (ahead : pass.Ahead flag)
    (tests : next.untested = pass.untested)
    (same : pass.stage.Holds flag → next.stage.Holds flag) : next.Ahead flag := by
  rw [Pass.Ahead, tests]
  exact ahead.imp_right same

structure System.Inv (s : System Thread) : Prop where
  pending : ∀ flag, s.Unserved flag → Raised s.interruptFlags flag
  counted : ∀ flag, s.served flag ≤ s.raised flag
  entered : ∀ pass ∈ s.passes, ∀ flag, pass.raisedBefore flag ≤ s.raised flag
  passed : ∀ pass ∈ s.passes, ∀ flag, ¬ pass.Ahead flag →
    pass.raisedBefore flag ≤ s.served flag

theorem start_inv : (start : System Thread).Inv where
  pending _ unserved := absurd unserved (Nat.lt_irrefl 0)
  counted _ := Nat.le_refl 0
  entered _ member := nomatch member
  passed _ member := nomatch member

theorem System.Inv.nothingLost {s : System Thread} (inv : s.Inv) : s.NothingLost where
  pending := inv.pending
  passed := by
    intro pass member testing tested flag
    apply inv.passed pass member
    simp [Pass.Ahead, tested, testing, Stage.Holds]

/-- A step of the innermost pass that neither writes the word nor begins a handler. -/
theorem System.Inv.passOn {s : System Thread} {pass next : Pass} {outer : List Pass}
    (inv : s.Inv) (passes : s.passes = pass :: outer)
    (same : next.raisedBefore = pass.raisedBefore)
    (behind : ∀ flag, ¬ next.Ahead flag → pass.Ahead flag → ¬ s.Unserved flag) :
    System.Inv { s with passes := next :: outer } where
  pending := inv.pending
  counted := inv.counted
  entered := by
    intro q member flag
    rcases List.mem_cons.mp member with rfl | member
    · rw [same]
      exact inv.entered pass (by simp [passes]) flag
    · exact inv.entered q (by simp [passes, member]) flag
  passed := by
    intro q member flag notAhead
    rcases List.mem_cons.mp member with rfl | member
    · rw [same]
      by_cases ahead : pass.Ahead flag
      · -- the flag is passed over in this step, so its handler has run already
        have served : s.raised flag ≤ s.served flag := Nat.le_of_not_lt (behind flag notAhead ahead)
        exact (inv.entered pass (by simp [passes]) flag).trans served
      · exact inv.passed pass (by simp [passes]) flag ahead
    · exact inv.passed q (by simp [passes, member]) flag notAhead

/-- A handler that calls something begins. The flag word may have been written in the same step. -/
theorem System.Inv.begin {s : System Thread} {word : BitVec 32} {pass tested : Pass}
    {outer : List Pass} {flag : IntFlag} {macStarted romVersion32 : Bool} (inv : s.Inv)
    (calls : handler macStarted romVersion32 flag ≠ []) (passes : s.passes = pass :: outer)
    (same : tested.raisedBefore = pass.raisedBefore)
    (kept : ∀ other, other ≠ flag → s.Unserved other → Raised word other)
    (behind : ∀ other, pass.Ahead other → other ∈ tested.untested ∨ other = flag) :
    (System.begin { s with interruptFlags := word } flag tested outer macStarted
      romVersion32).Inv where
  pending := by
    intro other unserved
    by_cases h : other = flag
    · simp [System.begin, System.Unserved, calls, h] at unserved
    · exact kept other h (by simpa [System.begin, System.Unserved, calls, h] using unserved)
  counted := by
    intro other
    by_cases h : other = flag
    · simp [System.begin, calls, h]
    · simpa [System.begin, calls, h] using inv.counted other
  entered := by
    intro q member other
    rcases List.mem_cons.mp member with rfl | member
    · simpa [System.begin, same] using inv.entered pass (by simp [passes]) other
    · exact inv.entered q (by simp [passes, member]) other
  passed := by
    intro q member other notAhead
    by_cases h : other = flag
    · -- every pass was entered before this handler began
      have entered : q.raisedBefore other ≤ s.raised other := by
        rcases List.mem_cons.mp member with rfl | member
        · simpa [same] using inv.entered pass (by simp [passes]) other
        · exact inv.entered q (by simp [passes, member]) other
      subst h
      simpa [System.begin, calls] using entered
    · have old : q.raisedBefore other ≤ s.served other := by
        rcases List.mem_cons.mp member with rfl | member
        · have before : ¬ pass.Ahead other := by
            intro ahead
            rcases behind other ahead with untested | rfl
            · exact notAhead (.inl untested)
            · exact h rfl
          simpa [same] using inv.passed pass (by simp [passes]) other before
        · exact inv.passed q (by simp [passes, member]) other notAhead
      simpa [System.begin, calls, h] using old

theorem irq_inv {s t : System Thread} (inv : s.Inv) (taken : irq s = some t) : t.Inv := by
  unfold irq at taken
  split at taken
  · cases taken
    constructor
    · exact inv.pending
    · exact inv.counted
    · intro q member flag
      rcases List.mem_cons.mp member with rfl | member
      · exact Nat.le_refl _
      · exact inv.entered q member flag
    · intro q member flag notAhead
      rcases List.mem_cons.mp member with rfl | member
      · -- a pass that has just begun has every flag ahead
        exact absurd (.inl (by cases flag <;> simp [testOrder])) notAhead
      · exact inv.passed q member flag notAhead
  · cases taken

theorem passStep_inv {s t : System Thread} {macStarted romVersion32 : Bool} (inv : s.Inv)
    (undisturbed : Undisturbed s (.passStep macStarted romVersion32))
    (taken : passStep s macStarted romVersion32 = some t) : t.Inv := by
  unfold passStep at taken
  split at taken
  · cases taken
  next pass outer passes =>
    split at taken
    next stage untested =>
      cases taken
      exact
        { pending := inv.pending
          counted := inv.counted
          entered := fun q member => inv.entered q (by simp [passes, member])
          passed := fun q member => inv.passed q (by simp [passes, member]) }
    next flag untested stage tests =>
      dsimp only at taken
      split at taken
      next raised =>
        split at taken
        next audio =>
          -- its flag is taken down before the handler, and stays ahead till then
          cases taken
          refine inv.passOn passes rfl fun other notAhead ahead => ?_
          rcases ahead.next_or_later stage tests with rfl | later
          · exact absurd (.inr rfl) notAhead
          · exact absurd (.inl later) notAhead
        next late =>
          cases taken
          by_cases nothing : handler macStarted romVersion32 flag = []
          · -- nothing is served, and the flag is still to be cleared
            rw [System.begin, if_pos nothing]
            refine inv.passOn passes rfl fun other notAhead ahead => ?_
            rcases ahead.next_or_later stage tests with rfl | later
            · exact absurd (.inr ⟨rfl, late⟩) notAhead
            · exact absurd (.inl later) notAhead
          · refine inv.begin nothing passes rfl
              (fun other _ unserved => inv.pending other unserved) fun other ahead => ?_
            exact (ahead.next_or_later stage tests).symm
      next down =>
        cases taken
        refine inv.passOn passes rfl fun other notAhead ahead => ?_
        rcases ahead.next_or_later stage tests with rfl | later
        · -- a flag found down has no event waiting
          exact fun unserved => down (inv.pending _ unserved)
        · exact absurd (.inl later) notAhead
    next flag stage =>
      cases taken
      refine inv.passOn passes rfl fun other notAhead ahead => ?_
      refine (notAhead (ahead.held rfl fun held => ?_)).elim
      rw [stage] at held
      simpa [held.2, Stage.Holds] using held.1
    next flag call calls stage =>
      cases taken
      refine inv.passOn passes rfl fun other notAhead ahead => ?_
      refine (notAhead (ahead.held rfl fun held => ?_)).elim
      rwa [stage] at held
    next flag stage =>
      cases taken
      refine inv.passOn passes rfl fun other notAhead ahead => ?_
      refine (notAhead (ahead.held rfl fun held => ?_)).elim
      rwa [stage] at held
    next flag loaded stage =>
      obtain ⟨kept, own⟩ : (∀ other, other ≠ flag → s.Unserved other → Raised loaded other) ∧
          (flag ≠ .audio → ¬ s.Unserved flag) := by
        simpa [Undisturbed, passes, stage] using undisturbed
      dsimp only at taken
      split at taken
      next audio =>
        cases taken
        refine inv.begin (by rw [audio]; exact List.cons_ne_nil _ _) passes rfl ?_ ?_
        · intro other different unserved
          exact raised_clearFlag.mpr ⟨kept other different unserved, different⟩
        · rintro other (member | held)
          · exact .inl member
          · rw [stage] at held
            exact .inr held.symm
      next late =>
        cases taken
        have written : System.Inv { s with interruptFlags := clearFlag loaded flag } :=
          { inv with
            pending := by
              intro other unserved
              by_cases h : other = flag
              · subst h
                exact absurd unserved (own late)
              · exact raised_clearFlag.mpr ⟨kept other h unserved, h⟩ }
        refine written.passOn passes rfl ?_
        rintro other notAhead (member | held)
        · exact absurd (.inl member) notAhead
        · -- an event whose handler called nothing would be lost here
          rw [stage] at held
          cases held
          exact own late

variable [DecidableEq Thread]

theorem deviceStep_inv {s t : System Thread} {thread : Thread} (inv : s.Inv)
    (undisturbed : Undisturbed s (.deviceStep thread))
    (taken : deviceStep s thread = some t) : t.Inv := by
  unfold deviceStep at taken
  split at taken
  · cases taken
  next flag loaded call =>
    cases taken
    have kept : ∀ other, other ≠ flag → s.Unserved other → Raised loaded other := by
      simpa [Undisturbed, call] using undisturbed
    have grows : ∀ other,
        s.raised other ≤ Function.update s.raised flag (s.raised flag + 1) other := by
      intro other
      by_cases h : other = flag
      · simp [h]
      · simp [h]
    constructor
    · intro other unserved
      by_cases h : other = flag
      · exact raised_setFlag.mpr (.inr h)
      · refine raised_setFlag.mpr (.inl (kept other h ?_))
        simpa [System.Unserved, h] using unserved
    · exact fun other => (inv.counted other).trans (grows other)
    · exact fun q member other => (inv.entered q member other).trans (grows other)
    · exact inv.passed

theorem step_inv (s : System Thread) (a : Action Thread) (t : System Thread) (inv : s.Inv)
    (undisturbed : Undisturbed s a) (taken : step s a = some t) : t.Inv := by
  cases a with
  | setInterruptFlag thread flag =>
    simp only [step, setInterruptFlag] at taken
    split at taken
    · cases taken
      exact { inv with }
    · cases taken
  | deviceStep thread => exact deviceStep_inv inv undisturbed taken
  | irq => exact irq_inv inv taken
  | passStep macStarted romVersion32 => exact passStep_inv inv undisturbed taken

/-- A step taken against `Undisturbed` leaves an event with its flag down. -/
theorem undisturbed_of_pending {s t : System Thread} {a : Action Thread}
    (taken : step s a = some t)
    (pending : ∀ flag, t.Unserved flag → Raised t.interruptFlags flag) : Undisturbed s a := by
  cases a with
  | setInterruptFlag thread flag => trivial
  | irq => trivial
  | deviceStep thread =>
    simp only [Undisturbed]
    split
    · trivial
    next flag loaded call =>
      intro other different unserved
      simp only [step, deviceStep, call] at taken
      cases taken
      have written := pending other (by simpa [System.Unserved, different] using unserved)
      exact (raised_setFlag.mp written).resolve_right different
  | passStep macStarted romVersion32 =>
    simp only [Undisturbed]
    split
    next flag loaded top =>
      simp only [step, passStep] at taken
      split at taken
      next passes =>
        rw [passes] at top
        cases top
      next pass outer passes =>
        have stage : pass.stage = .clearing flag loaded := by simpa [passes] using top
        rw [stage] at taken
        dsimp only at taken
        have kept : ∀ other, other ≠ flag → s.Unserved other →
            Raised t.interruptFlags other := by
          intro other different unserved
          apply pending
          split at taken
          next audio =>
            have calls : handler macStarted romVersion32 flag ≠ [] := by simp [audio, handler]
            cases taken
            simpa [System.begin, System.Unserved, calls, different] using unserved
          · cases taken
            exact unserved
        have word : t.interruptFlags = clearFlag loaded flag := by
          split at taken <;> cases taken <;> rfl
        constructor
        · intro other different unserved
          have written := kept other different unserved
          rw [word] at written
          exact (raised_clearFlag.mp written).1
        · intro late unserved
          rw [if_neg late] at taken
          cases taken
          exact (raised_clearFlag.mp (pending flag unserved)).2 rfl
    · trivial

/-- No event is lost anywhere in a run exactly when the run writes the flag word only where
no event is overwritten. -/
theorem nothing_lost_iff {s : System Thread} {actions : List (Action Thread)}
    (run : Run step Free start actions s) :
    Run step Undisturbed start actions s ↔
      ∀ taken u, taken <+: actions → Run step Free start taken u → u.NothingLost := by
  refine Run.guarded_iff step_inv (fun s inv => inv.nothingLost) ?_ start_inv run
  intro s a t _ taken good
  exact undisturbed_of_pending taken good.pending

instance (p : IntFlag → Prop) [DecidablePred p] : Decidable (∀ flag, p flag) :=
  decidable_of_iff (∀ flag ∈ testOrder, p flag)
    ⟨fun all flag => all flag (by cases flag <;> simp [testOrder]), fun all flag _ => all flag⟩

instance (s : System Thread) (flag : IntFlag) : Decidable (s.Unserved flag) :=
  inferInstanceAs (Decidable (_ < _))

instance (s : System Thread) (a : Action Thread) : Decidable (Undisturbed s a) := by
  unfold Undisturbed
  split
  · split
    · exact .isTrue trivial
    · infer_instance
  · split
    · infer_instance
    · exact .isTrue trivial
  · exact .isTrue trivial

def passSteps (count : Nat) : List (Action Bool) := List.replicate count (.passStep true true)

/-- An ADB event, and an audio event while the ADB handler runs. -/
def overlap : List (Action Bool) :=
  [.setInterruptFlag true .adb, .deviceStep true, .irq] ++ passSteps 6 ++
    [.setInterruptFlag true .audio, .deviceStep true] ++ passSteps 6

theorem nothing_lost_iff_overlap :
    ∃ s, Run step Undisturbed (start : System Bool) overlap s ∧ s.NothingLost ∧
      s.Unserved .audio ∧ s.served .adb = 1 ∧ s.passes = [] := by
  have free : Run step Free (start : System Bool) overlap _ := run_of_exec rfl
  have undisturbed : Run step Undisturbed (start : System Bool) overlap _ :=
    run_of_guarded_exec rfl
  exact ⟨_, undisturbed, (nothing_lost_iff free).mp undisturbed _ _ List.prefix_rfl free,
    by decide, rfl, rfl⟩

/-- A second ADB event while the handler of the first runs: its flag goes down with the
first one's, and a whole further pass leaves it without a run of the handler. -/
def secondEvent : List (Action Bool) :=
  [.setInterruptFlag true .adb, .deviceStep true, .irq] ++ passSteps 6 ++
    [.setInterruptFlag true .adb, .deviceStep true] ++ passSteps 6 ++ [.irq] ++ passSteps 7

/-- Two devices at once: the later write puts back a word without the other's flag. -/
def bothAtOnce : List (Action Bool) :=
  [.setInterruptFlag false .sixtyHz, .setInterruptFlag true .adb, .deviceStep true,
    .deviceStep false]

theorem events_lost :
    (∃ s, Run step Free (start : System Bool) secondEvent s ∧
      ∃ pass ∈ s.passes, pass.stage = .testing ∧ pass.untested = [] ∧
        s.served .adb < pass.raisedBefore .adb) ∧
    ∃ s, Run step Free (start : System Bool) bothAtOnce s ∧
      s.Unserved .adb ∧ ¬ Raised s.interruptFlags .adb := by
  have second : Run step Free (start : System Bool) secondEvent _ := run_of_exec rfl
  have both : Run step Free (start : System Bool) bothAtOnce _ := run_of_exec rfl
  exact ⟨⟨_, second, _, List.mem_cons_self, rfl, rfl, by decide⟩, _, both, by decide, by decide⟩

end BasiliskII.Interrupts
