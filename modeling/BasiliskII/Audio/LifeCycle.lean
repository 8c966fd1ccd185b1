import BasiliskII.Audio.Component
import BasiliskII.Library.StepSystem

/-!
# The life cycle of the sound output component

The first open takes the data block and the stream, the last close gives them
back, unless the Apple Mixer is still open then: that close ends with the mixer.
-/
namespace BasiliskII.Audio

open ByteMemory PressLog StepSystem

/-- How far `writeCode` gets. -/
def codeSize : List Code → BitVec 32
  | [] => 0
  | c :: rest => c.size + codeSize rest

theorem writeCode_end (mem : Memory 32) (p : BitVec 32) (code : List Code) :
    (writeCode mem p code).2 = p + codeSize code := by
  induction code generalizing mem p with
  | nil => exact (BitVec.add_zero p).symm
  | cons c rest ih => rw [writeCode, ih, codeSize, BitVec.add_assoc]

/-- Each routine ends where it has to when the first one starts at `offset`. -/
def Aligned (offset : BitVec 32) : List (List Code × BitVec 32) → Prop
  | [] => True
  | (code, ending) :: rest => offset + codeSize code = ending ∧ Aligned ending rest

theorem writeRoutines_aligned (audioData : BitVec 32) {rs : List (List Code × BitVec 32)}
    {offset : BitVec 32} (aligned : Aligned offset rs) (mem : Memory 32) :
    (writeRoutines audioData rs mem (audioData + offset)).1 = true := by
  induction rs generalizing offset mem with
  | nil => rfl
  | cons routine rest ih =>
    obtain ⟨code, ending⟩ := routine
    obtain ⟨here, aligned⟩ := aligned
    have reached := writeCode_end mem (audioData + offset) code
    rw [BitVec.add_assoc, here] at reached
    have distance : audioData + ending - audioData = ending := by
      rw [BitVec.add_comm, BitVec.add_sub_cancel]
    simp only [writeRoutines, reached, distance, ne_eq, not_true_eq_false, if_false]
    exact ih aligned _

theorem routines_written (audioData : BitVec 32) (mem : Memory 32) :
    (writeRoutines audioData routines mem (audioData + adatDelegateCall)).1 = true :=
  writeRoutines_aligned audioData (by simp [routines, Aligned, codeSize]; decide) mem

section Cases

variable (env : Env) (st : AudioState)

/-- All an open call can do. -/
theorem openComponent_cases :
    (st.audioData = 0 ∧ ∃ mem, openComponent env st = (memFullErr, { st with mem := mem })) ∨
    (st.audioData = 0 ∧ ∃ a mem, a ≠ 0 ∧ openComponent env st =
      (noErr, countOpen
        ({ st with audioData := a, mem := mem }.record (.press (.block a))))) ∨
    (st.audioData ≠ 0 ∧ openComponent env st = (noErr, countOpen st)) := by
  by_cases none_yet : st.audioData = 0
  · unfold openComponent
    rw [if_pos none_yet]
    dsimp only [execute]
    split
    · exact .inl ⟨none_yet, _, rfl⟩
    · next allocated =>
      rw [routines_written]
      exact .inr (.inl ⟨none_yet, _, _, allocated, rfl⟩)
  · exact .inr (.inr ⟨none_yet, if_neg none_yet⟩)

/-- What is logged when a block and the stream are given back. -/
def givenBack (audioData : BitVec 32) : List (Event Resource) :=
  (if audioData ≠ 0 then [.release (.block audioData)] else []) ++ [.release .stream]

/-- All a close call can do. -/
theorem closeComponent_cases :
    (st.openCount ≠ 1 ∧ closeComponent env st =
      (noErr, { st with openCount := st.openCount - 1 })) ∨
    (st.openCount = 1 ∧ st.audioData ≠ 0 ∧ st.mixer ≠ 0 ∧ ∃ result mem,
      closeComponent env st = (result, { st with openCount := 0, mixer := 0, mem := mem })) ∨
    (st.openCount = 1 ∧ (st.audioData = 0 ∨ st.mixer = 0) ∧ ∃ mem, closeComponent env st =
      (noErr, { st with
        openCount := 0, audioData := 0, numSources := 0, mem := mem,
        log := st.log ++ givenBack st.audioData })) := by
  by_cases last : st.openCount = 1
  · have zero : st.openCount - 1 = 0 := by omega
    unfold closeComponent
    dsimp only [execute]
    rw [if_pos zero, zero]
    right
    split
    next mixed => exact .inl ⟨last, mixed.1, mixed.2, _, _, rfl⟩
    next unmixed =>
      right
      refine ⟨last, by tauto, ?_⟩
      by_cases block : st.audioData = 0
      · exact ⟨st.mem, by simp [block, givenBack, AudioState.record]⟩
      · refine ⟨(env.guest (.trap 0xa01f) (setA env.r 0 st.audioData) st.mem).2, ?_⟩
        rw [if_pos block, givenBack, if_pos block]
        simp [AudioState.record]
  · have more : st.openCount - 1 ≠ 0 := by omega
    exact .inl ⟨last, if_neg more⟩

/-- The other selectors leave the count, the block and the log alone. -/
theorem audioDispatch_other (params : BitVec 32)
    (not_open : selectorAt st.mem params ≠ .openComponent)
    (not_close : selectorAt st.mem params ≠ .closeComponent) :
    (audioDispatch env st params).2.openCount = st.openCount ∧
      (audioDispatch env st params).2.audioData = st.audioData ∧
      (audioDispatch env st params).2.log = st.log := by
  unfold audioDispatch
  dsimp only
  split
  · contradiction
  · contradiction
  all_goals first
    | exact ⟨rfl, rfl, rfl⟩
    | unfold initOutputDevice; split <;> [skip; split] <;> exact ⟨rfl, rfl, rfl⟩

end Cases

/-- What the last close has to leave, and what a failed open has to. -/
def EndsWell (st : AudioState) (call : DispatchCall) : Prop :=
  let (result, after) := call.run st
  (call.selector = .closeComponent → after.openCount = 0 →
    after.audioData = 0 ∧ after.mixer = 0 ∧ after.numSources = 0 ∧
      after.log = st.log ++ givenBack st.audioData) ∧
  (call.selector = .openComponent → result ≠ noErr →
    after.openCount = st.openCount ∧ after.audioData = st.audioData)

/-- The last close finds the Apple Mixer closed. -/
def MixerClosed (st : AudioState) (call : DispatchCall) : Prop :=
  call.selector = .closeComponent → st.openCount = 1 → st.mixer = 0

structure LifeCycle (st : AudioState) : Prop where
  stream : downAfter .stream false st.log = decide (0 < st.openCount)
  data : 0 < st.openCount → st.audioData ≠ 0
  block : ∀ a, downAfter (.block a) false st.log = decide (st.audioData = a ∧ a ≠ 0)
  alternates : ∀ key, Alternates key false st.log

theorem downAfter_concat (key : Resource) (log : List (Event Resource)) (e : Event Resource) :
    downAfter key false (log ++ [e]) = e.after key (downAfter key false log) := by
  rw [downAfter_append, downAfter_cons, downAfter_nil]

theorem alternates_concat {key : Resource} {log : List (Event Resource)} {e : Event Resource}
    (before : Alternates key false log)
    (fits : e.key = key → e.isPress = !downAfter key false log) :
    Alternates key false (log ++ [e]) :=
  (alternates_append key false log [e]).mpr ⟨before, fits, trivial⟩

theorem LifeCycle.congr {st t : AudioState} (life : LifeCycle st)
    (count : t.openCount = st.openCount) (data : t.audioData = st.audioData)
    (log : t.log = st.log) : LifeCycle t where
  stream := by rw [log, count]; exact life.stream
  data := by rw [count, data]; exact life.data
  block := by rw [log, data]; exact life.block
  alternates := by rw [log]; exact life.alternates

theorem LifeCycle.no_block {st : AudioState} (life : LifeCycle st) (none_yet : st.audioData = 0)
    (a : BitVec 32) : downAfter (.block a) false st.log = false := by
  rw [life.block, none_yet]
  exact decide_eq_false fun both => both.2 both.1.symm

theorem LifeCycle.allocate {st : AudioState} (life : LifeCycle st) (none_yet : st.audioData = 0)
    {a : BitVec 32} (some_block : a ≠ 0) (mem : Memory 32) :
    LifeCycle ({ st with audioData := a, mem := mem }.record (.press (.block a))) where
  stream := (downAfter_concat .stream st.log _).trans life.stream
  data := fun _ => some_block
  block := by
    intro b
    refine (downAfter_concat (.block b) st.log _).trans ?_
    rw [life.no_block none_yet]
    by_cases own : a = b
    · subst own
      simp [Event.after, AudioState.record, show a ≠ 0#32 from some_block]
    · simp [Event.after, AudioState.record, own]
  alternates := by
    intro key
    refine alternates_concat (life.alternates key) fun own => ?_
    subst own
    rw [key_press, life.no_block none_yet]
    rfl

theorem LifeCycle.opened {st : AudioState} (life : LifeCycle st) (data : st.audioData ≠ 0) :
    LifeCycle (countOpen st) := by
  by_cases first : st.openCount = 0
  · have entered : countOpen st =
        { { st with audioAvailable := true }.record (.press .stream) with openCount := 1 } := by
      simp [Audio.countOpen, AudioState.record, first]
    have not_streaming : downAfter .stream false st.log = false := by rw [life.stream, first]; rfl
    rw [entered]
    refine ⟨downAfter_concat .stream st.log _, fun _ => data, fun a => ?_, fun key => ?_⟩
    · exact (downAfter_concat (.block a) st.log _).trans (life.block a)
    · refine alternates_concat (life.alternates key) fun own => ?_
      subst own
      rw [key_press, not_streaming]
      rfl
  · have counted : countOpen st =
        { st with audioAvailable := true, openCount := st.openCount + 1 } := by
      simp [Audio.countOpen, first]
    rw [counted]
    refine ⟨life.stream.trans ?_, fun _ => data, life.block, life.alternates⟩
    rw [decide_eq_decide]
    show 0 < st.openCount ↔ 0 < st.openCount + 1
    omega

theorem LifeCycle.closed {st : AudioState} (life : LifeCycle st) (more : st.openCount ≠ 1) :
    LifeCycle { st with openCount := st.openCount - 1 } := by
  refine ⟨life.stream.trans ?_, fun opened => life.data ?_, life.block, life.alternates⟩
  · rw [decide_eq_decide]
    show 0 < st.openCount ↔ 0 < st.openCount - 1
    omega
  · have opened : 0 < st.openCount - 1 := opened
    omega

/-- The block first, then the stream. -/
theorem LifeCycle.giveBack {st : AudioState} (life : LifeCycle st) (last : st.openCount = 1)
    (mem : Memory 32) :
    LifeCycle { st with
      openCount := 0, audioData := 0, numSources := 0, mem := mem,
      log := st.log ++ givenBack st.audioData } := by
  have data : st.audioData ≠ 0 := life.data (by omega)
  have log : st.log ++ givenBack st.audioData =
      st.log ++ [.release (.block st.audioData)] ++ [.release .stream] := by
    rw [givenBack, if_pos data, List.append_assoc]
  have streaming : downAfter .stream false st.log = true := by rw [life.stream, last]; rfl
  have held : downAfter (.block st.audioData) false st.log = true := by
    rw [life.block]
    exact decide_eq_true ⟨rfl, data⟩
  rw [log]
  refine ⟨downAfter_concat .stream _ _, fun opened => absurd opened (by simp), fun a => ?_,
    fun key => ?_⟩
  · refine (downAfter_concat (.block a) _ _).trans ?_
    have gone : ¬(0 = a ∧ a ≠ 0) := fun both => both.2 both.1.symm
    rw [after_other (by simp), downAfter_concat, life.block, decide_eq_false gone]
    by_cases own : st.audioData = a
    · rw [after_own (by simpa using own), isPress_release]
    · rw [after_other (by simpa using own), decide_eq_false fun both => own both.1]
  · refine alternates_concat (alternates_concat (life.alternates key) fun own => ?_) fun own => ?_
    · subst own
      rw [key_release, held]
      rfl
    · subst own
      rw [key_release, downAfter_concat, after_other (by simp), streaming]
      rfl

section Steps

variable {st : AudioState} {call : DispatchCall}

theorem run_open (opens : call.selector = .openComponent) :
    call.run st = openComponent call.env { st with mem := call.mem } := by
  have selected : selectorAt call.mem call.params = .openComponent := opens
  simp only [DispatchCall.run, audioDispatch, selected]

theorem run_close (closes : call.selector = .closeComponent) :
    call.run st = closeComponent call.env { st with mem := call.mem } := by
  have selected : selectorAt call.mem call.params = .closeComponent := closes
  simp only [DispatchCall.run, audioDispatch, selected]

theorem step_endsWell_iff : MixerClosed st call ↔ EndsWell st call := by
  unfold EndsWell MixerClosed
  by_cases closes : call.selector = .closeComponent
  · have not_open : call.selector ≠ .openComponent := by simp [closes]
    rw [run_close closes]
    obtain ⟨more, done⟩ | ⟨last, block, mixed, _, _, done⟩ | ⟨last, unmixed, _, done⟩ :=
      closeComponent_cases call.env { st with mem := call.mem }
    · have not_last : st.openCount ≠ 1 := more
      have counted : st.openCount - 1 ≠ 0 := by omega
      simp [done, closes, not_last, counted]
    · have last : st.openCount = 1 := last
      rw [done]
      exact iff_of_false (fun closed => mixed (closed closes last))
        (fun ends => block (ends.1 closes rfl).1)
    · have last : st.openCount = 1 := last
      rw [done]
      constructor
      · intro closed
        exact ⟨fun _ _ => ⟨rfl, closed closes last, rfl, rfl⟩, fun opens => absurd opens not_open⟩
      · exact fun ends _ _ => (ends.1 closes rfl).2.1
  · by_cases opens : call.selector = .openComponent
    · rw [run_open opens]
      obtain ⟨_, _, done⟩ | ⟨_, _, _, _, done⟩ | ⟨_, done⟩ :=
        openComponent_cases call.env { st with mem := call.mem }
      · simp [done, opens]
      · simp [done, opens]
      · simp [done, opens]
    · simp [closes, opens]

theorem step_lifeCycle {t : AudioState} (life : LifeCycle st) (closed : MixerClosed st call)
    (taken : step st call = some t) : LifeCycle t := by
  cases taken
  have here : LifeCycle { st with mem := call.mem } := life.congr rfl rfl rfl
  by_cases opens : call.selector = .openComponent
  · rw [run_open opens]
    obtain ⟨_, _, done⟩ | ⟨none_yet, _, mem, some_block, done⟩ | ⟨data, done⟩ :=
      openComponent_cases call.env { st with mem := call.mem }
    · rw [done]
      exact life.congr rfl rfl rfl
    · rw [done]
      exact (here.allocate none_yet some_block mem).opened some_block
    · rw [done]
      exact here.opened data
  by_cases closes : call.selector = .closeComponent
  · rw [run_close closes]
    obtain ⟨more, done⟩ | ⟨last, _, mixed, _⟩ | ⟨last, _, _, done⟩ :=
      closeComponent_cases call.env { st with mem := call.mem }
    · rw [done]
      exact here.closed more
    · exact absurd (closed closes last) mixed
    · rw [done]
      exact here.giveBack last _
  · obtain ⟨count, data, log⟩ :=
      audioDispatch_other call.env { st with mem := call.mem } call.params opens closes
    exact life.congr count data log

end Steps

theorem audioReset_lifeCycle (mem : Memory 32) : LifeCycle (audioReset mem) where
  stream := rfl
  data := fun opened => absurd opened (by simp [audioReset])
  block := fun a => by
    have none_yet : ¬(0 = a ∧ a ≠ 0) := fun both => both.2 both.1.symm
    exact (decide_eq_false none_yet).symm
  alternates := fun _ => trivial

/-- Every close that brings the count to zero leaves nothing behind, and every failed open leaves
all as it was, exactly when the last close always finds the mixer closed. -/
theorem audio_lifeCycle_iff (mem : Memory 32) (calls : List DispatchCall) (st : AudioState) :
    Run step MixerClosed (audioReset mem) calls st ↔
      Run step EndsWell (audioReset mem) calls st ∧ ∀ key, Alternates key false st.log := by
  have same : Run step MixerClosed (audioReset mem) calls st ↔
      Run step EndsWell (audioReset mem) calls st :=
    Run.guard_congr (fun _ _ _ => step_lifeCycle) (fun _ _ _ _ _ => step_endsWell_iff)
      (audioReset_lifeCycle mem)
  constructor
  · intro run
    have life := run.invariant (fun _ _ _ => step_lifeCycle) (audioReset_lifeCycle mem)
    exact ⟨same.mp run, life.alternates⟩
  · exact fun ends => same.mpr ends.1

/-- Guest code that answers every call with `value` in A0 and D0, and leaves `value` behind in the
mixer field of a block at 0x1000. -/
def answering (value : BitVec 32) : Guest :=
  fun _ r mem => (setA (setD r 0 value) 0 value, putLong mem (0x1000 + adatMixer) value)

/-- A call with `what` in its parameters at 0. -/
def callOf (what : Int) (value : BitVec 32) : DispatchCall where
  mem := putWord (fun _ => 0) cpWhat (BitVec.ofInt 16 what)
  params := 0
  env :=
    { guest := answering value
      r := ⟨fun _ => 0, fun _ => 0, 0⟩
      audioOpen := true
      format := ⟨44100 <<< 16, 16, 2, 4096⟩
      audioGetInfo := fun _ _ _ mem => (noErr, mem)
      audioSetInfo := fun _ _ _ mem => (noErr, mem) }

/-- The block is at 0x1000, the mixer at 0x2000. -/
def openMixerClose : List DispatchCall := [callOf (-1) 0x1000, callOf 1 0x2000, callOf (-2) 0]

/-- The close ends with the mixer: the block and the stream are kept. -/
theorem open_mixer_keeps_stream :
    ¬∀ (mem : Memory 32) (calls : List DispatchCall) (st : AudioState),
      Run step Free (audioReset mem) calls st →
        Run step EndsWell (audioReset mem) calls st ∧ ∀ key, Alternates key false st.log := by
  intro all
  have run : Run step Free (audioReset fun _ => 0) openMixerClose _ := run_of_exec rfl
  cases (all _ _ _ run).1 with
  | next _ opened rest =>
    cases opened
    cases rest with
    | next _ mixed rest =>
      cases mixed
      cases rest with
      | next ends _ _ =>
        have gone := (ends.1 (by decide) (by decide)).1
        exact absurd gone (by decide)

end BasiliskII.Audio
