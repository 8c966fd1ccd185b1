import BasiliskII.Audio.Threads
import BasiliskII.Library.StepSystem

/-!
# Double buffering

Once `pcmflip` has been flipped, the buffer it tells `fillBuffer` to fill is the
one on its way to the hardware. The two threads keep out of each other's way
only where they happen to take turns at reading it.
-/
namespace BasiliskII.Audio

open StepSystem

/-- The buffer being filled. -/
def FillPc.buffer : FillPc → Option Buffer
  | .chosen b | .triggered b | .acked b | .copying b _ _ | .clearing b _ => some b
  | _ => none

/-- Where the next step of `fillBuffer` writes. -/
def FillPc.target : FillPc → Option (Buffer × Int)
  | .copying b i size => if i < size.tdiv 2 then some (b, i) else none
  | .clearing b i => if i < audioBlockSize / 2 then some (b, i) else none
  | _ => none

/-- The buffer about to be handed out. -/
def OutPc.buffer : OutPc → Option Buffer
  | .picked b | .flipped b | .signalled b => some b
  | _ => none

/-- Every sample has been written since the buffer was last handed out. -/
def Streaming.Whole (s : Streaming) (b : Buffer) : Prop :=
  ∀ i, 0 ≤ i → i < audioBlockSize / 2 → s.written b i = true

structure Sound (s : Streaming) : Prop where
  /-- A sample is only written into the buffer that is filled, and never while that is playing. -/
  writes : ∀ b i, s.fill.target = some (b, i) → 0 ≤ i ∧ i < audioBlockSize / 2 ∧ b ∉ s.playing
  handed : ∀ b, s.out = .signalled b → s.Whole b

/-- The threads take turns at reading `pcmflip`: `fillBuffer` does when the buffer it is told to fill
is neither playing nor on its way to the hardware, and `audioOutput` when `fillBuffer` has read the
flag between its last two changes and is not still at the buffer to be played. The mixer's sample
count has to fit an `int` in bytes. -/
def TakesTurns (s : Streaming) : Action → Prop
  | .fill stream =>
    match s.fill with
    | .woken => fillBuf s.pcmflip ∉ s.playing ∧ s.out.buffer ≠ some (fillBuf s.pcmflip)
    | .acked _ => ∀ count ∈ stream.sampleCount, 0 ≤ workSize count
    | _ => True
  | .out => s.out = .picking → s.lookedBefore = true ∧ s.fill.buffer ≠ some (playBuf s.pcmflip)
  | _ => True

instance (s : Streaming) (a : Action) : Decidable (TakesTurns s a) := by
  unfold TakesTurns
  split
  · split <;> infer_instance
  · infer_instance
  · exact .isTrue trivial

/-- What a fill has got through. -/
def FillPc.Progress (written : Buffer → Int → Bool) : FillPc → Prop
  | .copying b i size =>
    0 ≤ i ∧ i ≤ size.tdiv 2 ∧ size ≤ audioBlockSize ∧ ∀ j, 0 ≤ j → j < i → written b j = true
  | .clearing b i => 0 ≤ i ∧ i ≤ audioBlockSize / 2 ∧ ∀ j, 0 ≤ j → j < i → written b j = true
  | _ => True

/-- The buffer is whole, or will be when the fill is over. -/
def Streaming.Kept (s : Streaming) (b : Buffer) : Prop := s.fill.buffer = some b ∨ s.Whole b

/-- What is known of the two buffers. -/
def OutPc.Ready (pcmflip looked lookedBefore : Bool) (kept whole : Buffer → Prop) : OutPc → Prop
  | .picked b => b = playBuf pcmflip ∧ whole b ∧ (looked = true → kept (fillBuf pcmflip))
  | .flipped b | .signalled b =>
    b = fillBuf pcmflip ∧ whole b ∧ looked = false ∧
      (lookedBefore = true → kept (playBuf pcmflip))
  | _ =>
    (lookedBefore = true → kept (playBuf pcmflip)) ∧ (looked = true → kept (fillBuf pcmflip))

structure TurnInvariant (s : Streaming) : Prop where
  apart : ∀ b, s.fill.buffer = some b → b ∉ s.playing ∧ s.out.buffer ≠ some b
  progress : s.fill.Progress s.written
  ready : s.out.Ready s.pcmflip s.looked s.lookedBefore s.Kept s.Whole

theorem blockSamples : audioBlockSize / 2 = 8192 := rfl

theorem workSize_le (sampleCount : BitVec 32) : workSize sampleCount ≤ audioBlockSize := by
  unfold workSize
  dsimp only
  split
  · exact Int.le_refl _
  · omega

theorem copy_inside {size : Int} (fits : size ≤ audioBlockSize) :
    size.tdiv 2 ≤ audioBlockSize / 2 :=
  Int.tdiv_le_tdiv (by decide) fits

variable {s : Streaming}

theorem TurnInvariant.sound (inv : TurnInvariant s) : Sound s where
  writes := by
    intro b i target
    have progress := inv.progress
    cases here : s.fill with
    | copying b' i' size =>
      rw [here] at target progress
      obtain ⟨lower, _, fits, _⟩ := progress
      have inside := copy_inside fits
      simp only [FillPc.target] at target
      split at target
      · cases target
        exact ⟨lower, by omega, (inv.apart _ (by rw [here]; rfl)).1⟩
      · cases target
    | clearing b' i' =>
      rw [here] at target progress
      simp only [FillPc.target] at target
      split at target
      next more =>
        cases target
        exact ⟨progress.1, more, (inv.apart _ (by rw [here]; rfl)).1⟩
      · cases target
    | _ => simp [here, FillPc.target] at target
  handed := by
    intro b here
    have ready := inv.ready
    rw [here] at ready
    exact ready.2.1

theorem OutPc.Ready.mono {out : OutPc} {pcmflip looked lookedBefore : Bool}
    {kept kept' whole whole' : Buffer → Prop}
    (ready : out.Ready pcmflip looked lookedBefore kept whole)
    (still_kept : ∀ b, kept b → kept' b) (still_whole : ∀ b, whole b → whole' b) :
    out.Ready pcmflip looked lookedBefore kept' whole' := by
  cases out with
  | picked b =>
    exact ⟨ready.1, still_whole _ ready.2.1, fun looked => still_kept _ (ready.2.2 looked)⟩
  | flipped b | signalled b =>
    exact ⟨ready.1, still_whole _ ready.2.1, ready.2.2.1,
      fun looked => still_kept _ (ready.2.2.2 looked)⟩
  | _ =>
    exact ⟨fun looked => still_kept _ (ready.1 looked), fun looked => still_kept _ (ready.2 looked)⟩

theorem write_written (s : Streaming) (b : Buffer) (i : Int) (v : BitVec 16) {c : Buffer} {j : Int}
    (before : s.written c j = true) : (s.write b i v).written c j = true := by
  simp only [Streaming.write]
  split
  · rfl
  · exact before

theorem write_up_to (s : Streaming) (b : Buffer) (i : Int) (v : BitVec 16)
    (before : ∀ j, 0 ≤ j → j < i → s.written b j = true) :
    ∀ j, 0 ≤ j → j < i + 1 → (s.write b i v).written b j = true := by
  intro j lower upper
  by_cases last : j = i
  · simp [Streaming.write, last]
  · exact write_written s b i v (before j lower (by omega))

/-- The fill got as far in what has been written since, in its own buffer. -/
theorem FillPc.Progress.mono {fill : FillPc} {written written' : Buffer → Int → Bool}
    (progress : fill.Progress written)
    (more : ∀ b, fill.buffer = some b → ∀ j, written b j = true → written' b j = true) :
    fill.Progress written' := by
  cases fill with
  | copying b i size =>
    obtain ⟨lower, upper, fits, before⟩ := progress
    exact ⟨lower, upper, fits, fun j low high => more b rfl j (before j low high)⟩
  | clearing b i =>
    obtain ⟨lower, upper, before⟩ := progress
    exact ⟨lower, upper, fun j low high => more b rfl j (before j low high)⟩
  | _ => trivial

theorem TurnInvariant.write (inv : TurnInvariant s) (b : Buffer) (i : Int) (v : BitVec 16) :
    TurnInvariant (s.write b i v) := by
  have still_whole (c : Buffer) (whole : s.Whole c) : (s.write b i v).Whole c :=
    fun j lower upper => write_written s b i v (whole j lower upper)
  exact
    { apart := inv.apart
      progress := inv.progress.mono fun _ _ _ => write_written s b i v
      ready := inv.ready.mono (fun c => Or.imp_right (still_whole c)) still_whole }

/-- The fill goes on in the same buffer, or there is none before and after. -/
theorem TurnInvariant.goOn (inv : TurnInvariant s) (pc : FillPc) (same : pc.buffer = s.fill.buffer)
    (progress : pc.Progress s.written) (bufferEmpty audioIrqDoneSem : Sema) :
    TurnInvariant { s with fill := pc, bufferEmpty, audioIrqDoneSem } where
  apart := by
    intro b here
    exact inv.apart b (same.symm.trans here)
  progress := progress
  ready := inv.ready.mono (fun _ => Or.imp_left same.trans) fun _ whole => whole

theorem TurnInvariant.fillUp (inv : TurnInvariant s) {b : Buffer} (filling : s.fill.buffer = some b)
    (whole : s.Whole b) : TurnInvariant { s with fill := .loop } := by
  refine ⟨fun _ none_yet => (nomatch none_yet), trivial, inv.ready.mono (fun c kept => ?_)
    fun _ whole => whole⟩
  rcases kept with same | whole_c
  · cases filling.symm.trans same
    exact .inr whole
  · exact .inr whole_c

/-- `fillBuffer` chooses a buffer that is neither playing nor on its way out. -/
theorem TurnInvariant.choose (inv : TurnInvariant s) (woken : s.fill.buffer = none)
    (silent : fillBuf s.pcmflip ∉ s.playing) (staying : s.out.buffer ≠ some (fillBuf s.pcmflip)) :
    TurnInvariant { s with fill := .chosen (fillBuf s.pcmflip), looked := true } := by
  refine ⟨fun b chosen => ?_, trivial, ?_⟩
  · cases chosen
    exact ⟨silent, staying⟩
  · have ready := inv.ready
    have still_kept (b : Buffer) (kept : s.Kept b) :
        Streaming.Kept { s with fill := .chosen (fillBuf s.pcmflip), looked := true } b :=
      kept.elim (fun same => nomatch woken.symm.trans same) .inr
    cases here : s.out with
    | picked b =>
      rw [here] at ready
      exact ⟨ready.1, ready.2.1, fun _ => .inl rfl⟩
    | flipped b | signalled b =>
      rw [here] at ready staying
      exact absurd (congrArg some ready.1) staying
    | _ =>
      rw [here] at ready
      exact ⟨fun looked => still_kept _ (ready.1 looked), fun _ => .inl rfl⟩

theorem fillStep_invariant {t : Streaming} {stream : Stream} (inv : TurnInvariant s)
    (turns : TakesTurns s (.fill stream)) (taken : fillStep s stream = some t) :
    TurnInvariant t := by
  cases here : s.fill with
  | loop =>
    simp only [fillStep, here, Option.some.injEq] at taken
    subst taken
    split
    · exact inv.goOn .ended (by rw [here]; rfl) trivial _ _
    · exact inv.goOn .waiting (by rw [here]; rfl) trivial _ _
  | waiting =>
    simp only [fillStep, here, Option.map_eq_some_iff] at taken
    obtain ⟨sema, _, rfl⟩ := taken
    exact inv.goOn .woken (by rw [here]; rfl) trivial sema _
  | woken =>
    simp only [fillStep, here, Option.some.injEq] at taken
    subst taken
    simp only [TakesTurns, here] at turns
    exact inv.choose (by rw [here]; rfl) turns.1 turns.2
  | chosen b =>
    simp only [fillStep, here, Option.some.injEq] at taken
    subst taken
    split
    · exact inv.goOn (.triggered b) (by rw [here]; rfl) trivial _ _
    · exact inv.goOn (.clearing b 0) (by rw [here]; rfl) ⟨Int.le_refl 0, by decide, by omega⟩ _ _
  | triggered b =>
    simp only [fillStep, here, Option.map_eq_some_iff] at taken
    obtain ⟨sema, _, rfl⟩ := taken
    exact inv.goOn (.acked b) (by rw [here]; rfl) trivial _ sema
  | acked b =>
    simp only [fillStep, here] at taken
    simp only [TakesTurns, here] at turns
    split at taken
    next count given =>
      cases taken
      have some_bytes := turns count given
      exact inv.goOn (.copying b 0 (workSize count)) (by rw [here]; rfl)
        ⟨Int.le_refl 0, Int.tdiv_nonneg some_bytes (by decide), workSize_le count, by omega⟩ _ _
    · cases taken
      exact inv.goOn (.clearing b 0) (by rw [here]; rfl) ⟨Int.le_refl 0, by decide, by omega⟩ _ _
  | copying b i size =>
    have filling : s.fill.buffer = some b := by rw [here]; rfl
    have progress := inv.progress
    rw [here] at progress
    obtain ⟨lower, upper, fits, before⟩ := progress
    simp only [fillStep, here] at taken
    split at taken
    next more =>
      cases taken
      exact (inv.write b i _).goOn (.copying b (i + 1) size) filling.symm
        ⟨by omega, by omega, fits, write_up_to s b i _ before⟩ _ _
    next copied =>
      have all : i = size.tdiv 2 := by omega
      split at taken
      next short =>
        cases taken
        exact inv.goOn (.clearing b (size.tdiv 2)) filling.symm
          ⟨by omega, copy_inside fits, all ▸ before⟩ _ _
      next full =>
        cases taken
        apply inv.fillUp filling
        intro j low high
        have half := blockSamples
        have whole : size = audioBlockSize := by omega
        exact before j low (by rw [all, whole]; exact high)
  | clearing b i =>
    have filling : s.fill.buffer = some b := by rw [here]; rfl
    have progress := inv.progress
    rw [here] at progress
    obtain ⟨lower, upper, before⟩ := progress
    simp only [fillStep, here] at taken
    split at taken
    next more =>
      cases taken
      exact (inv.write b i 0).goOn (.clearing b (i + 1)) filling.symm
        ⟨by omega, by omega, write_up_to s b i 0 before⟩ _ _
    next cleared =>
      cases taken
      apply inv.fillUp filling
      intro j low high
      exact before j low (by omega)
  | ended => simp [fillStep, here] at taken

theorem playBuf_not (pcmflip : Bool) : playBuf (!pcmflip) = fillBuf pcmflip := by
  cases pcmflip <;> rfl

theorem fillBuf_not (pcmflip : Bool) : fillBuf (!pcmflip) = playBuf pcmflip := by
  cases pcmflip <;> rfl

theorem playBuf_ne_fillBuf (pcmflip : Bool) : playBuf pcmflip ≠ fillBuf pcmflip := by
  cases pcmflip <;> decide

theorem outStep_invariant {t : Streaming} (inv : TurnInvariant s) (turns : TakesTurns s .out)
    (taken : outStep s = some t) : TurnInvariant t := by
  have ready := inv.ready
  cases here : s.out with
  | loop =>
    simp only [outStep, here, Option.some.injEq] at taken
    subst taken
    rw [here] at ready
    refine ⟨fun b filling => ⟨(inv.apart b filling).1, ?_⟩, inv.progress, ?_⟩
    · cases s.stopped <;> exact fun leaving => nomatch leaving
    · cases s.stopped <;> exact ready
  | picking =>
    simp only [outStep, here, Option.some.injEq] at taken
    subst taken
    rw [here] at ready
    obtain ⟨looked_before, idle⟩ := turns here
    have whole : s.Whole (playBuf s.pcmflip) := (ready.1 looked_before).resolve_left idle
    refine ⟨fun b filling => ⟨(inv.apart b filling).1, ?_⟩, inv.progress, rfl, whole, ready.2⟩
    rintro ⟨⟩
    exact idle filling
  | picked b =>
    simp only [outStep, here, Option.some.injEq] at taken
    subst taken
    rw [here] at ready
    obtain ⟨same, whole, kept⟩ := ready
    refine ⟨fun c filling => ⟨(inv.apart c filling).1, ?_⟩, inv.progress, ?_, whole, rfl, ?_⟩
    · have leaving := (inv.apart c filling).2
      rw [here] at leaving
      exact leaving
    · rw [same]
      exact (fillBuf_not s.pcmflip).symm
    · show s.looked = true → s.Kept (playBuf (!s.pcmflip))
      rw [playBuf_not]
      exact kept
  | flipped b =>
    simp only [outStep, here, Option.some.injEq] at taken
    subst taken
    rw [here] at ready
    refine ⟨fun c filling => ⟨(inv.apart c filling).1, ?_⟩, inv.progress, ready⟩
    have leaving := (inv.apart c filling).2
    rw [here] at leaving
    exact leaving
  | signalled b =>
    simp only [outStep, here, Option.some.injEq] at taken
    subst taken
    rw [here] at ready
    obtain ⟨same, _, not_looked, kept⟩ := ready
    have others {c : Buffer} (other : c ≠ b) {j : Int} (before : s.written c j = true) :
        (if c = b then false else s.written c j) = true := by
      rw [if_neg other]
      exact before
    have not_leaving {c : Buffer} (filling : s.fill.buffer = some c) : c ≠ b := by
      rintro rfl
      exact (inv.apart c filling).2 (by rw [here]; rfl)
    refine ⟨fun c filling => ⟨?_, fun leaving => nomatch leaving⟩,
      inv.progress.mono fun c filling _ => others (not_leaving filling), fun looked => ?_, ?_⟩
    · have silent := (inv.apart c filling).1
      simp [silent, not_leaving filling]
    · have other : playBuf s.pcmflip ≠ b := by
        rw [same]
        exact playBuf_ne_fillBuf s.pcmflip
      exact (kept looked).imp_right fun whole i lower upper => others other (whole i lower upper)
    · intro looked
      cases not_looked.symm.trans looked
  | output =>
    simp only [outStep, here, Option.some.injEq] at taken
    subst taken
    rw [here] at ready
    exact ⟨fun b filling => ⟨(inv.apart b filling).1, fun leaving => nomatch leaving⟩,
      inv.progress, ready⟩
  | ended => simp [outStep, here] at taken

theorem step_turnInvariant {t : Streaming} {a : Action} (inv : TurnInvariant s)
    (turns : TakesTurns s a) (taken : streamingStep s a = some t) : TurnInvariant t := by
  cases a with
  | fill stream => exact fillStep_invariant inv turns taken
  | out => exact outStep_invariant inv turns taken
  | finish =>
    simp only [streamingStep] at taken
    split at taken
    · cases taken
    next rest playing =>
      cases taken
      refine ⟨fun b filling => ?_, inv.progress, inv.ready⟩
      obtain ⟨silent, staying⟩ := inv.apart b filling
      rw [playing] at silent
      exact ⟨fun later => silent (.tail _ later), staying⟩
  | audioInterrupt | audioExit =>
    cases taken
    exact ⟨inv.apart, inv.progress, inv.ready⟩

theorem audioInit_turnInvariant : TurnInvariant audioInit where
  apart := fun _ filling => nomatch filling
  progress := trivial
  ready := ⟨fun _ => .inr fun _ _ _ => rfl, fun _ => .inr fun _ _ _ => rfl⟩

/-- Where the threads take turns, no buffer is filled while it plays, and none is handed out before
it has been filled again. -/
theorem taking_turns_sound {actions : List Action} {s : Streaming}
    (run : Run streamingStep TakesTurns audioInit actions s) : Sound s :=
  (run.invariant (fun _ _ _ => step_turnInvariant) audioInit_turnInvariant).sound

/-- The state after some actions. -/
def afterActions (actions : List Action) : Streaming :=
  (exec streamingStep audioInit actions).getD audioInit

/-- Nothing but silence to play. -/
def silence : Action := .fill ⟨0, none, 0⟩

/-- A buffer is chosen, and filled while the other one plays. -/
def oneTurn : List Action :=
  List.replicate 3 silence ++ List.replicate 6 .out ++ List.replicate 3 silence

theorem taking_turns_sound_oneTurn : Sound (afterActions oneTurn) := by
  have run : Run streamingStep TakesTurns audioInit oneTurn (afterActions oneTurn) :=
    run_of_guarded_exec rfl
  exact taking_turns_sound run

/-- `fillBuffer` comes round before the buffer has been played. -/
theorem filled_while_playing :
    ¬∀ (actions : List Action) (s : Streaming),
      Run streamingStep Free audioInit actions s → Sound s := by
  intro all
  have sound := all (List.replicate 5 .out ++ List.replicate 4 silence) _ (run_of_exec rfl)
  exact (sound.writes .pcmout2 0 rfl).2.2 (List.mem_singleton_self _)

end BasiliskII.Audio
