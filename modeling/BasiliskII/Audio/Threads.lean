import Mathlib.Algebra.Order.Group.Int

/-!
# The streaming threads

`fillBuffer` and `audioOutput` of the PSP2 audio_psp.cpp, which share two
buffers, a flag and a semaphore. A thread takes one step for each access to
what they share, `AudioInterrupt` and `AudioExit` may come at any time, and the
hardware plays the buffers handed to `sceAudioOutOutput` in turn.
-/
namespace BasiliskII.Audio

/-- A semaphore of the kernel. -/
structure Sema where
  count : Nat
  maxCount : Nat

/-- `sceKernelSignalSema(sema, 1)`: beyond the maximum nothing happens. -/
def Sema.signal (sema : Sema) : Sema := { sema with count := min (sema.count + 1) sema.maxCount }

/-- `sceKernelWaitSema(sema, 1, 0)`, once it gets through. -/
def Sema.wait (sema : Sema) : Option Sema :=
  if sema.count = 0 then none else some { sema with count := sema.count - 1 }

inductive Buffer
  | pcmout1 | pcmout2
  deriving DecidableEq, Repr

/-- `fillbuf` -/
def fillBuf (pcmflip : Bool) : Buffer := if pcmflip then .pcmout2 else .pcmout1

/-- `playbuf` -/
def playBuf (pcmflip : Bool) : Buffer := if pcmflip then .pcmout1 else .pcmout2

/-- `audio_block_size`: 16 bits, two channels and 4096 frames. -/
def audioBlockSize : Int := (16 >>> 3) * 2 * 4096

/-- `work_size` for the `scd_sampleCount` of the stream, an `int`. -/
def workSize (sampleCount : BitVec 32) : Int :=
  let workSize := (sampleCount * (16 >>> 3) * 2).toInt
  if workSize > audioBlockSize then audioBlockSize else workSize

/-- Where `fillBuffer` is. `size` is `work_size`, `i` counts samples. -/
inductive FillPc
  | loop
  /-- At the wait for `bufferEmpty`. -/
  | waiting
  | woken
  | chosen (fillbuf : Buffer)
  /-- At the wait for `audio_irq_done_sem`. -/
  | triggered (fillbuf : Buffer)
  | acked (fillbuf : Buffer)
  /-- In the loop that copies. -/
  | copying (fillbuf : Buffer) (i size : Int)
  /-- In the `memset` to the end of the buffer. -/
  | clearing (fillbuf : Buffer) (i : Int)
  | ended
  deriving DecidableEq

/-- Where `audioOutput` is. -/
inductive OutPc
  | loop
  | picking
  | picked (playbuf : Buffer)
  | flipped (playbuf : Buffer)
  | signalled (playbuf : Buffer)
  /-- In `sceAudioOutOutput`. -/
  | output
  | ended
  deriving DecidableEq

/-- What `fillBuffer` reads of the emulated machine. -/
structure Stream where
  numSources : Int
  /-- `scd_sampleCount`, if there is a stream info. -/
  sampleCount : Option (BitVec 32)
  /-- The sample at `p[i]`, as it is in memory. -/
  sample : BitVec 16

structure Streaming where
  fill : FillPc
  out : OutPc
  pcmflip : Bool
  bufferEmpty : Sema
  audioIrqDoneSem : Sema
  /-- `sound_status` is 0xDEADBEEF. -/
  stopped : Bool
  pcm : Buffer → Int → BitVec 16
  /-- Handed to `sceAudioOutOutput` and not yet finished playing. -/
  playing : List Buffer
  /-- The samples written since the buffer was last handed out. -/
  written : Buffer → Int → Bool
  /-- `fillBuffer` has read `pcmflip` since that last changed, or it never changed. -/
  looked : Bool
  /-- It had before that change, after the one before, or there are no two changes. -/
  lookedBefore : Bool

inductive Action
  | fill (stream : Stream)
  | out
  /-- The hardware finishes a buffer. -/
  | finish
  | audioInterrupt
  | audioExit

def ntohs (v : BitVec 16) : BitVec 16 := v.extractLsb' 0 8 ++ v.extractLsb' 8 8

def Streaming.write (s : Streaming) (b : Buffer) (i : Int) (v : BitVec 16) : Streaming :=
  { s with
    pcm := fun c j => if c = b ∧ j = i then v else s.pcm c j
    written := fun c j => if c = b ∧ j = i then true else s.written c j }

def fillStep (s : Streaming) (stream : Stream) : Option Streaming :=
  match s.fill with
  | .loop => some { s with fill := if s.stopped then .ended else .waiting }
  | .waiting => s.bufferEmpty.wait.map fun sema => { s with fill := .woken, bufferEmpty := sema }
  | .woken => some { s with fill := .chosen (fillBuf s.pcmflip), looked := true }
  | .chosen b =>
    -- Without sources silence is played, else the audio interrupt is triggered.
    some { s with fill := if stream.numSources ≠ 0 then .triggered b else .clearing b 0 }
  | .triggered b =>
    s.audioIrqDoneSem.wait.map fun sema => { s with fill := .acked b, audioIrqDoneSem := sema }
  | .acked b =>
    match stream.sampleCount with
    | some sampleCount => some { s with fill := .copying b 0 (workSize sampleCount) }
    | none => some { s with fill := .clearing b 0 }
  | .copying b i size =>
    if i < size.tdiv 2 then
      some { s.write b i (ntohs stream.sample) with fill := .copying b (i + 1) size }
    else if size < audioBlockSize then
      -- last block - clear to end of buffer
      some { s with fill := .clearing b (size.tdiv 2) }
    else some { s with fill := .loop }
  | .clearing b i =>
    if i < audioBlockSize / 2 then some { s.write b i 0 with fill := .clearing b (i + 1) }
    else some { s with fill := .loop }
  | .ended => none

def outStep (s : Streaming) : Option Streaming :=
  match s.out with
  | .loop => some { s with out := if s.stopped then .ended else .picking }
  | .picking => some { s with out := .picked (playBuf s.pcmflip) }
  | .picked b =>
    some { s with
      out := .flipped b
      pcmflip := !s.pcmflip
      looked := false
      lookedBefore := s.looked }
  | .flipped b => some { s with out := .signalled b, bufferEmpty := s.bufferEmpty.signal }
  | .signalled b =>
    some { s with
      out := .output
      playing := s.playing ++ [b]
      written := fun c i => if c = b then false else s.written c i }
  -- It may return before or after the buffer has been played.
  | .output => some { s with out := .loop }
  | .ended => none

def streamingStep (s : Streaming) : Action → Option Streaming
  | .fill stream => fillStep s stream
  | .out => outStep s
  | .finish =>
    match s.playing with
    | [] => none
    | _ :: rest => some { s with playing := rest }
  | .audioInterrupt => some { s with audioIrqDoneSem := s.audioIrqDoneSem.signal }
  | .audioExit => some { s with stopped := true, bufferEmpty := s.bufferEmpty.signal }

/-- After `AudioInit`. The buffers are static: they hold silence. -/
def audioInit : Streaming where
  fill := .loop
  out := .loop
  pcmflip := false
  bufferEmpty := ⟨1, 1⟩
  audioIrqDoneSem := ⟨0, 1⟩
  stopped := false
  pcm := fun _ _ => 0
  playing := []
  written := fun _ _ => true
  looked := true
  lookedBefore := true

end BasiliskII.Audio
