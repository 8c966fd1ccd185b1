import BasiliskII.Cpu.ExecuteLoop
import BasiliskII.Library.PressLog

/-!
# The sound output component

`AudioDispatch` of audio.cpp. Guest code that it calls, `AudioGetInfo` and
`AudioSetInfo` are parameters of a call: the last two look at the stream format
and the tables of formats, which nothing else here depends on.
-/
namespace BasiliskII.Audio

open ByteMemory PressLog
open BasiliskII.Cpu (M68kRegisters Call)

/-- Int16 and int32 results, in a register. -/
def noErr : BitVec 32 := 0
def memFullErr : BitVec 32 := BitVec.ofInt 32 (-108)
def openErr : BitVec 32 := BitVec.ofInt 32 (-23)
def noHardwareErr : BitVec 32 := BitVec.ofInt 32 (-200)
def badComponentSelector : BitVec 32 := 0x80008002

-- Fields of `ComponentParameters` and `SoundComponentData`.
def cpWhat : BitVec 32 := 2
def cpParams : BitVec 32 := 4
def scdFlags : BitVec 32 := 0
def scdFormat : BitVec 32 := 4
def scdNumChannels : BitVec 32 := 8
def scdSampleSize : BitVec 32 := 10
def scdSampleRate : BitVec 32 := 12
def scdSampleCount : BitVec 32 := 16
def scdBuffer : BitVec 32 := 20
def scdReserved : BitVec 32 := 24

-- Component global data and 68k routines.
def adatDelegateCall : BitVec 32 := 0
def adatOpenMixer : BitVec 32 := 14
def adatCloseMixer : BitVec 32 := 36
def adatGetInfo : BitVec 32 := 54
def adatSetInfo : BitVec 32 := 78
def adatPlaySourceBuffer : BitVec 32 := 102
def adatGetSourceData : BitVec 32 := 126
def adatStartSource : BitVec 32 := 146
def adatData : BitVec 32 := 168
def adatMixer : BitVec 32 := 196
def adatStreamInfo : BitVec 32 := 200
def sizeofAdat : BitVec 32 := 204

/-- What `AudioDispatch` switches on. -/
inductive Selector
  | openComponent | closeComponent | canDo | version | register
  | initOutputDevice | getSource | addSource | removeSource | getInfo | setInfo
  | startSource | stopSource | pauseSource | playSourceBuffer
  | other (delegated : Bool)
  deriving DecidableEq, Repr

def selectorOf (what : Int) : Selector :=
  if what = -1 then .openComponent
  else if what = -2 then .closeComponent
  else if what = -3 then .canDo
  else if what = -4 then .version
  else if what = -5 then .register
  else if what = 1 then .initOutputDevice
  else if what = 3 then .getSource
  else if what = 0x101 then .addSource
  else if what = 0x102 then .removeSource
  else if what = 0x103 then .getInfo
  else if what = 0x104 then .setInfo
  else if what = 0x105 then .startSource
  else if what = 0x106 then .stopSource
  else if what = 0x107 then .pauseSource
  else if what = 0x108 then .playSourceBuffer
  else .other (what ≥ 0x100)

/-- What guest code makes of the registers it is given and of memory. -/
abbrev Guest := Call → M68kRegisters → Memory 32 → M68kRegisters × Memory 32

/-- The format in `AudioStatus`. -/
structure Format where
  sampleRate : BitVec 32
  sampleSize : BitVec 32
  channels : BitVec 32
  framesPerBlock : BitVec 32

structure Env where
  guest : Guest
  /-- What the local `r` holds before anything is put into it. -/
  r : M68kRegisters
  audioOpen : Bool
  format : Format
  audioGetInfo : BitVec 32 → BitVec 32 → BitVec 32 → Memory 32 → BitVec 32 × Memory 32
  audioSetInfo : BitVec 32 → BitVec 32 → BitVec 32 → Memory 32 → BitVec 32 × Memory 32

/-- What the component takes and gives back: a block by `NewPtrClear` and `DisposePtr`, the stream
by `audio_enter_stream` and `audio_exit_stream`. -/
inductive Resource
  | block (a : BitVec 32)
  | stream
  deriving DecidableEq

structure AudioState where
  audioData : BitVec 32
  openCount : Int
  mixer : BitVec 32
  numSources : Int
  audioAvailable : Bool
  mem : Memory 32
  /-- A press takes a resource, a release gives it back. -/
  log : List (Event Resource)

def AudioState.record (st : AudioState) (e : Event Resource) : AudioState :=
  { st with log := st.log ++ [e] }

section Registers

variable (r : M68kRegisters) (num : BitVec 3) (value : BitVec 32)

def setD : M68kRegisters := { r with d := fun k => if k = num then value else r.d k }

def setA : M68kRegisters := { r with a := fun k => if k = num then value else r.a k }

end Registers

/-- `WriteMacInt16` or `WriteMacInt32` of a constant. -/
inductive Code
  | word (v : BitVec 16)
  | long (v : BitVec 32)

def Code.size : Code → BitVec 32
  | .word _ => 2
  | .long _ => 4

def Code.write (mem : Memory 32) (p : BitVec 32) : Code → Memory 32
  | .word v => putWord mem p v
  | .long v => putLong mem p v

def writeCode (mem : Memory 32) (p : BitVec 32) : List Code → Memory 32 × BitVec 32
  | [] => (mem, p)
  | c :: rest => writeCode (c.write mem p) (p + c.size) rest

/-- The 68k routines, each with the offset it has to end at. -/
def routines : List (List Code × BitVec 32) :=
  [([.word 0x598f, .word 0x2f09, .word 0x2f08, .word 0x7024, .word 0xa82a, .word 0x201f,
      .word 0x4e75], adatOpenMixer),
    ([.word 0x558f, .word 0x2f09, .word 0x2f00, .word 0x2f08, .word 0x203c, .long 0x06140018,
      .word 0xa800, .word 0x301f, .word 0x48c0, .word 0x4e75], adatCloseMixer),
    ([.word 0x558f, .word 0x2f08, .word 0x203c, .long 0x02180018, .word 0xa800, .word 0x301f,
      .word 0x48c0, .word 0x4e75], adatGetInfo),
    ([.word 0x598f, .word 0x2f0a, .word 0x2f09, .word 0x2f00, .word 0x2f08, .word 0x2f3c,
      .long 0x000c0103, .word 0x7000, .word 0xa82a, .word 0x201f, .word 0x4e75], adatSetInfo),
    ([.word 0x598f, .word 0x2f0a, .word 0x2f09, .word 0x2f00, .word 0x2f08, .word 0x2f3c,
      .long 0x000c0104, .word 0x7000, .word 0xa82a, .word 0x201f, .word 0x4e75],
      adatPlaySourceBuffer),
    ([.word 0x598f, .word 0x2f0a, .word 0x2f09, .word 0x2f08, .word 0x2f00, .word 0x2f3c,
      .long 0x000c0108, .word 0x7000, .word 0xa82a, .word 0x201f, .word 0x4e75],
      adatGetSourceData),
    ([.word 0x598f, .word 0x2f09, .word 0x2f08, .word 0x2f3c, .long 0x00040004, .word 0x7000,
      .word 0xa82a, .word 0x201f, .word 0x4e75], adatStartSource),
    ([.word 0x598f, .word 0x2f09, .word 0x3f00, .word 0x2f08, .word 0x2f3c, .long 0x00060105,
      .word 0x7000, .word 0xa82a, .word 0x201f, .word 0x4e75], adatData)]

/-- Puts routines in from `p` on, up to the first one that does not end where it has to. -/
def writeRoutines (audioData : BitVec 32) :
    List (List Code × BitVec 32) → Memory 32 → BitVec 32 → Bool × Memory 32
  | [], mem, _ => (true, mem)
  | (code, ending) :: rest, mem, p =>
    let (mem, p) := writeCode mem p code
    if p - audioData ≠ ending then (false, mem) else writeRoutines audioData rest mem p

section Dispatch

variable (env : Env) (st : AudioState)

/-- `Execute68k` or `Execute68kTrap`. -/
def execute (call : Call) (r : M68kRegisters) : M68kRegisters × AudioState :=
  let (r, mem) := env.guest call r st.mem
  (r, { st with mem := mem })

/-- What `kComponentOpenSelect` ends with. -/
def countOpen : AudioState :=
  let st := { st with audioAvailable := true }
  let st := if st.openCount = 0 then st.record (.press .stream) else st
  { st with openCount := st.openCount + 1 }

def openComponent : BitVec 32 × AudioState :=
  if st.audioData = 0 then
    -- Allocate global data area
    let (r, st) := execute env st (.trap 0xa040) (setD env.r 0 sizeofAdat)
    let (r, st) := execute env st (.trap 0xa31e) (setD r 0 sizeofAdat)
    if r.a 0 = 0 then (memFullErr, st)
    else
      let st := { st with audioData := r.a 0 }.record (.press (.block (r.a 0)))
      -- Put in 68k routines
      let (written, mem) :=
        writeRoutines st.audioData routines st.mem (st.audioData + adatDelegateCall)
      let st := { st with mem := mem }
      if written then (noErr, countOpen st) else (openErr, st)
  else (noErr, countOpen st)

def closeComponent : BitVec 32 × AudioState :=
  let st := { st with openCount := st.openCount - 1 }
  if st.openCount = 0 then
    if st.audioData ≠ 0 ∧ st.mixer ≠ 0 then
      -- Close Apple Mixer
      let (r, st) :=
        execute env st (.subroutine (st.audioData + adatCloseMixer)) (setA env.r 0 st.mixer)
      (r.d 0, { st with mixer := 0 })
    else
      let st :=
        if st.audioData ≠ 0 then
          let (_, st) := execute env st (.trap 0xa01f) (setA env.r 0 st.audioData)
          { st with audioData := 0 }.record (.release (.block st.audioData))
        else st
      (noErr, { st with numSources := 0 }.record (.release .stream))
  else (noErr, st)

/-- `kComponentCanDoSelect` -/
def canDo (selector : Selector) : BitVec 32 :=
  match selector with
  | .openComponent | .closeComponent | .canDo | .version | .register | .initOutputDevice
  | .getSource | .getInfo | .setInfo | .startSource => 1
  | _ => 0

/-- `FOURCC('t','w','o','s')` for 16 bits, `FOURCC('r','a','w',' ')` for 8. -/
def Format.fourcc (format : Format) : BitVec 32 :=
  if format.sampleSize = 16 then 0x74776f73 else 0x72617720

/-- `SoundComponentData` at `scd`. -/
def writeSoundData (format : Format) (mem : Memory 32) (scd : BitVec 32) : Memory 32 :=
  let mem := putLong mem (scd + scdFlags) 0
  let mem := putLong mem (scd + scdFormat) format.fourcc
  let mem := putWord mem (scd + scdNumChannels) (format.channels.setWidth 16)
  let mem := putWord mem (scd + scdSampleSize) (format.sampleSize.setWidth 16)
  let mem := putLong mem (scd + scdSampleRate) format.sampleRate
  let mem := putLong mem (scd + scdSampleCount) format.framesPerBlock
  let mem := putLong mem (scd + scdBuffer) 0
  putLong mem (scd + scdReserved) 0

def initOutputDevice : BitVec 32 × AudioState :=
  if !env.audioOpen then (noHardwareErr, st)
  else if st.mixer ≠ 0 then (noErr, st)
  else
    -- Init sound component data
    let mem := writeSoundData env.format st.mem (st.audioData + adatData)
    let st := { st with mem := putLong mem (st.audioData + adatStreamInfo) 0 }
    -- Open Apple Mixer
    let r := setA (setD (setA env.r 0 (st.audioData + adatMixer)) 0 0) 1 (st.audioData + adatData)
    let (r, st) := execute env st (.subroutine (st.audioData + adatOpenMixer)) r
    (r.d 0, { st with mixer := getLong st.mem (st.audioData + adatMixer) })

/-- `delegate`: the call goes on to the Apple Mixer. -/
def delegate (params : BitVec 32) : BitVec 32 × AudioState :=
  let (r, st) := execute env st (.subroutine (st.audioData + adatDelegateCall))
    (setA (setA env.r 0 st.mixer) 1 params)
  (r.d 0, st)

def startSource (p : BitVec 32) : BitVec 32 × AudioState :=
  let r := setD env.r 0 ((getWord st.mem (p + 4)).setWidth 32)
  let r := setA (setA r 0 (getLong st.mem p)) 1 st.mixer
  let (_, st) := execute env st (.subroutine (st.audioData + adatStartSource)) r
  (noErr, st)

def playSourceBuffer (p : BitVec 32) : BitVec 32 × AudioState :=
  let r := setD env.r 0 (getLong st.mem p)
  let r := setA (setA (setA r 0 (getLong st.mem (p + 4))) 1 (getLong st.mem (p + 8))) 2 st.mixer
  let (r, st) := execute env st (.subroutine (st.audioData + adatPlaySourceBuffer)) r
  (r.d 0, st)

/-- `AudioGetInfo` or `AudioSetInfo` with the parameters from `p` on. -/
def audioInfo (info : BitVec 32 → BitVec 32 → BitVec 32 → Memory 32 → BitVec 32 × Memory 32)
    (p : BitVec 32) : BitVec 32 × AudioState :=
  let (result, mem) :=
    info (getLong st.mem p) (getLong st.mem (p + 4)) (getLong st.mem (p + 8)) st.mem
  (result, { st with mem := mem })

/-- The selector of the call with parameters at `params`. -/
def selectorAt (mem : Memory 32) (params : BitVec 32) : Selector :=
  selectorOf (getWord mem (params + cpWhat)).toInt

def audioDispatch (params : BitVec 32) : BitVec 32 × AudioState :=
  let p := params + cpParams
  match selectorAt st.mem params with
  | .openComponent => openComponent env st
  | .closeComponent => closeComponent env st
  | .canDo => (canDo (selectorOf (getWord st.mem p).toInt), st)
  | .version => (0x00010003, st)
  | .register => (noErr, st)
  | .initOutputDevice => initOutputDevice env st
  | .getSource => (noErr, { st with mem := putLong st.mem (getLong st.mem p) st.mixer })
  | .addSource => delegate env { st with numSources := st.numSources + 1 } params
  | .removeSource => delegate env { st with numSources := st.numSources - 1 } params
  | .getInfo => audioInfo st env.audioGetInfo p
  | .setInfo => audioInfo st env.audioSetInfo p
  | .startSource => startSource env st p
  | .stopSource | .pauseSource => delegate env st params
  | .playSourceBuffer => playSourceBuffer env st p
  | .other true => delegate env st params
  | .other false => (badComponentSelector, st)

end Dispatch

/-- After `AudioInit` and `AudioReset`. -/
def audioReset (mem : Memory 32) : AudioState where
  audioData := 0
  openCount := 0
  mixer := 0
  numSources := 0
  audioAvailable := false
  mem := mem
  log := []

/-- A call of the component; `mem` is memory as guest code has left it. -/
structure DispatchCall where
  mem : Memory 32
  params : BitVec 32
  env : Env

def DispatchCall.selector (call : DispatchCall) : Selector := selectorAt call.mem call.params

def DispatchCall.run (call : DispatchCall) (st : AudioState) : BitVec 32 × AudioState :=
  audioDispatch call.env { st with mem := call.mem } call.params

def step (st : AudioState) (call : DispatchCall) : Option AudioState := some (call.run st).2

end BasiliskII.Audio
