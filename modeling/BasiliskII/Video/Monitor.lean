/-!
# Monitors

The part of `monitor_desc` (video.h, video.cpp) that describes a monitor to the
Mac: its modes, the mode it is in, and the Apple mode numbers of its depths.
-/
namespace BasiliskII.Video

inductive VideoDepth
  | depth1bit | depth2bit | depth4bit | depth8bit | depth16bit | depth32bit
  deriving DecidableEq, Repr

def VideoDepth.all : List VideoDepth :=
  [.depth1bit, .depth2bit, .depth4bit, .depth8bit, .depth16bit, .depth32bit]

structure VideoMode where
  x : BitVec 32
  y : BitVec 32
  resolutionId : BitVec 32
  depth : VideoDepth
  bytesPerRow : BitVec 32
  deriving DecidableEq, Repr

/-- `TrivialBytesPerRow`. -/
def trivialBytesPerRow (width : BitVec 32) : VideoDepth → BitVec 32
  | .depth1bit => width / 8
  | .depth2bit => width / 4
  | .depth4bit => width / 2
  | .depth8bit => width
  | .depth16bit => width * 2
  | .depth32bit => width * 4

structure MonitorDesc where
  slotId : BitVec 8
  modes : List VideoMode
  /-- The mode the iterator `current_mode` points to. -/
  currentMode : VideoMode
  macFrameBase : BitVec 32

def MonitorDesc.hasDepth (m : MonitorDesc) (depth : VideoDepth) : Bool :=
  m.modes.any (·.depth = depth)

/-- The loop of the constructor that numbers the depths, for the depth that is asked for. -/
def appleModeLoop (has : VideoDepth → Bool) (depth : VideoDepth) :
    List VideoDepth → BitVec 16 → BitVec 16
  | [], _ => 0
  | d :: ds, mode =>
    if d = depth then (if has d then mode else 0)
    else appleModeLoop has depth ds (if has d then mode + 1 else mode)

def MonitorDesc.depthToAppleMode (m : MonitorDesc) (depth : VideoDepth) : BitVec 16 :=
  appleModeLoop m.hasDepth depth VideoDepth.all 0x80

/-- X and Y size of a resolution; zero if there is none with this ID. -/
def MonitorDesc.getSizeOfResolution (m : MonitorDesc) (id : BitVec 32) : BitVec 32 × BitVec 32 :=
  match m.modes.find? (·.resolutionId = id) with
  | some mode => (mode.x, mode.y)
  | none => (0, 0)

/-- Bytes per row of a mode, or a guess if the monitor does not have it. -/
def MonitorDesc.getBytesPerRow (m : MonitorDesc) (depth : VideoDepth) (id : BitVec 32) :
    BitVec 32 :=
  match m.modes.find? fun mode => mode.depth = depth && mode.resolutionId = id with
  | some mode => mode.bytesPerRow
  | none => trivialBytesPerRow (m.getSizeOfResolution id).1 depth

end BasiliskII.Video
