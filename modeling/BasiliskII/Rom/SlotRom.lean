import BasiliskII.Library.ByteBuilder
import BasiliskII.Stdio
import BasiliskII.Video.Monitor

/-!
# The slot declaration ROM

The data `InstallSlotROM` (slot_rom.cpp) builds in `srom` before it copies it
into the Mac ROM. The index `p` is the length of what has been built. The parts
of the function have names of their own here, after its comments, and each
gives the pointers that later parts refer to.
-/
namespace BasiliskII.Rom

open ByteBuilder Video

abbrev Ptr := BitVec 32

/-- The index `p`. -/
def here : Builder Ptr := do return BitVec.ofNat 32 (← position)

/-- A type byte and the low 24 bits of a number. -/
def entryBytes (type : BitVec 8) (data : BitVec 32) : List (BitVec 8) :=
  [type, data.extractLsb' 16 8, data.extractLsb' 8 8, data.extractLsb' 0 8]

def rsrc (type : BitVec 8) (data : BitVec 32) : Builder Unit := emit (entryBytes type data)

/-- `Offs`: the number is the distance from this entry. -/
def offs (type : BitVec 8) (ptr : Ptr) : Builder Unit := do
  let p ← here
  rsrc type (ptr - p)

def endOfList : Builder Unit := emit [0xff, 0, 0, 0]

def long (data : BitVec 32) : Builder Unit := emit (longBytes data)

def word (data : BitVec 16) : Builder Unit := emit (wordBytes data)

/-- A row of calls of `Word`. -/
def words (data : List (BitVec 16)) : Builder Unit := data.forM word

/-- A row of calls of `Long`. -/
def longs (data : List (BitVec 32)) : Builder Unit := data.forM long

def padToEven : Builder Unit := do
  let p ← position
  if p % 2 = 1 then emit [0] else pure ()

def charBytes (str : CString) : List (BitVec 8) := str.map UInt8.toBitVec

/-- `String`: the characters and the zero, padded to even. -/
def string (str : CString) : Builder Unit := do
  emit (charBytes str ++ [0])
  padToEven

/-- `PString`: the zero is written, but the index goes back over it. -/
def pString (str : CString) : Builder Unit := do
  emit (BitVec.ofNat 8 str.length :: charBytes str)
  padToEven

theorem run_here (start : List (BitVec 8)) : (here.run start).1 = BitVec.ofNat 32 start.length :=
  rfl

theorem block_here (start : List (BitVec 8)) : here.block start = start := rfl

theorem block_long (data : BitVec 32) (start : List (BitVec 8)) :
    (long data).block start = start ++ longBytes data :=
  rfl

theorem block_word (data : BitVec 16) (start : List (BitVec 8)) :
    (word data).block start = start ++ wordBytes data :=
  rfl

theorem block_offs (type : BitVec 8) (ptr : Ptr) (start : List (BitVec 8)) :
    (offs type ptr).block start =
      start ++ entryBytes type (ptr - BitVec.ofNat 32 start.length) :=
  rfl

instance : Appends 0 here := by
  unfold here
  refine .next (by decide) fun _ => ?_
  infer_instance

instance (type : BitVec 8) (data : BitVec 32) : Appends 4 (rsrc type data) :=
  .emit (entryBytes type data)

instance (type : BitVec 8) (ptr : Ptr) : Appends 4 (offs type ptr) := by
  unfold offs
  refine .next (by decide) fun _ => ?_
  infer_instance

instance : Appends 4 endOfList := .emit [0xff, 0, 0, 0]

instance (data : BitVec 32) : Appends 4 (long data) := .emit (longBytes data)

instance (data : BitVec 16) : Appends 2 (word data) := .emit (wordBytes data)

instance (data : List (BitVec 16)) : Appends (data.length * 2) (words data) := .forM data

instance (data : List (BitVec 32)) : Appends (data.length * 4) (longs data) := .forM data

instance : Appends 1 padToEven := by
  unfold padToEven
  refine .next (by decide) fun _ => ?_
  infer_instance

theorem charBytes_length (str : CString) : (charBytes str).length = str.length :=
  List.length_map _

instance (str : CString) : Appends (str.length + 2) (string str) := by
  have chars := Appends.emit (charBytes str ++ [0])
  rw [List.length_append, charBytes_length] at chars
  exact chars.bind (n := 1) fun _ => inferInstance

instance (str : CString) : Appends (str.length + 2) (pString str) := by
  have chars := Appends.emit (BitVec.ofNat 8 str.length :: charBytes str)
  rw [List.length_cons, charBytes_length] at chars
  exact chars.bind (n := 1) fun _ => inferInstance

end BasiliskII.Rom

/-!
## What the slot declaration ROM declares

The calls `InstallSlotROM` makes before it copies the ROM. Each part comes with
a bound on the bytes it appends; together they stay within `srom`.
-/
namespace BasiliskII.Rom

open ByteBuilder Video

/-- What `__DATE__` expands to: eleven characters. -/
structure BuildDate where
  text : CString
  length_eq : text.length = 11

def versionMajor : Int := 1

def versionMinor : Int := 1

def m68kEmulOpVideoOpen : BitVec 16 := 0x7118

def m68kEmulOpVideoControl : BitVec 16 := 0x7119

def m68kEmulOpVideoStatus : BitVec 16 := 0x711a

def m68kEmulOpEtherOpen : BitVec 16 := 0x7120

def m68kEmulOpEtherControl : BitVec 16 := 0x7121

/-- `sprintf(str, "V%d.%d", VERSION_MAJOR, VERSION_MINOR)`. -/
def revisionText : CString :=
  ascii "V" ++ formatInt versionMajor ++ ascii "." ++ formatInt versionMinor

/-- The pixel type, the pixel size, the component count and the component size of a depth. -/
def pixelWords : VideoDepth → List (BitVec 16)
  | .depth1bit => [0, 1, 1, 1]
  | .depth2bit => [0, 2, 1, 2]
  | .depth4bit => [0, 4, 1, 4]
  | .depth8bit => [0, 8, 1, 8]
  | .depth16bit => [16, 16, 3, 5]
  | .depth32bit => [16, 32, 3, 8]

def pixelDescription (depth : VideoDepth) : Builder Unit := words (pixelWords depth)

instance (depth : VideoDepth) : Appends 8 (pixelDescription depth) := by
  unfold pixelDescription
  cases depth <;> exact inferInstanceAs (Appends _ (words _))

def vModeParms (m : MonitorDesc) (depth : VideoDepth) : Builder Ptr := do
  let mode := m.currentMode
  let ret ← here
  longs [50, 0]
  word ((m.getBytesPerRow depth mode.resolutionId).truncate 16)
  words [0, 0]
  word (mode.y.truncate 16)
  word (mode.x.truncate 16)
  words [0, 0]  -- version and pack type
  longs [0, 0x00480000, 0x00480000]
  pixelDescription depth
  longs [0, 0]
  return ret

instance (m : MonitorDesc) (depth : VideoDepth) : Appends 58 (vModeParms m depth) := by
  unfold vModeParms
  extract_lets mode
  repeat refine .next (by decide) fun _ => ?_
  exact .mono inferInstance (by decide)

def vModeDesc (params : Ptr) (direct : Bool) : Builder Ptr := do
  let ret ← here
  offs 0x01 params
  rsrc 0x03 1
  rsrc 0x04 (if direct then 2 else 0)
  endOfList
  return ret

instance (params : Ptr) (direct : Bool) : Appends 16 (vModeDesc params direct) := by
  unfold vModeDesc
  repeat refine .next (by decide) fun _ => ?_
  exact .mono inferInstance (by decide)

/-- The entry for a video mode, if the monitor has the depth. -/
def modeEntry (m : MonitorDesc) (depth : VideoDepth) (mode : Ptr) : Builder Unit :=
  if m.hasDepth depth then offs ((m.depthToAppleMode depth).truncate 8) mode else pure ()

instance (m : MonitorDesc) (depth : VideoDepth) (mode : Ptr) :
    Appends 4 (modeEntry m depth mode) := by
  unfold modeEntry
  infer_instance

def vMonitor (videoType videoName vidDrvrDir gammaDir : Ptr) (m : MonitorDesc) : Builder Ptr := do
  let minorBase ← here
  long m.macFrameBase
  let minorLength ← here
  long 0
  let vidModeParms1 ← vModeParms m .depth1bit
  let vidModeParms2 ← vModeParms m .depth2bit
  let vidModeParms4 ← vModeParms m .depth4bit
  let vidModeParms8 ← vModeParms m .depth8bit
  let vidModeParms16 ← vModeParms m .depth16bit
  let vidModeParms32 ← vModeParms m .depth32bit
  let vidMode1 ← vModeDesc vidModeParms1 false
  let vidMode2 ← vModeDesc vidModeParms2 false
  let vidMode4 ← vModeDesc vidModeParms4 false
  let vidMode8 ← vModeDesc vidModeParms8 false
  let vidMode16 ← vModeDesc vidModeParms16 true
  let vidMode32 ← vModeDesc vidModeParms32 true
  let ret ← here
  offs 0x01 videoType
  offs 0x02 videoName
  offs 0x04 vidDrvrDir
  rsrc 0x08 0x4232
  offs 0x0a minorBase
  offs 0x0b minorLength
  offs 0x40 gammaDir
  rsrc 0x7d 6
  modeEntry m .depth1bit vidMode1
  modeEntry m .depth2bit vidMode2
  modeEntry m .depth4bit vidMode4
  modeEntry m .depth8bit vidMode8
  modeEntry m .depth16bit vidMode16
  modeEntry m .depth32bit vidMode32
  endOfList
  return ret

instance (videoType videoName vidDrvrDir gammaDir : Ptr) (m : MonitorDesc) :
    Appends 512 (vMonitor videoType videoName vidDrvrDir gammaDir m) := by
  unfold vMonitor
  repeat refine .next (by decide) fun _ => ?_
  exact .mono inferInstance (by decide)

/-- Board sResource. -/
def boardResource (date : BuildDate) : Builder Ptr := do
  let boardType ← here
  words [1, 0, 0, 0]
  let boardName ← here
  string (ascii "Basilisk II Slot ROM")
  let vendorID ← here
  string (ascii "Christian Bauer")
  let revLevel ← here
  string revisionText
  let partNum ← here
  string (ascii "BasiliskII")
  let dateText ← here
  string date.text
  let vendorInfo ← here
  offs 0x01 vendorID
  offs 0x03 revLevel
  offs 0x04 partNum
  offs 0x05 dateText
  endOfList
  let sRsrcBoard ← here
  offs 0x01 boardType
  offs 0x02 boardName
  rsrc 0x20 0x4232
  offs 0x24 vendorInfo
  endOfList
  return sRsrcBoard

instance (date : BuildDate) : Appends 13 (string date.text) := by
  have bound : Appends (date.text.length + 2) (string date.text) := inferInstance
  rwa [date.length_eq] at bound

instance (date : BuildDate) : Appends 134 (boardResource date) := by
  unfold boardResource
  repeat refine .next (by decide) fun _ => ?_
  exact .mono inferInstance (by decide)

def videoDrvrCode : List (BitVec 16) :=
  [m68kEmulOpVideoOpen, 0x4e75,                           -- Open()
   0x70ff, 0x600e,                                        -- Prime()
   m68kEmulOpVideoControl, 0x0c68, 0x0001, 0x001a, 0x6604, 0x4e75,  -- Control()
   m68kEmulOpVideoStatus,                                 -- Status()
   0x3228, 0x0006, 0x0801, 0x0009, 0x670c, 0x4a40, 0x6f02, 0x4240,  -- IOReturn
   0x3140, 0x0010, 0x4e75, 0x4a40, 0x6f04, 0x4240, 0x4e75, 0x2f38, 0x08fc, 0x4e75,
   0x70e8, 0x4e75]                                        -- Close()

/-- Video type, video name and driver directory. -/
def videoDriver : Builder (Ptr × Ptr × Ptr) := do
  let videoType ← here
  words [3, 1, 1, 0x4232]
  let videoName ← here
  string (ascii "Display_Video_Apple_Basilisk")
  let videoDrvr ← here
  long 0x72
  words [0x4c00, 0, 0, 0]
  words [0x32, 0x36, 0x3a, 0x46, 0x6c]  -- offsets of the five entry points
  pString (ascii ".Display_Video_Apple_Basilisk")
  word 1
  words videoDrvrCode
  let vidDrvrDir ← here
  offs 0x02 videoDrvr
  endOfList
  return (videoType, videoName, vidDrvrDir)

instance : Appends 164 videoDriver := by
  unfold videoDriver
  repeat refine .next (by decide) fun _ => ?_
  exact .mono inferInstance (by decide)

def gammaTable : List (BitVec 32) :=
  [0x0005090B, 0x0E101315, 0x17191B1D, 0x1E202224, 0x2527282A, 0x2C2D2F30, 0x31333436, 0x37383A3B,
   0x3C3E3F40, 0x42434445, 0x4748494A, 0x4B4D4E4F, 0x50515254, 0x55565758, 0x595A5B5C, 0x5E5F6061,
   0x62636465, 0x66676869, 0x6A6B6C6D, 0x6E6F7071, 0x72737475, 0x76777879, 0x7A7B7C7D, 0x7E7F8081,
   0x81828384, 0x85868788, 0x898A8B8C, 0x8C8D8E8F, 0x90919293, 0x94959596, 0x9798999A, 0x9B9B9C9D,
   0x9E9FA0A1, 0xA1A2A3A4, 0xA5A6A6A7, 0xA8A9AAAB, 0xABACADAE, 0xAFB0B0B1, 0xB2B3B4B4, 0xB5B6B7B8,
   0xB8B9BABB, 0xBCBCBDBE, 0xBFC0C0C1, 0xC2C3C3C4, 0xC5C6C7C7, 0xC8C9CACA, 0xCBCCCDCD, 0xCECFD0D0,
   0xD1D2D3D3, 0xD4D5D6D6, 0xD7D8D9D9, 0xDADBDCDC, 0xDDDEDFDF, 0xE0E1E1E2, 0xE3E4E4E5, 0xE6E7E7E8,
   0xE9E9EAEB, 0xECECEDEE, 0xEEEFF0F1, 0xF1F2F3F3, 0xF4F5F5F6, 0xF7F8F8F9, 0xFAFAFBFC, 0xFCFDFEFF]

/-- Gamma table and gamma directory. -/
def gammaResource : Builder Ptr := do
  let defaultGamma ← here
  long (38 + 0x100)
  word 0x2000
  string (ascii "Mac HiRes Std Gamma")
  words [0, 0, 0, 1, 0x0100, 8]
  longs gammaTable
  let gammaDir ← here
  offs 0x80 defaultGamma
  endOfList
  return gammaDir

instance : Appends 303 gammaResource := by
  unfold gammaResource
  repeat refine .next (by decide) fun _ => ?_
  exact .mono inferInstance (by decide)

/-- CPU sResource. -/
def cpuResource : Builder Ptr := do
  let cpuType ← here
  words [10, 3, 0, 24]
  let cpuName ← here
  string (ascii "CPU_68020")
  let cpuMajor ← here
  longs [0, 0x7fffffff]
  let cpuMinor ← here
  longs [0xf0800000, 0xf0ffffff]
  let sRsrcCPU ← here
  offs 0x01 cpuType
  offs 0x02 cpuName
  offs 0x81 cpuMajor
  offs 0x82 cpuMinor
  endOfList
  return sRsrcCPU

instance : Appends 57 cpuResource := by
  unfold cpuResource
  repeat refine .next (by decide) fun _ => ?_
  exact .mono inferInstance (by decide)

def etherDrvrCode : List (BitVec 16) :=
  [m68kEmulOpEtherOpen, 0x4e75,                           -- Open()
   0x70ef, 0x600c,                                        -- Prime()/Status()
   m68kEmulOpEtherControl, 0x0c68, 0x0001, 0x001a, 0x6602, 0x4e75,  -- Control()
   0x3228, 0x0006, 0x0801, 0x0009, 0x670c, 0x4a40, 0x6f02, 0x4240,  -- IOReturn
   0x3140, 0x0010, 0x4e75, 0x4a40, 0x6f04, 0x4240, 0x4e75, 0x2f38, 0x08fc, 0x4e75,
   0x70e8, 0x4e75]                                        -- Close()

/-- Ethernet sResource. -/
def etherResource : Builder Ptr := do
  let etherType ← here
  words [4, 1, 1, 0x4232]
  let etherName ← here
  string (ascii "Network_Ethernet_Apple_BasiliskII")
  let etherDrvr ← here
  long 0x88
  words [0x4400, 0, 0, 0]
  words [0x4a, 0x4e, 0x52, 0x4e, 0x82]  -- offsets of the five entry points
  pString (ascii ".ENET")
  words [0x0111, 0x8000, 0]
  pString (ascii "1.1.1  ")
  pString (ascii "Basilisk II Ethernet Network Driver")
  words etherDrvrCode
  let etherDrvrDir ← here
  offs 0x02 etherDrvr
  endOfList
  let sRsrcEther ← here
  offs 0x01 etherType
  offs 0x02 etherName
  offs 0x04 etherDrvrDir
  rsrc 0x07 2
  rsrc 0x08 0x4232
  endOfList
  return sRsrcEther

instance : Appends 222 etherResource := by
  unfold etherResource
  repeat refine .next (by decide) fun _ => ?_
  exact .mono inferInstance (by decide)

/-- The directory entries of the monitors. -/
def videoEntries (videoMonitors : List MonitorDesc) (sRsrcVideo : List Ptr) : Builder Unit :=
  (videoMonitors.zip sRsrcVideo).forM fun entry => offs entry.1.slotId entry.2

instance (videoMonitors : List MonitorDesc) (sRsrcVideo : List Ptr) :
    Appends (videoMonitors.length * 4) (videoEntries videoMonitors sRsrcVideo) := by
  have entries : (videoMonitors.zip sRsrcVideo).length ≤ videoMonitors.length := by
    rw [List.length_zip]
    exact Nat.min_le_left _ _
  exact (Appends.forM _).mono (Nat.mul_le_mul_right 4 entries)

/-- Everything up to the sResource directory. -/
def declarations (date : BuildDate) (videoMonitors : List MonitorDesc) : Builder Ptr := do
  let sRsrcBoard ← boardResource date
  let (videoType, videoName, vidDrvrDir) ← videoDriver
  let gammaDir ← gammaResource
  let sRsrcVideo ← videoMonitors.mapM (vMonitor videoType videoName vidDrvrDir gammaDir)
  let sRsrcCPU ← cpuResource
  let sRsrcEther ← etherResource
  let sRsrcDir ← here
  offs 0x01 sRsrcBoard
  videoEntries videoMonitors sRsrcVideo
  offs 0xf0 sRsrcCPU
  offs 0xf1 sRsrcEther
  endOfList
  return sRsrcDir

instance (date : BuildDate) (videoMonitors : List MonitorDesc) :
    Appends (896 + videoMonitors.length * 516) (declarations date videoMonitors) := by
  unfold declarations
  refine .next (by omega) fun _ => ?_
  refine .next (by omega) fun (_, _, _) => ?_
  repeat refine .next (by omega) fun _ => ?_
  exact .mono inferInstance (Nat.zero_le _)

/-- Format/header block, with the CRC still zero. -/
def formatBlock (sRsrcDir : Ptr) : Builder Unit := do
  offs 0 sRsrcDir
  let p ← here
  long (p + 16)
  long 0
  word 0x0101
  long 0x5a932bc7
  word 0x000f

instance (sRsrcDir : Ptr) : Appends 20 (formatBlock sRsrcDir) := by
  unfold formatBlock
  repeat refine .next (by decide) fun _ => ?_
  infer_instance

/-- What is in `srom` when it is copied. -/
def slotRom (date : BuildDate) (videoMonitors : List MonitorDesc) : List (BitVec 8) :=
  (declarations date videoMonitors >>= formatBlock).block []

/-- The format block ends with the length of the whole, an empty CRC, the revision, the test
pattern and the byte lanes. -/
theorem block_formatBlock (sRsrcDir : Ptr) (start : List (BitVec 8)) :
    ∃ body : List (BitVec 8), 4 ≤ body.length ∧ (formatBlock sRsrcDir).block start =
      body ++ longBytes (BitVec.ofNat 32 ((formatBlock sRsrcDir).block start).length) ++
        longBytes 0 ++ wordBytes 0x0101 ++ longBytes 0x5a932bc7 ++ wordBytes 0x000f := by
  have whole : (formatBlock sRsrcDir).block start =
      start ++ entryBytes 0 (sRsrcDir - BitVec.ofNat 32 start.length) ++
        longBytes (BitVec.ofNat 32 (start.length + 4) + 16) ++
        longBytes 0 ++ wordBytes 0x0101 ++ longBytes 0x5a932bc7 ++ wordBytes 0x000f := by
    unfold formatBlock
    simp only [block_bind, block_offs, block_here, run_here, block_long, block_word,
      List.length_append]
    rfl
  -- The length is written sixteen bytes before the end.
  have length : ((formatBlock sRsrcDir).block start).length = start.length + 4 + 16 := by
    rw [whole]
    simp only [List.length_append]
    rfl
  refine ⟨start ++ entryBytes 0 (sRsrcDir - BitVec.ofNat 32 start.length), ?_, ?_⟩
  · exact List.length_append.symm ▸ Nat.le_add_left 4 start.length
  · rw [length, BitVec.ofNat_add (start.length + 4)]
    exact whole

theorem slotRom_ends (date : BuildDate) (videoMonitors : List MonitorDesc) :
    ∃ body : List (BitVec 8), 4 ≤ body.length ∧ slotRom date videoMonitors =
      body ++ longBytes (BitVec.ofNat 32 (slotRom date videoMonitors).length) ++
        longBytes 0 ++ wordBytes 0x0101 ++ longBytes 0x5a932bc7 ++ wordBytes 0x000f := by
  have whole := block_bind (declarations date videoMonitors) formatBlock []
  unfold slotRom
  rw [whole]
  exact block_formatBlock _ _

theorem slotRom_length_ge (date : BuildDate) (videoMonitors : List MonitorDesc) :
    20 ≤ (slotRom date videoMonitors).length := by
  obtain ⟨body, long_enough, ended⟩ := slotRom_ends date videoMonitors
  have length := congrArg List.length ended
  have header : ∀ v : BitVec 32, (longBytes v).length = 4 := fun _ => rfl
  simp only [List.length_append, header] at length
  simp only [wordBytes, List.length_cons, List.length_nil] at length
  omega

theorem slotRom_length_le (date : BuildDate) (videoMonitors : List MonitorDesc) :
    (slotRom date videoMonitors).length ≤ 916 + videoMonitors.length * 516 := by
  have whole : Appends (896 + videoMonitors.length * 516 + 20)
      (declarations date videoMonitors >>= formatBlock) :=
    Appends.bind inferInstance fun _ => inferInstance
  obtain ⟨bytes, appended, few⟩ := whole.appends []
  have same : slotRom date videoMonitors = [] ++ bytes := appended
  rw [same, List.nil_append]
  omega

/-- With one monitor the ROM fits into `srom`. -/
theorem slotRom_fits (date : BuildDate) (monitor : MonitorDesc) :
    (slotRom date [monitor]).length ≤ 4096 :=
  slotRom_length_le date [monitor] |>.trans (by rw [List.length_singleton]; decide)

end BasiliskII.Rom
