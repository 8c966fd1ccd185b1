import BasiliskII.Prefs.Store
import BasiliskII.Stdio

/-!
# Preferences files

`LoadPrefsFromStream` and `SavePrefsToStream` of prefs.cpp, with the
descriptor tables of prefs_items.cpp and prefs_psp.cpp. The file has one line
for each value: the keyword, a space and the value.
-/
namespace BasiliskII.Prefs

/-- `prefs_desc`, without the help text. -/
structure PrefsDesc where
  name : CString
  type : PrefsType
  /-- Can this item occur multiple times? -/
  multiple : Bool
  deriving DecidableEq, Repr

def commonPrefsItems : List PrefsDesc :=
  [⟨ascii "disk", .string, true⟩, ⟨ascii "floppy", .string, true⟩,
    ⟨ascii "cdrom", .string, true⟩, ⟨ascii "extfs", .string, false⟩,
    ⟨ascii "scsi0", .string, false⟩, ⟨ascii "scsi1", .string, false⟩,
    ⟨ascii "scsi2", .string, false⟩, ⟨ascii "scsi3", .string, false⟩,
    ⟨ascii "scsi4", .string, false⟩, ⟨ascii "scsi5", .string, false⟩,
    ⟨ascii "scsi6", .string, false⟩, ⟨ascii "screen", .string, false⟩,
    ⟨ascii "seriala", .string, false⟩, ⟨ascii "serialb", .string, false⟩,
    ⟨ascii "ether", .string, false⟩, ⟨ascii "etherconfig", .string, false⟩,
    ⟨ascii "udptunnel", .boolean, false⟩, ⟨ascii "udpport", .int32, false⟩,
    ⟨ascii "rom", .string, false⟩, ⟨ascii "bootdrive", .int32, false⟩,
    ⟨ascii "bootdriver", .int32, false⟩, ⟨ascii "ramsize", .int32, false⟩,
    ⟨ascii "frameskip", .int32, false⟩, ⟨ascii "modelid", .int32, false⟩,
    ⟨ascii "cpu", .int32, false⟩, ⟨ascii "fpu", .boolean, false⟩,
    ⟨ascii "nocdrom", .boolean, false⟩, ⟨ascii "nosound", .boolean, false⟩,
    ⟨ascii "noclipconversion", .boolean, false⟩, ⟨ascii "nogui", .boolean, false⟩,
    ⟨ascii "jit", .boolean, false⟩, ⟨ascii "jitfpu", .boolean, false⟩,
    ⟨ascii "jitdebug", .boolean, false⟩, ⟨ascii "jitcachesize", .int32, false⟩,
    ⟨ascii "jitlazyflush", .boolean, false⟩, ⟨ascii "jitinline", .boolean, false⟩,
    ⟨ascii "jitblacklist", .string, false⟩, ⟨ascii "keyboardtype", .int32, false⟩]

def platformPrefsItems : List PrefsDesc :=
  [⟨ascii "keycodefile", .string, false⟩, ⟨ascii "udpapoint", .int32, false⟩,
    ⟨ascii "pspspeed", .int32, false⟩, ⟨ascii "psptv", .boolean, false⟩,
    ⟨ascii "pspmar", .int32, false⟩, ⟨ascii "psplaced", .boolean, false⟩,
    ⟨ascii "pspdar", .int32, false⟩, ⟨ascii "psposcan", .boolean, false⟩,
    ⟨ascii "relaxed60hz", .boolean, false⟩, ⟨ascii "reartouch", .boolean, false⟩,
    ⟨ascii "indirecttouch", .boolean, false⟩, ⟨ascii "pointerspeed", .int32, false⟩,
    ⟨ascii "analogdeadzone", .int32, false⟩]

/-- The tables in the order in which `find_prefs_desc` goes through them. -/
def prefsItems : List PrefsDesc := commonPrefsItems ++ platformPrefsItems

def findPrefsDesc (name : CString) : Option PrefsDesc :=
  match commonPrefsItems.find? fun d => d.name = name with
  | some d => some d
  | none => platformPrefsItems.find? fun d => d.name = name

/-- One line of the file, as `fprintf` writes it. -/
def printLine (keyword value : CString) : CString := keyword ++ 32 :: value ++ [newline]

/-- The loop of `write_prefs` over the values of one keyword. -/
def writeStrings (st : Store) (name : CString) : Nat → Int → CString
  | 0, _ => []
  | fuel + 1, index =>
    match prefsFindString st name index with
    | some str => printLine name str ++ writeStrings st name fuel (index + 1)
    | none => []

def writeItem (st : Store) (d : PrefsDesc) : CString :=
  match d.type with
  | .string => writeStrings st d.name (st.heap.fresh + 1) 0
  | .boolean => printLine d.name (ascii (if prefsFindBool st d.name then "true" else "false"))
  | .int32 => printLine d.name (formatInt (prefsFindInt32 st d.name).toInt)
  | .any => []

def writePrefs (st : Store) (items : List PrefsDesc) : CString := items.flatMap (writeItem st)

def savePrefsToStream (st : Store) : CString :=
  writePrefs st commonPrefsItems ++ writePrefs st platformPrefsItems

/-- The call that adds or replaces an item of the given description. -/
def itemCall (d : PrefsDesc) (value : CString) : Option Call :=
  match d.type with
  | .string =>
    some (if d.multiple then .addString d.name value else .replaceString d.name value 0)
  | .boolean => some (.replaceBool d.name (value = ascii "true"))
  | .int32 => some (.replaceInt32 d.name (BitVec.ofInt 32 (atol value)))
  | .any => none

/-- What `LoadPrefsFromStream` does with a line it has read: the call, if any, or none at
all where the search for the end of the keyword runs out of the line. What it would find
there is left over from other lines, or was never written. -/
def loadLine (line : CString) : Option (Option Call) :=
  let text := line.takeWhile (· ≠ 0)
  if text = [] then some none
  else
    let text := text.dropLast
    if text.head? = some 35 ∨ text.head? = some 59 then some none  -- '#' and ';'
    else if text.all fun c => !isspace c then none
    else
      let keyword := text.takeWhile fun c => !isspace c
      let value := (text.drop (keyword.length + 1)).dropWhile isspace
      match findPrefsDesc keyword with
      | some d => some (itemCall d value)
      | none => some none

/-- The loop of `LoadPrefsFromStream`; every line takes at least one character. -/
def loadLines : Nat → CString → Store → Option Store
  | 0, _, st => some st
  | fuel + 1, stream, st =>
    match fgets 255 stream with
    | none => some st
    | some (line, rest) =>
      match loadLine line with
      | none => none
      | some none => loadLines fuel rest st
      | some (some c) => loadLines fuel rest (call st c).1

def loadPrefsFromStream (stream : CString) (st : Store) : Option Store :=
  loadLines stream.length stream st

end BasiliskII.Prefs
