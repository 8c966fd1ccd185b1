import BasiliskII.ExtFS.HelperPath
import BasiliskII.Library.FileBytes
import Mathlib.Data.List.Induction
import Mathlib.Logic.Function.Basic

/-!
# Finder information

`get_finfo` and `set_finfo` of extfs_psp.cpp. The helper file of a path stores
an FInfo and, if one was ever given, an FXInfo behind it, 16 bytes each. The
calls on helper files are taken to succeed.
-/
namespace BasiliskII.ExtFS

open FileBytes

/-- An FInfo or an FXInfo, in the byte order of the guest. -/
structure FinderRecord where
  bytes : List UInt8
  size : bytes.length = 16
  deriving DecidableEq

/-- A path that leaves room for the name of its helper files in `char[MAX_PATH_LENGTH]`. -/
structure HostPath where
  bytes : CString
  fits : bytes.length + 6 < MAX_PATH_LENGTH
  deriving DecidableEq

theorem HostPath.short (p : HostPath) : p.bytes.length < MAX_PATH_LENGTH :=
  Nat.lt_of_le_of_lt (Nat.le_add_right _ _) p.fits

/-- The contents of the files of the host. -/
abbrev Files := CString → Option (List UInt8)

structure Ext2Type where
  ext : CString
  type : List UInt8
  creator : List UInt8

def e2tTranslation : List Ext2Type :=
  [⟨ascii ".Z", ascii "ZIVM", ascii "LZIV"⟩, ⟨ascii ".gz", ascii "Gzip", ascii "Gzip"⟩,
    ⟨ascii ".hqx", ascii "TEXT", ascii "SITx"⟩, ⟨ascii ".bin", ascii "TEXT", ascii "SITx"⟩,
    ⟨ascii ".pdf", ascii "PDF ", ascii "CARO"⟩, ⟨ascii ".ps", ascii "TEXT", ascii "ttxt"⟩,
    ⟨ascii ".sit", ascii "SIT!", ascii "SITx"⟩, ⟨ascii ".tar", ascii "TARF", ascii "TAR "⟩,
    ⟨ascii ".uu", ascii "TEXT", ascii "SITx"⟩, ⟨ascii ".uue", ascii "TEXT", ascii "SITx"⟩,
    ⟨ascii ".zip", ascii "ZIP ", ascii "ZIP "⟩, ⟨ascii ".8svx", ascii "8SVX", ascii "SNDM"⟩,
    ⟨ascii ".aifc", ascii "AIFC", ascii "TVOD"⟩, ⟨ascii ".aiff", ascii "AIFF", ascii "TVOD"⟩,
    ⟨ascii ".au", ascii "ULAW", ascii "TVOD"⟩, ⟨ascii ".mid", ascii "MIDI", ascii "TVOD"⟩,
    ⟨ascii ".midi", ascii "MIDI", ascii "TVOD"⟩, ⟨ascii ".mp2", ascii "MPG ", ascii "TVOD"⟩,
    ⟨ascii ".mp3", ascii "MPG ", ascii "TVOD"⟩, ⟨ascii ".wav", ascii "WAVE", ascii "TVOD"⟩,
    ⟨ascii ".bmp", ascii "BMPf", ascii "ogle"⟩, ⟨ascii ".gif", ascii "GIFf", ascii "ogle"⟩,
    ⟨ascii ".lbm", ascii "ILBM", ascii "GKON"⟩, ⟨ascii ".ilbm", ascii "ILBM", ascii "GKON"⟩,
    ⟨ascii ".jpg", ascii "JPEG", ascii "ogle"⟩, ⟨ascii ".jpeg", ascii "JPEG", ascii "ogle"⟩,
    ⟨ascii ".pict", ascii "PICT", ascii "ogle"⟩, ⟨ascii ".png", ascii "PNGf", ascii "ogle"⟩,
    ⟨ascii ".sgi", ascii ".SGI", ascii "ogle"⟩, ⟨ascii ".tga", ascii "TPIC", ascii "ogle"⟩,
    ⟨ascii ".tif", ascii "TIFF", ascii "ogle"⟩, ⟨ascii ".tiff", ascii "TIFF", ascii "ogle"⟩,
    ⟨ascii ".htm", ascii "TEXT", ascii "MOSS"⟩, ⟨ascii ".html", ascii "TEXT", ascii "MOSS"⟩,
    ⟨ascii ".txt", ascii "TEXT", ascii "ttxt"⟩, ⟨ascii ".rtf", ascii "TEXT", ascii "MSWD"⟩,
    ⟨ascii ".c", ascii "TEXT", ascii "R*ch"⟩, ⟨ascii ".C", ascii "TEXT", ascii "R*ch"⟩,
    ⟨ascii ".cc", ascii "TEXT", ascii "R*ch"⟩, ⟨ascii ".cpp", ascii "TEXT", ascii "R*ch"⟩,
    ⟨ascii ".cxx", ascii "TEXT", ascii "R*ch"⟩, ⟨ascii ".h", ascii "TEXT", ascii "R*ch"⟩,
    ⟨ascii ".hh", ascii "TEXT", ascii "R*ch"⟩, ⟨ascii ".hpp", ascii "TEXT", ascii "R*ch"⟩,
    ⟨ascii ".hxx", ascii "TEXT", ascii "R*ch"⟩, ⟨ascii ".s", ascii "TEXT", ascii "R*ch"⟩,
    ⟨ascii ".S", ascii "TEXT", ascii "R*ch"⟩, ⟨ascii ".i", ascii "TEXT", ascii "R*ch"⟩,
    ⟨ascii ".mpg", ascii "MPEG", ascii "TVOD"⟩, ⟨ascii ".mpeg", ascii "MPEG", ascii "TVOD"⟩,
    ⟨ascii ".mov", ascii "MooV", ascii "TVOD"⟩, ⟨ascii ".fli", ascii "FLI ", ascii "TVOD"⟩,
    ⟨ascii ".avi", ascii "VfW ", ascii "TVOD"⟩, ⟨ascii ".qxd", ascii "XDOC", ascii "XPR3"⟩,
    ⟨ascii ".hfv", ascii "DDim", ascii "ddsk"⟩, ⟨ascii ".dsk", ascii "DDim", ascii "ddsk"⟩,
    ⟨ascii ".img", ascii "rohd", ascii "ddsk"⟩]

def zeros : List UInt8 := List.replicate 16 0

/-- `DEFAULT_FINDER_FLAGS` at `fdFlags`, and no location. -/
def defaultFinfo : List UInt8 :=
  List.replicate 8 0 ++ [0x01, 0x00] ++ [0xff, 0xff, 0xff, 0xff] ++ List.replicate 2 0

/-- Translate file name extension to MacOS type/creator. -/
def translateExt (path : CString) (isDir : Bool) (finfo : List UInt8) : List UInt8 :=
  if isDir then finfo
  else
    match e2tTranslation.find? fun e => e.ext.isSuffixOf path with
    | some e => e.type ++ e.creator ++ finfo.drop 8
    | none => finfo

/-- What a `read` of up to 16 bytes leaves in a record. -/
def readOver (got record : List UInt8) : List UInt8 := got ++ record.drop got.length

/-- The FInfo, and the FXInfo if there is a place for it. -/
def getFinfo (files : Files) (path : HostPath) (fxinfo isDir : Bool) :
    List UInt8 × Option (List UInt8) :=
  match files (Helper.finf.path path.bytes) with
  | some content =>
    let first := read content 0 16
    let second := if fxinfo then read content 16 16 else []
    let finfo := readOver first defaultFinfo
    let extended := if fxinfo then some (readOver second zeros) else none
    if 16 ≤ first.length + second.length then (finfo, extended)
    else (translateExt path.bytes isDir finfo, extended)
  | none => (translateExt path.bytes isDir defaultFinfo, if fxinfo then some zeros else none)

structure SetFinfo where
  path : HostPath
  finfo : FinderRecord
  fxinfo : Option FinderRecord

/-- The helper file after a call; it is created if need be and never truncated. -/
def SetFinfo.write (c : SetFinfo) (content : Option (List UInt8)) : List UInt8 :=
  let content := FileBytes.write (content.getD []) 0 c.finfo.bytes
  match c.fxinfo with
  | some fxinfo => FileBytes.write content 16 fxinfo.bytes
  | none => content

def setFinfo (files : Files) (c : SetFinfo) : Files :=
  let helper := Helper.finf.path c.path.bytes
  Function.update files helper (some (c.write (files helper)))

/-- The files after some calls, when there was no helper file before. -/
def afterCalls (calls : List SetFinfo) : Files := calls.foldl setFinfo fun _ => none

/-- The calls on a path. -/
def callsOn (calls : List SetFinfo) (path : HostPath) : List SetFinfo :=
  calls.filter fun c => c.path = path

def lastFinfo (calls : List SetFinfo) (path : HostPath) : Option FinderRecord :=
  (callsOn calls path).getLast?.map SetFinfo.finfo

def lastFxinfo (calls : List SetFinfo) (path : HostPath) : Option FinderRecord :=
  ((callsOn calls path).filterMap SetFinfo.fxinfo).getLast?

theorem HostPath.helper_inj {h k : Helper} {p q : HostPath}
    (same : h.path p.bytes = k.path q.bytes) : h = k ∧ p = q := by
  obtain ⟨kind, bytes⟩ := Helper.path_inj p.short q.short same
  obtain ⟨_, _⟩ := p
  obtain ⟨_, _⟩ := q
  obtain rfl : _ = _ := bytes
  exact ⟨kind, rfl⟩

variable (calls : List SetFinfo)

theorem foldl_setFinfo (path : HostPath) (files : Files) :
    calls.foldl setFinfo files (Helper.finf.path path.bytes) =
      (callsOn calls path).foldl (fun content c => some (c.write content))
        (files (Helper.finf.path path.bytes)) := by
  induction calls generalizing files with
  | nil => rfl
  | cons c calls ih =>
    rw [List.foldl_cons, ih, callsOn, callsOn, List.filter_cons]
    by_cases own : c.path = path
    · simp [own, setFinfo]
    · have other : Helper.finf.path path.bytes ≠ Helper.finf.path c.path.bytes := fun same =>
        own (HostPath.helper_inj same).2.symm
      simp [own, setFinfo, Function.update_of_ne other]

/-- What is in the file after some calls on one path. -/
def recorded (calls : List SetFinfo) : Option (List UInt8) :=
  calls.getLast?.map fun c =>
    c.finfo.bytes ++ ((calls.filterMap SetFinfo.fxinfo).getLast?.elim [] FinderRecord.bytes)

theorem write_recorded (c : SetFinfo) :
    some (c.write (recorded calls)) = recorded (calls ++ [c]) := by
  -- The FInfo is put in front of what the file held behind its own, if there was one.
  have front : FileBytes.write ((recorded calls).getD []) 0 c.finfo.bytes = c.finfo.bytes ++
      (calls.filterMap SetFinfo.fxinfo).getLast?.elim [] FinderRecord.bytes := by
    rcases List.eq_nil_or_concat' calls with rfl | ⟨earlier, last, rfl⟩
    · simpa [recorded] using write_end (a := [])
    · have same : c.finfo.bytes.length = last.finfo.bytes.length :=
        c.finfo.size.trans last.finfo.size.symm
      simpa [recorded] using write_middle (a := []) same
  rw [SetFinfo.write, front, recorded, List.getLast?_concat, List.filterMap_append]
  cases extended : c.fxinfo with
  | none => simp [extended]
  | some fxinfo =>
    generalize (calls.filterMap SetFinfo.fxinfo).getLast? = old
    have behind : FileBytes.write (c.finfo.bytes ++ old.elim [] FinderRecord.bytes) 16
        fxinfo.bytes = c.finfo.bytes ++ fxinfo.bytes := by
      rw [← c.finfo.size]
      cases old with
      | none => simpa using write_end (a := c.finfo.bytes)
      | some old =>
        have same : fxinfo.bytes.length = old.bytes.length := fxinfo.size.trans old.size.symm
        simpa using write_middle (a := c.finfo.bytes) (c := []) same
    simp [extended, behind]

theorem foldl_write :
    calls.foldl (fun content c => some (c.write content)) none = recorded calls := by
  induction calls using List.reverseRecOn with
  | nil => rfl
  | append_singleton calls c ih =>
    rw [List.foldl_append, ih]
    exact write_recorded calls c

theorem afterCalls_helper (path : HostPath) :
    afterCalls calls (Helper.finf.path path.bytes) = recorded (callsOn calls path) := by
  rw [afterCalls, foldl_setFinfo, foldl_write]

theorem readOver_whole {got record : List UInt8} (same : got.length = record.length) :
    readOver got record = got := by
  rw [readOver, same, List.drop_length, List.append_nil]

/-- A helper file with an FInfo, and an FXInfo behind it or nothing, gives them back. -/
theorem getFinfo_recorded {files : Files} {path : HostPath} {finfo : FinderRecord}
    {old : Option FinderRecord} (fxinfo isDir : Bool)
    (file : files (Helper.finf.path path.bytes) =
      some (finfo.bytes ++ old.elim [] FinderRecord.bytes)) :
    getFinfo files path fxinfo isDir =
      (finfo.bytes, if fxinfo then some (old.elim zeros FinderRecord.bytes) else none) := by
  have first : read (finfo.bytes ++ old.elim [] FinderRecord.bytes) 0 16 = finfo.bytes := by
    rw [← finfo.size]
    exact read_middle (a := [])
  have second : read (finfo.bytes ++ old.elim [] FinderRecord.bytes) 16 16 =
      old.elim [] FinderRecord.bytes := by
    cases old with
    | none => simp [FileBytes.read, finfo.size]
    | some old =>
      have whole := read_middle (a := finfo.bytes) (b := old.bytes) (c := [])
      rw [finfo.size, old.size] at whole
      simpa using whole
  have replaced : readOver finfo.bytes defaultFinfo = finfo.bytes := readOver_whole finfo.size
  have enough : ∀ n, 16 ≤ finfo.bytes.length + n := fun n => by
    rw [finfo.size]
    exact Nat.le_add_right _ _
  simp only [getFinfo, file, first, second, replaced, enough, if_true]
  cases fxinfo with
  | false => rfl
  | true =>
    cases old with
    | none => rfl
    | some old =>
      have whole : readOver old.bytes zeros = old.bytes := readOver_whole old.size
      simp [whole]

/-- After any calls `get_finfo` gives the last FInfo set on the path and the last FXInfo; and
different paths have different helper files. -/
theorem getFinfo_after (calls : List SetFinfo) (path : HostPath) (fxinfo isDir : Bool)
    (finfo : FinderRecord) (last : lastFinfo calls path = some finfo) :
    getFinfo (afterCalls calls) path fxinfo isDir =
        (finfo.bytes,
          if fxinfo then some ((lastFxinfo calls path).elim zeros FinderRecord.bytes) else none) ∧
      ∀ (h : Helper) (other : HostPath), h.path path.bytes = h.path other.bytes → path = other := by
  refine ⟨getFinfo_recorded fxinfo isDir ?_, fun h other same => (HostPath.helper_inj same).2⟩
  rw [afterCalls_helper, recorded]
  obtain ⟨c, final, rfl⟩ := Option.map_eq_some_iff.mp last
  rw [final]
  rfl

def exampleRecord (byte : UInt8) : FinderRecord := ⟨List.replicate 16 byte, List.length_replicate⟩

/-- `/r/a` -/
def examplePath : HostPath := ⟨[47, 114, 47, 97], by decide⟩

/-- Set both records, and then the FInfo alone. -/
theorem getFinfo_after_two :
    getFinfo (afterCalls [⟨examplePath, exampleRecord 1, some (exampleRecord 2)⟩,
          ⟨examplePath, exampleRecord 3, none⟩]) examplePath true false =
        (List.replicate 16 3, some (List.replicate 16 2)) ∧
      ∀ (h : Helper) (other : HostPath), h.path examplePath.bytes = h.path other.bytes →
        examplePath = other :=
  getFinfo_after [⟨examplePath, exampleRecord 1, some (exampleRecord 2)⟩,
    ⟨examplePath, exampleRecord 3, none⟩] examplePath true false (exampleRecord 3) rfl

end BasiliskII.ExtFS
