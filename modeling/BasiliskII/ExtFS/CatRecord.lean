import BasiliskII.ExtFS.CatInfo
import Mathlib.Logic.Function.Basic

/-!
# The record of a file or directory

The whole of `fs_get_cat_info` in its three modes, with the number of files of
a directory, which the item caches beside the modification time it was counted
at, and the lengths of the two forks of a file. Dates and Finder information
are left out.
-/
namespace BasiliskII.ExtFS

/-- What `stat` tells of an object. -/
structure Stat where
  isDir : Bool
  mtime : Int
  size : Nat
  deriving DecidableEq, Repr

/-- The host file system as `fs_get_cat_info` sees it. -/
structure CatHost where
  stat : CString → Except Errno Stat
  /-- The names `readdir` returns, if `opendir` succeeds. -/
  opendir : CString → Option (List CString)
  /-- The end of the resource file, if `open_rsrc` succeeds. -/
  rsrcEnd : CString → Option Int

/-- `mtime` and `cache_dircount` of an item. -/
structure DirCache where
  mtime : Int
  dircount : Int
  deriving DecidableEq, Repr

abbrev Caches := Nat → DirCache

/-- What `new` finds in memory; `create_fsitem` sets `mtime` and `ExtFSInit` neither field. -/
def newCaches (memory : Nat → DirCache) : Caches := fun p =>
  if p < 2 then memory p else { memory p with mtime := 0 }

def AL_BLK_SIZE : BitVec 32 := 0x4000

/-- The physical length for a logical one. -/
def physicalLength (size : BitVec 32) : BitVec 32 := (size ||| (AL_BLK_SIZE - 1)) + 1

structure ForkLengths where
  ioFlLgLen : BitVec 32
  ioFlPyLen : BitVec 32
  ioFlRLgLen : BitVec 32
  ioFlRPyLen : BitVec 32
  deriving DecidableEq, Repr

/-- A fork without a file has no bytes. -/
def getRforkSize (host : CatHost) (path : CString) : BitVec 32 :=
  match host.rsrcEnd path with
  | none => 0
  | some size => if size < 0 then 0 else BitVec.ofInt 32 size

def forkLengths (host : CatHost) (path : CString) (st : Stat) : ForkLengths :=
  let file_size := BitVec.ofNat 32 st.size
  let rf_size := getRforkSize host path
  ⟨file_size, physicalLength file_size, rf_size, physicalLength rf_size⟩

/-- The loop that counts; names beginning with a dot are suppressed. -/
def countEntries : List CString → Nat
  | [] => 0
  | name :: rest => if name.head? = some dot then countEntries rest else countEntries rest + 1

/-- The number of files found in a directory; one that cannot be opened has none. -/
def countDir (host : CatHost) (path : CString) : Nat := (host.opendir path).elim 0 countEntries

/-- The parts of the parameter block the call fills in. -/
structure CatRecord where
  /-- The Pascal string at `ioNamePtr`. -/
  name : List UInt8
  isDir : Bool
  ioDirID : Nat
  ioFlParID : Nat
  ioDrNmFls : Option (BitVec 16)
  lengths : Option ForkLengths

/-- The end of `fs_get_cat_info`, from `stat` on. -/
def fillCatInfo (host : CatHost) (t : FSTable) (caches : Caches) (fsItem : Nat) (path : CString)
    (dirIndex : Int) : Caches × Except Int CatRecord :=
  match host.stat path with
  | .error errno => (caches, .error (errno2oserr errno))
  | .ok st =>
    if dirIndex = -1 ∧ !st.isDir then (caches, .error dirNFErr)
    else
      let record : CatRecord :=
        { name := cstr2pstr (t.item fsItem).guestName
          isDir := st.isDir
          ioDirID := (t.item fsItem).id
          ioFlParID := (t.item fsItem).parentId
          ioDrNmFls := none
          lengths := none }
      let item := caches fsItem
      -- `mtime` is recorded for files too, and only ever moves on.
      let cached := st.mtime ≤ item.mtime
      let item := if cached then item else { item with mtime := st.mtime }
      if st.isDir then
        -- Determine number of files in directory (cached)
        let item := if cached then item else { item with dircount := countDir host path }
        (Function.update caches fsItem item,
          .ok { record with ioDrNmFls := some (BitVec.ofInt 16 item.dircount) })
      else
        (Function.update caches fsItem item,
          .ok { record with lengths := some (forkLengths host path st) })

/-- The item the call is about and its path; `ioDirID` and `ioDrDirID` are one field. -/
def catItem (vol : Volume) (host : CatHost) (fsm : FSM) (fuel : Nat) (t : FSTable)
    (pb : ParamBlock) (dirIndex : Int) : Option (FSTable × Except Int (Nat × CString)) :=
  if dirIndex < 0 then
    -- Query directory specified by ioDirID
    match findFsitemById t pb.ioDirID with
    | none => some (t, .error dirNFErr)
    | some p => (fullPath vol t p).map fun path => (t, .ok (p, path))
  else if dirIndex = 0 then
    -- Query item specified by ioDirID and ioNamePtr
    getItemAndPath vol fsm fuel t pb pb.ioDirID false
  else
    -- Query item in directory specified by ioDirID by index
    match getCurrentDir fsm pb pb.ioDirID true with
    | .error result => some (t, .error result)
    | .ok currentDir =>
      match findFsitemById t currentDir with
      | none => some (t, .error dirNFErr)
      | some p =>
        (fullPath vol t p).map fun dirPath =>
          match host.opendir dirPath with
          | none => (t, .error dirNFErr)
          | some names =>
            match nthEntry (dirIndex.toNat - 1) names with
            | none => (t, .error fnfErr)
            | some name =>
              let (fsItem, t) := findFsitem t name p
              (t, .ok (fsItem, addPathComponent dirPath name))

def fsGetCatInfo (vol : Volume) (host : CatHost) (fsm : FSM) (fuel : Nat) (t : FSTable)
    (caches : Caches) (pb : ParamBlock) (dirIndex : Int) :
    Option (FSTable × Caches × Except Int CatRecord) :=
  (catItem vol host fsm fuel t pb dirIndex).map fun
    | (t, .error result) => (t, caches, .error result)
    | (t, .ok (fsItem, path)) => (t, fillCatInfo host t caches fsItem path dirIndex)

theorem countEntries_eq (names : List CString) :
    countEntries names = (names.filter visible).length := by
  induction names with
  | nil => rfl
  | cons name rest ih =>
    by_cases hidden : name.head? = some dot
    · simp [countEntries, visible, hidden, ih]
    · simp [countEntries, visible, hidden, ih]

end BasiliskII.ExtFS
