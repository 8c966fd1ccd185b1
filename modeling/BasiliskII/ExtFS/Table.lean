import BasiliskII.Stdio
import Mathlib.Algebra.Group.Nat.Defs
import Mathlib.Data.List.Basic

/-!
# The FSItem table

The objects of extfs.cpp that map CNIDs to host path names. The list
`first_fs_item .. last_fs_item` only ever grows at its end, so a pointer to an
item is its position in the list. Host and guest names use the same encoding
here, as in the Vita, PSP, Unix and Windows ports.
-/
namespace BasiliskII.ExtFS

def MAX_PATH_LENGTH : Nat := 1024

def ROOT_ID : Nat := 2

def ROOT_PARENT_ID : Nat := 1

def fsUsrCNID : Nat := 16

/-- The path separator of the host. -/
def slash : UInt8 := 47

def colon : UInt8 := 58

structure FSItem where
  id : Nat
  parentId : Nat
  parent : Option Nat
  name : CString
  guestName : CString
  deriving DecidableEq, Repr

/-- The list of items and `next_cnid`, a `uint32`. -/
structure FSTable where
  items : List FSItem
  nextCnid : Nat
  deriving DecidableEq, Repr

/-- What the preferences and the string table fix for a run. -/
structure Volume where
  rootPath : CString
  volumeName : CString
  deriving DecidableEq, Repr

def nullItem : FSItem := ⟨0, 0, none, [], []⟩

/-- Dereference a pointer to an item. -/
def FSTable.item (t : FSTable) (p : Nat) : FSItem := t.items.getD p nullItem

def FSTable.Valid (t : FSTable) (p : Nat) : Prop := p < t.items.length

instance (t : FSTable) (p : Nat) : Decidable (t.Valid p) := inferInstanceAs (Decidable (_ < _))

-- extfs_psp.cpp returns its argument in both directions.

def hostEncodingToMacroman (filename : CString) : CString := filename

def macromanToHostEncoding (filename : CString) : CString := filename

/-- `guest_name` holds 31 characters and the terminating zero. -/
def clipGuestName (name : CString) : CString := name.take 31

def findFsitemById (t : FSTable) (cnid : Nat) : Option Nat :=
  t.items.findIdx? fun it => it.id = cnid

def createFsitem (t : FSTable) (name guestName : CString) (parent : Nat) : Nat × FSTable :=
  let it : FSItem :=
    { id := t.nextCnid
      parentId := (t.item parent).id
      parent := some parent
      name := name
      guestName := clipGuestName guestName }
  (t.items.length, ⟨t.items ++ [it], (t.nextCnid + 1) % 2 ^ 32⟩)

def findFsitem (t : FSTable) (name : CString) (parent : Nat) : Nat × FSTable :=
  match t.items.findIdx? fun it => it.parent = some parent && it.name = name with
  | some p => (p, t)
  | none => createFsitem t name (hostEncodingToMacroman name) parent

def findFsitemGuest (t : FSTable) (guestName : CString) (parent : Nat) : Nat × FSTable :=
  match t.items.findIdx? fun it => it.parent = some parent && it.guestName = guestName with
  | some p => (p, t)
  | none => createFsitem t (macromanToHostEncoding guestName) guestName parent

/-- Append a component to `full_path`. On an empty path the source looks at the byte before the
buffer, which is taken not to be a slash. -/
def addPathComponent (path component : CString) : CString :=
  let path :=
    if path.length < MAX_PATH_LENGTH - 1 ∧ path.getLast? ≠ some slash then path ++ [slash] else path
  path ++ component.take (MAX_PATH_LENGTH - 1)

/-- The recursion of `get_path_for_fsitem`, to at most `fuel` items; `none` when it has not
ended by then or has followed a null pointer. -/
def getPathForFsitem (vol : Volume) (t : FSTable) : Nat → Nat → Option CString
  | 0, _ => none
  | fuel + 1, p =>
    if (t.item p).id = ROOT_PARENT_ID then some []
    else if (t.item p).id = ROOT_ID then some (vol.rootPath.take (MAX_PATH_LENGTH - 1))
    else
      match (t.item p).parent with
      | none => none
      | some q =>
        (getPathForFsitem vol t fuel q).map fun path => addPathComponent path (t.item p).name

/-- The full path of an item; no chain of parents is longer than the list. -/
def fullPath (vol : Volume) (t : FSTable) (p : Nat) : Option CString :=
  getPathForFsitem vol t t.items.length p

/-- `find_fsitem_by_id` followed by `get_path_for_fsitem`. -/
def resolve (vol : Volume) (t : FSTable) (cnid : Nat) : Option CString :=
  (findFsitemById t cnid).bind fun p => fullPath vol t p

def swapParentIds (t : FSTable) (parent1 parent2 : Nat) : FSTable :=
  { t with
    items := t.items.map fun it =>
      if it.parentId = parent1 then { it with parentId := parent2 }
      else if it.parentId = parent2 then { it with parentId := parent1 }
      else it }

def FSTable.setId (t : FSTable) (p id : Nat) : FSTable :=
  { t with items := t.items.modify p fun it => { it with id } }

/-- The end of `fs_rename` and `fs_cat_move`: the id of the old item has to stay the same, so
the ids of the two items are swapped. -/
def swapItemIds (t : FSTable) (fsItem newItem : Nat) : FSTable :=
  let a := (t.item fsItem).id
  let b := (t.item newItem).id
  ((swapParentIds t a b).setId fsItem b).setId newItem a

/-- The two items `ExtFSInit` creates: the root's parent and the root. `next_cnid` has its
static initial value. -/
def extFSInit (vol : Volume) : FSTable where
  items :=
    [⟨ROOT_PARENT_ID, 0, none, [], []⟩,
      ⟨ROOT_ID, ROOT_PARENT_ID, some 0, vol.volumeName,
        clipGuestName (hostEncodingToMacroman vol.volumeName)⟩]
  nextCnid := fsUsrCNID

/-- A path component of the guest: Mac `/` becomes host `:`, and a zero byte ends the string. -/
def strn2cstr (src : List UInt8) : CString :=
  (src.map fun c => if c = slash then colon else c).takeWhile (· ≠ 0)

end BasiliskII.ExtFS
