import BasiliskII.Library.LinkedHeap
import BasiliskII.Stdio

/-!
# The preferences list

`the_prefs` of prefs.cpp: a pointer list of named, typed values, and the calls
that add, replace, find and remove items. `malloc` is taken to succeed. The
loops follow `next` links, so each carries the number of cells ever allocated
as its bound; no chain is longer.
-/
namespace BasiliskII.Prefs

open LinkedHeap

/-- `prefs_type`. `any` is the wildcard of `find_node`. -/
inductive PrefsType where
  | string
  | boolean
  | int32
  | any
  deriving DecidableEq, Repr

/-- What `data` points to. The type tag of a node is set with it and never changes. -/
inductive PrefsData where
  | string (s : CString)
  | boolean (b : Bool)
  | int32 (val : BitVec 32)
  deriving DecidableEq, Repr

def PrefsData.type : PrefsData → PrefsType
  | .string _ => .string
  | .boolean _ => .boolean
  | .int32 _ => .int32

structure PrefsNode where
  name : CString
  data : PrefsData
  deriving DecidableEq, Repr

structure Store where
  heap : Heap PrefsNode
  thePrefs : Option Nat

def Store.empty : Store := ⟨Heap.empty, none⟩

/-- The loop of `add_data` that looks for the node without a successor. -/
def lastNode (h : Heap PrefsNode) : Nat → Nat → Nat
  | 0, prev => prev
  | fuel + 1, prev =>
    match (h.cell prev).bind Cell.next with
    | some next => lastNode h fuel next
    | none => prev

def addData (st : Store) (name : CString) (data : PrefsData) : Store :=
  let p := st.heap.fresh
  let heap := st.heap.alloc ⟨⟨name, data⟩, none⟩
  match st.thePrefs with
  | some head =>
    let prev := lastNode st.heap st.heap.fresh head
    { st with heap := heap.modify prev fun c => { c with next := some p } }
  | none => ⟨heap, some p⟩

/-- The test of `find_node` on one node. -/
def nodeMatches (name : CString) (type : PrefsType) (n : PrefsNode) : Bool :=
  (type = .any || n.data.type = type) && n.name = name

/-- The loop of `find_node`, with `i` matching nodes passed so far. -/
def findNodeFrom (h : Heap PrefsNode) (name : CString) (type : PrefsType) (index : Int) :
    Nat → Option Nat → Int → Option Nat
  | 0, _, _ => none
  | _ + 1, none, _ => none
  | fuel + 1, some p, i =>
    match h.cell p with
    | none => none
    | some c =>
      if nodeMatches name type c.val then
        if i = index then some p else findNodeFrom h name type index fuel c.next (i + 1)
      else findNodeFrom h name type index fuel c.next i

def findNode (st : Store) (name : CString) (type : PrefsType) (index : Int) : Option Nat :=
  findNodeFrom st.heap name type index (st.heap.fresh + 1) st.thePrefs 0

/-- Assign to the data of a node. -/
def setData (st : Store) (p : Nat) (data : PrefsData) : Store :=
  { st with heap := st.heap.modify p fun c => { c with val := { c.val with data } } }

def prefsAddString (st : Store) (name s : CString) : Store := addData st name (.string s)

def prefsAddBool (st : Store) (name : CString) (b : Bool) : Store := addData st name (.boolean b)

def prefsAddInt32 (st : Store) (name : CString) (val : BitVec 32) : Store :=
  addData st name (.int32 val)

/-- The shape `PrefsReplaceString`, `PrefsReplaceBool` and `PrefsReplaceInt32` share. -/
def replaceData (st : Store) (name : CString) (data : PrefsData) (index : Int) : Store :=
  match findNode st name data.type index with
  | some p => setData st p data
  | none => addData st name data

def prefsReplaceString (st : Store) (name s : CString) (index : Int) : Store :=
  replaceData st name (.string s) index

def prefsReplaceBool (st : Store) (name : CString) (b : Bool) : Store :=
  replaceData st name (.boolean b) 0

def prefsReplaceInt32 (st : Store) (name : CString) (val : BitVec 32) : Store :=
  replaceData st name (.int32 val) 0

/-- The data `find_node` leads to. -/
def findData (st : Store) (name : CString) (type : PrefsType) (index : Int) : Option PrefsData :=
  (findNode st name type index).bind fun p => (st.heap.cell p).map fun c => c.val.data

/-- The casts of `data` in the `PrefsFind*` calls, with their values for a missing item. -/
def stringValue : Option PrefsData → Option CString
  | some (.string s) => some s
  | _ => none

def boolValue : Option PrefsData → Bool
  | some (.boolean b) => b
  | _ => false

def int32Value : Option PrefsData → BitVec 32
  | some (.int32 val) => val
  | _ => 0

def prefsFindString (st : Store) (name : CString) (index : Int) : Option CString :=
  stringValue (findData st name .string index)

def prefsFindBool (st : Store) (name : CString) : Bool := boolValue (findData st name .boolean 0)

def prefsFindInt32 (st : Store) (name : CString) : BitVec 32 :=
  int32Value (findData st name .int32 0)

/-- The loop of `PrefsRemoveItem` that looks for the predecessor `q` of `p` and unlinks `p`. -/
def unlinkFrom (h : Heap PrefsNode) (p : Nat) : Nat → Option Nat → Heap PrefsNode
  | 0, _ => h
  | _ + 1, none => h
  | fuel + 1, some q =>
    match h.cell q with
    | none => h
    | some c =>
      if c.next = some p then
        (h.modify q fun c => { c with next := (h.cell p).bind Cell.next }).free p
      else unlinkFrom h p fuel c.next

def prefsRemoveItem (st : Store) (name : CString) (index : Int) : Store :=
  match findNode st name .any index with
  | some p =>
    if st.thePrefs = some p then
      -- The source drops the whole list here, not only its first node.
      ⟨st.heap.free p, none⟩
    else { st with heap := unlinkFrom st.heap p (st.heap.fresh + 1) st.thePrefs }
  | none => st

/-- The public calls on the store. -/
inductive Call where
  | addString (name s : CString)
  | addBool (name : CString) (b : Bool)
  | addInt32 (name : CString) (val : BitVec 32)
  | replaceString (name s : CString) (index : Int)
  | replaceBool (name : CString) (b : Bool)
  | replaceInt32 (name : CString) (val : BitVec 32)
  | findString (name : CString) (index : Int)
  | findBool (name : CString)
  | findInt32 (name : CString)
  | removeItem (name : CString) (index : Int)
  deriving DecidableEq, Repr

/-- What a call returns. -/
inductive Reply where
  | void
  | string (s : Option CString)
  | boolean (b : Bool)
  | int32 (val : BitVec 32)
  deriving DecidableEq, Repr

def call (st : Store) : Call → Store × Reply
  | .addString name s => (prefsAddString st name s, .void)
  | .addBool name b => (prefsAddBool st name b, .void)
  | .addInt32 name val => (prefsAddInt32 st name val, .void)
  | .replaceString name s index => (prefsReplaceString st name s index, .void)
  | .replaceBool name b => (prefsReplaceBool st name b, .void)
  | .replaceInt32 name val => (prefsReplaceInt32 st name val, .void)
  | .findString name index => (st, .string (prefsFindString st name index))
  | .findBool name => (st, .boolean (prefsFindBool st name))
  | .findInt32 name => (st, .int32 (prefsFindInt32 st name))
  | .removeItem name index => (prefsRemoveItem st name index, .void)

end BasiliskII.Prefs
