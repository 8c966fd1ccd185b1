import BasiliskII.Library.Occurrence
import BasiliskII.Prefs.Store

/-!
# The preferences list as an ordered multimap

The abstract store is a list of entries. `represents_call` is the step lemma:
one call on the pointer list does to the represented entries what the abstract
call does, unless it removes the first of several entries. There
`PrefsRemoveItem` drops the whole list, and `call_loses_rest` shows that no
representation survives.
-/
namespace BasiliskII.Prefs

open LinkedHeap Occurrence

-- The abstract store

abbrev Entries := List PrefsNode

def named (name : CString) (n : PrefsNode) : Bool := n.name = name

def namedOfType (name : CString) (type : PrefsType) (n : PrefsNode) : Bool :=
  n.data.type = type && n.name = name

/-- The entry with a given index among those `m` selects. -/
def entryAt (m : PrefsNode → Bool) (l : Entries) (index : Int) : Option PrefsNode :=
  if 0 ≤ index then findNth m l index.toNat else none

def addEntry (l : Entries) (name : CString) (data : PrefsData) : Entries := l ++ [⟨name, data⟩]

def replaceEntry (l : Entries) (name : CString) (data : PrefsData) (index : Int) : Entries :=
  match entryAt (namedOfType name data.type) l index with
  | some _ => setNth (namedOfType name data.type) (fun n => { n with data }) l index.toNat
  | none => addEntry l name data

def removeEntry (l : Entries) (name : CString) (index : Int) : Entries :=
  if 0 ≤ index then eraseNth (named name) l index.toNat else l

def dataAt (l : Entries) (name : CString) (type : PrefsType) (index : Int) : Option PrefsData :=
  (entryAt (namedOfType name type) l index).map PrefsNode.data

def abstractCall (l : Entries) : Call → Entries × Reply
  | .addString name s => (addEntry l name (.string s), .void)
  | .addBool name b => (addEntry l name (.boolean b), .void)
  | .addInt32 name val => (addEntry l name (.int32 val), .void)
  | .replaceString name s index => (replaceEntry l name (.string s) index, .void)
  | .replaceBool name b => (replaceEntry l name (.boolean b) 0, .void)
  | .replaceInt32 name val => (replaceEntry l name (.int32 val) 0, .void)
  | .findString name index => (l, .string (stringValue (dataAt l name .string index)))
  | .findBool name => (l, .boolean (boolValue (dataAt l name .boolean 0)))
  | .findInt32 name => (l, .int32 (int32Value (dataAt l name .int32 0)))
  | .removeItem name index => (removeEntry l name index, .void)

/-- `the_prefs` holds exactly these entries, in this order. -/
def Represents (st : Store) (l : Entries) : Prop :=
  ∃ cells, Chain st.heap st.thePrefs cells ∧ cells.map Prod.snd = l

theorem represents_empty : Represents Store.empty [] := ⟨[], .null, rfl⟩

variable {st : Store} {l : Entries}

theorem represents_unique {k : Entries} (left : Represents st l) (right : Represents st k) : l = k := by
  obtain ⟨cells, chain, rfl⟩ := left
  obtain ⟨others, other, rfl⟩ := right
  rw [chain.unique other]

-- The loops of the source along a chain

variable {h : Heap PrefsNode} {cells : List (Nat × PrefsNode)}

theorem lastNode_chain {p : Nat} (chain : Chain h (some p) cells) (fuel : Nat)
    (enough : cells.length ≤ fuel) : ∃ front a, cells = front ++ [(lastNode h fuel p, a)] := by
  induction fuel generalizing p cells with
  | zero =>
    have none_left : cells = [] := List.eq_nil_of_length_eq_zero (by omega)
    subst none_left
    cases chain
  | succ fuel ih =>
    cases chain with
    | @cell _ a next rest found onward =>
      simp only [List.length_cons] at enough
      cases next with
      | none =>
        cases onward
        exact ⟨[], a, by simp [lastNode, found]⟩
      | some q =>
        obtain ⟨front, b, split⟩ := ih onward (by omega)
        exact ⟨(p, a) :: front, b, by simp [lastNode, found, split]⟩

/-- An index below the number of nodes already passed is never reached. -/
theorem findNodeFrom_below (name : CString) (type : PrefsType) (index : Int) (fuel : Nat)
    (p : Option Nat) (i : Int) (passed : index < i) :
    findNodeFrom h name type index fuel p i = none := by
  induction fuel generalizing p i with
  | zero => rfl
  | succ fuel ih =>
    cases p with
    | none => rfl
    | some p =>
      have differs : ¬ i = index := by omega
      simp only [findNodeFrom, if_neg differs]
      split
      · rfl
      · split
        · exact ih _ _ (by omega)
        · exact ih _ _ passed

theorem findNodeFrom_chain {p : Option Nat} (chain : Chain h p cells) (name : CString)
    (type : PrefsType) (index i : Int) (fuel : Nat) (enough : cells.length < fuel)
    (ahead : i ≤ index) :
    findNodeFrom h name type index fuel p i =
      (findNth (fun c => nodeMatches name type c.2) cells (index - i).toNat).map Prod.fst := by
  induction chain generalizing fuel i with
  | null =>
    cases fuel with
    | zero => simp [findNodeFrom, findNth]
    | succ fuel => simp [findNodeFrom, findNth]
  | @cell q a next cells found onward ih =>
    cases fuel with
    | zero => omega
    | succ fuel =>
      simp only [List.length_cons] at enough
      simp only [findNodeFrom, found]
      by_cases hit : nodeMatches name type a = true
      · simp only [hit, if_true]
        by_cases here : i = index
        · subst here
          simp [findNth, hit]
        · have later : (index - i).toNat = (index - (i + 1)).toNat + 1 := by omega
          rw [if_neg here, ih (i + 1) fuel (by omega) (by omega), later]
          simp [findNth, hit]
      · rw [if_neg hit, ih i fuel (by omega) ahead]
        simp [findNth, hit]

/-- `find_node` returns the address of the entry the abstract lookup returns. -/
theorem findNode_chain (chain : Chain st.heap st.thePrefs cells) (name : CString) (type : PrefsType)
    (index : Int) :
    findNode st name type index =
      if 0 ≤ index then
        (findNth (fun c => nodeMatches name type c.2) cells index.toNat).map Prod.fst
      else none := by
  unfold findNode
  split
  next ahead =>
    have walked := findNodeFrom_chain chain name type index 0 (st.heap.fresh + 1)
      (by have := chain.length_le; omega) ahead
    simpa only [Int.sub_zero] using walked
  next behind => exact findNodeFrom_below name type index _ _ 0 (by omega)

/-- A node found is a cell of the chain with exactly `index` matching cells before it. -/
theorem findNode_split (chain : Chain st.heap st.thePrefs cells) {name : CString} {type : PrefsType}
    {index : Int} {p : Nat} (found : findNode st name type index = some p) :
    0 ≤ index ∧ ∃ front a back, cells = front ++ (p, a) :: back ∧
      nodeMatches name type a = true ∧
      (front.filter fun c => nodeMatches name type c.2).length = index.toNat := by
  rw [findNode_chain chain] at found
  split at found
  next ahead =>
    obtain ⟨⟨q, a⟩, nth, rfl⟩ := Option.map_eq_some_iff.mp found
    obtain ⟨front, back, split, satisfied, count⟩ := split_of_findNth nth
    exact ⟨ahead, front, a, back, split, satisfied, count⟩
  next => cases found

theorem nodeMatches_type {name : CString} {type : PrefsType} (concrete : type ≠ .any) :
    nodeMatches name type = namedOfType name type := by
  funext n
  simp [nodeMatches, namedOfType, concrete]

theorem nodeMatches_any (name : CString) : nodeMatches name .any = named name := by
  funext n
  simp [nodeMatches, named]

theorem PrefsData.type_ne_any (data : PrefsData) : data.type ≠ .any := by
  cases data <;> simp [PrefsData.type]

-- One call on the pointer list

theorem represents_addData (rep : Represents st l) (name : CString) (data : PrefsData) :
    Represents (addData st name data) (addEntry l name data) := by
  obtain ⟨cells, chain, rfl⟩ := rep
  unfold addData
  cases first : st.thePrefs with
  | none =>
    rw [first] at chain
    cases chain
    exact ⟨[(st.heap.fresh, ⟨name, data⟩)], .cell (by simp) .null, rfl⟩
  | some head =>
    rw [first] at chain
    obtain ⟨front, a, split⟩ := lastNode_chain chain st.heap.fresh chain.length_le
    dsimp only
    generalize lastNode st.heap st.heap.fresh head = prev at split ⊢
    have bound := chain.lt_fresh
    have apart := (split ▸ chain).apart
    obtain ⟨next, found, _⟩ := (split ▸ chain).cell_eq
    have prev_old : prev ≠ st.heap.fresh := by
      have := st.heap.lt_fresh found
      omega
    refine ⟨front ++ [(prev, a), (st.heap.fresh, ⟨name, data⟩)], ?_, by simp [split, addEntry]⟩
    refine (split ▸ chain).splice (some st.heap.fresh) ?_ ?_ ?_
    · simp [Heap.alloc_cell_of_ne _ _ prev_old, found]
    · intro r member
      have r_old : r ≠ st.heap.fresh := by
        have := bound r (by rw [split, List.map_append]; exact List.mem_append_left _ member)
        omega
      have r_front : r ≠ prev := fun same => apart.1 (same ▸ member)
      rw [Heap.modify_cell_of_ne _ _ r_front, Heap.alloc_cell_of_ne _ _ r_old]
    · refine .cell ?_ .null
      rw [Heap.modify_cell_of_ne _ _ prev_old.symm, Heap.alloc_cell_fresh]

theorem represents_replaceData (rep : Represents st l) (name : CString) (data : PrefsData)
    (index : Int) :
    Represents (replaceData st name data index) (replaceEntry l name data index) := by
  obtain ⟨cells, chain, rfl⟩ := rep
  have walked := findNode_chain chain name data.type index
  rw [nodeMatches_type data.type_ne_any] at walked
  unfold replaceData replaceEntry entryAt
  rw [findNth_map]
  cases found : findNode st name data.type index with
  | none =>
    have absent : (if 0 ≤ index then
        (findNth (fun c => namedOfType name data.type c.2) cells index.toNat).map Prod.snd
        else none) = none := by
      rw [found] at walked
      split at walked
      · rw [Option.map_eq_none_iff.mp walked.symm]; simp
      · simp_all
    rw [absent]
    exact represents_addData ⟨cells, chain, rfl⟩ name data
  | some p =>
    obtain ⟨ahead, front, a, back, rfl, satisfied, count⟩ := findNode_split chain found
    rw [nodeMatches_type data.type_ne_any] at satisfied count
    have present : ∃ c, findNth (fun c => namedOfType name data.type c.2)
        (front ++ (p, a) :: back) index.toNat = some c := by
      rw [found, if_pos ahead] at walked
      obtain ⟨c, nth, _⟩ := Option.map_eq_some_iff.mp walked.symm
      exact ⟨c, nth⟩
    obtain ⟨c, nth⟩ := present
    obtain ⟨next, cell, rest⟩ := chain.cell_eq
    have apart := chain.apart
    simp only [nth, if_pos ahead, Option.map_some]
    refine ⟨front ++ (p, { a with data }) :: back, ?_, ?_⟩
    · refine chain.splice next (by simp [setData, cell]) ?_ (rest.frame ?_)
      · exact fun r member => Heap.modify_cell_of_ne _ _ fun same => apart.1 (same ▸ member)
      · exact fun r member => Heap.modify_cell_of_ne _ _ fun same => apart.2 (same ▸ member)
    · rw [List.map_append, List.map_cons, ← count]
      have mapped : (front.filter fun c => namedOfType name data.type c.2).length =
          ((front.map Prod.snd).filter (namedOfType name data.type)).length := by
        rw [List.filter_map, List.length_map]
        rfl
      rw [mapped, List.map_append, List.map_cons, setNth_split _ _ _ satisfied]

/-- Walking from the head, the unlink loop stops at the predecessor of `p`. -/
theorem unlinkFrom_chain {start : Option Nat} {p q : Nat} {a b : PrefsNode}
    {front back : List (Nat × PrefsNode)}
    (chain : Chain h start (front ++ (q, b) :: (p, a) :: back)) (fuel : Nat)
    (enough : front.length < fuel) :
    unlinkFrom h p fuel start =
      (h.modify q fun c => { c with next := (h.cell p).bind Cell.next }).free p := by
  induction front generalizing start fuel with
  | nil =>
    cases fuel with
    | zero => omega
    | succ fuel =>
      cases chain with
      | cell found onward =>
        cases onward.head_eq
        simp [unlinkFrom, found]
  | cons first front ih =>
    cases fuel with
    | zero => simp at enough
    | succ fuel =>
      have distinct := chain.nodup
      cases chain with
      | @cell r _ next _ found onward =>
        simp only [List.length_cons] at enough
        have not_here : next ≠ some p := by
          intro here
          -- `p` stands behind `q`, so it cannot be the cell right behind `first`.
          have tail := (List.nodup_cons.mp distinct).2
          cases front with
          | nil =>
            have := onward.head_eq
            simp_all
          | cons second front =>
            have := onward.head_eq
            simp_all
        simp only [unlinkFrom, found, if_neg not_here]
        exact ih onward fuel (by omega)

/-- The first of several entries, the one `PrefsRemoveItem` does not unlink but drops with
everything behind it. -/
def FirstOfMany (l : Entries) (name : CString) (index : Int) : Prop :=
  index = 0 ∧ ∃ first rest, l = first :: rest ∧ first.name = name ∧ rest ≠ []

theorem head_of_named {first : PrefsNode} {rest : Entries} {name : CString} {index : Int}
    (split : l = first :: rest) (satisfied : named name first = true) (many : rest ≠ [])
    (zero : index = 0) : FirstOfMany l name index :=
  ⟨zero, first, rest, split, by simpa [named] using satisfied, many⟩

/-- What `PrefsRemoveItem` leaves, in the three cases of the source. -/
theorem represents_removeItem (rep : Represents st l) (name : CString) (index : Int)
    (kept : ¬ FirstOfMany l name index) :
    Represents (prefsRemoveItem st name index) (removeEntry l name index) := by
  obtain ⟨cells, chain, rfl⟩ := rep
  have walked := findNode_chain chain name .any index
  rw [nodeMatches_any] at walked
  unfold prefsRemoveItem removeEntry
  cases found : findNode st name .any index with
  | none =>
    refine ⟨cells, chain, ?_⟩
    rw [found] at walked
    split
    next ahead =>
      rw [if_pos ahead] at walked
      have absent := Option.map_eq_none_iff.mp walked.symm
      rw [eraseNth_of_findNth_none]
      rw [findNth_map, absent]
      rfl
    next => rfl
  | some p =>
    obtain ⟨ahead, front, a, back, rfl, satisfied, count⟩ := findNode_split chain found
    rw [nodeMatches_any] at satisfied count
    have mapped : index.toNat = ((front.map Prod.snd).filter (named name)).length := by
      rw [List.filter_map, List.length_map]
      exact count.symm
    rw [if_pos ahead, mapped, List.map_append, List.map_cons, eraseNth_split _ _ satisfied]
    rcases List.eq_nil_or_concat' front with rfl | ⟨front, ⟨q, b⟩, rfl⟩
    · -- The node found is the head of the list.
      have head : st.thePrefs = some p := chain.head_eq
      have alone : back = [] := by
        by_contra more
        refine kept (head_of_named (List.map_cons ..) satisfied ?_ (by simp at count; omega))
        simpa using more
      subst alone
      simp only [head, if_true]
      exact ⟨[], .null, rfl⟩
    · have distinct := chain.apart
      obtain ⟨next, cell, rest⟩ := chain.cell_eq
      rw [List.append_assoc, List.singleton_append] at chain
      have not_head : st.thePrefs ≠ some p := by
        intro same
        cases front with
        | nil =>
          have := chain.head_eq
          simp_all
        | cons first front =>
          have := chain.head_eq
          simp_all
      have fuel : front.length < st.heap.fresh + 1 := by
        have := chain.length_le
        simp only [List.length_append, List.length_cons] at this
        omega
      simp only [if_neg not_head, unlinkFrom_chain chain _ fuel]
      obtain ⟨_, cell_q, _⟩ := chain.cell_eq
      have apart := chain.apart
      simp only [List.map_append, List.map_cons, List.map_nil, List.mem_append,
        List.mem_singleton, not_or] at distinct
      simp only [List.map_cons, List.mem_cons, not_or] at apart
      refine ⟨front ++ (q, b) :: back, ?_, by simp⟩
      refine chain.splice next ?_ ?_ (rest.frame ?_)
      · rw [Heap.free_cell_of_ne _ apart.2.1, Heap.modify_cell_self, cell_q, cell]
        rfl
      · intro r member
        have r_p : r ≠ p := fun same => distinct.1.1 (same ▸ member)
        have r_q : r ≠ q := fun same => apart.1 (same ▸ member)
        rw [Heap.free_cell_of_ne _ r_p, Heap.modify_cell_of_ne _ _ r_q]
      · intro r member
        have r_p : r ≠ p := fun same => distinct.2 (same ▸ member)
        have r_q : r ≠ q := fun same => apart.2.2 (same ▸ member)
        rw [Heap.free_cell_of_ne _ r_p, Heap.modify_cell_of_ne _ _ r_q]

theorem findData_represents (rep : Represents st l) (name : CString) (type : PrefsType)
    (concrete : type ≠ .any) (index : Int) :
    findData st name type index = dataAt l name type index := by
  obtain ⟨cells, chain, rfl⟩ := rep
  have walked := findNode_chain chain name type index
  rw [nodeMatches_type concrete] at walked
  unfold findData dataAt entryAt
  rw [findNth_map, walked]
  split
  next ahead =>
    cases nth : findNth (fun c => namedOfType name type c.2) cells index.toNat with
    | none => rfl
    | some c =>
      obtain ⟨front, back, rfl, _, _⟩ := split_of_findNth nth
      obtain ⟨next, cell, _⟩ := chain.cell_eq
      simp [cell]
  next => rfl

-- Whole sequences of calls

/-- The calls whose effect on the pointer list is the one on the entries. -/
def KeepsRest (l : Entries) : Call → Prop
  | .removeItem name index => ¬ FirstOfMany l name index
  | _ => True

theorem represents_call (rep : Represents st l) (c : Call) (kept : KeepsRest l c) :
    Represents (call st c).1 (abstractCall l c).1 := by
  cases c with
  | addString name s => exact represents_addData rep name (.string s)
  | addBool name b => exact represents_addData rep name (.boolean b)
  | addInt32 name val => exact represents_addData rep name (.int32 val)
  | replaceString name s index => exact represents_replaceData rep name (.string s) index
  | replaceBool name b => exact represents_replaceData rep name (.boolean b) 0
  | replaceInt32 name val => exact represents_replaceData rep name (.int32 val) 0
  | findString name index => exact rep
  | findBool name | findInt32 name => exact rep
  | removeItem name index => exact represents_removeItem rep name index kept

theorem reply_call (rep : Represents st l) (c : Call) : (call st c).2 = (abstractCall l c).2 := by
  have found := findData_represents rep
  cases c with
  | findString name index =>
    simp only [call, abstractCall, prefsFindString, found name .string (by decide) index]
  | findBool name =>
    simp only [call, abstractCall, prefsFindBool, found name .boolean (by decide) 0]
  | findInt32 name =>
    simp only [call, abstractCall, prefsFindInt32, found name .int32 (by decide) 0]
  | _ => rfl

/-- Removing the first of several entries empties the pointer list, so it represents nothing
but the empty list, while the abstract list keeps the rest. -/
theorem call_loses_rest (rep : Represents st l) {c : Call} (broken : ¬ KeepsRest l c) :
    ¬ Represents (call st c).1 (abstractCall l c).1 := by
  cases c with
  | removeItem name index =>
    obtain ⟨rfl, first, rest, rfl, rfl, many⟩ := not_not.mp broken
    obtain ⟨cells, chain, mapped⟩ := rep
    have emptied : Represents (prefsRemoveItem st first.name 0) [] := by
      cases cells with
      | nil => simp at mapped
      | cons c cells =>
        obtain ⟨p, a⟩ := c
        simp only [List.map_cons, List.cons.injEq] at mapped
        obtain ⟨rfl, _⟩ := mapped
        have walked := findNode_chain chain a.name .any 0
        have found : findNode st a.name .any 0 = some p := by
          simpa [nodeMatches_any, findNth, named] using walked
        simp only [prefsRemoveItem, found, chain.head_eq, if_true]
        exact ⟨[], .null, rfl⟩
    intro survived
    have removed : removeEntry (first :: rest) first.name 0 = rest := by
      simp [removeEntry, eraseNth, named]
    have same := represents_unique emptied survived
    simp only [abstractCall, removed] at same
    exact many same.symm
  | _ => exact absurd trivial broken

/-- The pointer list and the replies after a sequence of calls. -/
def calls (st : Store) : List Call → Store × List Reply
  | [] => (st, [])
  | c :: cs =>
    let (st, reply) := call st c
    let (st, replies) := calls st cs
    (st, reply :: replies)

def abstractCalls (l : Entries) : List Call → Entries × List Reply
  | [] => (l, [])
  | c :: cs =>
    let (l, reply) := abstractCall l c
    let (l, replies) := abstractCalls l cs
    (l, reply :: replies)

theorem calls_cons (st : Store) (c : Call) (cs : List Call) :
    calls st (c :: cs) =
      ((calls (call st c).1 cs).1, (call st c).2 :: (calls (call st c).1 cs).2) := rfl

theorem abstractCalls_cons (l : Entries) (c : Call) (cs : List Call) :
    abstractCalls l (c :: cs) =
      ((abstractCalls (abstractCall l c).1 cs).1,
        (abstractCall l c).2 :: (abstractCalls (abstractCall l c).1 cs).2) := rfl

/-- After every initial part of the calls the pointer list holds the abstract entries, and
every call so far has returned what the abstract call returns. -/
def Refines (st : Store) (l : Entries) (cs : List Call) : Prop :=
  ∀ done, done <+: cs →
    Represents (calls st done).1 (abstractCalls l done).1 ∧
      (calls st done).2 = (abstractCalls l done).2

/-- No call of the sequence removes the first of several entries. -/
def NeverRemovesFirst (l : Entries) (cs : List Call) : Prop :=
  ∀ done name index, done ++ [.removeItem name index] <+: cs →
    ¬ FirstOfMany (abstractCalls l done).1 name index

theorem neverRemovesFirst_cons (l : Entries) (c : Call) (cs : List Call) :
    NeverRemovesFirst l (c :: cs) ↔
      KeepsRest l c ∧ NeverRemovesFirst (abstractCall l c).1 cs := by
  constructor
  · intro never
    constructor
    · cases c with
      | removeItem name index => exact never [] name index (by simp)
      | _ => trivial
    · intro done name index initial
      exact never (c :: done) name index (by simpa using initial)
  · rintro ⟨kept, never⟩ done name index initial
    cases done with
    | nil =>
      rw [List.nil_append, List.cons_prefix_cons] at initial
      obtain ⟨rfl, _⟩ := initial
      exact kept
    | cons d done =>
      simp only [List.cons_append, List.cons_prefix_cons] at initial
      obtain ⟨rfl, initial⟩ := initial
      exact never done name index initial

theorem refines_iff (rep : Represents st l) (cs : List Call) :
    Refines st l cs ↔ NeverRemovesFirst l cs := by
  induction cs generalizing st l with
  | nil =>
    constructor
    · intro _ done name index initial
      simp at initial
    · intro _ done initial
      rw [List.prefix_nil] at initial
      subst initial
      exact ⟨rep, rfl⟩
  | cons c cs ih =>
    rw [neverRemovesFirst_cons]
    constructor
    · intro refines
      have kept : KeepsRest l c := by
        by_contra broken
        exact call_loses_rest rep broken (refines [c] (by simp)).1
      refine ⟨kept, (ih (represents_call rep c kept)).mp fun done initial => ?_⟩
      have later := refines (c :: done) (by simpa using initial)
      rw [calls_cons, abstractCalls_cons] at later
      exact ⟨later.1, (List.cons.inj later.2).2⟩
    · rintro ⟨kept, never⟩ done initial
      cases done with
      | nil => exact ⟨rep, rfl⟩
      | cons d done =>
        rw [List.cons_prefix_cons] at initial
        obtain ⟨rfl, initial⟩ := initial
        have later := (ih (represents_call rep d kept)).mpr never done initial
        rw [calls_cons, abstractCalls_cons, reply_call rep d]
        exact ⟨later.1, by rw [later.2]⟩

/-- **The store refines the ordered multimap** exactly along the sequences of calls that never
remove the first of several entries. -/
theorem store_refines_multimap_iff (cs : List Call) :
    Refines Store.empty [] cs ↔ NeverRemovesFirst [] cs :=
  refines_iff represents_empty cs

/-- Two items, then the removal of the first: the second is gone as well. -/
theorem removing_first_loses_second :
    ¬ Refines Store.empty [] [.addBool [97] true, .addBool [98] true, .removeItem [97] 0,
      .findBool [98]] := by
  intro refines
  have replies := (refines _ (List.prefix_refl _)).2
  revert replies
  decide

end BasiliskII.Prefs
