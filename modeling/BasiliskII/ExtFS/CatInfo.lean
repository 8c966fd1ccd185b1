import BasiliskII.ExtFS.Calls
import Mathlib.Data.List.TakeWhile

/-!
# Listing a directory and looking its names up

`fs_get_cat_info` with a positive index finds an item by its host name and
reports the guest name, which is cut after 31 characters. A lookup finds the
first item with that guest name. So a reported name leads back to its item
unless an earlier item of the directory agrees with it in those characters.
The dates, sizes and Finder information of the call are left out.
-/
namespace BasiliskII.ExtFS

open StepSystem

variable {t u : FSTable} {vol : Volume}

def dot : UInt8 := 46

/-- The directories of the host, as `opendir`, `readdir` and `stat` show them. -/
structure Directories where
  /-- The names `readdir` returns, one after the other; `none` if there is no such directory. -/
  entries : CString → Option (List CString)
  /-- `stat(path, &st)`, and `S_ISDIR(st.st_mode)`. -/
  stat : CString → Except Errno Bool
  distinct : ∀ path names, entries path = some names → names.Nodup
  names : ∀ path names, entries path = some names →
    ∀ name ∈ names, name ≠ [] ∧ slash ∉ name ∧ 0 ∉ name

/-- The parts of the parameter block the call fills in. -/
structure CatInfo where
  /-- `fs_item`, which the call takes the rest from. -/
  item : Nat
  /-- `full_path` -/
  path : CString
  /-- The Pascal string at `ioNamePtr`. -/
  name : List UInt8
  isDir : Bool
  ioDirID : Nat
  ioFlParID : Nat

/-- A host name as a Pascal string: host `:` becomes Mac `/`. -/
def cstr2pstr (src : CString) : List UInt8 :=
  UInt8.ofNat src.length :: src.map fun c => if c = colon then slash else c

/-- `read_next_de`: names beginning with a dot are suppressed. -/
def readNextDe : List CString → Option (CString × List CString)
  | [] => none
  | name :: rest => if name.head? = some dot then readNextDe rest else some (name, rest)

/-- The loop over `i < dir_index`, for `dir_index = count + 1`. -/
def nthEntry : Nat → List CString → Option CString
  | 0, names => (readNextDe names).map Prod.fst
  | count + 1, names => (readNextDe names).bind fun (_, rest) => nthEntry count rest

/-- `fs_get_cat_info` with `ioFDirIndex = index + 1`, when `ioNamePtr` is not null. -/
def fsGetCatInfoIndexed (vol : Volume) (dirs : Directories) (fsm : FSM) (t : FSTable)
    (pb : ParamBlock) (dirID index : Nat) : Option (FSTable × Except Int CatInfo) :=
  match getCurrentDir fsm pb dirID true with
  | .error result => some (t, .error result)
  | .ok currentDir =>
    match findFsitemById t currentDir with
    | none => some (t, .error dirNFErr)
    | some p =>
      (fullPath vol t p).map fun dirPath =>
        match dirs.entries dirPath with
        | none => (t, .error dirNFErr)
        | some names =>
          match nthEntry index names with
          | none => (t, .error fnfErr)
          | some name =>
            let path := addPathComponent dirPath name
            let (fsItem, t) := findFsitem t name p
            match dirs.stat path with
            | .error errno => (t, .error (errno2oserr errno))
            | .ok isDir =>
              (t, .ok
                { item := fsItem
                  path := path
                  name := cstr2pstr (t.item fsItem).guestName
                  isDir := isDir
                  ioDirID := (t.item fsItem).id
                  ioFlParID := (t.item fsItem).parentId })

/-! ### Names of the listing -/

def visible (name : CString) : Bool := name.head? ≠ some dot

theorem readNextDe_filter (names : List CString) :
    readNextDe names = none ∧ names.filter visible = [] ∨
      ∃ name rest, readNextDe names = some (name, rest) ∧
        names.filter visible = name :: rest.filter visible := by
  induction names with
  | nil => exact .inl ⟨rfl, rfl⟩
  | cons name rest ih =>
    by_cases hidden : name.head? = some dot
    · simpa [readNextDe, visible, hidden] using ih
    · refine .inr ⟨name, rest, ?_, ?_⟩
      · simp [readNextDe, hidden]
      · simp [visible, hidden]

theorem nthEntry_eq (index : Nat) (names : List CString) :
    nthEntry index names = (names.filter visible)[index]? := by
  induction index generalizing names with
  | zero =>
    rcases readNextDe_filter names with ⟨ended, none_left⟩ | ⟨name, rest, read, left⟩
    · simp [nthEntry, ended, none_left]
    · simp [nthEntry, read, left]
  | succ index ih =>
    rcases readNextDe_filter names with ⟨ended, none_left⟩ | ⟨name, rest, read, left⟩
    · simp [nthEntry, ended, none_left]
    · simp [nthEntry, read, left, ih]

theorem nthEntry_mem {index : Nat} {names : List CString} {name : CString}
    (entry : nthEntry index names = some name) : name ∈ names := by
  rw [nthEntry_eq] at entry
  exact List.mem_of_mem_filter (List.mem_of_getElem? entry)

theorem nthEntry_injective {names : List CString} (distinct : names.Nodup) {i j : Nat}
    {name : CString} (first : nthEntry i names = some name)
    (second : nthEntry j names = some name) : i = j := by
  rw [nthEntry_eq] at first second
  obtain ⟨inside, at_i⟩ := List.getElem?_eq_some_iff.mp first
  obtain ⟨_, at_j⟩ := List.getElem?_eq_some_iff.mp second
  exact (distinct.filter _).getElem_inj_iff.mp (at_i.trans at_j.symm)

/-- A component that holds neither a slash nor a zero comes back from a Pascal string. -/
theorem strn2cstr_cstr2pstr {name : CString} (no_slash : slash ∉ name) (no_zero : 0 ∉ name) :
    strn2cstr (cstr2pstr name).tail = name := by
  have back : (name.map fun c => if c = colon then slash else c).map
      (fun c => if c = slash then colon else c) = name := by
    rw [List.map_map]
    refine (List.map_congr_left fun c member => ?_).trans (List.map_id name)
    have other : c ≠ slash := fun same => no_slash (same ▸ member)
    by_cases separator : c = colon
    · simp [separator, slash, colon]
    · simp [separator, other]
  have whole : name.takeWhile (· ≠ 0) = name := by
    rw [List.takeWhile_eq_self_iff]
    intro c member
    have nonzero : c ≠ 0 := fun same => no_zero (same ▸ member)
    simpa using nonzero
  simp only [cstr2pstr, List.tail_cons, strn2cstr, back, whole]

/-- Every guest name is the first 31 characters of the name. -/
def Clipped (t : FSTable) : Prop :=
  ∀ p, t.Valid p → (t.item p).guestName = clipGuestName (t.item p).name

theorem Clipped.createFsitem (clipped : Clipped t) (name : CString) (parent : Nat) :
    Clipped (createFsitem t name name parent).2 := by
  intro p valid
  rcases (createFsitem_valid _ _ _ _).mp valid with old | rfl
  · rw [createFsitem_item_old old]
    exact clipped p old
  · rw [createFsitem_item_new]

theorem Clipped.findFsitem (clipped : Clipped t) (name : CString) (parent : Nat) :
    Clipped (findFsitem t name parent).2 := by
  rcases findFsitem_cases t name parent with ⟨p, _, _, found⟩ | ⟨_, made⟩
  · rwa [found]
  · rw [made]
    exact clipped.createFsitem name parent

theorem Clipped.findFsitemGuest (clipped : Clipped t) (guestName : CString) (parent : Nat) :
    Clipped (findFsitemGuest t guestName parent).2 := by
  rcases findFsitemGuest_cases t guestName parent with ⟨p, _, _, found⟩ | ⟨_, made⟩
  · rwa [found]
  · rw [made]
    exact clipped.createFsitem guestName parent

theorem Looked.clipped {short : Prop} (looked : Looked short t u) (clipped : Clipped t) :
    Clipped u := by
  induction looked with
  | refl => exact clipped
  | host name _ _ ih => exact ih.findFsitem name _
  | guest _ _ _ ih => exact ih.findFsitemGuest _ _

theorem Clipped.congr (clipped : Clipped t) (same : SamePlaces t u) : Clipped u := by
  intro p valid
  rw [(same.item p).2.1, (same.item p).2.2]
  exact clipped p ((same.valid p).mp valid)

theorem Ends.clipped {host : Host} {short : Prop} {out : Outcome}
    (ends : Ends vol host short t out) (clipped : Clipped t) : Clipped out.table := by
  obtain ⟨u, looked, ⟨rfl, _⟩ | ⟨a, b, _, _, _, _, _, _, rfl⟩⟩ := ends
  · exact looked.clipped clipped
  · exact (looked.clipped clipped).congr (swapItemIds_samePlaces a b)

theorem run_clipped {calls : List Call} (run : Run (step vol) Free (extFSInit vol) calls t) :
    Clipped t := by
  refine run_keeps ?_ (fun _ clipped looked => looked.clipped clipped)
    (fun _ clipped ends => ends.clipped clipped) run
  intro p valid
  have inside : p < 2 := valid
  obtain rfl | rfl : p = 0 ∨ p = 1 := by omega
  · rfl
  · rfl

/-! ### The call and the lookup -/

/-- What a successful call has found on its way. -/
structure Listing (vol : Volume) (dirs : Directories) (fsm : FSM) (t : FSTable) (pb : ParamBlock)
    (dirID index : Nat) (u : FSTable) (info : CatInfo) where
  currentDir : Nat
  dir : Nat
  dirPath : CString
  names : List CString
  name : CString
  current : getCurrentDir fsm pb dirID true = .ok currentDir
  found : findFsitemById t currentDir = some dir
  path : fullPath vol t dir = some dirPath
  opened : dirs.entries dirPath = some names
  entry : nthEntry index names = some name
  table : u = (findFsitem t name dir).2
  item : info.item = (findFsitem t name dir).1
  infoPath : info.path = addPathComponent dirPath name
  infoName : info.name = cstr2pstr (u.item info.item).guestName
  infoId : info.ioDirID = (u.item info.item).id

theorem listing {dirs : Directories} {fsm : FSM} {pb : ParamBlock} {dirID index : Nat}
    {info : CatInfo}
    (listed : fsGetCatInfoIndexed vol dirs fsm t pb dirID index = some (u, .ok info)) :
    Nonempty (Listing vol dirs fsm t pb dirID index u info) := by
  simp only [fsGetCatInfoIndexed] at listed
  split at listed
  · simp at listed
  next currentDir current =>
    split at listed
    · simp at listed
    next dir found =>
      obtain ⟨dirPath, path, result⟩ := Option.map_eq_some_iff.mp listed
      split at result
      · simp at result
      next names opened =>
        split at result
        · simp at result
        next name entry =>
          split at result
          · simp at result
          next isDir stated =>
            obtain ⟨rfl, same⟩ := Prod.mk.inj result
            obtain rfl := Except.ok.inj same
            exact ⟨currentDir, dir, dirPath, names, name, current, found, path, opened, entry,
              rfl, rfl, rfl, rfl, rfl⟩

namespace Listing

variable {dirs : Directories} {fsm : FSM} {pb : ParamBlock} {dirID index : Nat} {info : CatInfo}
  (l : Listing vol dirs fsm t pb dirID index u info)

theorem dir_valid : t.Valid l.dir :=
  (findFsitemById_eq_some l.found).1

theorem looked (l : Listing vol dirs fsm t pb dirID index u info) : Looked False t u := by
  rw [l.table]
  exact .host l.name (.refl t) l.dir_valid

/-- The item is valid, and has the host name and the directory it was found by. -/
theorem item_found :
    u.Valid info.item ∧ (u.item info.item).parent = some l.dir ∧
      (u.item info.item).name = l.name := by
  have found := findFsitem_found (t := t) l.name l.dir
  rwa [← l.table, ← l.item] at found

theorem guestName (clipped : Clipped t) : (u.item info.item).guestName = clipGuestName l.name := by
  obtain ⟨valid, _, name⟩ := l.item_found
  rw [l.looked.clipped clipped info.item valid, name]

theorem name_plain :
    clipGuestName l.name ≠ [] ∧ slash ∉ clipGuestName l.name ∧ 0 ∉ clipGuestName l.name := by
  obtain ⟨some_name, no_slash, no_zero⟩ :=
    dirs.names l.dirPath l.names l.opened l.name (nthEntry_mem l.entry)
  refine ⟨by simpa [clipGuestName] using some_name, ?_, ?_⟩
  · exact fun member => no_slash (List.mem_of_mem_take member)
  · exact fun member => no_zero (List.mem_of_mem_take member)

end Listing

/-- The guest routines on the Pascal string `name` at `ioNamePtr`. Without a colon it is one
component, with no delimiter, and names no volume. -/
structure FSM.Reads (fsm : FSM) (pb : ParamBlock) (name : List UInt8) : Prop where
  memory : ∀ calls k (inside : k < name.length), fsm.memory calls (pb.ioNamePtr + k) = name[k]
  determineVol : fsm.determineVol pb = fsm.determineVol { pb with ioNamePtr := 0 }
  parsePathname : fsm.parsePathname pb.ioNamePtr = (noErr, 0)
  component : fsm.getPathComponentName 0 ⟨pb.ioNamePtr, 0, 0, false, false⟩ =
    (noErr, ⟨pb.ioNamePtr, 0, name.length - 1, false, false⟩)

theorem FSM.Reads.component_eq {fsm : FSM} {pb : ParamBlock} {name : List UInt8}
    (reads : fsm.Reads pb name) (calls : Nat) :
    fsm.component calls ⟨pb.ioNamePtr, 0, name.length - 1, false, false⟩ =
      strn2cstr name.tail := by
  simp only [FSM.component]
  congr 1
  apply List.ext_getElem
  · simp
  · intro k inside _
    have inside : k + 1 < name.length := by
      simp only [List.length_map, List.length_range] at inside
      omega
    have address : pb.ioNamePtr + 0 + 1 + k = pb.ioNamePtr + (k + 1) := by omega
    simp only [List.getElem_map, List.getElem_range, List.getElem_tail, address]
    exact reads.memory calls (k + 1) inside

/-- A plain name is looked up as a guest name in the current directory. -/
theorem findObject_plain {fsm : FSM} {pb : ParamBlock} {guestName : CString}
    (reads : fsm.Reads pb (cstr2pstr guestName)) (some_name : guestName ≠ [])
    (no_slash : slash ∉ guestName) (no_zero : 0 ∉ guestName) (fuel dir currentDir : Nat) :
    findObject fsm (fuel + 1) u pb dir currentDir =
      some ((findFsitemGuest u guestName dir).2, .ok (findFsitemGuest u guestName dir).1) := by
  have component := reads.component_eq 1
  rw [strn2cstr_cstr2pstr no_slash no_zero] at component
  have length : (cstr2pstr guestName).length - 1 ≠ 0 := by
    simpa [cstr2pstr] using some_name
  simp [findObject, reads.parsePathname, Parse.run, Parse.nextComponent, reads.component, length,
    Parse.loop, Parse.object, component]

theorem findFsitemGuest_first {guestName : CString} {dir item : Nat} (valid : u.Valid item)
    (parent : (u.item item).parent = some dir) (name : (u.item item).guestName = guestName) :
    ∃ first, findFsitemGuest u guestName dir = (first, u) ∧ u.Valid first ∧
      (u.item first).parent = some dir ∧ (u.item first).guestName = guestName ∧
      (first = item ↔ ∀ earlier < item, ¬ ((u.item earlier).parent = some dir ∧
        (u.item earlier).guestName = guestName)) := by
  have inside : item < u.items.length := valid
  cases search : u.items.findIdx? fun it => it.parent = some dir && it.guestName = guestName with
  | none =>
    have absent := List.findIdx?_eq_none_iff.mp search _ (FSTable.item_mem valid)
    simp [parent, name] at absent
  | some first =>
    obtain ⟨inside_first, passes, before⟩ := List.findIdx?_eq_some_iff_getElem.mp search
    have matched : (u.item first).parent = some dir ∧ (u.item first).guestName = guestName := by
      simpa [FSTable.item_eq inside_first] using passes
    refine ⟨first, by simp only [findFsitemGuest, search], inside_first, matched.1, matched.2, ?_, ?_⟩
    · rintro rfl earlier lower
      have fails := before earlier lower
      rw [← FSTable.item_eq (Nat.lt_trans lower inside)] at fails
      simpa using fails
    · intro none_earlier
      rcases Nat.lt_trichotomy first item with lower | same | higher
      · exact absurd matched (none_earlier first lower)
      · exact same
      · have fails := before item higher
        rw [← FSTable.item_eq inside] at fails
        simp [parent, name] at fails

/-- The item of the directory the call lists. -/
def currentItem (fsm : FSM) (t : FSTable) (pb : ParamBlock) (dirID : Nat) : Option Nat :=
  match getCurrentDir fsm pb dirID true with
  | .error _ => none
  | .ok currentDir => findFsitemById t currentDir

/-- The host directory the call lists. -/
def openedDir (vol : Volume) (fsm : FSM) (t : FSTable) (pb : ParamBlock) (dirID : Nat) :
    Option CString :=
  match getCurrentDir fsm pb dirID true with
  | .error _ => none
  | .ok currentDir => resolve vol t currentDir

/-- The items stand in one directory, and their names agree in what a guest name holds. -/
def SharesGuestName (t : FSTable) (a b : Nat) : Prop :=
  (t.item a).parent = (t.item b).parent ∧
    clipGuestName (t.item a).name = clipGuestName (t.item b).name

section

variable {dirs : Directories} {fsm : FSM} {pb : ParamBlock} {dirID index : Nat} {info : CatInfo}
  (l : Listing vol dirs fsm t pb dirID index u info)

theorem Listing.openedDir_eq : openedDir vol fsm t pb dirID = some l.dirPath := by
  simp only [openedDir, l.current, resolve, l.found, Option.bind_some, l.path]

/-- The directory is found again behind the item the listing may have added. -/
theorem Listing.found_after : findFsitemById u l.currentDir = some l.dir :=
  findFsitemById_grown l.looked.grows l.found

/-- The lookup of the reported name, when it is a name of the directory. -/
theorem Listing.lookup (clipped : Clipped t) (reads : fsm.Reads pb info.name) (fuel : Nat) :
    getItemAndPath vol fsm (fuel + 1) u pb dirID false =
      (fullPath vol (findFsitemGuest u (clipGuestName l.name) l.dir).2
        (findFsitemGuest u (clipGuestName l.name) l.dir).1).map fun path =>
          ((findFsitemGuest u (clipGuestName l.name) l.dir).2,
            .ok ((findFsitemGuest u (clipGuestName l.name) l.dir).1, path)) := by
  obtain ⟨some_name, no_slash, no_zero⟩ := l.name_plain
  have name := l.infoName
  rw [l.guestName clipped] at name
  rw [name] at reads
  have current : getCurrentDir fsm pb dirID false = .ok l.currentDir := by
    rw [← l.current]
    simp only [getCurrentDir, Bool.false_eq_true, if_false, if_true, reads.determineVol]
  simp only [getItemAndPath, current, l.found_after,
    findObject_plain reads some_name no_slash no_zero, Option.bind_some]

/-- The path of an item of the directory that is neither the root nor its parent. -/
theorem Listing.path_eq (initial : TableInvariant False t) {item : Nat} (valid : u.Valid item)
    (parent : (u.item item).parent = some l.dir) :
    ∃ path, fullPath vol u item = some path ∧
      ((u.item item).id ≠ ROOT_PARENT_ID → (u.item item).id ≠ ROOT_ID →
        path = addPathComponent l.dirPath (u.item item).name) := by
  have pointers := (l.looked.invariant initial).pointers
  have dirPath : fullPath vol u l.dir = some l.dirPath := by
    rw [l.looked.fullPath_eq initial l.dir_valid]
    exact l.path
  rw [fullPath_unfold pointers valid, parent]
  simp only [Option.bind_some, dirPath, Option.map_some]
  split
  next top => exact ⟨[], rfl, fun other => absurd top other⟩
  · split
    next root => exact ⟨_, rfl, fun _ other => absurd root other⟩
    · exact ⟨_, rfl, fun _ _ => rfl⟩

theorem cstr2pstr_injective {name other : CString} (plain : slash ∉ name ∧ 0 ∉ name)
    (plain' : slash ∉ other ∧ 0 ∉ other) (same : cstr2pstr name = cstr2pstr other) :
    name = other := by
  rw [← strn2cstr_cstr2pstr plain.1 plain.2, same, strn2cstr_cstr2pstr plain'.1 plain'.2]

end

/-- After any run, the name a listing reports is looked up as an item of the directory with that
guest name. It is the listed item if and only if no earlier one has the same guest name. Two
listings report the same name if and only if the first 31 characters of their host names agree. -/
theorem listed_name_leads_back_iff (vol : Volume) (dirs : Directories) (calls : List Call)
    (t : FSTable) (run : Run (step vol) Free (extFSInit vol) calls t) (fsm : FSM)
    (pb : ParamBlock) (dirID index : Nat) (u : FSTable) (info : CatInfo)
    (listed : fsGetCatInfoIndexed vol dirs fsm t pb dirID index = some (u, .ok info)) :
    (fsm.Reads pb info.name → ∀ fuel, ∃ item path,
      getItemAndPath vol fsm (fuel + 1) u pb dirID false = some (u, .ok (item, path)) ∧
        (∃ dir, currentItem fsm t pb dirID = some dir ∧ (u.item item).parent = some dir ∧
          cstr2pstr (u.item item).guestName = info.name) ∧
        (item = info.item ↔ ∀ earlier < info.item, ¬ SharesGuestName u earlier info.item) ∧
        (item = info.item → (u.item item).id = info.ioDirID ∧
          (info.ioDirID ≠ ROOT_PARENT_ID → info.ioDirID ≠ ROOT_ID → path = info.path))) ∧
    ∀ (calls' : List Call) (t' : FSTable), Run (step vol) Free (extFSInit vol) calls' t' →
      ∀ (index' : Nat) (u' : FSTable) (info' : CatInfo),
        fsGetCatInfoIndexed vol dirs fsm t' pb dirID index' = some (u', .ok info') →
          (info'.name = info.name ↔
            clipGuestName (u'.item info'.item).name = clipGuestName (u.item info.item).name) ∧
          (openedDir vol fsm t' pb dirID = openedDir vol fsm t pb dirID → index' ≠ index →
            (u'.item info'.item).name ≠ (u.item info.item).name) := by
  have initial : TableInvariant False t := run_invariant run False.elim
  have clipped : Clipped t := run_clipped run
  obtain ⟨l⟩ := listing listed
  obtain ⟨valid, parent, name⟩ := l.item_found
  refine ⟨fun reads fuel => ?_, fun calls' t' run' index' u' info' listed' => ?_⟩
  · obtain ⟨first, lookup, valid_first, parent_first, name_first, first_iff⟩ :=
      findFsitemGuest_first valid parent (l.guestName clipped)
    obtain ⟨path, path_eq, plain_path⟩ := l.path_eq initial valid_first parent_first
    have dir : currentItem fsm t pb dirID = some l.dir := by
      simp only [currentItem, l.current, l.found]
    have same_name : cstr2pstr (u.item first).guestName = info.name := by
      rw [name_first, l.infoName, l.guestName clipped]
    refine ⟨first, path, ?_, ⟨l.dir, dir, parent_first, same_name⟩, first_iff.trans ?_, ?_⟩
    · rw [l.lookup clipped reads fuel, lookup]
      simp only [path_eq, Option.map_some]
    · refine forall₂_congr fun earlier lower => not_congr ?_
      have valid_earlier : u.Valid earlier := Nat.lt_trans lower valid
      rw [SharesGuestName, parent, name, l.looked.clipped clipped earlier valid_earlier]
    · rintro rfl
      refine ⟨l.infoId.symm, fun top root => ?_⟩
      rw [l.infoId] at top root
      rw [plain_path top root, l.infoPath, name]
  · obtain ⟨l'⟩ := listing listed'
    have name' := l'.item_found.2.2
    refine ⟨?_, ?_⟩
    · rw [l.infoName, l'.infoName, l.guestName clipped, l'.guestName (run_clipped run'), name, name']
      exact ⟨cstr2pstr_injective l'.name_plain.2 l.name_plain.2, congrArg cstr2pstr⟩
    · intro same_dir other same_name
      rw [l.openedDir_eq, l'.openedDir_eq] at same_dir
      have same_names : l'.names = l.names := by
        have opened := l'.opened
        rw [Option.some.inj same_dir, l.opened] at opened
        exact (Option.some.inj opened).symm
      rw [name, name'] at same_name
      have entry := l'.entry
      rw [same_names, same_name] at entry
      exact other (nthEntry_injective (dirs.distinct _ _ l.opened) entry l.entry)

/-- A host with these files in `/r`. -/
def hostListing (files : List CString) (distinct : files.Nodup)
    (plain : ∀ name ∈ files, name ≠ [] ∧ slash ∉ name ∧ 0 ∉ name) : Directories where
  entries path := if path = [47, 114] then some files else none
  stat _ := .ok false
  distinct path names opened := by
    split at opened
    · cases opened
      exact distinct
    · cases opened
  names path names opened := by
    split at opened
    · cases opened
      exact plain
    · cases opened

/-- A guest that has the Pascal string `name` at address 1. -/
def guestHolding (name : List UInt8) : FSM where
  determineVol _ := (noErr, dtmvVRefNum)
  resolveWDCB _ := (paramErr, 0)
  getDefaultVol := (paramErr, 0)
  parsePathname _ := (noErr, 0)
  getPathComponentName _ parseRec :=
    (noErr, { parseRec with ppComponentLength := name.length - 1, ppMoreName := false })
  memory _ address := name.getD (address - 1) 0

theorem guestHolding_reads {name : List UInt8} {pb : ParamBlock} (at_one : pb.ioNamePtr = 1) :
    (guestHolding name).Reads pb name where
  memory calls k inside := by
    simp [guestHolding, at_one, inside]
  determineVol := rfl
  parsePathname := rfl
  component := rfl

def nameAtOne : ParamBlock := ⟨1, 0, 0, 0, 0⟩

def shortNames : Directories :=
  hostListing [[97], [46, 120], [98, 58, 99]] (by decide) (by decide)

/-- `.x` is not listed; the second visible name is `b:c`, which the guest sees as `b/c`. -/
theorem short_name_leads_back :
    ∃ u info, fsGetCatInfoIndexed exampleVolume shortNames (guestHolding [3, 98, 47, 99])
        (extFSInit exampleVolume) nameAtOne ROOT_ID 1 = some (u, .ok info) ∧
      ∃ path, getItemAndPath exampleVolume (guestHolding [3, 98, 47, 99]) 1 u nameAtOne ROOT_ID
        false = some (u, .ok (info.item, path)) := by
  refine ⟨_, _, rfl, ?_⟩
  obtain ⟨leads_back, _⟩ := listed_name_leads_back_iff exampleVolume shortNames []
    (extFSInit exampleVolume) (.done _) (guestHolding [3, 98, 47, 99]) nameAtOne ROOT_ID 1 _ _ rfl
  obtain ⟨item, path, lookup, _, first, _⟩ := leads_back (guestHolding_reads rfl) 0
  have alone : item = 2 := by
    refine first.mpr ?_
    intro earlier lower
    have two : earlier < 2 := lower
    obtain rfl | rfl : earlier = 0 ∨ earlier = 1 := by omega
    · exact fun shares => absurd shares.1 (by decide)
    · exact fun shares => absurd shares.1 (by decide)
  rw [alone] at lookup
  exact ⟨path, lookup⟩

/-- 31 times `a`, and one more character. -/
def longName (last : UInt8) : CString := List.replicate 31 97 ++ [last]

/-- The table when both names have been listed. -/
def longTable : FSTable where
  items :=
    [⟨1, 0, none, [], []⟩, ⟨2, 1, some 0, [86], [86]⟩,
      ⟨16, 2, some 1, longName 98, List.replicate 31 97⟩,
      ⟨17, 2, some 1, longName 99, List.replicate 31 97⟩]
  nextCnid := 18

/-- What the call reports for the first and for the second name. -/
def longInfo (last : UInt8) (item id : Nat) : CatInfo where
  item := item
  path := [47, 114, 47] ++ longName last
  name := 31 :: List.replicate 31 97
  isDir := false
  ioDirID := id
  ioFlParID := ROOT_ID

/-- Two names of 32 characters that differ in the last one are listed under one guest name, and
the lookup of the second leads to the first. -/
theorem long_names_collide :
    ∃ (dirs : Directories) (fsm : FSM) (calls : List Call) (t : FSTable),
      Run (step exampleVolume) Free (extFSInit exampleVolume) calls t ∧
        fsGetCatInfoIndexed exampleVolume dirs fsm t nameAtOne ROOT_ID 0 =
          some (t, .ok (longInfo 98 2 16)) ∧
        fsGetCatInfoIndexed exampleVolume dirs fsm t nameAtOne ROOT_ID 1 =
          some (longTable, .ok (longInfo 99 3 17)) ∧
        fsm.Reads nameAtOne (longInfo 99 3 17).name ∧
        getItemAndPath exampleVolume fsm 1 longTable nameAtOne ROOT_ID false =
          some (longTable, .ok (2, (longInfo 98 2 16).path)) := by
  have reached : Run (step exampleVolume) Free (extFSInit exampleVolume)
      [.findFsitem (longName 98) 1] ⟨longTable.items.take 3, 17⟩ := run_of_exec rfl
  exact ⟨hostListing [longName 98, longName 99] (by decide) (by decide),
    guestHolding (31 :: List.replicate 31 97), _, _, reached, rfl, rfl, guestHolding_reads rfl, rfl⟩

end BasiliskII.ExtFS
