import BasiliskII.ExtFS.HelperPath
import BasiliskII.Library.StringDest

/-!
# Path names in their buffers

`add_path_component`, `get_path_for_fsitem` and `make_helper_path` once more,
with every index of the destination they write or read. The bound of `strncat`
is on what is appended, and on an empty path the byte in front of the buffer
decides about the separator.
-/
namespace BasiliskII.ExtFS.PathBuffer

open StringDest

/-- The first half of `add_path_component`; `before` is the byte in front of the buffer. -/
def addSlash (before : UInt8) (path : Dest) : Dest :=
  let (l, path) := path.strlen
  if l < MAX_PATH_LENGTH - 1 then
    let path := path.look (l - 1)
    if path.string.getLast?.getD before != slash then path.push slash else path
  else path

def addPathComponent (before : UInt8) (path : Dest) (component : CString) : Dest :=
  (addSlash before path).strncat component (MAX_PATH_LENGTH - 1)

/-- An item with its parents. -/
inductive ItemPath where
  | rootParent
  | root
  | child (parent : ItemPath) (name : CString)

/-- What `get_path_for_fsitem` does to `full_path`. -/
def getPathForFsitem (before : UInt8) (vol : Volume) (fullPath : Dest) : ItemPath → Dest
  | .rootParent => fullPath.clear
  | .root => fullPath.copy vol.rootPath (MAX_PATH_LENGTH - 1)
  | .child parent name =>
    addPathComponent before (getPathForFsitem before vol fullPath parent) name

def makeHelperPath (src : CString) (dest : Dest) (add : CString) (onlyDir : Bool) : Dest :=
  let dest := dest.clear
  -- Copy everything before
  let dest := dest.copy src (dirPart src).length
  -- Add additional component
  let dest := dest.strncat add (MAX_PATH_LENGTH - 1)
  -- Add last component
  if onlyDir then dest else dest.strncat (lastPart src) (MAX_PATH_LENGTH - 1)

/-- A slash, unless the path ends in one or fills its buffer. -/
def separator (path : CString) : CString :=
  if path.length < MAX_PATH_LENGTH - 1 ∧ path.getLast? ≠ some slash then [slash] else []

/-- A path and a component, written out in full. -/
def join (path component : CString) : CString := path ++ separator path ++ component

/-- Where the path of an item begins. -/
def ItemPath.base (vol : Volume) : ItemPath → CString
  | .rootParent => []
  | .root => vol.rootPath.take (MAX_PATH_LENGTH - 1)
  | .child parent _ => parent.base vol

/-- The names below the root or the root's parent. -/
def ItemPath.names : ItemPath → List CString
  | .child parent name => parent.names ++ [name]
  | _ => []

/-- The base and the names, written out in full. -/
def ItemPath.joined (vol : Volume) : ItemPath → CString
  | .child parent name => join (parent.joined vol) name
  | item => item.base vol

/-- The parents of an item in the table, up to the root's parent or the root. -/
def itemPath (t : FSTable) : Nat → Nat → Option ItemPath
  | 0, _ => none
  | fuel + 1, p =>
    if (t.item p).id = ROOT_PARENT_ID then some .rootParent
    else if (t.item p).id = ROOT_ID then some .root
    else
      match (t.item p).parent with
      | none => none
      | some q => (itemPath t fuel q).map fun path => .child path (t.item p).name

variable {before : UInt8} {path : Dest}

theorem addSlash_string (some_path : path.string ≠ [] ∨ before ≠ slash) :
    (addSlash before path).string = path.string ++ separator path.string := by
  unfold addSlash separator
  simp only [Dest.strlen]
  by_cases short : path.string.length < MAX_PATH_LENGTH - 1
  · cases last : path.string.getLast? with
    | none =>
      have plain : before ≠ slash :=
        some_path.resolve_left fun some_path => some_path (List.getLast?_eq_none_iff.mp last)
      simp [short, last, plain]
    | some c =>
      by_cases ends : c = slash
      · simp [short, last, ends]
      · simp [short, last, ends]
  · simp [short]

theorem addPathComponent_string (component : CString) (plain : before ≠ slash) :
    (addPathComponent before path component).string =
      ExtFS.addPathComponent path.string component := by
  rw [addPathComponent, strncat_string, addSlash_string (.inr plain)]
  unfold ExtFS.addPathComponent separator
  split
  · rfl
  · rw [List.append_nil]

theorem getPathForFsitem_string (vol : Volume) (t : FSTable) (fuel p : Nat) (fullPath : Dest)
    (plain : before ≠ slash) :
    ExtFS.getPathForFsitem vol t fuel p =
      (itemPath t fuel p).map fun item => (getPathForFsitem before vol fullPath item).string := by
  induction fuel generalizing p with
  | zero => rfl
  | succ fuel ih =>
    rw [ExtFS.getPathForFsitem, itemPath]
    by_cases rootParent : (t.item p).id = ROOT_PARENT_ID
    · rw [if_pos rootParent, if_pos rootParent]
      rfl
    · rw [if_neg rootParent, if_neg rootParent]
      by_cases root : (t.item p).id = ROOT_ID
      · rw [if_pos root, if_pos root]
        rfl
      · rw [if_neg root, if_neg root]
        cases (t.item p).parent with
        | none => rfl
        | some q =>
          simp only [ih q, Option.map_map]
          congr 1
          funext item
          exact (addPathComponent_string (t.item p).name plain).symm

theorem inside_addSlash :
    (addSlash before path).Inside MAX_PATH_LENGTH ↔
      path.Inside MAX_PATH_LENGTH ∧ path.string ≠ [] := by
  have start : 0 ≤ (path.string.length : Int) - 1 ↔ path.string ≠ [] := by
    rw [← List.length_pos_iff]
    omega
  have looked : (path.strlen.2.look (path.string.length - 1)).Inside MAX_PATH_LENGTH ↔
      path.Inside MAX_PATH_LENGTH ∧ path.string ≠ [] := by
    rw [inside_look, inside_strlen, start]
  have cases : addSlash before path =
      if path.string.length < MAX_PATH_LENGTH - 1 then
        if path.string.getLast?.getD before != slash then
          (path.strlen.2.look (path.string.length - 1)).push slash
        else path.strlen.2.look (path.string.length - 1)
      else path.strlen.2 := rfl
  rw [cases]
  split
  next short =>
    split
    · rw [inside_push, looked, look_string, strlen_string]
      exact and_iff_left (by omega)
    · exact looked
  next long =>
    have some_path : path.string ≠ [] := by
      rintro empty
      rw [empty] at long
      exact long (by decide)
    rw [inside_strlen]
    exact (and_iff_left some_path).symm

theorem inside_addPathComponent (component : CString) :
    (addPathComponent before path component).Inside MAX_PATH_LENGTH ↔
      path.Inside MAX_PATH_LENGTH ∧ path.string ≠ [] ∧
        (join path.string component).length < MAX_PATH_LENGTH := by
  rw [addPathComponent, inside_strncat, inside_addSlash, and_assoc]
  refine and_congr_right fun _ => and_congr_right fun some_path => ?_
  have positive : 0 < path.string.length := List.length_pos_iff.mpr some_path
  simp only [addSlash_string (.inl some_path), join, List.length_append, List.length_take]
  unfold MAX_PATH_LENGTH
  omega

theorem addPathComponent_joined {component : CString}
    (some_path : path.string ≠ [] ∨ before ≠ slash)
    (fits : (join path.string component).length < MAX_PATH_LENGTH) :
    (addPathComponent before path component).string = join path.string component := by
  have short : component.length ≤ MAX_PATH_LENGTH - 1 := by
    rw [join, List.length_append] at fits
    omega
  rw [addPathComponent, strncat_string, addSlash_string some_path,
    List.take_of_length_le short]
  rfl

theorem length_le_join (path component : CString) : path.length ≤ (join path component).length := by
  rw [join, List.append_assoc, List.length_append]
  exact Nat.le_add_right _ _

theorem base_length_le_joined (vol : Volume) (item : ItemPath) :
    (item.base vol).length ≤ (item.joined vol).length := by
  induction item with
  | rootParent | root => exact Nat.le_refl _
  | child parent name ih => exact Nat.le_trans ih (length_le_join _ _)

theorem base_length_lt (vol : Volume) (item : ItemPath) :
    (item.base vol).length < MAX_PATH_LENGTH := by
  induction item with
  | rootParent =>
    rw [ItemPath.base]
    decide
  | root =>
    rw [ItemPath.base, List.length_take]
    unfold MAX_PATH_LENGTH
    omega
  | child parent name ih => exact ih

theorem joined_ne_nil {vol : Volume} {item : ItemPath} (some_base : item.base vol ≠ []) :
    item.joined vol ≠ [] := by
  have := base_length_le_joined vol item
  rw [← List.length_pos_iff] at some_base ⊢
  omega

theorem joined_of_names_nil {vol : Volume} {item : ItemPath} (no_names : item.names = []) :
    item.joined vol = item.base vol := by
  cases item with
  | rootParent | root => rfl
  | child parent name => exact absurd no_names (by simp [ItemPath.names])

/-- By induction on the item: inside the buffer each parent's path is the joined one. -/
theorem inside_getPathForFsitem (vol : Volume) (start : CString) (item : ItemPath) :
    ((getPathForFsitem before vol (holding start) item).Inside MAX_PATH_LENGTH ↔
        (item.names = [] ∨ item.base vol ≠ []) ∧ (item.joined vol).length < MAX_PATH_LENGTH) ∧
      ((getPathForFsitem before vol (holding start) item).Inside MAX_PATH_LENGTH →
        (getPathForFsitem before vol (holding start) item).string = item.joined vol) := by
  induction item with
  | rootParent =>
    refine ⟨iff_of_true ?_ ⟨.inl rfl, base_length_lt vol .rootParent⟩, fun _ => rfl⟩
    exact inside_clear.mpr ⟨holding_inside start, by decide⟩
  | root =>
    refine ⟨iff_of_true ?_ ⟨.inl rfl, base_length_lt vol .root⟩, fun _ => rfl⟩
    exact (inside_copy _ _).mpr ⟨holding_inside start, by decide⟩
  | child parent name ih =>
    obtain ⟨inside, string⟩ := ih
    have shorter := length_le_join (parent.joined vol) name
    have step : (getPathForFsitem before vol (holding start) (.child parent name)).Inside
        MAX_PATH_LENGTH ↔
        (getPathForFsitem before vol (holding start) parent).Inside MAX_PATH_LENGTH ∧
          parent.joined vol ≠ [] ∧ (join (parent.joined vol) name).length < MAX_PATH_LENGTH := by
      rw [getPathForFsitem, inside_addPathComponent]
      exact and_congr_right fun held => by rw [string held]
    constructor
    · rw [step, inside]
      constructor
      · rintro ⟨⟨anchored, _⟩, some_path, fits⟩
        refine ⟨.inr fun no_base => ?_, fits⟩
        rcases anchored with no_names | some_base
        · exact some_path ((joined_of_names_nil no_names).trans no_base)
        · exact some_base no_base
      · rintro ⟨no_names | some_base, fits⟩
        · exact absurd no_names (by simp [ItemPath.names])
        · exact ⟨⟨.inr some_base, Nat.lt_of_le_of_lt shorter fits⟩, joined_ne_nil some_base, fits⟩
    · intro held
      obtain ⟨held, some_path, fits⟩ := step.mp held
      rw [getPathForFsitem, addPathComponent_joined, string held]
      · rfl
      · exact .inl (by rwa [string held])
      · rwa [string held]

theorem inside_makeHelperPath (src start : CString) (h : Helper) (onlyDir : Bool) :
    (makeHelperPath src (holding start) h.dir onlyDir).Inside MAX_PATH_LENGTH ↔
      (if onlyDir then (dirPart src).length else src.length) + 6 < MAX_PATH_LENGTH := by
  have dir : (h.dir.take (MAX_PATH_LENGTH - 1)).length = 6 := by cases h <;> rfl
  have front : (src.take (dirPart src).length).length = (dirPart src).length := by
    rw [List.length_take, ← length_parts src]
    omega
  have anywhere : (holding start).Inside MAX_PATH_LENGTH ↔ True := iff_true_intro (holding_inside _)
  have room : 0 < MAX_PATH_LENGTH := by decide
  have opened : (((holding start).clear.copy src (dirPart src).length).strncat h.dir
      (MAX_PATH_LENGTH - 1)).Inside MAX_PATH_LENGTH ↔ (dirPart src).length + 6 < MAX_PATH_LENGTH := by
    rw [inside_strncat, inside_copy, inside_clear, copy_string, front, dir, anywhere, true_and]
    omega
  cases onlyDir with
  | true => exact opened
  | false =>
    have lengths := length_parts src
    simp only [makeHelperPath, Bool.false_eq_true, if_false]
    rw [inside_strncat, opened, strncat_string, copy_string, List.length_append, front, dir,
      List.length_take]
    unfold MAX_PATH_LENGTH
    omega

/-- The three stay inside their buffers exactly when the base is not empty, or nothing is appended
to it, and the whole path fits with its terminator. -/
theorem path_building_inside_iff (before : UInt8) (vol : Volume) (path component src : CString)
    (item : ItemPath) (h : Helper) (onlyDir : Bool) :
    ((addPathComponent before (holding path) component).Inside MAX_PATH_LENGTH ↔
        path ≠ [] ∧ (join path component).length < MAX_PATH_LENGTH) ∧
      ((getPathForFsitem before vol (holding path) item).Inside MAX_PATH_LENGTH ↔
        (item.names = [] ∨ item.base vol ≠ []) ∧ (item.joined vol).length < MAX_PATH_LENGTH) ∧
      ((makeHelperPath src (holding path) h.dir onlyDir).Inside MAX_PATH_LENGTH ↔
        (if onlyDir then (dirPart src).length else src.length) + 6 < MAX_PATH_LENGTH) := by
  refine ⟨?_, (inside_getPathForFsitem vol path item).1, inside_makeHelperPath src path h onlyDir⟩
  rw [inside_addPathComponent]
  exact and_iff_right (holding_inside path)

/-- Below the root's parent the byte in front of `full_path` is read; 1,000 characters and a
component of 31 run over its end; and so does the helper path of 1,018 characters. -/
theorem path_building_outside :
    ¬ ((getPathForFsitem 0 ⟨ascii "/r", ascii "V"⟩ (holding [])
          (.child .rootParent (ascii "a"))).Inside MAX_PATH_LENGTH ∨
        (addPathComponent 0 (holding (List.replicate 1000 97))
          (List.replicate 31 97)).Inside MAX_PATH_LENGTH ∨
        (makeHelperPath (List.replicate 1018 97) (holding []) Helper.finf.dir false).Inside
          MAX_PATH_LENGTH) := by
  rintro (inside | inside | inside)
  · exact absurd (inside.2 (-1) (by decide)) (by decide)
  · have fits := ((inside_addPathComponent _).mp inside).2.2
    simp only [join, holding, List.length_append, List.length_replicate] at fits
    unfold MAX_PATH_LENGTH at fits
    omega
  · have fits := (inside_makeHelperPath _ _ _ _).mp inside
    simp only [Bool.false_eq_true, if_false, List.length_replicate] at fits
    exact absurd fits (by decide)

end BasiliskII.ExtFS.PathBuffer
