import BasiliskII.ExtFS.Calls
import BasiliskII.Library.SentinelScan
import BasiliskII.Library.StringDest

/-!
# A path name as a walk over the table

When the guest's routines cut the Pascal string at its colons, the parse loop of
`get_item_and_path` walks over the components one by one: an empty component
leads to the parent, any other is copied to `name` and leads into the item of
that name.
-/
namespace BasiliskII.ExtFS

open Delimited StringDest

/-- What `UTGetPathComponentName` finds from the start offset on. -/
def componentAt (name : List UInt8) (parseRec : ParsePathRec) : ParsePathRec :=
  let rest := name.drop parseRec.ppStartOffset
  let length := (rest.takeWhile (· ≠ colon)).length
  { parseRec with
    ppComponentLength := length
    ppMoreName := length + 1 < rest.length
    ppFoundDelimiter := length < rest.length }

/-- The guest's routines accept the Pascal string `name` at `ioNamePtr`, and return the offsets
and lengths of its components. -/
structure FSM.Parses (fsm : FSM) (pb : ParamBlock) (name : List UInt8) : Prop where
  short : name.length ≤ 255
  length : pb.ioNamePtr ≠ 0 → fsm.memory 0 pb.ioNamePtr = name.length.toUInt8
  memory : ∀ calls k (inside : k < name.length),
    fsm.memory calls (pb.ioNamePtr + 1 + k) = name[k]
  volume : (fsm.parsePathname pb.ioNamePtr).1 = noErr →
    (fsm.parsePathname pb.ioNamePtr).2 ≤ name.length
  component : ∀ calls parseRec, parseRec.ppNamePtr = pb.ioNamePtr →
    fsm.getPathComponentName calls parseRec = (noErr, componentAt name parseRec)

/-- The components of a path name behind its volume name. A delimiter that begins a partial path
is not one between components. -/
def components (rest : List UInt8) : List (List UInt8) :=
  pieces colon (if rest.head? = some colon then rest.tail else rest)

/-- `none` when it climbs from an item without parent. -/
def walk (t : FSTable) (p : Nat) : List (List UInt8) → Option (FSTable × Except Int Nat)
  | [] => some (t, .ok p)
  | [] :: rest =>
    -- The guard of `::` knows the root alone.
    if (t.item p).id = ROOT_ID then some (t, .error bdNamErr)
    else (t.item p).parent.bind fun q => walk t q rest
  | (c :: cs) :: rest =>
    -- A name that is not in the table yet is added, whatever the host has there.
    let (q, u) := findFsitemGuest t (strn2cstr (c :: cs)) p
    walk u q rest

/-- The components that are looked up on the way. -/
def copied (t : FSTable) (p : Nat) : List (List UInt8) → List (List UInt8)
  | [] => []
  | [] :: rest =>
    if (t.item p).id = ROOT_ID then []
    else (t.item p).parent.elim [] fun q => copied t q rest
  | (c :: cs) :: rest =>
    let (q, u) := findFsitemGuest t (strn2cstr (c :: cs)) p
    (c :: cs) :: copied u q rest

/-- The buffer `name` behind `strn2cstr(name, src, size)`, which writes `size + 1` bytes. -/
def nameCopy (src : List UInt8) : Dest :=
  { (holding []).copy src src.length with string := strn2cstr src }

/-- The component the parse record points at. -/
def FSM.bytes (fsm : FSM) (calls : Nat) (parseRec : ParsePathRec) : List UInt8 :=
  (List.range parseRec.ppComponentLength).map fun k =>
    fsm.memory calls (parseRec.ppNamePtr + parseRec.ppStartOffset + 1 + k)

/-- The buffers `name` of the loop, and that of the object behind it. -/
def Parse.names (fsm : FSM) : Nat → Parse → List Dest
  | 0, _ => []
  | fuel + 1, s =>
    if s.parseRec.ppMoreName then
      let (s, result) := s.nextComponent fsm
      if result ≠ noErr then []
      else
        -- The last component is copied behind the loop, and `::` not at all.
        (if s.parseRec.ppComponentLength ≠ 0 ∧ s.parseRec.ppMoreName then
            [nameCopy (fsm.bytes s.calls s.parseRec)]
          else []) ++
          (s.enter fsm).elim [] fun (s, result) =>
            if result ≠ noErr then [] else names fsm fuel s
    else if s.parseRec.ppComponentLength ≠ 0 then [nameCopy (fsm.bytes s.calls s.parseRec)]
    else []

/-- The buffers `name` of the whole parse. -/
def Parse.runNames (fsm : FSM) (fuel : Nat) (s : Parse) : List Dest :=
  let (s, result) := s.nextComponent fsm
  if result ≠ noErr then []
  else
    names fsm fuel <|
      if s.parseRec.ppComponentLength = 0 ∧ s.parseRec.ppFoundDelimiter then
        { s with parseRec := s.parseRec.advance 1 }
      else s

/-- The item a path name leads to from the item `p`. -/
def target (fsm : FSM) (pb : ParamBlock) (name : List UInt8) (t : FSTable) (p : Nat) :
    Option (FSTable × Except Int Nat) :=
  let (result, startOffset) := fsm.parsePathname pb.ioNamePtr
  if result = noErr then walk t p (components (name.drop startOffset))
  -- Without a path name it is the directory itself.
  else if pb.ioNamePtr = 0 ∨ name = [] then some (t, .ok p)
  else some (t, .error bdNamErr)

/-- What `get_item_and_path` does when the loop has ended. -/
def Parse.finish (fsm : FSM) : Parse × Int → FSTable × Except Int Nat
  | (s, result) =>
    if result ≠ noErr then (s.table, .error result)
    else ((s.object fsm).2, .ok (s.object fsm).1)

variable {fsm : FSM} {pb : ParamBlock} {name rest : List UInt8} {s : Parse}

/-- The loop stands in front of `rest`. -/
structure Parse.At (pb : ParamBlock) (name : List UInt8) (s : Parse) (rest : List UInt8) : Prop where
  pointer : s.parseRec.ppNamePtr = pb.ioNamePtr
  offset : s.parseRec.ppStartOffset ≤ name.length
  left : name.drop s.parseRec.ppStartOffset = rest
  current : s.currentDir = (s.table.item s.p).id

theorem FSM.Parses.bytes_eq (parses : fsm.Parses pb name) (place : s.At pb name rest)
    (length : s.parseRec.ppComponentLength = (rest.takeWhile (· ≠ colon)).length) :
    fsm.bytes s.calls s.parseRec = rest.takeWhile (· ≠ colon) := by
  rw [FSM.bytes, length]
  have fewer : (rest.takeWhile (· ≠ colon)).length ≤ rest.length :=
    (List.takeWhile_prefix _).length_le
  -- byte by byte: the record counts from the byte behind the length
  apply List.ext_getElem
  · simp
  · intro k _ inside
    have within : s.parseRec.ppStartOffset + k < name.length := by
      have length := congrArg List.length place.left
      rw [List.length_drop] at length
      omega
    have address : pb.ioNamePtr + s.parseRec.ppStartOffset + 1 + k =
        pb.ioNamePtr + 1 + (s.parseRec.ppStartOffset + k) := by omega
    simp only [List.getElem_map, List.getElem_range, place.pointer, address]
    rw [parses.memory _ _ within, (List.takeWhile_prefix _).getElem inside]
    simp only [← place.left, List.getElem_drop]

theorem FSM.component_eq (fsm : FSM) (calls : Nat) (parseRec : ParsePathRec) :
    fsm.component calls parseRec = strn2cstr (fsm.bytes calls parseRec) := rfl

/-- The call that finds the component in front of `rest`. -/
theorem Parse.At.next (place : s.At pb name rest) (parses : fsm.Parses pb name) :
    ∃ s', s.nextComponent fsm = (s', noErr) ∧ s'.At pb name rest ∧
      s'.table = s.table ∧ s'.p = s.p ∧ s'.currentDir = s.currentDir ∧
      s'.parseRec = componentAt name s.parseRec := by
  refine ⟨{ s with parseRec := componentAt name s.parseRec, calls := s.calls + 1 }, ?_, ?_,
    rfl, rfl, rfl, rfl⟩
  · simp only [Parse.nextComponent, parses.component _ _ place.pointer]
  · exact ⟨place.pointer, place.offset, place.left, place.current⟩

theorem Parse.At.advance (place : s.At pb name rest) (parses : fsm.Parses pb name) {n : Nat}
    (inside : n ≤ rest.length) {table : FSTable} {p currentDir : Nat}
    (current : currentDir = (table.item p).id) :
    Parse.At pb name { s with table, p, currentDir, parseRec := s.parseRec.advance n }
      (rest.drop n) := by
  have length := congrArg List.length place.left
  have offset := place.offset
  have short := parses.short
  rw [List.length_drop] at length
  have plain : (s.parseRec.ppStartOffset + n) % 2 ^ 16 = s.parseRec.ppStartOffset + n :=
    Nat.mod_eq_of_lt (by omega)
  refine ⟨place.pointer, ?_, ?_, current⟩
  · simp only [ParsePathRec.advance, plain]
    omega
  · simp only [ParsePathRec.advance, plain]
    rw [← place.left, List.drop_drop]

theorem walk_name {t : FSTable} {p : Nat} {c : List UInt8} {cs : List (List UInt8)}
    (some_name : c ≠ []) :
    walk t p (c :: cs) = walk (findFsitemGuest t (strn2cstr c) p).2
      (findFsitemGuest t (strn2cstr c) p).1 cs := by
  cases c with
  | nil => exact absurd rfl some_name
  | cons b bs => rfl

theorem copied_name {t : FSTable} {p : Nat} {c : List UInt8} {cs : List (List UInt8)}
    (some_name : c ≠ []) :
    copied t p (c :: cs) = c :: copied (findFsitemGuest t (strn2cstr c) p).2
      (findFsitemGuest t (strn2cstr c) p).1 cs := by
  cases c with
  | nil => exact absurd rfl some_name
  | cons b bs => rfl

/-- The loop looks up and copies what the walk over the rest of the path does. -/
def Parse.Walks (fsm : FSM) (fuel : Nat) (s : Parse) (cs : List (List UInt8)) : Prop :=
  (s.loop fsm fuel).map (Parse.finish fsm) = walk s.table s.p cs ∧
    s.names fsm fuel = (copied s.table s.p cs).map nameCopy

variable {fuel : Nat}

/-- The loop ends behind `::` or a volume name. -/
theorem Parse.ends_here (last : s.parseRec.ppMoreName = false)
    (empty : s.parseRec.ppComponentLength = 0) (some_fuel : 0 < fuel) : s.Walks fsm fuel [] := by
  obtain ⟨fuel, rfl⟩ := Nat.exists_eq_succ_of_ne_zero (Nat.ne_of_gt some_fuel)
  rw [Parse.Walks, Parse.loop, Parse.names, last]
  simp [Parse.finish, Parse.object, empty, walk, copied]

theorem Parse.ends_at_object {c : List UInt8} (last : s.parseRec.ppMoreName = false)
    (length : s.parseRec.ppComponentLength = c.length) (bytes : fsm.bytes s.calls s.parseRec = c)
    (some_name : c ≠ []) (some_fuel : 0 < fuel) : s.Walks fsm fuel [c] := by
  obtain ⟨fuel, rfl⟩ := Nat.exists_eq_succ_of_ne_zero (Nat.ne_of_gt some_fuel)
  rw [Parse.Walks, Parse.loop, Parse.names, last, walk_name some_name, copied_name some_name]
  simp [Parse.finish, Parse.object, length, some_name, fsm.component_eq, bytes, walk, copied]

/-- By induction on the iterations. -/
theorem Parse.At.loop (parses : fsm.Parses pb name) (place : s.At pb name rest)
    (some_left : rest ≠ []) (more : s.parseRec.ppMoreName = true)
    (enough : (pieces colon rest).length < fuel) : s.Walks fsm fuel (pieces colon rest) := by
  induction fuel generalizing s rest with
  | zero => exact absurd enough (Nat.not_lt_zero _)
  | succ fuel ih =>
    obtain ⟨s₁, next, place₁, table, p, current, parsed⟩ := place.next parses
    have length : s₁.parseRec.ppComponentLength = (rest.takeWhile (· ≠ colon)).length := by
      simp only [parsed, componentAt, place.left]
    have more₁ : s₁.parseRec.ppMoreName =
        decide ((rest.takeWhile (· ≠ colon)).length + 1 < rest.length) := by
      simp only [parsed, componentAt, place.left]
    have bytes := parses.bytes_eq place₁ length
    rw [pieces_eq some_left] at enough ⊢
    rw [Parse.Walks, Parse.loop, Parse.names, if_pos more, if_pos more, next, ← table, ← p]
    generalize rest.takeWhile (· ≠ colon) = comp at length more₁ bytes enough ⊢
    rw [List.length_cons] at enough
    simp only [ne_eq, not_true_eq_false, if_false]
    by_cases empty : comp = []
    · -- to the parent
      obtain rfl := empty
      simp only [List.length_nil, Nat.zero_add] at length more₁ enough ⊢
      simp only [Parse.enter, length, if_true, walk, copied, place₁.current, not_true_eq_false,
        false_and, if_false, List.nil_append]
      by_cases root : (s₁.table.item s₁.p).id = ROOT_ID
      · simp only [if_pos root]
        exact ⟨rfl, rfl⟩
      · simp only [if_neg root]
        cases (s₁.table.item s₁.p).parent with
        | none => exact ⟨rfl, rfl⟩
        | some q =>
          have inside : 1 ≤ rest.length := List.length_pos_iff.mpr some_left
          have place₂ : Parse.At pb name { s₁ with
              p := q
              currentDir := (s₁.table.item q).id
              parseRec := s₁.parseRec.advance 1 } (rest.drop 1) :=
            place₁.advance parses inside rfl
          simp only [Option.map_some, Option.bind_some, Option.elim_some, not_true_eq_false,
            if_false]
          by_cases last : rest.length = 1
          · have nothing : rest.drop 1 = [] := List.drop_of_length_le (Nat.le_of_eq last)
            rw [nothing]
            exact Parse.ends_here (by simp [ParsePathRec.advance, more₁, last]) length (by omega)
          · refine ih place₂ ?_ ?_ (by omega)
            · rw [← List.length_pos_iff, List.length_drop]
              omega
            · simp only [ParsePathRec.advance, more₁]
              exact decide_eq_true (by omega)
    · have some_length : comp.length ≠ 0 := by simpa using empty
      simp only [Parse.enter, length, more₁, decide_eq_true_eq, some_length, if_false,
        not_false_eq_true, true_and, fsm.component_eq, bytes]
      by_cases last : comp.length + 1 < rest.length
      · -- into a directory
        have place₂ (table : FSTable) (p : Nat) : Parse.At pb name { s₁ with
            table
            p
            currentDir := (table.item p).id
            parseRec := s₁.parseRec.advance (comp.length + 1) } (rest.drop (comp.length + 1)) :=
          place₁.advance parses (Nat.le_of_lt last) rfl
        rw [walk_name empty, copied_name empty]
        simp only [if_pos last, Option.bind_some, Option.elim_some, not_true_eq_false, if_false,
          List.map_cons, List.singleton_append, List.cons.injEq, true_and]
        refine ih (place₂ _ _) ?_ ?_ (by omega)
        · rw [← List.length_pos_iff, List.length_drop]
          omega
        · simp only [ParsePathRec.advance, more₁]
          exact decide_eq_true last
      · -- the object
        have nothing : rest.drop (comp.length + 1) = [] := List.drop_of_length_le (by omega)
        simp only [if_neg last, Option.bind_some, Option.elim_some, not_true_eq_false, if_false,
          List.nil_append]
        rw [nothing]
        exact Parse.ends_at_object (by simp [more₁, last]) length bytes empty (by omega)

theorem Parse.At.plain (parses : fsm.Parses pb name) (place : s.At pb name rest)
    (length : s.parseRec.ppComponentLength = (rest.takeWhile (· ≠ colon)).length)
    (more : s.parseRec.ppMoreName =
      decide ((rest.takeWhile (· ≠ colon)).length + 1 < rest.length))
    (no_delimiter : rest.head? ≠ some colon) (enough : (pieces colon rest).length < fuel) :
    s.Walks fsm fuel (pieces colon rest) := by
  by_cases nothing : rest = []
  · obtain rfl := nothing
    exact Parse.ends_here more length (Nat.zero_lt_of_lt enough)
  · have some_name : rest.takeWhile (· ≠ colon) ≠ [] := by
      cases rest with
      | nil => exact absurd rfl nothing
      | cons c cs => simpa [List.takeWhile_cons] using no_delimiter
    by_cases last : (rest.takeWhile (· ≠ colon)).length + 1 < rest.length
    · exact place.loop parses nothing (more.trans (decide_eq_true last)) enough
    · rw [pieces_eq nothing, List.drop_of_length_le (by omega)]
      exact Parse.ends_at_object (more.trans (decide_eq_false last)) length
        (parses.bytes_eq place length) some_name (Nat.zero_lt_of_lt enough)

theorem Parse.At.run (parses : fsm.Parses pb name) (place : s.At pb name rest)
    (enough : rest.length < fuel) :
    s.run fsm fuel = walk s.table s.p (components rest) ∧
      s.runNames fsm fuel = (copied s.table s.p (components rest)).map nameCopy := by
  obtain ⟨s₁, next, place₁, table, p, current, parsed⟩ := place.next parses
  have length : s₁.parseRec.ppComponentLength = (rest.takeWhile (· ≠ colon)).length := by
    simp only [parsed, componentAt, place.left]
  have more : s₁.parseRec.ppMoreName =
      decide ((rest.takeWhile (· ≠ colon)).length + 1 < rest.length) := by
    simp only [parsed, componentAt, place.left]
  have found : s₁.parseRec.ppFoundDelimiter =
      decide ((rest.takeWhile (· ≠ colon)).length < rest.length) := by
    simp only [parsed, componentAt, place.left]
  rw [Parse.run, Parse.runNames, next, components, ← table, ← p]
  simp only [ne_eq, not_true_eq_false, if_false]
  by_cases leading : rest.head? = some colon
  · -- a delimiter begins a partial path
    obtain ⟨tail, rfl⟩ : ∃ tail, rest = colon :: tail := by
      cases rest with
      | nil => cases leading
      | cons c cs => exact ⟨cs, by rw [Option.some.inj leading]⟩
    have fewer := length_pieces_le colon tail
    have place₂ : Parse.At pb name { s₁ with parseRec := s₁.parseRec.advance 1 } tail :=
      place₁.advance parses (n := 1) (Nat.succ_le_succ (Nat.zero_le _)) place₁.current
    simp only [List.takeWhile_cons, ne_eq, not_true_eq_false, decide_false, Bool.false_eq_true,
      if_false, List.length_nil, List.length_cons] at length more found enough
    rw [if_pos leading, if_pos ⟨length, found.trans (decide_eq_true (Nat.succ_pos _))⟩]
    by_cases nothing : tail = []
    · obtain rfl := nothing
      exact Parse.ends_here more length (Nat.zero_lt_of_lt enough)
    · have positive := List.length_pos_iff.mpr nothing
      have some_more : s₁.parseRec.ppMoreName = true := more.trans (decide_eq_true (by omega))
      have enough_left : (pieces colon tail).length < fuel := by omega
      exact place₂.loop parses nothing some_more enough_left
  · have no_delimiter : ¬ (s₁.parseRec.ppComponentLength = 0 ∧
        s₁.parseRec.ppFoundDelimiter = true) := by
      rw [length, found]
      rintro ⟨none_before, some_behind⟩
      cases rest with
      | nil => simp at some_behind
      | cons c cs =>
        have other : c ≠ colon := by simpa using leading
        simp [other] at none_before
    have fewer := length_pieces_le colon rest
    rw [if_neg leading, if_neg no_delimiter]
    exact place₁.plain parses length more leading (Nat.lt_of_le_of_lt fewer enough)

theorem findObject_eq (parses : fsm.Parses pb name) (enough : name.length < fuel) (t : FSTable)
    (p : Nat) : findObject fsm fuel t pb p (t.item p).id = target fsm pb name t p := by
  rw [findObject, target]
  cases parsed : fsm.parsePathname pb.ioNamePtr with
  | mk result startOffset =>
    simp only
    by_cases accepted : result = noErr
    · rw [if_pos accepted, if_pos accepted]
      have inside := parses.volume (by rw [parsed]; exact accepted)
      rw [parsed] at inside
      have place : Parse.At pb name ⟨t, p, (t.item p).id,
          ⟨pb.ioNamePtr, startOffset, 0, false, false⟩, 0⟩ (name.drop startOffset) :=
        ⟨rfl, inside, rfl, rfl⟩
      exact (place.run parses (by rw [List.length_drop]; omega)).1
    · rw [if_neg accepted, if_neg accepted]
      by_cases null : pb.ioNamePtr = 0
      · simp only [null, true_or]
      · have empty : fsm.memory 0 pb.ioNamePtr = 0 ↔ name = [] := by
          rw [parses.length null, ← UInt8.toNat_inj, ← List.length_eq_zero_iff]
          have short := parses.short
          simp only [Nat.toUInt8_eq, UInt8.toNat_ofNat']
          rw [Nat.mod_eq_of_lt (by omega)]
          rfl
        simp only [empty]

/-- The end of `get_item_and_path`: eat the path. -/
def withPath (vol : Volume) :
    FSTable × Except Int Nat → Option (FSTable × Except Int (Nat × CString))
  | (t, .error result) => some (t, .error result)
  | (t, .ok item) => (fullPath vol t item).map fun path => (t, .ok (item, path))

theorem getItemAndPath_eq (vol : Volume) (parses : fsm.Parses pb name) (enough : name.length < fuel)
    {t : FSTable} {dirID currentDir p : Nat} {noVolName : Bool}
    (current : getCurrentDir fsm pb dirID noVolName = .ok currentDir)
    (known : findFsitemById t currentDir = some p) :
    getItemAndPath vol fsm fuel t pb dirID noVolName =
      (target fsm pb name t p).bind (withPath vol) := by
  obtain ⟨_, rfl⟩ := findFsitemById_eq_some known
  simp only [getItemAndPath, current, known, findObject_eq parses enough]
  rfl

/-- A guest with the Pascal string `name` at address 1, that names no volume. -/
def pascalGuest (name : List UInt8) : FSM where
  determineVol _ := (noErr, dtmvVRefNum)
  resolveWDCB _ := (paramErr, 0)
  getDefaultVol := (paramErr, 0)
  parsePathname _ := (noErr, 0)
  getPathComponentName _ parseRec := (noErr, componentAt name parseRec)
  memory _ address := if address = 1 then name.length.toUInt8 else name.getD (address - 2) 0

def pascalBlock : ParamBlock := ⟨1, 0, 0, 0, 0⟩

theorem pascalGuest_parses (name : List UInt8) (short : name.length ≤ 255) :
    (pascalGuest name).Parses pascalBlock name where
  short := short
  length _ := rfl
  memory calls k inside := by
    have address : pascalBlock.ioNamePtr + 1 + k - 2 = k := Nat.add_sub_cancel_left 2 k
    have behind : pascalBlock.ioNamePtr + 1 + k ≠ 1 :=
      Nat.ne_of_gt (Nat.lt_of_lt_of_le (by decide) (Nat.le_add_right 2 k))
    simp only [pascalGuest, if_neg behind, address]
    exact List.getD_eq_getElem _ _ inside
  volume _ := Nat.zero_le _
  component _ _ _ := rfl

end BasiliskII.ExtFS
