import BasiliskII.Prefs.Refinement
import BasiliskII.Prefs.Stream

/-!
# When a preferences file gives back the store it was written from

The file is a list of descriptions with values, one line for each; loading
turns every line into one call on the store. Both directions look at the values
of one keyword and type at a time.
-/
namespace BasiliskII.Prefs

open LinkedHeap Occurrence

/-- The values of one keyword and type, in order. -/
def valuesOf (l : Entries) (name : CString) (type : PrefsType) : List PrefsData :=
  (l.filter (namedOfType name type)).map PrefsNode.data

theorem dataAt_eq (l : Entries) (name : CString) (type : PrefsType) (index : Int) :
    dataAt l name type index =
      if 0 ≤ index then (valuesOf l name type)[index.toNat]? else none := by
  unfold dataAt entryAt valuesOf findNth
  split
  · rw [List.getElem?_map]
  · rfl

theorem namedOfType_iff {name : CString} {type : PrefsType} {n : PrefsNode} :
    namedOfType name type n ↔ n.data.type = type ∧ n.name = name := by
  simp [namedOfType]

theorem type_of_mem_valuesOf {l : Entries} {name : CString} {type : PrefsType} {data : PrefsData}
    (member : data ∈ valuesOf l name type) : data.type = type := by
  obtain ⟨n, selected, rfl⟩ := List.mem_map.mp member
  exact (namedOfType_iff.mp (List.mem_filter.mp selected).2).1

theorem mem_valuesOf {l : Entries} {n : PrefsNode} (member : n ∈ l) :
    n.data ∈ valuesOf l n.name n.data.type :=
  List.mem_map.mpr ⟨n, List.mem_filter.mpr ⟨member, by simp [namedOfType]⟩, rfl⟩

theorem valuesOf_addEntry (l : Entries) (name name' : CString) (data : PrefsData)
    (type : PrefsType) :
    valuesOf (addEntry l name data) name' type =
      if name = name' ∧ data.type = type then valuesOf l name' type ++ [data]
      else valuesOf l name' type := by
  unfold valuesOf addEntry
  rw [List.filter_append, List.map_append]
  by_cases own : name = name' ∧ data.type = type
  · have selected : namedOfType name' type ⟨name, data⟩ := namedOfType_iff.mpr ⟨own.2, own.1⟩
    rw [if_pos own, List.filter_cons_of_pos selected]
    rfl
  · have rejected : ¬ namedOfType name' type ⟨name, data⟩ :=
      fun selected => own (namedOfType_iff.mp selected).symm
    rw [if_neg own, List.filter_cons_of_neg rejected, List.filter_nil, List.map_nil,
      List.append_nil]

/-- The first value is overwritten, or the value added where there is none. -/
def replaceFirst (values : List PrefsData) (data : PrefsData) : List PrefsData :=
  data :: values.tail

theorem valuesOf_replaceEntry (l : Entries) (name name' : CString) (data : PrefsData)
    (type : PrefsType) :
    valuesOf (replaceEntry l name data 0) name' type =
      if name = name' ∧ data.type = type then replaceFirst (valuesOf l name' type) data
      else valuesOf l name' type := by
  unfold replaceEntry
  split
  next n found =>
    have first : findNth (namedOfType name data.type) l 0 = some n := found
    obtain ⟨front, back, rfl, satisfied, count⟩ := split_of_findNth first
    have fields : n.data.type = data.type ∧ n.name = name := by
      simpa [namedOfType] using satisfied
    have overwritten := setNth_split (fun n : PrefsNode => { n with data }) front back satisfied
    rw [count] at overwritten
    rw [show (0 : Int).toNat = 0 from rfl, overwritten]
    unfold valuesOf
    rw [List.filter_append, List.map_append, List.filter_append, List.map_append]
    by_cases own : name = name' ∧ data.type = type
    · obtain ⟨rfl, rfl⟩ := own
      have before : front.filter (namedOfType name data.type) = [] :=
        List.eq_nil_of_length_eq_zero count
      have written : namedOfType name data.type { n with data } :=
        namedOfType_iff.mpr ⟨rfl, fields.2⟩
      simp [before, satisfied, written, replaceFirst]
    · have before : ¬ namedOfType name' type n := fun selected =>
        own ⟨fields.2.symm.trans (namedOfType_iff.mp selected).2,
          fields.1.symm.trans (namedOfType_iff.mp selected).1⟩
      have after : ¬ namedOfType name' type { n with data } := fun selected =>
        own ⟨fields.2.symm.trans (namedOfType_iff.mp selected).2, (namedOfType_iff.mp selected).1⟩
      simp [own, before, after]
  next absent =>
    have missing : findNth (namedOfType name data.type) l 0 = none := absent
    rw [valuesOf_addEntry]
    split
    next own =>
      obtain ⟨rfl, rfl⟩ := own
      have empty : valuesOf l name data.type = [] := by
        unfold findNth at missing
        unfold valuesOf
        rw [List.getElem?_eq_none_iff] at missing
        rw [List.eq_nil_of_length_eq_zero (Nat.le_zero.mp missing)]
        rfl
      rw [empty]
      rfl
    · rfl

/-- What a line of the file says: a description and a value. -/
abbrev Line := PrefsDesc × CString

/-- What the call of a line does to the values of its own keyword and type. -/
def Line.update (values : List PrefsData) (line : Line) : List PrefsData :=
  match line.1.type with
  | .string =>
    if line.1.multiple then values ++ [.string line.2] else replaceFirst values (.string line.2)
  | .boolean => replaceFirst values (.boolean (line.2 = ascii "true"))
  | .int32 => replaceFirst values (.int32 (BitVec.ofInt 32 (atol line.2)))
  | .any => values

def loadLineEntries (l : Entries) (line : Line) : Entries :=
  match itemCall line.1 line.2 with
  | some c => (abstractCall l c).1
  | none => l

theorem valuesOf_loadLine (l : Entries) (line : Line) (name : CString) (type : PrefsType) :
    valuesOf (loadLineEntries l line) name type =
      if line.1.name = name ∧ line.1.type = type then line.update (valuesOf l name type)
      else valuesOf l name type := by
  obtain ⟨⟨keyword, itemType, multiple⟩, value⟩ := line
  unfold loadLineEntries Line.update itemCall
  cases itemType with
  | string =>
    cases multiple with
    | true => exact valuesOf_addEntry l keyword name (.string value) type
    | false => exact valuesOf_replaceEntry l keyword name (.string value) type
  | boolean => exact valuesOf_replaceEntry l keyword name (.boolean (value = ascii "true")) type
  | int32 =>
    exact valuesOf_replaceEntry l keyword name (.int32 (BitVec.ofInt 32 (atol value))) type
  | any =>
    dsimp only
    split <;> rfl

/-- A sequence of lines, in the store that holds `l` before. -/
def loadEntries (l : Entries) (lines : List Line) : Entries := lines.foldl loadLineEntries l

theorem valuesOf_loadEntries (l : Entries) (lines : List Line) (name : CString)
    (type : PrefsType) :
    valuesOf (loadEntries l lines) name type =
      (lines.filter fun line => line.1.name = name ∧ line.1.type = type).foldl
        (fun values line => line.update values) (valuesOf l name type) := by
  induction lines generalizing l with
  | nil => rfl
  | cons line lines ih =>
    rw [loadEntries, List.foldl_cons]
    refine (ih (loadLineEntries l line)).trans ?_
    rw [valuesOf_loadLine]
    by_cases own : line.1.name = name ∧ line.1.type = type
    · rw [if_pos own, List.filter_cons_of_pos (by simpa using own), List.foldl_cons]
    · rw [if_neg own, List.filter_cons_of_neg (by simpa using own)]

/-- The call of one line. -/
def callLine (st : Store) (line : Line) : Store :=
  match itemCall line.1 line.2 with
  | some c => (call st c).1
  | none => st

theorem represents_callLine {st : Store} {l : Entries} (rep : Represents st l) (line : Line) :
    Represents (callLine st line) (loadLineEntries l line) := by
  unfold callLine loadLineEntries
  cases item : itemCall line.1 line.2 with
  | none => exact rep
  | some c =>
    refine represents_call rep c ?_
    -- no line removes an item
    obtain ⟨⟨keyword, type, multiple⟩, value⟩ := line
    cases type <;> cases item <;> first | trivial | (dsimp only; split <;> trivial)

theorem represents_callLines {st : Store} {l : Entries} (rep : Represents st l)
    (lines : List Line) : Represents (lines.foldl callLine st) (loadEntries l lines) := by
  induction lines generalizing st l with
  | nil => exact rep
  | cons line lines ih => exact ih (represents_callLine rep line)

theorem prefsItems_keywords : ∀ d ∈ prefsItems,
    d.name ≠ [] ∧ d.name.head? ≠ some 35 ∧ d.name.head? ≠ some 59 ∧ d.type ≠ .any ∧
      d.name.length ≤ 16 ∧ d.name.all (fun c => !isspace c && c ≠ 0) := by
  decide +kernel

theorem prefsItems_distinct : (prefsItems.map PrefsDesc.name).Nodup := by
  decide +kernel

/-- The value fits on a line behind the keyword, and the line reads back as it was meant. -/
structure OneLine (keyword value : CString) : Prop where
  plain : newline ∉ value
  noSpace : ∀ c ∈ value.head?, ¬ isspace c
  fits : (printLine keyword value).length ≤ 254

theorem head_noSpace {first : UInt8} {rest : CString} (dark : ¬ isspace first) :
    ∀ c ∈ (first :: rest).head?, ¬ isspace c := by
  intro c head
  cases head
  exact dark

theorem find_of_distinct {items : List PrefsDesc} (distinct : (items.map PrefsDesc.name).Nodup)
    {d : PrefsDesc} (item : d ∈ items) : (items.find? fun e => e.name = d.name) = some d := by
  induction items with
  | nil => cases item
  | cons e items ih =>
    obtain ⟨notLater, later⟩ := List.nodup_cons.mp distinct
    rcases List.mem_cons.mp item with rfl | item
    · simp
    · have other : e.name ≠ d.name := fun same =>
        notLater (same ▸ List.mem_map.mpr ⟨d, item, rfl⟩)
      rw [List.find?_cons_of_neg (by simpa using other)]
      exact ih later item

theorem findPrefsDesc_eq (name : CString) :
    findPrefsDesc name = prefsItems.find? fun d => d.name = name := by
  unfold findPrefsDesc prefsItems
  rw [List.find?_append]
  cases commonPrefsItems.find? fun d => d.name = name <;> rfl

/-- A printed line reads back. -/
theorem loadLine_printLine {d : PrefsDesc} {value : CString} (item : d ∈ prefsItems)
    (one : OneLine d.name value) (terminated : 0 ∉ value) :
    loadLine (printLine d.name value) = some (itemCall d value) := by
  obtain ⟨word, noHash, noSemicolon, _, _, chars⟩ := prefsItems_keywords d item
  have keywordChar : ∀ c ∈ d.name, isspace c = false ∧ c ≠ 0 := by
    simpa using List.all_eq_true.mp chars
  have text : (printLine d.name value).takeWhile (· ≠ 0) = printLine d.name value := by
    refine List.takeWhile_eq_self_iff.mpr fun c member => ?_
    simp only [printLine, List.mem_append, List.mem_cons, List.not_mem_nil, or_false] at member
    rw [decide_eq_true_iff]
    rcases member with (keyword | rfl | inValue) | rfl
    · exact (keywordChar c keyword).2
    · decide
    · rintro rfl
      exact terminated inValue
    · decide
  have content : (printLine d.name value).dropLast = d.name ++ 32 :: value := by
    unfold printLine
    rw [List.dropLast_concat]
  have first : (d.name ++ 32 :: value).head? = d.name.head? := by
    rw [List.head?_append_of_ne_nil _ word]
  have blank : (d.name ++ 32 :: value).all (fun c => !isspace c) = false := by
    simp [isspace]
  have keyword : (d.name ++ 32 :: value).takeWhile (fun c => !isspace c) = d.name := by
    rw [List.takeWhile_append_of_pos fun c member => by simp [keywordChar c member]]
    simp [isspace]
  have behind : (d.name ++ 32 :: value).drop (d.name.length + 1) = value := by
    rw [List.drop_length_add_append]
    rfl
  have skipped : value.dropWhile isspace = value := by
    cases value with
    | nil => rfl
    | cons c cs => exact List.dropWhile_cons_of_neg (one.noSpace c rfl)
  have notEmpty : printLine d.name value ≠ [] := by simp [printLine]
  simp only [loadLine, text, if_neg notEmpty, content, first, noHash, noSemicolon, or_self,
    if_false, blank, Bool.false_eq_true, keyword, behind, skipped]
  rw [findPrefsDesc_eq, find_of_distinct prefsItems_distinct item]

/-- A line that sets an item says so in one line. -/
def Line.Good (line : Line) : Prop := line.1 ∈ prefsItems ∧ OneLine line.1.name line.2

theorem dropLast_of_part {front whole : CString} (part : front <+: whole) :
    front.dropLast <+: whole.dropLast := by
  obtain ⟨rest, rfl⟩ := part
  by_cases last : rest = []
  · simp [last]
  · rw [List.dropLast_append_of_ne_nil last]
    exact (List.dropLast_prefix front).trans (List.prefix_append _ _)

theorem loadLine_good {stream : CString} {c : Call}
    (loaded : loadLine (takeLine 254 stream).1 = some (some c)) :
    ∃ line : Line, line.Good ∧ itemCall line.1 line.2 = some c := by
  obtain ⟨plain, short⟩ := takeLine_spec 254 stream
  generalize (takeLine 254 stream).1 = line at loaded plain short
  unfold loadLine at loaded
  dsimp only at loaded
  split at loaded
  · cases loaded
  next notEmpty =>
    have part : (line.takeWhile (· ≠ 0)).dropLast <+: line.dropLast :=
      dropLast_of_part (List.takeWhile_prefix _)
    have textShort : (line.takeWhile (· ≠ 0)).dropLast.length ≤ 253 := by
      have := (List.takeWhile_prefix (fun c => decide (c ≠ 0)) (l := line)).length_le
      rw [List.length_dropLast]
      omega
    have textPlain : newline ∉ (line.takeWhile (· ≠ 0)).dropLast :=
      fun member => plain (part.subset member)
    generalize (line.takeWhile (· ≠ 0)).dropLast = text at loaded textShort textPlain
    split at loaded
    · cases loaded
    · split at loaded
      · cases loaded
      next blank =>
        split at loaded
        next d found =>
          rw [findPrefsDesc_eq] at found
          have item := List.mem_of_find?_eq_some found
          have name : d.name = text.takeWhile fun c => !isspace c := by
            simpa using List.find?_some found
          refine ⟨⟨d, (text.drop ((text.takeWhile fun c => !isspace c).length + 1)).dropWhile
            isspace⟩, ⟨item, ?_, ?_, ?_⟩, by simpa using loaded⟩
          · intro member
            exact textPlain (List.mem_of_mem_drop ((List.dropWhile_suffix _).subset member))
          · intro c first
            have := List.head?_dropWhile_not isspace
              (text.drop ((text.takeWhile fun c => !isspace c).length + 1))
            simp_all
          · -- the blank behind the keyword is a character of the text
            have shorter : (text.takeWhile fun c => !isspace c).length < text.length := by
              have part := List.takeWhile_prefix (fun c => !isspace c) (l := text)
              refine lt_of_le_of_ne part.length_le fun same => blank ?_
              rw [List.all_eq_true, ← List.takeWhile_eq_self_iff]
              exact part.eq_of_length same
            have rest := (List.dropWhile_suffix isspace (l := text.drop
              ((text.takeWhile fun c => !isspace c).length + 1))).length_le
            rw [List.length_drop] at rest
            simp only [printLine, List.length_append, List.length_cons, List.length_nil, name]
            omega
        · cases loaded

theorem loadLines_good {fuel : Nat} {stream : CString} {st loaded : Store}
    (load : loadLines fuel stream st = some loaded) :
    ∃ lines : List Line, (∀ line ∈ lines, line.Good) ∧ loaded = lines.foldl callLine st := by
  induction fuel generalizing stream st with
  | zero =>
    cases load
    exact ⟨[], by simp, rfl⟩
  | succ fuel ih =>
    unfold loadLines fgets at load
    by_cases atEnd : stream = []
    · simp only [atEnd, if_true] at load
      cases load
      exact ⟨[], by simp, rfl⟩
    · simp only [if_neg atEnd] at load
      cases said : loadLine (takeLine (255 - 1) stream).1 with
      | none =>
        rw [said] at load
        cases load
      | some call =>
        rw [said] at load
        cases call with
        | none => exact ih load
        | some c =>
          obtain ⟨line, good, item⟩ := loadLine_good said
          obtain ⟨lines, allGood, rfl⟩ := ih load
          refine ⟨line :: lines, List.forall_mem_cons.mpr ⟨good, allGood⟩, ?_⟩
          rw [List.foldl_cons, callLine, item]

theorem loadLines_printed {lines : List Line} {fuel : Nat} (st : Store)
    (good : ∀ line ∈ lines, line.Good) (terminated : ∀ line ∈ lines, 0 ∉ line.2)
    (enough : lines.length ≤ fuel) :
    loadLines fuel (lines.flatMap fun line => printLine line.1.name line.2) st =
      some (lines.foldl callLine st) := by
  induction lines generalizing fuel st with
  | nil => cases fuel <;> rfl
  | cons line lines ih =>
    obtain ⟨⟨item, one⟩, later⟩ := List.forall_mem_cons.mp good
    obtain ⟨noZero, laterNoZero⟩ := List.forall_mem_cons.mp terminated
    obtain ⟨fuel, rfl⟩ : ∃ n, fuel = n + 1 := ⟨fuel - 1, by simp at enough; omega⟩
    have keywordPlain : newline ∉ line.1.name := by
      intro member
      have chars := (prefsItems_keywords line.1 item).2.2.2.2.2
      have char := List.all_eq_true.mp chars newline member
      simp [isspace, newline] at char
    have plain : newline ∉ line.1.name ++ 32 :: line.2 := by
      simp only [List.mem_append, List.mem_cons, not_or]
      exact ⟨keywordPlain, by decide, one.plain⟩
    have fits : (line.1.name ++ 32 :: line.2).length < 255 - 1 := by
      have := one.fits
      simp only [printLine, List.length_append, List.length_cons, List.length_nil] at this ⊢
      omega
    have read := takeLine_line (lines.flatMap fun line => printLine line.1.name line.2) plain fits
    have split : printLine line.1.name line.2 ++
        (lines.flatMap fun line => printLine line.1.name line.2) =
        (line.1.name ++ 32 :: line.2) ++
          newline :: (lines.flatMap fun line => printLine line.1.name line.2) := by
      simp [printLine]
    have notEnd : ¬ printLine line.1.name line.2 ++
        (lines.flatMap fun line => printLine line.1.name line.2) = [] := by
      simp [printLine]
    have said := loadLine_printLine item one noZero
    rw [List.flatMap_cons, loadLines, fgets, if_neg notEnd, split, read]
    dsimp only
    rw [show line.1.name ++ 32 :: line.2 ++ [newline] = printLine line.1.name line.2 from rfl, said]
    have rest := fun st => ih st later laterNoZero (Nat.le_of_succ_le_succ enough)
    rw [List.foldl_cons, callLine]
    cases itemCall line.1 line.2 with
    | none => exact rest st
    | some c => exact rest _

/-- The strings of one keyword, in order. -/
def stringsOf (l : Entries) (name : CString) : List CString :=
  (valuesOf l name .string).filterMap fun value => stringValue (some value)

theorem valuesOf_string (l : Entries) (name : CString) :
    valuesOf l name .string = (stringsOf l name).map PrefsData.string := by
  have all : ∀ values : List PrefsData, (∀ value ∈ values, value.type = .string) →
      values = (values.filterMap fun value => stringValue (some value)).map PrefsData.string := by
    intro values strings
    induction values with
    | nil => rfl
    | cons value values ih =>
      obtain ⟨first, later⟩ := List.forall_mem_cons.mp strings
      cases value with
      | string s => exact congrArg (PrefsData.string s :: ·) (ih later)
      | boolean b => cases first
      | int32 val => cases first
  exact all _ fun value => type_of_mem_valuesOf

/-- Of the lines of several descriptions, those with one keyword and type are the lines of
its own description. -/
theorem filter_lines {items : List PrefsDesc} (values : PrefsDesc → List CString)
    (distinct : (items.map PrefsDesc.name).Nodup) {d : PrefsDesc} (item : d ∈ items)
    (type : PrefsType) :
    ((items.flatMap fun d => (values d).map fun value => (d, value)).filter
        fun line : Line => line.1.name = d.name ∧ line.1.type = type) =
      if d.type = type then (values d).map fun value => (d, value) else [] := by
  have others : ∀ items : List PrefsDesc, d.name ∉ items.map PrefsDesc.name →
      ((items.flatMap fun d => (values d).map fun value => (d, value)).filter
        fun line : Line => line.1.name = d.name ∧ line.1.type = type) = [] := by
    intro items absent
    refine List.filter_eq_nil_iff.mpr fun line member => ?_
    obtain ⟨e, item, inItem⟩ := List.mem_flatMap.mp member
    obtain ⟨value, _, rfl⟩ := List.mem_map.mp inItem
    have different : e.name ≠ d.name := fun same => absent (same ▸ List.mem_map_of_mem item)
    simp [different]
  induction items with
  | nil => cases item
  | cons e items ih =>
    obtain ⟨notLater, later⟩ := List.nodup_cons.mp distinct
    rw [List.flatMap_cons, List.filter_append]
    rcases List.mem_cons.mp item with rfl | item
    · rw [others items notLater, List.append_nil]
      by_cases own : d.type = type
      · rw [if_pos own, List.filter_eq_self.mpr]
        intro line member
        obtain ⟨value, _, rfl⟩ := List.mem_map.mp member
        simp [own]
      · rw [if_neg own, List.filter_eq_nil_iff]
        intro line member
        obtain ⟨value, _, rfl⟩ := List.mem_map.mp member
        simp [own]
    · have different : d.name ∉ [e].map PrefsDesc.name := by
        simpa using fun same : d.name = e.name =>
          notLater (same ▸ List.mem_map_of_mem item)
      have first := others [e] different
      rw [List.flatMap_singleton] at first
      rw [first, List.nil_append, ih later item]

theorem filterMap_strings (strings : List CString) :
    (strings.map PrefsData.string).filterMap (fun value => stringValue (some value)) =
      strings := by
  rw [List.filterMap_map]
  exact List.filterMap_some

section Represented

variable {st : Store} {l : Entries}

theorem prefsFindString_eq (rep : Represents st l) (name : CString) (index : Int) :
    prefsFindString st name index =
      if 0 ≤ index then (stringsOf l name)[index.toNat]? else none := by
  unfold prefsFindString
  rw [findData_represents rep name .string (by decide), dataAt_eq, valuesOf_string]
  split
  · rw [List.getElem?_map]
    cases (stringsOf l name)[index.toNat]? <;> rfl
  · rfl

theorem prefsFindBool_eq (rep : Represents st l) (name : CString) :
    prefsFindBool st name = boolValue (valuesOf l name .boolean)[0]? := by
  unfold prefsFindBool
  rw [findData_represents rep name .boolean (by decide), dataAt_eq]
  rfl

theorem prefsFindInt32_eq (rep : Represents st l) (name : CString) :
    prefsFindInt32 st name = int32Value (valuesOf l name .int32)[0]? := by
  unfold prefsFindInt32
  rw [findData_represents rep name .int32 (by decide), dataAt_eq]
  rfl

/-- The values `write_prefs` writes for one description. -/
def savedValues (l : Entries) (d : PrefsDesc) : List CString :=
  match d.type with
  | .string => stringsOf l d.name
  | .boolean => [ascii (if boolValue (valuesOf l d.name .boolean)[0]? then "true" else "false")]
  | .int32 => [formatInt (int32Value (valuesOf l d.name .int32)[0]?).toInt]
  | .any => []

theorem writeStrings_eq (rep : Represents st l) (name : CString) {fuel : Nat} (k : Nat)
    (enough : (stringsOf l name).length < fuel + k) :
    writeStrings st name fuel k = ((stringsOf l name).drop k).flatMap (printLine name) := by
  induction fuel generalizing k with
  | zero =>
    rw [List.drop_eq_nil_of_le (by omega)]
    rfl
  | succ fuel ih =>
    rw [writeStrings, prefsFindString_eq rep, if_pos (Int.natCast_nonneg k), Int.toNat_natCast]
    have next : (k : Int) + 1 = ((k + 1 : Nat) : Int) := rfl
    cases found : (stringsOf l name)[k]? with
    | none =>
      rw [List.drop_eq_nil_of_le (List.getElem?_eq_none_iff.mp found)]
      rfl
    | some str =>
      obtain ⟨inside, value⟩ := List.getElem?_eq_some_iff.mp found
      dsimp only
      rw [next, ih (k + 1) (by omega), List.drop_eq_getElem_cons inside, value,
        List.flatMap_cons]

theorem stringsOf_length (rep : Represents st l) (name : CString) :
    (stringsOf l name).length ≤ st.heap.fresh := by
  obtain ⟨cells, chain, rfl⟩ := rep
  have strings : (stringsOf (cells.map Prod.snd) name).length ≤
      (valuesOf (cells.map Prod.snd) name .string).length := List.length_filterMap_le _ _
  have values : (valuesOf (cells.map Prod.snd) name .string).length ≤ cells.length := by
    rw [valuesOf, List.length_map, ← List.length_map (f := Prod.snd)]
    exact List.length_filter_le _ _
  exact strings.trans (values.trans chain.length_le)

theorem writeItem_eq (rep : Represents st l) (d : PrefsDesc) :
    writeItem st d = (savedValues l d).flatMap (printLine d.name) := by
  unfold writeItem savedValues
  cases d.type with
  | string =>
    have enough := stringsOf_length rep d.name
    exact writeStrings_eq rep d.name 0 (by omega)
  | boolean =>
    dsimp only
    rw [prefsFindBool_eq rep, List.flatMap_singleton]
  | int32 =>
    dsimp only
    rw [prefsFindInt32_eq rep, List.flatMap_singleton]
  | any => rfl

/-- The lines of the file. -/
def savedLines (l : Entries) : List Line :=
  prefsItems.flatMap fun d => (savedValues l d).map fun value => (d, value)

theorem savePrefsToStream_eq (rep : Represents st l) :
    savePrefsToStream st =
      (savedLines l).flatMap fun line => printLine line.1.name line.2 := by
  have items : savePrefsToStream st = prefsItems.flatMap (writeItem st) :=
    List.flatMap_append.symm
  rw [items, savedLines, List.flatMap_assoc]
  congr 1
  funext d
  rw [writeItem_eq rep, List.flatMap_map]

theorem loadPrefsFromStream_printed {lines : List Line} (st : Store)
    (good : ∀ line ∈ lines, line.Good) (terminated : ∀ line ∈ lines, 0 ∉ line.2) :
    loadPrefsFromStream (lines.flatMap fun line => printLine line.1.name line.2) st =
      some (lines.foldl callLine st) := by
  apply loadLines_printed st good terminated
  induction lines with
  | nil => simp
  | cons line lines ih =>
    have rest := ih (fun line member => good line (by simp [member]))
      fun line member => terminated line (by simp [member])
    have first : 0 < (printLine line.1.name line.2).length :=
      List.length_pos_iff.mpr (by simp [printLine])
    rw [List.flatMap_cons, List.length_append, List.length_cons]
    omega

end Represented

/-- Every entry is described in the tables, and its strings are C strings. -/
structure Described (l : Entries) : Prop where
  listed : ∀ n ∈ l, ∃ d ∈ prefsItems, d.name = n.name ∧ d.type = n.data.type
  terminated : ∀ n ∈ l, ∀ s, n.data = .string s → 0 ∉ s

/-- Every described keyword has the same values in both stores, at every index. -/
def SameValues (st loaded : Store) : Prop :=
  ∀ d ∈ prefsItems,
    (∀ index, prefsFindString loaded d.name index = prefsFindString st d.name index) ∧
      prefsFindBool loaded d.name = prefsFindBool st d.name ∧
      prefsFindInt32 loaded d.name = prefsFindInt32 st d.name

/-- Every string fits on one line, and only a keyword marked so has several of them. -/
structure Writable (l : Entries) : Prop where
  oneLine : ∀ n ∈ l, ∀ s, n.data = .string s → OneLine n.name s
  single : ∀ d ∈ prefsItems, ¬ d.multiple → (stringsOf l d.name).length ≤ 1

/-- The entries that lines of the file may leave. -/
structure FromLines (l : Entries) : Prop where
  oneLine : ∀ d ∈ prefsItems, ∀ s ∈ stringsOf l d.name, OneLine d.name s
  single : ∀ d ∈ prefsItems, ¬ d.multiple → (stringsOf l d.name).length ≤ 1

theorem distinct_items {d e : PrefsDesc} (first : d ∈ prefsItems) (second : e ∈ prefsItems)
    (same : d.name = e.name) : d = e := by
  have found := find_of_distinct prefsItems_distinct first
  rw [same, find_of_distinct prefsItems_distinct second] at found
  exact (Option.some.inj found).symm

theorem stringsOf_loadLine (l : Entries) (line : Line) (name : CString) :
    stringsOf (loadLineEntries l line) name =
      if line.1.name = name ∧ line.1.type = .string then
        if line.1.multiple then stringsOf l name ++ [line.2]
        else line.2 :: (stringsOf l name).tail
      else stringsOf l name := by
  unfold stringsOf
  rw [valuesOf_loadLine]
  by_cases own : line.1.name = name ∧ line.1.type = .string
  · rw [if_pos own, if_pos own]
    simp only [Line.update, own.2]
    split
    · rw [List.filterMap_append]
      rfl
    · rw [replaceFirst, valuesOf_string l name, ← List.map_tail, filterMap_strings]
      exact congrArg (line.2 :: ·) (filterMap_strings _)
  · rw [if_neg own, if_neg own]

theorem loadLine_fromLines {l : Entries} {line : Line} (from_lines : FromLines l)
    (good : line.Good) : FromLines (loadLineEntries l line) := by
  obtain ⟨item, one⟩ := good
  constructor
  · intro d described s member
    rw [stringsOf_loadLine] at member
    split at member
    next own =>
      split at member
      · rcases List.mem_append.mp member with old | new
        · exact from_lines.oneLine d described s old
        · rw [List.mem_singleton.mp new, ← own.1]
          exact one
      · rcases List.mem_cons.mp member with rfl | old
        · rw [← own.1]
          exact one
        · exact from_lines.oneLine d described s (List.mem_of_mem_tail old)
    · exact from_lines.oneLine d described s member
  · intro d described notMultiple
    have before := from_lines.single d described notMultiple
    rw [stringsOf_loadLine]
    split
    next own =>
      rw [distinct_items item described own.1, if_neg notMultiple]
      rw [List.length_cons, List.length_tail]
      omega
    · exact before

theorem loadEntries_fromLines {lines : List Line} (good : ∀ line ∈ lines, line.Good) :
    FromLines (loadEntries [] lines) := by
  have all : ∀ l, FromLines l → FromLines (loadEntries l lines) := by
    intro l before
    induction lines generalizing l with
    | nil => exact before
    | cons line lines ih =>
      obtain ⟨first, later⟩ := List.forall_mem_cons.mp good
      exact ih later _ (loadLine_fromLines before first)
  refine all [] ⟨?_, ?_⟩
  · intro d _ s member
    cases member
  · exact fun d _ _ => Nat.zero_le 1

section Theorems

variable {st : Store} {l : Entries}

theorem stringsOf_eq_of_same {loaded : Store} {k : Entries} (rep : Represents st l)
    (loadedRep : Represents loaded k) {name : CString}
    (same : ∀ index, prefsFindString loaded name index = prefsFindString st name index) :
    stringsOf l name = stringsOf k name := by
  apply List.ext_getElem?
  intro i
  have at_i := same i
  rw [prefsFindString_eq rep, prefsFindString_eq loadedRep,
    if_pos (Int.natCast_nonneg i), if_pos (Int.natCast_nonneg i), Int.toNat_natCast] at at_i
  exact at_i.symm

theorem writable_of_same {lines : List Line} (rep : Represents st l) (described : Described l)
    (good : ∀ line ∈ lines, line.Good)
    (same : SameValues st (lines.foldl callLine Store.empty)) : Writable l := by
  have loadedRep := represents_callLines represents_empty lines
  have from_lines := loadEntries_fromLines good
  have strings : ∀ d ∈ prefsItems,
      stringsOf l d.name = stringsOf (loadEntries [] lines) d.name :=
    fun d item => stringsOf_eq_of_same rep loadedRep (same d item).1
  constructor
  · intro n member s value
    obtain ⟨d, item, name, type⟩ := described.listed n member
    have inStrings : s ∈ stringsOf l n.name := by
      have inValues := mem_valuesOf member
      rw [value] at inValues
      exact List.mem_filterMap.mpr ⟨.string s, inValues, rfl⟩
    rw [← name] at inStrings ⊢
    rw [strings d item] at inStrings
    exact from_lines.oneLine d item s inStrings
  · intro d item notMultiple
    rw [strings d item]
    exact from_lines.single d item notMultiple

theorem int32_range (val : BitVec 32) : -2147483648 ≤ val.toInt ∧ val.toInt ≤ 2147483647 := by
  have low := @BitVec.le_two_mul_toInt 32 val
  have high := @BitVec.two_mul_toInt_lt 32 val
  omega

theorem oneLine_short {d : PrefsDesc} {value : CString} (item : d ∈ prefsItems)
    (plain : newline ∉ value) (noSpace : ∀ c ∈ value.head?, ¬ isspace c)
    (short : value.length ≤ 11) : OneLine d.name value := by
  have word := (prefsItems_keywords d item).2.2.2.2.1
  refine ⟨plain, noSpace, ?_⟩
  simp only [printLine, List.length_append, List.length_cons, List.length_nil]
  omega

theorem savedLines_good (described : Described l) (writable : Writable l) :
    ∀ line ∈ savedLines l, line.Good ∧ 0 ∉ line.2 := by
  intro line member
  obtain ⟨d, item, inItem⟩ := List.mem_flatMap.mp member
  obtain ⟨value, saved, rfl⟩ := List.mem_map.mp inItem
  unfold savedValues at saved
  cases type : d.type with
  | string =>
    rw [type] at saved
    obtain ⟨data, inValues, string⟩ := List.mem_filterMap.mp saved
    obtain ⟨n, selected, rfl⟩ := List.mem_map.mp inValues
    obtain ⟨inList, isOwn⟩ := List.mem_filter.mp selected
    have name := (namedOfType_iff.mp isOwn).2
    have data : n.data = .string value := by
      cases h : n.data <;> rw [h] at string <;> cases string
      rfl
    refine ⟨⟨item, ?_⟩, described.terminated n inList value data⟩
    rw [← name]
    exact writable.oneLine n inList value data
  | boolean =>
    rw [type] at saved
    have cases : value = ascii "true" ∨ value = ascii "false" := by
      rw [List.mem_singleton.mp saved]
      split
      · exact .inl rfl
      · exact .inr rfl
    have plain : newline ∉ value ∧ 0 ∉ value ∧ (∀ c ∈ value.head?, ¬ isspace c) ∧
        value.length ≤ 11 := by
      rcases cases with rfl | rfl <;>
        exact ⟨by decide, by decide, head_noSpace (by decide), by decide⟩
    exact ⟨⟨item, oneLine_short item plain.1 plain.2.2.1 plain.2.2.2⟩, plain.2.1⟩
  | int32 =>
    rw [type] at saved
    rw [List.mem_singleton.mp saved]
    generalize int32Value (valuesOf l d.name .int32)[0]? = val
    obtain ⟨low, high⟩ := int32_range val
    have chars : ∀ c ∈ formatInt val.toInt, c ≠ newline ∧ c ≠ 0 ∧ ¬ isspace c := by
      intro c member
      rcases formatInt_chars member with rfl | digit
      · decide
      · have range := (isdigit_iff c).mp digit
        refine ⟨?_, ?_, ?_⟩
        · rintro rfl
          simp [newline] at range
        · rintro rfl
          simp at range
        · rw [isspace_iff]
          omega
    refine ⟨⟨item, oneLine_short item (fun member => (chars _ member).1 rfl) ?_
      (length_formatInt low high)⟩, fun member => (chars _ member).2.1 rfl⟩
    exact fun c first => (chars c (List.mem_of_mem_head? first)).2.2
  | any => exact absurd type (prefsItems_keywords d item).2.2.2.1

theorem foldl_append_strings (values : List PrefsData) (strings : List CString) :
    strings.foldl (fun values s => values ++ [PrefsData.string s]) values =
      values ++ strings.map PrefsData.string := by
  induction strings generalizing values with
  | nil => simp
  | cons s strings ih => rw [List.foldl_cons, ih, List.append_assoc]; rfl

/-- A file of single lines gives every described keyword its values again. -/
theorem valuesOf_loaded (writable : Writable l) {d : PrefsDesc} (item : d ∈ prefsItems)
    (type : PrefsType) :
    valuesOf (loadEntries [] (savedLines l)) d.name type =
      if d.type = type then
        match type with
        | .string => (stringsOf l d.name).map PrefsData.string
        | .boolean => [.boolean (boolValue (valuesOf l d.name .boolean)[0]?)]
        | .int32 => [.int32 (int32Value (valuesOf l d.name .int32)[0]?)]
        | .any => []
      else [] := by
  rw [valuesOf_loadEntries, savedLines, filter_lines (savedValues l) prefsItems_distinct item]
  by_cases own : d.type = type
  · subst own
    rw [if_pos rfl, if_pos rfl, List.foldl_map]
    unfold savedValues Line.update
    obtain ⟨name, itemType, multiple⟩ := d
    cases itemType with
    | string =>
      cases multiple with
      | true => exact foldl_append_strings [] (stringsOf l name)
      | false =>
        -- a keyword that does not occur several times has at most one line
        have single := writable.single _ item nofun
        dsimp only at single ⊢
        cases strings : stringsOf l name with
        | nil => rfl
        | cons s rest =>
          rw [strings] at single
          have none_left : rest = [] := List.eq_nil_of_length_eq_zero (by simpa using single)
          subst none_left
          rfl
    | boolean =>
      dsimp only
      cases boolValue (valuesOf l name .boolean)[0]? with
      | true => rfl
      | false => rfl
    | int32 =>
      dsimp only
      generalize int32Value (valuesOf l name .int32)[0]? = val
      obtain ⟨low, high⟩ := int32_range val
      rw [List.foldl_cons, List.foldl_nil, atol_formatInt low high, BitVec.ofInt_toInt]
      rfl
    | any => rfl
  · rw [if_neg own, if_neg own]
    rfl

theorem same_of_writable (rep : Represents st l) (described : Described l)
    (writable : Writable l) : SameValues st ((savedLines l).foldl callLine Store.empty) := by
  have loadedRep := represents_callLines represents_empty (savedLines l)
  intro d item
  have loaded := valuesOf_loaded writable item
  -- the store holds a keyword with its own type only
  have other : ∀ type, d.type ≠ type → valuesOf l d.name type = [] := by
    intro type different
    refine List.map_eq_nil_iff.mpr (List.filter_eq_nil_iff.mpr fun n member selected => ?_)
    obtain ⟨nType, nName⟩ := namedOfType_iff.mp selected
    obtain ⟨e, listed, eName, eType⟩ := described.listed n member
    have same : e = d := distinct_items listed item (eName.trans nName)
    exact different (by rw [← same, eType, nType])
  refine ⟨fun index => ?_, ?_, ?_⟩
  · rw [prefsFindString_eq rep, prefsFindString_eq loadedRep]
    congr 2
    unfold stringsOf
    rw [loaded .string]
    split
    · exact filterMap_strings _
    next different => rw [other .string different]
  · rw [prefsFindBool_eq rep, prefsFindBool_eq loadedRep, loaded .boolean]
    split
    · rfl
    next different => rw [other .boolean different]
  · rw [prefsFindInt32_eq rep, prefsFindInt32_eq loadedRep, loaded .int32]
    split
    · rfl
    next different => rw [other .int32 different]

/-- A preferences file gives back the store it was written from exactly when every string fits
on one line and no keyword has more values than its description allows. -/
theorem prefs_file_round_trip_iff (rep : Represents st l) (described : Described l) :
    (∃ loaded, loadPrefsFromStream (savePrefsToStream st) Store.empty = some loaded ∧
        SameValues st loaded) ↔
      Writable l := by
  constructor
  · rintro ⟨loaded, load, same⟩
    obtain ⟨lines, good, rfl⟩ := loadLines_good load
    exact writable_of_same rep described good same
  · intro writable
    have good := savedLines_good described writable
    refine ⟨(savedLines l).foldl callLine Store.empty, ?_, same_of_writable rep described writable⟩
    rw [savePrefsToStream_eq rep]
    exact loadPrefsFromStream_printed Store.empty (fun line member => (good line member).1)
      fun line member => (good line member).2

end Theorems

/-- Two disks, the second with an empty name, and a number. -/
def twoDisks : Store :=
  (calls Store.empty [.addString (ascii "disk") (ascii "ux0:/a b.dsk"),
    .addString (ascii "disk") [], .addInt32 (ascii "ramsize") (-1)]).1

def twoDisksEntries : Entries :=
  [⟨ascii "disk", .string (ascii "ux0:/a b.dsk")⟩, ⟨ascii "disk", .string []⟩,
    ⟨ascii "ramsize", .int32 (-1)⟩]

theorem twoDisks_represents : Represents twoDisks twoDisksEntries :=
  represents_addData (represents_addData (represents_addData represents_empty _ _) _ _) _ _

theorem prefs_file_round_trip_iff_twoDisks :
    ∃ loaded, loadPrefsFromStream (savePrefsToStream twoDisks) Store.empty = some loaded ∧
      SameValues twoDisks loaded := by
  have described : Described twoDisksEntries := by
    refine ⟨by decide, fun n member s value => ?_⟩
    simp only [twoDisksEntries, List.mem_cons, List.not_mem_nil, or_false] at member
    rcases member with rfl | rfl | rfl <;> cases value <;> decide
  have writable : Writable twoDisksEntries := by
    refine ⟨fun n member s value => ?_, by decide⟩
    simp only [twoDisksEntries, List.mem_cons, List.not_mem_nil, or_false] at member
    rcases member with rfl | rfl | rfl <;> cases value
    · exact ⟨by decide, head_noSpace (by decide), by decide⟩
    · exact ⟨by decide, nofun, by decide⟩
  exact (prefs_file_round_trip_iff twoDisks_represents described).mpr writable

/-- A ROM file whose name begins with a blank: the blank is skipped with the separator. -/
def blankRom : Store := (calls Store.empty [.addString (ascii "rom") (ascii " x")]).1

theorem leading_blank_lost :
    ¬ ∃ loaded, loadPrefsFromStream (savePrefsToStream blankRom) Store.empty = some loaded ∧
      SameValues blankRom loaded := by
  rintro ⟨loaded, load, same⟩
  have rep : Represents blankRom [⟨ascii "rom", .string (ascii " x")⟩] :=
    represents_addData represents_empty _ _
  have described : Described [⟨ascii "rom", .string (ascii " x")⟩] := by
    refine ⟨by decide, fun n member s value => ?_⟩
    cases List.mem_singleton.mp member
    cases value
    decide
  obtain ⟨lines, good, rfl⟩ := loadLines_good load
  have writable := writable_of_same rep described good same
  exact (writable.oneLine _ (List.mem_singleton.mpr rfl) _ rfl).noSpace 32 rfl (by decide)

end BasiliskII.Prefs
