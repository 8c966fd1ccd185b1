import BasiliskII.Prefs.RoundTrip
import BasiliskII.Library.CBuffer

/-!
# The line buffer of the preferences parser

`LoadPrefsFromStream` once more, by index: what each pass of its loop reads and
writes in `char line[256]`, and the keyword and the value it finds there. The
scan for the end of the keyword looks for white space only, the last character
of every chunk is taken for the newline, and a line may come in several chunks.
-/
namespace BasiliskII.Prefs

open CBuffer

def lineSize : Nat := 256

/-- The buffer when `fgets` has stored a chunk and its terminator. -/
def fill (stale : Buffer) (chunk : CString) : Buffer := fun i =>
  if i ≤ chunk.length then chunk.getD i 0 else stale i

/-- The indices a pass reads or writes, what it hands to the preferences, and the buffer after it. -/
structure Pass where
  touched : List Nat
  entry : Option (CString × CString)
  left : Buffer

/-- The keyword and the value of the line, when its last character has been removed. -/
def splitLine (line : Buffer) : Pass :=
  -- Terminate string after keyword
  let p := scan (fun c => !isspace c) line lineSize 0
  let line := Function.update line p 0
  -- Skip whitespace until value
  let value := scan isspace line (lineSize - (p + 1)) (p + 1)
  let terminator := scan (· ≠ 0) line (lineSize - value) value
  { touched :=
      List.range (p + 1) ++ List.range' (p + 1) (value - p) ++
        List.range' value (terminator + 1 - value)
    entry := some (stringAt line lineSize 0, stringAt line (lineSize - value) value)
    left := line }

/-- One pass of the loop over the buffer that `fgets` has filled. -/
def loadPass (line : Buffer) : Pass :=
  let len := scan (· ≠ 0) line lineSize 0
  if len = 0 then ⟨[0], none, line⟩
  else
    let line := Function.update line (len - 1) 0
    let read := List.range (len + 1) ++ [len - 1, 0]
    -- Comments begin with "#" or ";"
    if line 0 = 35 ∨ line 0 = 59 then ⟨read, none, line⟩
    else { splitLine line with touched := read ++ (splitLine line).touched }

/-- The item of a keyword and a value. -/
def entryCall (entry : CString × CString) : Option Call :=
  (findPrefsDesc entry.1).bind fun d => itemCall d entry.2

/-- What successive `fgets` give. -/
def readChunks : Nat → CString → List CString
  | 0, _ => []
  | fuel + 1, stream =>
    match fgets 255 stream with
    | none => []
    | some (chunk, rest) => chunk :: readChunks fuel rest

def chunks (stream : CString) : List CString := readChunks stream.length stream

/-- What the passes over some chunks hand to the preferences, each pass on the buffer as the one
before left it. -/
def handed : Buffer → List CString → List (CString × CString)
  | _, [] => []
  | stale, chunk :: chunks =>
    let pass := loadPass (fill stale chunk)
    pass.entry.toList ++ handed pass.left chunks

/-- The lines of a stream, each with its newline; the last may have none. -/
def lines : CString → List CString
  | [] => []
  | c :: stream =>
    if c = newline then [c] :: lines stream
    else
      match lines stream with
      | [] => [[c]]
      | line :: later => (c :: line) :: later

def body (line : CString) : CString :=
  if line.getLast? = some newline then line.dropLast else line

/-- The line consists of a described keyword, white space and a value. -/
structure KeywordValue (line keyword value : CString) : Prop where
  described : (findPrefsDesc keyword).isSome
  parts : ∃ spaces, spaces ≠ [] ∧ (∀ c ∈ spaces, isspace c) ∧
    body line = keyword ++ spaces ++ value
  starts : ∀ c ∈ value.head?, ¬ isspace c
  plain : 0 ∉ value

/-- The line as a C string. -/
def lineText (chunk : CString) : CString := chunk.takeWhile (· ≠ 0)

/-- Whatever the buffer held before, the pass stays in it, at the terminator at the latest. -/
def StaysInside (chunk : CString) : Prop :=
  chunk.length < lineSize ∧
    ∀ stale, ∀ i ∈ (loadPass (fill stale chunk)).touched, i ≤ (lineText chunk).length

/-- What the parser is to do with every stream. -/
structure ReadsWell (stream : CString) : Prop where
  once : chunks stream = lines stream
  inside : ∀ chunk ∈ chunks stream, StaysInside chunk
  complete : ∀ line ∈ lines stream, ∀ keyword value, KeywordValue line keyword value →
    ∀ stale, handed stale (chunks line) = [(keyword, value)]

def isComment (text : CString) : Prop := text.head? = some 35 ∨ text.head? = some 59

instance (text : CString) : Decidable (isComment text) := inferInstanceAs (Decidable (_ ∨ _))

/-- A pass over the line has something to stop at. -/
def Stops (chunk : CString) : Prop :=
  lineText chunk = [] ∨ isComment (lineText chunk).dropLast ∨
    ∃ c ∈ (lineText chunk).dropLast, isspace c

/-- The lines the parser is made for: they fit, have white space or a comment sign to stop at,
and end in a newline if there is a value to lose. -/
structure WellFormedLine (line : CString) : Prop where
  fits : line.length ≤ 254
  stops : Stops line
  ends : line.getLast? = some newline ∨
    ∀ keyword value, KeywordValue line keyword value → value = []

theorem fill_holds (stale : Buffer) (chunk : CString) : Holds (fill stale chunk) 0 chunk := by
  intro i inside
  simp [fill, inside]

theorem lineText_plain (chunk : CString) : 0 ∉ lineText chunk := by
  intro member
  simpa using List.mem_takeWhile_imp member

variable {keyword : CString}

/-- A line with white space behind its keyword. -/
theorem splitLine_spaced {line : Buffer} {spaces value : CString} {blank : UInt8}
    (holds : Holds line 0 (keyword ++ blank :: (spaces ++ value)))
    (plain : 0 ∉ keyword ++ blank :: (spaces ++ value))
    (short : (keyword ++ blank :: (spaces ++ value)).length < lineSize)
    (dark : ∀ c ∈ keyword, isspace c = false) (first : isspace blank)
    (blanks : ∀ c ∈ spaces, isspace c) (starts : ∀ c ∈ value.head?, ¬ isspace c) :
    (∀ i ∈ (splitLine line).touched, i ≤ (keyword ++ blank :: (spaces ++ value)).length) ∧
      (splitLine line).entry = some (keyword, value) := by
  simp only [List.mem_append, List.mem_cons, not_or] at plain
  simp only [List.length_append, List.length_cons] at short
  have p_eq : scan (fun c => !isspace c) line lineSize 0 = keyword.length := by
    rw [holds.scan_append (fun c member => by simp [dark c member]) (by simp [first]) (by omega),
      Nat.zero_add]
  obtain ⟨front, behind⟩ := holds.split
  rw [Nat.zero_add] at front behind
  have stops : isspace (value.getD 0 0) = false := by
    cases value with
    | nil => rfl
    | cons c value => simpa using starts c rfl
  have value_eq := behind.scan_append (n := lineSize - (keyword.length + 1)) blanks stops
    (by omega)
  have tail := behind.append
  have end_eq := tail.strlen (n := lineSize - (keyword.length + 1 + spaces.length)) plain.2.2.2
    (by omega)
  have keyword_eq := front.stringAt (n := lineSize) plain.1 (by omega)
  have value_read := tail.stringAt (n := lineSize - (keyword.length + 1 + spaces.length))
    plain.2.2.2 (by omega)
  simp only [splitLine, p_eq, value_eq, end_eq, keyword_eq, value_read, and_true]
  intro i member
  simp only [List.mem_append, List.mem_range, List.mem_range'_1, List.length_append,
    List.length_cons] at member ⊢
  omega

variable {text : CString}

/-- Without white space the scan passes the terminator and the one behind it. -/
theorem splitLine_unspaced {line : Buffer} (holds : Holds line 0 text)
    (behind : line (text.length + 1) = 0) (short : text.length + 2 ≤ lineSize)
    (dark : ∀ c ∈ text, isspace c = false) : text.length + 2 ∈ (splitLine line).touched := by
  have passed : text.length + 2 ≤ scan (fun c => !isspace c) line lineSize 0 := by
    refine le_scan (fun i _ high => ?_) (by omega)
    rcases Nat.lt_trichotomy i text.length with inside | rfl | beyond
    · have read := holds.getElem inside
      rw [Nat.zero_add] at read
      simp [read, dark _ (List.getElem_mem inside)]
    · have terminator := holds.end_zero
      rw [Nat.zero_add] at terminator
      simp [terminator, isspace]
    · obtain rfl : i = text.length + 1 := by omega
      simp [behind, isspace]
  simp only [splitLine, List.mem_append, List.mem_range]
  exact .inl (.inl (by omega))

theorem length_lineText (chunk : CString) : (lineText chunk).length ≤ chunk.length :=
  (List.takeWhile_prefix _).length_le

variable {chunk : CString}

theorem loadPass_empty {stale : Buffer} (empty : lineText chunk = []) :
    loadPass (fill stale chunk) = ⟨[0], none, fill stale chunk⟩ := by
  have holds := (fill_holds stale chunk).text
  have len := holds.strlen (n := lineSize) (lineText_plain chunk) (by
    have : (chunk.takeWhile (· ≠ 0)).length = 0 := by simpa [lineText] using empty
    rw [this]
    decide)
  have zero : (chunk.takeWhile (· ≠ 0)).length = 0 := by simpa [lineText] using empty
  rw [zero] at len
  rw [loadPass, len]
  rfl

/-- What a pass reads before it looks for the keyword. -/
def readFirst (text : CString) : List Nat := List.range (text.length + 2) ++ [text.length, 0]

variable {last : UInt8}

/-- The pass over a line from which the character `last` is removed. -/
theorem loadPass_line (stale : Buffer) (short : chunk.length ≤ 254)
    (parts : lineText chunk = text ++ [last]) :
    ∃ line, Holds line 0 text ∧ line (text.length + 1) = 0 ∧
      loadPass (fill stale chunk) =
        if isComment text then ⟨readFirst text, none, line⟩
        else { splitLine line with touched := readFirst text ++ (splitLine line).touched } := by
  have holds : Holds (fill stale chunk) 0 (text ++ [last]) := by
    rw [← parts]
    exact (fill_holds stale chunk).text
  have length := length_lineText chunk
  rw [parts, List.length_append, List.length_singleton] at length
  have len := holds.strlen (n := lineSize) (parts ▸ lineText_plain chunk) (by
    simp [lineSize]
    omega)
  obtain ⟨kept, _⟩ := holds.split
  have terminator := holds.end_zero
  simp only [List.length_append, List.length_singleton, Nat.zero_add] at len terminator kept
  refine ⟨_, kept, ?_, ?_⟩
  · rw [Function.update_of_ne (by omega), terminator]
  · have sign : ∀ c : UInt8, c ≠ 0 →
        (Function.update (fill stale chunk) text.length 0 0 = c ↔ text.head? = some c) := by
      intro c visible
      have first := kept 0 (Nat.zero_le _)
      rw [Nat.zero_add] at first
      rw [first]
      cases text with
      | nil => simpa using Ne.symm visible
      | cons d text => simp
    rw [loadPass, len]
    simp only [Nat.add_one_ne_zero, if_false, Nat.add_sub_cancel, sign 35 (by decide),
      sign 59 (by decide)]
    rfl

/-- White space splits a text into keyword, white space and value. -/
theorem spaced_parts (spaced : ∃ c ∈ text, isspace c) :
    ∃ keyword blank spaces value, text = keyword ++ blank :: (spaces ++ value) ∧
      (∀ c ∈ keyword, isspace c = false) ∧ isspace blank ∧ (∀ c ∈ spaces, isspace c) ∧
      (∀ c ∈ value.head?, ¬ isspace c) := by
  induction text with
  | nil => simp at spaced
  | cons c text ih =>
    by_cases space : isspace c
    · refine ⟨[], c, text.takeWhile isspace, text.dropWhile isspace, ?_, by simp, space,
        fun d taken => List.mem_takeWhile_imp taken, ?_⟩
      · rw [List.takeWhile_append_dropWhile, List.nil_append]
      · intro d head
        have stopped := List.head?_dropWhile_not isspace text
        rw [Option.mem_def.mp head] at stopped
        simpa using stopped
    · have later : ∃ d ∈ text, isspace d := by simpa [space] using spaced
      obtain ⟨keyword, blank, spaces, value, rfl, dark, rest⟩ := ih later
      refine ⟨c :: keyword, blank, spaces, value, rfl, ?_, rest⟩
      simpa [space] using dark

theorem lineText_cases (chunk : CString) :
    lineText chunk = [] ∨ ∃ text last, lineText chunk = text ++ [last] ∧
      (lineText chunk).dropLast = text := by
  rcases List.eq_nil_or_concat' (lineText chunk) with empty | ⟨text, last, parts⟩
  · exact .inl empty
  · exact .inr ⟨text, last, parts, by rw [parts, List.dropLast_concat]⟩

theorem plain_of_parts (parts : lineText chunk = text ++ [last]) : 0 ∉ text := fun member =>
  lineText_plain chunk (parts ▸ List.mem_append_left _ member)

theorem staysInside_iff (short : chunk.length ≤ 254) : StaysInside chunk ↔ Stops chunk := by
  have fits : chunk.length < lineSize := Nat.lt_of_le_of_lt short (by decide)
  have length := length_lineText chunk
  rcases lineText_cases chunk with empty | ⟨text, last, parts, kept⟩
  · refine iff_of_true ⟨fits, fun stale i touched => ?_⟩ (.inl empty)
    rw [loadPass_empty empty] at touched
    simp at touched
    omega
  · have long : (lineText chunk).length = text.length + 1 := by rw [parts]; simp
    have reads : ∀ i ∈ readFirst text, i ≤ (lineText chunk).length := by
      intro i member
      simp only [readFirst, List.mem_append, List.mem_range, List.mem_cons, List.not_mem_nil,
        or_false] at member
      omega
    have notEmpty : lineText chunk ≠ [] := by rw [parts]; simp
    simp only [Stops, kept, notEmpty, false_or]
    constructor
    · rintro ⟨_, inside⟩
      obtain ⟨line, holds, behind, pass⟩ := loadPass_line (fun _ => 0) short parts
      by_contra unstopped
      simp only [not_or, not_exists, not_and] at unstopped
      have out := splitLine_unspaced holds behind
        (Nat.le_trans (by omega : text.length + 2 ≤ 255) (by decide))
        fun c member => by simpa using unstopped.2 c member
      have bound := inside (fun _ => 0) (text.length + 2) (by
        rw [pass, if_neg unstopped.1]
        exact List.mem_append_right _ out)
      omega
    · intro stop
      refine ⟨fits, fun stale i touched => ?_⟩
      obtain ⟨line, holds, _, pass⟩ := loadPass_line stale short parts
      rw [pass] at touched
      by_cases comment : isComment text
      · rw [if_pos comment] at touched
        exact reads i touched
      · rw [if_neg comment] at touched
        rcases List.mem_append.mp touched with first | later
        · exact reads i first
        · obtain ⟨keyword, blank, spaces, value, rfl, dark, space, blanks, starts⟩ :=
            spaced_parts (stop.resolve_left comment)
          have bound := (splitLine_spaced holds (plain_of_parts parts)
            (by simp only [lineSize]; omega) dark space blanks starts).1 i later
          omega

-- The chunks and the lines of a stream.

theorem readChunks_nil (fuel : Nat) : readChunks fuel [] = [] := by
  cases fuel <;> rfl

variable {stream : CString}

theorem readChunks_cons {fuel : Nat} (more : stream ≠ []) :
    readChunks (fuel + 1) stream =
      (takeLine 254 stream).1 :: readChunks fuel (takeLine 254 stream).2 := by
  simp [readChunks, fgets, more]

theorem rest_shorter (more : stream ≠ []) : (takeLine 254 stream).2.length < stream.length := by
  have whole := congrArg List.length (takeLine_consumes 254 stream)
  have some_room : 254 ≠ 0 := by decide
  have first := List.length_pos_of_ne_nil (takeLine_ne_nil some_room more)
  rw [List.length_append] at whole
  omega

theorem readChunks_enough {fuel fuel' : Nat} (enough : stream.length ≤ fuel)
    (enough' : stream.length ≤ fuel') : readChunks fuel stream = readChunks fuel' stream := by
  induction fuel generalizing fuel' stream with
  | zero =>
    obtain rfl := List.length_eq_zero_iff.mp (Nat.le_zero.mp enough)
    rw [readChunks_nil, readChunks_nil]
  | succ fuel ih =>
    by_cases more : stream = []
    · rw [more, readChunks_nil, readChunks_nil]
    · have shorter := rest_shorter more
      obtain ⟨fuel', rfl⟩ := Nat.exists_eq_add_one_of_ne_zero (by omega : fuel' ≠ 0)
      have later : readChunks fuel (takeLine 254 stream).2 =
          readChunks fuel' (takeLine 254 stream).2 := ih (by omega) (by omega)
      rw [readChunks_cons more, readChunks_cons more, later]

theorem chunks_cons (more : stream ≠ []) :
    chunks stream = (takeLine 254 stream).1 :: chunks (takeLine 254 stream).2 := by
  have shorter := rest_shorter more
  rw [chunks, readChunks_enough (Nat.le_refl _) (Nat.le_succ _), readChunks_cons more, chunks]
  rw [readChunks_enough (Nat.le_of_lt shorter) (Nat.le_refl _)]

variable {line : CString}

theorem chunks_append {rest : CString} (ends : line = [] ∨ line.getLast? = some newline ∨ rest = []) :
    chunks (line ++ rest) = chunks line ++ chunks rest := by
  induction bound : line.length using Nat.strong_induction_on generalizing line with
  | _ n ih =>
    by_cases empty : line = []
    · rw [empty]
      rfl
    · have ends := ends.resolve_left empty
      have first := takeLine_append 254 ends
      have whole := takeLine_consumes 254 line
      have later : (takeLine 254 line).2 = [] ∨
          (takeLine 254 line).2.getLast? = some newline ∨ rest = [] := by
        rcases ends with ended | last
        · by_cases done : (takeLine 254 line).2 = []
          · exact .inl done
          · rw [← whole, List.getLast?_append_of_ne_nil _ done] at ended
            exact .inr (.inl ended)
        · exact .inr (.inr last)
      have shorter := rest_shorter empty
      rw [chunks_cons (by simp [empty]), chunks_cons empty, first, List.cons_append,
        ih _ (by omega) later rfl]

/-- A line of a stream: nothing but its last character is a newline. -/
structure IsLine (line : CString) : Prop where
  some_char : line ≠ []
  single : newline ∉ line.dropLast

theorem lines_cons (more : stream ≠ []) :
    ∃ line rest, stream = line ++ rest ∧ lines stream = line :: lines rest ∧ IsLine line ∧
      (line.getLast? = some newline ∨ rest = []) := by
  induction stream with
  | nil => exact absurd rfl more
  | cons c stream ih =>
    by_cases last : c = newline
    · exact ⟨[c], stream, rfl, by simp [lines, last], ⟨by simp, by simp⟩, .inl (by simp [last])⟩
    · by_cases final : stream = []
      · exact ⟨[c], [], by rw [final]; rfl, by simp [lines, last, final], ⟨by simp, by simp⟩,
          .inr rfl⟩
      · obtain ⟨line, rest, rfl, first, isLine, ends⟩ := ih final
        refine ⟨c :: line, rest, rfl, by simp [lines, last, first], ⟨by simp, ?_⟩, ?_⟩
        · rw [List.dropLast_cons_of_ne_nil isLine.some_char, List.mem_cons, not_or]
          exact ⟨Ne.symm last, isLine.single⟩
        · rwa [List.getLast?_cons_of_ne_nil isLine.some_char]

/-- The chunks of the lines, one line after the other, are those of the stream. -/
theorem chunks_eq_flatMap (stream : CString) : chunks stream = (lines stream).flatMap chunks := by
  induction bound : stream.length using Nat.strong_induction_on generalizing stream with
  | _ n ih =>
    by_cases more : stream = []
    · rw [more]
      rfl
    · obtain ⟨line, rest, rfl, first, isLine, ends⟩ := lines_cons more
      have shorter : rest.length < n := by
        have := List.length_pos_of_ne_nil isLine.some_char
        rw [← bound, List.length_append]
        omega
      rw [chunks_append (.inr ends), first, List.flatMap_cons, ih _ shorter rest rfl]

theorem isLine_of_mem (member : line ∈ lines stream) : IsLine line := by
  induction bound : stream.length using Nat.strong_induction_on generalizing stream with
  | _ n ih =>
    by_cases more : stream = []
    · rw [more] at member
      cases member
    · obtain ⟨first, rest, rfl, split, isLine, _⟩ := lines_cons more
      rw [split] at member
      rcases List.mem_cons.mp member with rfl | later
      · exact isLine
      · have := List.length_pos_of_ne_nil isLine.some_char
        refine ih _ ?_ later rfl
        rw [← bound, List.length_append]
        omega

theorem IsLine.chunks (isLine : IsLine line) (fits : line.length ≤ 254) : chunks line = [line] := by
  rw [chunks_cons isLine.some_char, takeLine_whole isLine.single fits]
  rfl

theorem chunk_short (member : chunk ∈ chunks stream) : chunk.length ≤ 254 := by
  induction bound : stream.length using Nat.strong_induction_on generalizing stream with
  | _ n ih =>
    by_cases more : stream = []
    · rw [more] at member
      cases member
    · rw [chunks_cons more] at member
      rcases List.mem_cons.mp member with rfl | later
      · exact (takeLine_spec 254 stream).2
      · exact ih _ (bound ▸ rest_shorter more) later rfl

theorem chunks_eq_lines_iff (stream : CString) :
    chunks stream = lines stream ↔ ∀ line ∈ lines stream, line.length ≤ 254 := by
  constructor
  · intro once line member
    exact chunk_short (once ▸ member)
  · intro fits
    rw [chunks_eq_flatMap, List.flatMap_congr fun line member =>
      (isLine_of_mem member).chunks (fits line member)]
    exact List.flatMap_singleton' _

-- What a line hands to the preferences.

theorem keyword_word (described : (findPrefsDesc keyword).isSome) :
    keyword ≠ [] ∧ ¬ isComment keyword ∧ ∀ c ∈ keyword, isspace c = false ∧ c ≠ 0 := by
  rw [findPrefsDesc_eq] at described
  obtain ⟨d, found⟩ := Option.isSome_iff_exists.mp described
  obtain rfl : d.name = keyword := by simpa using List.find?_some found
  obtain ⟨word, noHash, noSemicolon, _, _, chars⟩ :=
    prefsItems_keywords d (List.mem_of_find?_eq_some found)
  refine ⟨word, by simp [isComment, noHash, noSemicolon], ?_⟩
  simpa using List.all_eq_true.mp chars

theorem loadPass_entry {spaces value : CString} (stale : Buffer) (short : chunk.length ≤ 254)
    (parts : lineText chunk = keyword ++ spaces ++ value ++ [last])
    (described : (findPrefsDesc keyword).isSome) (some_space : spaces ≠ [])
    (blanks : ∀ c ∈ spaces, isspace c) (starts : ∀ c ∈ value.head?, ¬ isspace c) :
    (loadPass (fill stale chunk)).entry = some (keyword, value) := by
  obtain ⟨word, noComment, chars⟩ := keyword_word described
  obtain ⟨blank, spaces, rfl⟩ := List.exists_cons_of_ne_nil some_space
  rw [List.append_assoc keyword, List.cons_append] at parts
  obtain ⟨line, holds, _, pass⟩ := loadPass_line stale short parts
  have first : ¬ isComment (keyword ++ blank :: (spaces ++ value)) := by
    rwa [isComment, List.head?_append_of_ne_nil _ word]
  rw [pass, if_neg first]
  have length := length_lineText chunk
  rw [parts, List.length_append, List.length_singleton] at length
  refine (splitLine_spaced holds (plain_of_parts parts) (by simp only [lineSize]; omega)
    (fun c member => (chars c member).1) (blanks blank (by simp)) (fun c member => blanks c
    (by simp [member])) starts).2

theorem KeywordValue.lineText_eq {value : CString} (entry : KeywordValue line keyword value) :
    lineText line = line := by
  obtain ⟨spaces, _, blanks, parts⟩ := entry.parts
  have plain : 0 ∉ body line := by
    rw [parts]
    simp only [List.mem_append, not_or]
    refine ⟨⟨fun member => ?_, fun member => ?_⟩, entry.plain⟩
    · exact ((keyword_word entry.described).2.2 0 member).2 rfl
    · exact absurd (blanks 0 member) (by decide)
  refine List.takeWhile_eq_self_iff.mpr fun c member => ?_
  have visible : c ≠ 0 := by
    rintro rfl
    unfold body at plain
    split at plain
    next ended =>
      obtain ⟨front, rfl⟩ := List.getLast?_eq_some_iff.mp ended
      rw [List.dropLast_concat] at plain
      exact absurd (List.mem_append.mp member) (by simp [plain, newline])
    · exact plain member
  simpa using visible

/-- A line that fits and stops its pass hands over its value, unless the value ends it. -/
theorem complete_iff (fits : line.length ≤ 254) (isLine : IsLine line) (stops : Stops line) :
    (∀ keyword value, KeywordValue line keyword value →
        ∀ stale, handed stale (chunks line) = [(keyword, value)]) ↔
      (line.getLast? = some newline ∨
        ∀ keyword value, KeywordValue line keyword value → value = []) := by
  have single : ∀ stale entry, (loadPass (fill stale line)).entry = some entry →
      handed stale (chunks line) = [entry] := by
    intro stale entry found
    rw [isLine.chunks fits, handed, found]
    rfl
  constructor
  · intro complete
    by_contra unfinished
    simp only [not_or, not_forall] at unfinished
    obtain ⟨open_end, keyword, value, entry, some_value⟩ := unfinished
    obtain ⟨spaces, some_space, blanks, parts⟩ := entry.parts
    obtain ⟨front, last, rfl⟩ := List.eq_nil_or_concat' value |>.resolve_left some_value
    rw [body, if_neg open_end, ← List.append_assoc, ← entry.lineText_eq] at parts
    have starts : ∀ c ∈ front.head?, ¬ isspace c := by
      intro c head
      refine entry.starts c ?_
      rwa [List.head?_append_of_ne_nil]
      rintro rfl
      cases head
    -- The last character of the value is taken for the newline.
    have short := loadPass_entry (fun _ => 0) fits parts entry.described some_space blanks starts
    have whole := complete keyword _ entry (fun _ => 0)
    rw [single _ _ short] at whole
    simp at whole
  · rintro ends keyword value entry stale
    refine single stale _ ?_
    obtain ⟨spaces, some_space, blanks, parts⟩ := entry.parts
    by_cases ended : line.getLast? = some newline
    · obtain ⟨front, rfl⟩ := List.getLast?_eq_some_iff.mp ended
      rw [body, if_pos ended, List.dropLast_concat] at parts
      have text : lineText (front ++ [newline]) = keyword ++ spaces ++ value ++ [newline] := by
        rw [entry.lineText_eq, parts]
      exact loadPass_entry stale fits text entry.described some_space blanks entry.starts
    · obtain rfl := ends.resolve_left ended keyword value entry
      rw [body, if_neg ended, List.append_nil] at parts
      obtain ⟨front, last, rfl⟩ := List.eq_nil_or_concat' spaces |>.resolve_left some_space
      rw [← List.append_assoc, ← entry.lineText_eq] at parts
      obtain ⟨word, noComment, chars⟩ := keyword_word entry.described
      have more : front ≠ [] := by
        rintro rfl
        rw [List.append_nil] at parts
        simp only [Stops, parts, List.dropLast_concat, noComment, false_or] at stops
        rcases stops with empty | ⟨c, member, space⟩
        · simp at empty
        · rw [(chars c member).1] at space
          cases space
      have text : lineText line = keyword ++ front ++ [] ++ [last] := by simpa using parts
      exact loadPass_entry stale fits text entry.described more
        (fun c member => blanks c (by simp [member])) (by simp)

/-- The parser does what it should on a stream exactly when every line is well formed. -/
theorem reads_well_iff (stream : CString) :
    ReadsWell stream ↔ ∀ line ∈ lines stream, WellFormedLine line := by
  constructor
  · intro well line member
    have fits := (chunks_eq_lines_iff stream).mp well.once line member
    have stops := (staysInside_iff fits).mp (well.inside line (well.once ▸ member))
    exact ⟨fits, stops,
      (complete_iff fits (isLine_of_mem member) stops).mp (well.complete line member)⟩
  · intro good
    have once := (chunks_eq_lines_iff stream).mpr fun line member => (good line member).fits
    refine ⟨once, fun chunk member => ?_, fun line member => ?_⟩
    · have line := good chunk (once ▸ member)
      exact (staysInside_iff line.fits).mpr line.stops
    · have line_good := good line member
      exact (complete_iff line_good.fits (isLine_of_mem member) line_good.stops).mpr line_good.ends

/-- An empty line. -/
theorem blank_line_overrun : ¬ ∀ stream, ReadsWell stream := by
  intro claim
  have inside := (claim [newline]).inside [newline] (by decide)
  have stops : Stops [newline] := (staysInside_iff (by decide)).mp inside
  simp [Stops, lineText, newline, isComment] at stops

-- The passes against `loadLine`.

/-- A pass that stays inside does what `loadLine` says. -/
theorem loadLine_eq (stale : Buffer) (short : chunk.length ≤ 254) (inside : StaysInside chunk) :
    loadLine chunk = some ((loadPass (fill stale chunk)).entry.bind entryCall) := by
  have stop := (staysInside_iff short).mp inside
  rcases lineText_cases chunk with empty | ⟨text, last, parts, kept⟩
  · have text_eq : chunk.takeWhile (· ≠ 0) = [] := empty
    rw [loadPass_empty empty]
    simp only [loadLine, text_eq]
    rfl
  · have text_eq : chunk.takeWhile (· ≠ 0) = text ++ [last] := parts
    have notEmpty : text ++ [last] ≠ [] := by simp
    obtain ⟨line, holds, _, pass⟩ := loadPass_line stale short parts
    simp only [loadLine, text_eq, if_neg notEmpty, List.dropLast_concat, pass]
    by_cases comment : isComment text
    · have sign : text.head? = some 35 ∨ text.head? = some 59 := comment
      rw [if_pos comment, if_pos sign]
      rfl
    · have noSign : ¬ (text.head? = some 35 ∨ text.head? = some 59) := comment
      rw [if_neg comment, if_neg noSign]
      have length := length_lineText chunk
      rw [parts, List.length_append, List.length_singleton] at length
      simp only [Stops, parts, notEmpty, List.dropLast_concat, comment, false_or] at stop
      obtain ⟨keyword, blank, spaces, value, rfl, dark, space, blanks, starts⟩ := spaced_parts stop
      have entry := (splitLine_spaced holds (plain_of_parts parts)
        (by simp only [lineSize]; omega) dark space blanks starts).2
      have word : (keyword ++ blank :: (spaces ++ value)).takeWhile (fun c => !isspace c) =
          keyword := by
        rw [List.takeWhile_append_of_pos fun c member => by simp [dark c member]]
        simp [space]
      have behind : (keyword ++ blank :: (spaces ++ value)).drop (keyword.length + 1) =
          spaces ++ value := by
        rw [List.drop_length_add_append]
        rfl
      have skipped : (spaces ++ value).dropWhile isspace = value := by
        rw [List.dropWhile_append_of_pos blanks]
        cases value with
        | nil => rfl
        | cons c value => exact List.dropWhile_cons_of_neg (starts c rfl)
      have spaced : (keyword ++ blank :: (spaces ++ value)).all (fun c => !isspace c) = false := by
        simp [space]
      simp only [spaced, Bool.false_eq_true, if_false, word, behind, skipped, entry,
        Option.bind_some, entryCall]
      cases findPrefsDesc keyword <;> rfl

/-- The store holds what the passes hand over. -/
theorem loadPrefsFromStream_eq (stale : Buffer) {stream : CString}
    (inside : ∀ chunk ∈ chunks stream, StaysInside chunk) (st : Store) :
    loadPrefsFromStream stream st =
      some (((handed stale (chunks stream)).filterMap entryCall).foldl
        (fun st c => (call st c).1) st) := by
  have short : ∀ chunk ∈ chunks stream, chunk.length ≤ 254 := fun chunk => chunk_short
  unfold loadPrefsFromStream
  unfold chunks at inside short ⊢
  generalize stream.length = fuel at inside short ⊢
  induction fuel generalizing stream stale st with
  | zero => rfl
  | succ fuel ih =>
    by_cases more : stream = []
    · simp [more, loadLines, fgets, readChunks, handed]
    · rw [readChunks_cons more] at inside short ⊢
      have first := loadLine_eq stale (short _ (List.mem_cons_self ..))
        (inside _ (List.mem_cons_self ..))
      have later (stale : Buffer) (st : Store) := ih stale st
        (fun chunk member => inside chunk (List.mem_cons_of_mem _ member))
        fun chunk member => short chunk (List.mem_cons_of_mem _ member)
      have got : fgets 255 stream = some (takeLine 254 stream) := by simp [fgets, more]
      simp only [loadLines, got, first, handed]
      generalize loadPass (fill stale (takeLine 254 stream).1) = pass
      cases pass.entry with
      | none => exact later pass.left st
      | some entry =>
        cases found : entryCall entry with
        | none => simpa [found] using later pass.left st
        | some c => simpa [found] using later pass.left (call st c).1

theorem loadPrefsFromStream_rom : loadPrefsFromStream (ascii "rom a\n") Store.empty =
    some (call Store.empty (.replaceString (ascii "rom") (ascii "a") 0)).1 := by
  have line : chunks (ascii "rom a\n") = [ascii "rom a\n"] := by decide
  have stops : Stops (ascii "rom a\n") := .inr (.inr ⟨32, by decide, by decide⟩)
  have inside : ∀ chunk ∈ chunks (ascii "rom a\n"), StaysInside chunk := by
    rw [line]
    intro chunk member
    rw [List.mem_singleton.mp member]
    exact (staysInside_iff (by decide)).mpr stops
  have entry : handed (fun _ => 0) (chunks (ascii "rom a\n")) = [(ascii "rom", ascii "a")] := by
    decide +kernel
  rw [loadPrefsFromStream_eq (fun _ => 0) inside, entry]
  rfl

end BasiliskII.Prefs
