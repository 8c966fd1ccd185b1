import Mathlib.Data.List.Basic
import Mathlib.Data.List.TakeWhile
import Mathlib.Data.Nat.Basic

/-! C strings, as the bytes before the terminating zero. -/
namespace BasiliskII

/-- `strcmp(a, b) == 0` is equality of these lists. -/
abbrev CString := List UInt8

end BasiliskII

/-!
# The C library functions on text

`isspace`, `fgets`, `atol` and the `%d` of `fprintf`, in the C locale and with
a 32-bit `long`.
-/
namespace BasiliskII

/-- The bytes of a string literal. -/
def ascii (s : String) : CString := s.toList.map fun c => c.toNat.toUInt8

/-- Space, tab, line feed, vertical tab, form feed and carriage return. -/
def isspace (c : UInt8) : Bool := c = 32 || 9 ≤ c && c ≤ 13

def newline : UInt8 := 10

/-- The characters `fgets` stores when it has room for `room` of them, and what it leaves. -/
def takeLine : Nat → CString → CString × CString
  | 0, stream => ([], stream)
  | _ + 1, [] => ([], [])
  | room + 1, c :: stream =>
    if c = newline then ([c], stream)
    else
      let (line, rest) := takeLine room stream
      (c :: line, rest)

/-- `fgets(line, size, f)`; null at the end of the stream. -/
def fgets (size : Nat) (stream : CString) : Option (CString × CString) :=
  if stream = [] then none else some (takeLine (size - 1) stream)

def isdigit (c : UInt8) : Bool := 48 ≤ c && c ≤ 57

def decimalDigit (c : Char) : UInt8 := c.toNat.toUInt8

/-- `%d`. -/
def formatInt (i : Int) : CString :=
  let digits := (Nat.toDigits 10 i.natAbs).map decimalDigit
  if i < 0 then 45 :: digits else digits

/-- The number the leading digits stand for. -/
def leadingNumber (s : CString) : Nat :=
  (s.takeWhile isdigit).foldl (fun n c => 10 * n + (c.toNat - 48)) 0

/-- What `strtol` gives back: a number out of range becomes the nearest `long`. -/
def clampLong (i : Int) : Int := max (-2147483648) (min 2147483647 i)

def atol (s : CString) : Int :=
  match s.dropWhile isspace with
  | 45 :: digits => clampLong (-(leadingNumber digits : Int))
  | 43 :: digits => clampLong (leadingNumber digits)
  | digits => clampLong (leadingNumber digits)

theorem takeLine_line {line : CString} (rest : CString) (plain : newline ∉ line) {room : Nat}
    (fits : line.length < room) :
    takeLine room (line ++ newline :: rest) = (line ++ [newline], rest) := by
  induction line generalizing room with
  | nil =>
    cases room with
    | zero => omega
    | succ room => simp [takeLine]
  | cons c line ih =>
    cases room with
    | zero => simp at fits
    | succ room =>
      have other : c ≠ newline := fun same => plain (by simp [same])
      have later := ih (fun member => plain (by simp [member])) (Nat.lt_of_succ_lt_succ fits)
      simp [takeLine, other, later]

/-- Nothing is lost or read twice. -/
theorem takeLine_consumes (room : Nat) (stream : CString) :
    (takeLine room stream).1 ++ (takeLine room stream).2 = stream := by
  induction room generalizing stream with
  | zero => rfl
  | succ room ih =>
    cases stream with
    | nil => rfl
    | cons c stream =>
      by_cases last : c = newline
      · simp [takeLine, last]
      · simp [takeLine, last, ih]

/-- Reading stops at the end of a line, whatever follows. -/
theorem takeLine_append (room : Nat) {line rest : CString}
    (ends : line.getLast? = some newline ∨ rest = []) :
    takeLine room (line ++ rest) = ((takeLine room line).1, (takeLine room line).2 ++ rest) := by
  induction room generalizing line with
  | zero => rfl
  | succ room ih =>
    cases line with
    | nil =>
      obtain rfl : rest = [] := by simpa using ends
      rfl
    | cons c line =>
      by_cases last : c = newline
      · simp [takeLine, last]
      · have later : line.getLast? = some newline ∨ rest = [] := by
          cases line with
          | nil => exact .inr (by simpa [last] using ends)
          | cons d line => simpa using ends
        simp [takeLine, last, ih later]

theorem takeLine_whole {room : Nat} {line : CString} (plain : newline ∉ line.dropLast)
    (fits : line.length ≤ room) : takeLine room line = (line, []) := by
  induction room generalizing line with
  | zero =>
    obtain rfl := List.length_eq_zero_iff.mp (Nat.le_zero.mp fits)
    rfl
  | succ room ih =>
    match line with
    | [] => rfl
    | [c] => by_cases last : c = newline <;> cases room <;> simp [takeLine, last]
    | c :: d :: line =>
      rw [List.dropLast_cons_of_ne_nil (List.cons_ne_nil _ _), List.mem_cons, not_or] at plain
      have later := ih plain.2 (Nat.le_of_succ_le_succ fits)
      simp [takeLine, Ne.symm plain.1, later]

theorem takeLine_ne_nil {room : Nat} {stream : CString} (some_room : room ≠ 0)
    (more : stream ≠ []) : (takeLine room stream).1 ≠ [] := by
  obtain ⟨room, rfl⟩ := Nat.exists_eq_succ_of_ne_zero some_room
  cases stream with
  | nil => exact absurd rfl more
  | cons c stream =>
    by_cases last : c = newline
    · simp [takeLine, last]
    · simp [takeLine, last]

/-- What is read has a newline at its end only, and no more characters than there is room. -/
theorem takeLine_spec (room : Nat) (stream : CString) :
    newline ∉ (takeLine room stream).1.dropLast ∧ (takeLine room stream).1.length ≤ room := by
  induction room generalizing stream with
  | zero => simp [takeLine]
  | succ room ih =>
    cases stream with
    | nil => simp [takeLine]
    | cons c stream =>
      by_cases last : c = newline
      · simp [takeLine, last]
      · obtain ⟨plain, short⟩ := ih stream
        simp only [takeLine, if_neg last, List.length_cons]
        refine ⟨?_, by omega⟩
        cases line : (takeLine room stream).1 with
        | nil => simp
        | cons d line =>
          rw [line] at plain
          simpa [Ne.symm last] using plain

section Decimal

theorem digit_range {c : Char} (digit : c.isDigit) : 48 ≤ c.toNat ∧ c.toNat ≤ 57 := by
  simpa [Char.isDigit, UInt32.le_iff_toNat_le] using digit

theorem decimalDigit_toNat {c : Char} (digit : c.isDigit) :
    (decimalDigit c).toNat = c.toNat := by
  have range := digit_range digit
  simp only [decimalDigit, Nat.toUInt8_eq, UInt8.toNat_ofNat']
  omega

theorem isdigit_iff (c : UInt8) : isdigit c ↔ 48 ≤ c.toNat ∧ c.toNat ≤ 57 := by
  simp [isdigit, UInt8.le_iff_toNat_le]

theorem isspace_iff (c : UInt8) :
    isspace c ↔ c.toNat = 32 ∨ 9 ≤ c.toNat ∧ c.toNat ≤ 13 := by
  simp [isspace, UInt8.le_iff_toNat_le, ← UInt8.toNat_inj]

/-- The digits `%d` prints. -/
def printed (n : Nat) : CString := (Nat.toDigits 10 n).map decimalDigit

theorem isdigit_of_mem_printed {n : Nat} {c : UInt8} (member : c ∈ printed n) : isdigit c := by
  obtain ⟨d, original, rfl⟩ := List.mem_map.mp member
  have digit : d.isDigit := Nat.isDigit_of_mem_toDigits (by decide) (by decide) original
  rw [isdigit_iff, decimalDigit_toNat digit]
  exact digit_range digit

theorem printed_ne_nil (n : Nat) : printed n ≠ [] := by
  simp [printed, Nat.toDigits_ne_nil]

theorem leadingNumber_printed (n : Nat) : leadingNumber (printed n) = n := by
  have all : (printed n).takeWhile isdigit = printed n :=
    List.takeWhile_eq_self_iff.mpr fun c member => isdigit_of_mem_printed member
  have digits : ∀ cs : List Char, (∀ c ∈ cs, c.isDigit) → ∀ m,
      (cs.map decimalDigit).foldl (fun n c => 10 * n + (c.toNat - 48)) m =
        Nat.ofDigitChars 10 cs m := by
    intro cs digits
    induction cs with
    | nil => intro m; simp
    | cons c cs ih =>
      intro m
      have digit : c.isDigit := digits c (by simp)
      rw [List.map_cons, List.foldl_cons, decimalDigit_toNat digit,
        ih fun d member => digits d (by simp [member]), Nat.ofDigitChars_cons]
      rfl
  unfold leadingNumber
  rw [all, printed, digits _ fun c member =>
    Nat.isDigit_of_mem_toDigits (by decide) (by decide) member]
  exact Nat.ofDigitChars_ten_toDigits

theorem formatInt_eq (i : Int) :
    formatInt i = if i < 0 then 45 :: printed i.natAbs else printed i.natAbs := rfl

theorem head_printed (n : Nat) : ∃ c cs, printed n = c :: cs ∧ isdigit c := by
  obtain ⟨c, cs, digits⟩ := List.exists_cons_of_ne_nil (printed_ne_nil n)
  have first : c ∈ printed n := by simp [digits]
  exact ⟨c, cs, digits, isdigit_of_mem_printed first⟩

theorem atol_formatInt {i : Int} (low : -2147483648 ≤ i) (high : i ≤ 2147483647) :
    atol (formatInt i) = i := by
  have inside : clampLong i = i := by
    unfold clampLong
    omega
  rw [formatInt_eq]
  split
  next negative =>
    have minus : -(i.natAbs : Int) = i := by omega
    have skipped : (45 :: printed i.natAbs).dropWhile isspace = 45 :: printed i.natAbs := rfl
    simp only [atol, skipped]
    rw [leadingNumber_printed, minus, inside]
  next positive =>
    obtain ⟨c, cs, digits, digit⟩ := head_printed i.natAbs
    have range := (isdigit_iff c).mp digit
    have noSpace : isspace c = false := by
      rw [Bool.eq_false_iff, ne_eq, isspace_iff]
      omega
    have skipped : (printed i.natAbs).dropWhile isspace = printed i.natAbs := by
      rw [digits, List.dropWhile_cons_of_neg (by simp [noSpace])]
    have noMinus : c ≠ 45 := by
      rintro rfl
      simp at range
    have noPlus : c ≠ 43 := by
      rintro rfl
      simp at range
    rw [atol, skipped, digits]
    split
    next same => exact absurd (List.cons.inj same).1 noMinus
    next same => exact absurd (List.cons.inj same).1 noPlus
    · rw [← digits, leadingNumber_printed]
      have value : (i.natAbs : Int) = i := by omega
      rw [value, inside]

theorem length_formatInt {i : Int} (low : -2147483648 ≤ i) (high : i ≤ 2147483647) :
    (formatInt i).length ≤ 11 := by
  have digits : (printed i.natAbs).length ≤ 10 := by
    rw [printed, List.length_map]
    exact (Nat.length_toDigits_le_iff (by decide) (by decide)).mpr (by omega)
  rw [formatInt_eq]
  split
  · exact Nat.succ_le_succ digits
  · exact digits.trans (by decide)

theorem formatInt_chars {i : Int} {c : UInt8} (member : c ∈ formatInt i) :
    c = 45 ∨ isdigit c := by
  rw [formatInt_eq] at member
  split at member
  · exact (List.mem_cons.mp member).imp_right isdigit_of_mem_printed
  · exact .inr (isdigit_of_mem_printed member)

end Decimal

end BasiliskII
