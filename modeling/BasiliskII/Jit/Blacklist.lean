import BasiliskII.Stdio
import Mathlib.Data.List.Forall2
import Mathlib.Data.Nat.Bitwise
import Mathlib.Logic.Function.Basic
import Mathlib.Tactic.IntervalCases

/-!
# The blacklist of the JIT compiler

`merge_blacklist` of compemu_support.cpp takes opcodes out of the tables of compiled handlers. The
scanner of the source is compared with the grammar of a blacklist: items of one opcode or a range
of opcodes, with a separator between them or behind them.
-/
namespace BasiliskII.Jit

/-! ### The scanner -/

/-- A C string cannot have its terminating zero in it. -/
structure PrefsString where
  bytes : CString
  zeroFree : 0 ∉ bytes

/-- `compfunctbl` and `nfcompfunctbl`; a NULL handler is `none`. -/
structure CompTables (H : Type*) where
  compfunctbl : Nat → Option H
  nfcompfunctbl : Nat → Option H

variable {H : Type*} (unswapped : Bool)

/-- `cft_map`, with `HAVE_GET_WORD_UNSWAPPED` and without. -/
def cftMap (f : Nat) : Nat :=
  if unswapped then ((f >>> 8) &&& 255) ||| ((f &&& 255) <<< 8) else f

def CompTables.resetCompop (t : CompTables H) (opcode : Nat) : CompTables H where
  compfunctbl := Function.update t.compfunctbl opcode none
  nfcompfunctbl := Function.update t.nfcompfunctbl opcode none

/-- `for (int opcode = opcode1; opcode <= opcode2; opcode++) reset_compop(cft_map(opcode));` -/
def CompTables.resetRange (t : CompTables H) (range : Nat × Nat) : CompTables H :=
  (List.range' range.1 (range.2 + 1 - range.1)).foldl
    (fun t opcode => t.resetCompop (cftMap unswapped opcode)) t

/-- `*p`, which may be the terminating zero; `none` is a read behind it. -/
def byteAt (s : CString) (p : Nat) : Option UInt8 := (s ++ [0])[p]?

def hexDigit (op : UInt8) : Option Nat :=
  if 48 ≤ op ∧ op ≤ 57 then some (op.toNat - 48)
  else if 97 ≤ op ∧ op ≤ 102 then some (op.toNat - 97 + 10)
  else if 65 ≤ op ∧ op ≤ 70 then some (op.toNat - 65 + 10)
  else none

/-- The loop of `read_opcode` with its rounds left; `some none` is -1. -/
def readDigits (s : CString) : Nat → Nat → Nat → Option (Option Nat)
  | 0, _, opcode => some (some opcode)
  | n + 1, p, opcode =>
    (byteAt s p).bind fun op =>
      match hexDigit op with
      | some digit => readDigits s n (p + 1) (opcode <<< 4 ||| digit)
      | none => some none

def readOpcode (s : CString) (p : Nat) : Option (Option Nat) := readDigits s 4 p 0

def dash : UInt8 := 45

def comma : UInt8 := 44

def semicolon : UInt8 := 59

/-- `opcode1`, `opcode2` and `p` behind them; `some none` where `merge_blacklist` returns false. -/
def readItem (s : CString) (p : Nat) : Option (Option ((Nat × Nat) × Nat)) :=
  (readOpcode s p).bind fun opcode1 =>
    match opcode1 with
    | none => some none
    | some opcode1 =>
      (byteAt s (p + 4)).bind fun c =>
        if c = dash then
          (readOpcode s (p + 5)).map fun opcode2 =>
            opcode2.map fun opcode2 => ((opcode1, opcode2), p + 9)
        else some (some ((opcode1, opcode1), p + 4))

/-- The loop of `merge_blacklist`, for at most so many items. -/
def mergeFrom (s : CString) : Nat → Nat → CompTables H → Option (Bool × CompTables H)
  | 0, _, _ => none
  | fuel + 1, p, t =>
    (byteAt s p).bind fun c =>
      if c = 0 then some (true, t)
      else
        (readItem s p).bind fun item =>
          match item with
          | none => some (false, t)
          | some (range, p) =>
            (byteAt s p).bind fun c =>
              if c = 0 ∨ c = comma ∨ c = semicolon then
                let t := t.resetRange unswapped range
                -- `*p == ',' || *p++ == ';'` leaves `p` at a comma.
                if c = comma then mergeFrom s fuel p t
                else if c = semicolon then mergeFrom s fuel (p + 1) t
                else some (true, t)
              else some (false, t)

/-- Without the preference there is nothing to do. Every item has a byte of the string. -/
def mergeBlacklist (blacklist : Option PrefsString) (t : CompTables H) :
    Option (Bool × CompTables H) :=
  match blacklist with
  | none => some (true, t)
  | some s => mergeFrom unswapped s.bytes (s.bytes.length + 1) 0 t

/-! ### The grammar -/

inductive HexDigit : UInt8 → Nat → Prop
  | decimal {d : Nat} : d < 10 → HexDigit (UInt8.ofNat (48 + d)) d
  | lower {d : Nat} : d < 6 → HexDigit (UInt8.ofNat (97 + d)) (10 + d)
  | upper {d : Nat} : d < 6 → HexDigit (UInt8.ofNat (65 + d)) (10 + d)

/-- The digits of a number, behind those that give `n`. -/
inductive Digits : Nat → CString → Nat → Prop
  | nil (n : Nat) : Digits n [] n
  | cons {n m d : Nat} {c : UInt8} {w : CString} :
      HexDigit c d → Digits (16 * n + d) w m → Digits n (c :: w) m

/-- Four hexadecimal digits. -/
def Number (w : CString) (n : Nat) : Prop := w.length = 4 ∧ Digits 0 w n

inductive Item : CString → Nat × Nat → Prop
  | one {w : CString} {n : Nat} : Number w n → Item w (n, n)
  | range {v w : CString} {m n : Nat} : Number v m → Number w n → Item (v ++ dash :: w) (m, n)

/-- Items, and a separator behind each of them but possibly the last. -/
inductive BlackList : CString → List (Nat × Nat) → Prop
  | empty : BlackList [] []
  | last {w : CString} {r : Nat × Nat} : Item w r → BlackList w [r]
  | more {w s : CString} {sep : UInt8} {r : Nat × Nat} {rs : List (Nat × Nat)} :
      Item w r → sep = comma ∨ sep = semicolon → BlackList s rs → BlackList (w ++ sep :: s) (r :: rs)

/-- In the union of the ranges. -/
def InRanges (rs : List (Nat × Nat)) (opcode : Nat) : Prop :=
  ∃ r ∈ rs, r.1 ≤ opcode ∧ opcode ≤ r.2

instance (rs : List (Nat × Nat)) (opcode : Nat) : Decidable (InRanges rs opcode) :=
  inferInstanceAs (Decidable (∃ r ∈ rs, _))

/-- The tables have lost exactly the listed opcodes. -/
def CompTables.Without (t' t : CompTables H) (rs : List (Nat × Nat)) : Prop :=
  ∀ opcode < 65536,
    t'.compfunctbl (cftMap unswapped opcode) =
        (if InRanges rs opcode then none else t.compfunctbl (cftMap unswapped opcode)) ∧
      t'.nfcompfunctbl (cftMap unswapped opcode) =
        (if InRanges rs opcode then none else t.nfcompfunctbl (cftMap unswapped opcode))

variable (H) in
/-- It ends without a read outside the string, and accepts the grammar, whose opcodes are then
cleared. -/
def MergedRight (s : PrefsString) : Prop :=
  ∀ t : CompTables H, ∃ accepted t',
    mergeBlacklist unswapped (some s) t = some (accepted, t') ∧
      (accepted = true ↔ ∃ rs, BlackList s.bytes rs) ∧
      ∀ rs, BlackList s.bytes rs → accepted = true → t'.Without unswapped t rs

/-! ### Reading on behind a prefix -/

theorem byteAt_append (v w : CString) (i : Nat) : byteAt (v ++ w) (v.length + i) = byteAt w i := by
  rw [byteAt, List.append_assoc, List.getElem?_append_right (Nat.le_add_right _ _),
    Nat.add_sub_cancel_left, byteAt]

theorem readDigits_append (v w : CString) (n p opcode : Nat) :
    readDigits (v ++ w) n (v.length + p) opcode = readDigits w n p opcode := by
  induction n generalizing p opcode with
  | zero => rfl
  | succ n ih =>
    simp only [readDigits, byteAt_append, Nat.add_assoc, ih]

theorem readItem_append (v w : CString) (p : Nat) :
    readItem (v ++ w) (v.length + p) =
      (readItem w p).map (Option.map fun item => (item.1, v.length + item.2)) := by
  have behind : ∀ k, v.length + p + k = v.length + (p + k) := fun k => Nat.add_assoc ..
  simp only [readItem, readOpcode, behind, readDigits_append, byteAt_append]
  cases readDigits w 4 p 0 with
  | none => rfl
  | some opcode1 =>
    cases opcode1 with
    | none => rfl
    | some opcode1 =>
      cases byteAt w (p + 4) with
      | none => rfl
      | some c =>
        by_cases range : c = dash
        · simp only [range, Option.bind_some, ↓reduceIte]
          cases readDigits w 4 (p + 5) 0 with
          | none => rfl
          | some opcode2 => cases opcode2 <;> rfl
        · simp [range]

/-- The pointer moves along the string; what is before it does not matter. -/
theorem mergeFrom_append (v w : CString) (fuel p : Nat) (t : CompTables H) :
    mergeFrom unswapped (v ++ w) fuel (v.length + p) t = mergeFrom unswapped w fuel p t := by
  induction fuel generalizing p t with
  | zero => rfl
  | succ fuel ih =>
    simp only [mergeFrom, byteAt_append, readItem_append]
    cases byteAt w p with
    | none => rfl
    | some c =>
      cases readItem w p with
      | none => rfl
      | some item =>
        cases item with
        | none => rfl
        | some item => simp only [Option.bind_some, Option.map_some, byteAt_append, Nat.add_assoc, ih]

/-! ### Numbers and items -/

theorem hexDigit_iff (c : UInt8) (d : Nat) : hexDigit c = some d ↔ HexDigit c d := by
  constructor
  · intro digit
    have self : ∀ k ≤ c.toNat, UInt8.ofNat (k + (c.toNat - k)) = c := by
      intro k below
      rw [Nat.add_sub_cancel' below, UInt8.ofNat_toNat]
    simp only [hexDigit, UInt8.le_iff_toNat_le] at digit
    split at digit
    next range =>
      cases digit
      have small : c.toNat - 48 < 10 := by
        have : c.toNat ≤ 57 := range.2
        omega
      simpa only [self 48 range.1] using HexDigit.decimal small
    · split at digit
      next range =>
        cases digit
        have small : c.toNat - 97 < 6 := by
          have : c.toNat ≤ 102 := range.2
          omega
        simpa only [self 97 range.1, Nat.add_comm 10] using HexDigit.lower small
      · split at digit
        next range =>
          cases digit
          have small : c.toNat - 65 < 6 := by
            have : c.toNat ≤ 70 := range.2
            omega
          simpa only [self 65 range.1, Nat.add_comm 10] using HexDigit.upper small
        · cases digit
  · intro digit
    cases digit with
    | decimal small => interval_cases d <;> rfl
    | @lower d small | @upper d small => interval_cases d <;> rfl

theorem HexDigit.lt {c : UInt8} {d : Nat} (digit : HexDigit c d) : d < 16 := by
  cases digit <;> omega

theorem readDigits_iff (w : CString) (n opcode m : Nat) :
    readDigits w n 0 opcode = some (some m) ↔
      ∃ v u, w = v ++ u ∧ v.length = n ∧ Digits opcode v m := by
  induction n generalizing w opcode with
  | zero =>
    constructor
    · intro read
      cases read
      exact ⟨[], w, rfl, rfl, .nil m⟩
    · rintro ⟨v, u, -, none_left, digits⟩
      cases List.length_eq_zero_iff.mp none_left
      cases digits
      rfl
  | succ n ih =>
    cases w with
    | nil =>
      -- The terminating zero is no digit.
      constructor
      · intro read
        cases read
      · rintro ⟨v, u, whole, some_left, -⟩
        cases (List.append_eq_nil_iff.mp whole.symm).1
        cases some_left
    | cons c w =>
      have first : byteAt (c :: w) 0 = some c := rfl
      have behind := readDigits_append [c] w n 0
      simp only [List.length_singleton, Nat.add_zero, List.singleton_append] at behind
      simp only [readDigits, first, Option.bind_some, Nat.zero_add]
      cases found : hexDigit c with
      | none =>
        constructor
        · intro read
          cases read
        · rintro ⟨v, u, whole, some_left, digits⟩
          cases digits with
          | nil => cases some_left
          | cons digit _ =>
            obtain ⟨rfl, -⟩ := List.cons_eq_cons.mp whole
            rw [(hexDigit_iff _ _).mpr digit] at found
            cases found
      | some d =>
        have digit : HexDigit c d := (hexDigit_iff c d).mp found
        have shifted : opcode <<< 4 ||| d = 16 * opcode + d := by
          rw [Nat.shiftLeft_eq, Nat.mul_comm, ← Nat.two_pow_add_eq_or_of_lt (i := 4) digit.lt]
        simp only [behind, shifted, ih]
        constructor
        · rintro ⟨v, u, rfl, rfl, digits⟩
          exact ⟨c :: v, u, rfl, rfl, .cons digit digits⟩
        · rintro ⟨v, u, whole, some_left, digits⟩
          cases digits with
          | nil => cases some_left
          | @cons _ _ d' _ v digit' digits =>
            obtain ⟨rfl, rfl⟩ := List.cons_eq_cons.mp whole
            rw [(hexDigit_iff _ _).mpr digit'] at found
            cases found
            exact ⟨v, u, rfl, Nat.succ_injective some_left, digits⟩

theorem readDigits_inside (w : CString) (n opcode : Nat) :
    ∃ read, readDigits w n 0 opcode = some read := by
  induction n generalizing w opcode with
  | zero => exact ⟨_, rfl⟩
  | succ n ih =>
    cases w with
    | nil => exact ⟨none, rfl⟩
    | cons c w =>
      have behind := readDigits_append [c] w n 0
      simp only [List.length_singleton, Nat.add_zero, List.singleton_append] at behind
      have first : byteAt (c :: w) 0 = some c := rfl
      simp only [readDigits, first, Option.bind_some, Nat.zero_add]
      cases hexDigit c with
      | none => exact ⟨none, rfl⟩
      | some d =>
        simp only [behind]
        exact ih w _

theorem readOpcode_iff (w : CString) (m : Nat) :
    readOpcode w 0 = some (some m) ↔ ∃ v u, w = v ++ u ∧ Number v m := by
  simp only [readOpcode, readDigits_iff, Number]

theorem readOpcode_inside (w : CString) : ∃ read, readOpcode w 0 = some read :=
  readDigits_inside w 4 0

/-- A number is followed by a byte of the string or by its terminator. -/
theorem byteAt_inside (v u : CString) : byteAt (v ++ u) v.length = some (u.headD 0) := by
  rw [← Nat.add_zero v.length, byteAt_append]
  cases u <;> rfl

variable {v : CString}

theorem Number.byteAt_behind {m : Nat} (number : Number v m) (u : CString) :
    byteAt (v ++ u) (0 + 4) = some (u.headD 0) := by
  have four : 0 + 4 = v.length := number.1.symm
  rw [four, byteAt_inside]

theorem Number.readOpcode_behind {m : Nat} (number : Number v m) (c : UInt8) (u : CString) :
    readOpcode (v ++ c :: u) (0 + 5) = readOpcode u 0 := by
  have five : 0 + 5 = (v ++ [c]).length + 0 := by
    rw [List.length_append, number.1, List.length_singleton]
  rw [List.append_cons, readOpcode, five, readDigits_append, readOpcode]

variable {w : CString} {r : Nat × Nat}

theorem item_of_readItem {p : Nat} (read : readItem w 0 = some (some (r, p))) :
    ∃ v u, w = v ++ u ∧ v.length = p ∧ Item v r := by
  unfold readItem at read
  obtain ⟨opcode1, first, read⟩ := Option.bind_eq_some_iff.mp read
  cases opcode1 with
  | none => cases read
  | some m =>
    obtain ⟨v, u, rfl, number⟩ := (readOpcode_iff w m).mp first
    simp only [number.byteAt_behind, Option.bind_some] at read
    split at read
    next range =>
      cases u with
      | nil => cases range
      | cons c u =>
        obtain rfl : c = dash := range
        obtain ⟨opcode2, second, found⟩ := Option.map_eq_some_iff.mp read
        rw [number.readOpcode_behind] at second
        cases opcode2 with
        | none => cases found
        | some n =>
          cases found
          obtain ⟨w, u, rfl, number'⟩ := (readOpcode_iff u n).mp second
          refine ⟨v ++ dash :: w, u, by simp, ?_, .range number number'⟩
          simp [number.1, number'.1]
    · cases read
      exact ⟨v, u, rfl, number.1, .one number⟩

/-- An item of the grammar is read when what is behind it does not go on with a dash. -/
theorem readItem_of_item (item : Item v r) (u : CString) (ends : u.headD 0 ≠ dash) :
    readItem (v ++ u) 0 = some (some (r, v.length)) := by
  unfold readItem
  cases item with
  | @one v n number =>
    have read : readOpcode (v ++ u) 0 = some (some n) := (readOpcode_iff _ _).mpr ⟨v, u, rfl, number⟩
    rw [read]
    simp only [Option.bind_some, number.byteAt_behind, if_neg ends, number.1]
  | @range v w m n number number' =>
    have first : readOpcode (v ++ dash :: (w ++ u)) 0 = some (some m) :=
      (readOpcode_iff _ _).mpr ⟨v, dash :: (w ++ u), rfl, number⟩
    have second : readOpcode (w ++ u) 0 = some (some n) :=
      (readOpcode_iff _ _).mpr ⟨w, u, rfl, number'⟩
    have between : (dash :: (w ++ u)).headD 0 = dash := rfl
    rw [List.append_assoc, List.cons_append, first]
    simp only [Option.bind_some, number.byteAt_behind, between, ↓reduceIte,
      number.readOpcode_behind, second, Option.map_some]
    simp [number.1, number'.1]

theorem readItem_inside (w : CString) : ∃ read, readItem w 0 = some read := by
  unfold readItem
  obtain ⟨opcode1, first⟩ := readOpcode_inside w
  rw [first]
  cases opcode1 with
  | none => exact ⟨none, rfl⟩
  | some m =>
    obtain ⟨v, u, rfl, number⟩ := (readOpcode_iff w m).mp first
    simp only [Option.bind_some, number.byteAt_behind]
    split
    next range =>
      cases u with
      | nil => cases range
      | cons c u =>
        obtain ⟨opcode2, second⟩ := readOpcode_inside u
        rw [number.readOpcode_behind, second]
        exact ⟨_, rfl⟩
    · exact ⟨_, rfl⟩

theorem Item.length_pos (item : Item v r) : 0 < v.length := by
  cases item with
  | one number => simp [number.1]
  | range number _ => simp [number.1]

/-! ### The list -/

/-- The round after an item, with the bytes behind it. -/
def afterItem (fuel : Nat) (r : Nat × Nat) (t : CompTables H) : CString → Option (Bool × CompTables H)
  | [] => some (true, t.resetRange unswapped r)
  | c :: u =>
    if c = comma then mergeFrom unswapped (c :: u) fuel 0 (t.resetRange unswapped r)
    else if c = semicolon then mergeFrom unswapped u fuel 0 (t.resetRange unswapped r)
    else some (false, t)

theorem mergeFrom_item {u : CString} (item : Item v r) (zeroFree : 0 ∉ v ++ u)
    (read : readItem (v ++ u) 0 = some (some (r, v.length))) (fuel : Nat) (t : CompTables H) :
    mergeFrom unswapped (v ++ u) (fuel + 1) 0 t = afterItem unswapped fuel r t u := by
  obtain ⟨c, v', rfl⟩ := List.exists_cons_of_length_pos item.length_pos
  have first : byteAt (c :: v' ++ u) 0 = some c := rfl
  have running : c ≠ 0 := fun zero => zeroFree (by simp [zero])
  rw [mergeFrom, first, Option.bind_some, if_neg running, read]
  cases u with
  | nil =>
    have behind : byteAt (c :: v' ++ []) (c :: v').length = some 0 := byteAt_inside _ _
    simp only [Option.bind_some, behind]
    rfl
  | cons d u =>
    have behind : byteAt (c :: v' ++ d :: u) (c :: v').length = some d := byteAt_inside _ _
    have inner : d ≠ 0 := fun zero => zeroFree (by simp [zero])
    have here := mergeFrom_append unswapped (c :: v') (d :: u) fuel 0 (t.resetRange unswapped r)
    have next := mergeFrom_append unswapped (c :: v' ++ [d]) u fuel 0 (t.resetRange unswapped r)
    rw [Nat.add_zero] at here
    rw [Nat.add_zero, ← List.append_cons, List.length_append, List.length_singleton] at next
    simp only [Option.bind_some, behind, inner, false_or, afterItem]
    by_cases atComma : d = comma
    · simp only [atComma, true_or, ↓reduceIte] at here ⊢
      exact here
    · by_cases atSemicolon : d = semicolon
      · have apart : semicolon ≠ comma := by decide
        simp only [atSemicolon, apart, or_true, ↓reduceIte] at next ⊢
        exact next
      · simp only [atComma, atSemicolon, or_self, ↓reduceIte]

theorem mergeFrom_none (some_left : w ≠ []) (zeroFree : 0 ∉ w) (read : readItem w 0 = some none)
    (fuel : Nat) (t : CompTables H) : mergeFrom unswapped w (fuel + 1) 0 t = some (false, t) := by
  cases w with
  | nil => exact absurd rfl some_left
  | cons c w =>
    have first : byteAt (c :: w) 0 = some c := rfl
    have running : c ≠ 0 := fun zero => zeroFree (by simp [zero])
    rw [mergeFrom, first, Option.bind_some, if_neg running, read, Option.bind_some]

/-- The list read to its end, in as many rounds as it has bytes and one more. -/
theorem mergeFrom_inside (zeroFree : 0 ∉ w) {fuel : Nat} (enough : w.length < fuel)
    (t : CompTables H) : ∃ result, mergeFrom unswapped w fuel 0 t = some result := by
  induction fuel generalizing w t with
  | zero => cases enough
  | succ fuel ih =>
    by_cases ended : w = []
    · subst ended
      exact ⟨(true, t), rfl⟩
    · obtain ⟨item, read⟩ := readItem_inside w
      cases item with
      | none => exact ⟨_, mergeFrom_none unswapped ended zeroFree read fuel t⟩
      | some item =>
        obtain ⟨r, p⟩ := item
        obtain ⟨v, u, rfl, rfl, item⟩ := item_of_readItem read
        rw [mergeFrom_item unswapped item zeroFree read]
        have progress := item.length_pos
        rw [List.length_append] at enough
        cases u with
        | nil => exact ⟨_, rfl⟩
        | cons d u =>
          rw [List.length_cons] at enough
          simp only [afterItem]
          split
          · refine ih (fun zero => zeroFree (List.mem_append_right v zero)) ?_ _
            rw [List.length_cons]
            omega
          · split
            · exact ih (fun zero => zeroFree (by simp [zero])) (by omega) _
            · exact ⟨_, rfl⟩

theorem HexDigit.ne_comma {c : UInt8} {d : Nat} (digit : HexDigit c d) : c ≠ comma := by
  rintro rfl
  rw [← hexDigit_iff] at digit
  cases digit

theorem Digits.comma_not_mem {n m : Nat} (digits : Digits n w m) : comma ∉ w := by
  induction digits with
  | nil => simp
  | cons digit _ ih => simp [ih, digit.ne_comma.symm]

theorem Item.comma_not_mem (item : Item w r) : comma ∉ w := by
  cases item with
  | one number => exact number.2.comma_not_mem
  | range number number' =>
    have apart : comma ≠ dash := by decide
    simp [number.2.comma_not_mem, number'.2.comma_not_mem, apart]

theorem blackList_of_accepted (zeroFree : 0 ∉ w) {fuel : Nat} {t t' : CompTables H}
    (accepted : mergeFrom unswapped w fuel 0 t = some (true, t')) :
    ∃ rs, BlackList w rs ∧ comma ∉ w := by
  induction fuel generalizing w t with
  | zero => cases accepted
  | succ fuel ih =>
    by_cases ended : w = []
    · subst ended
      exact ⟨[], .empty, by simp⟩
    · obtain ⟨item, read⟩ := readItem_inside w
      cases item with
      | none =>
        rw [mergeFrom_none unswapped ended zeroFree read] at accepted
        cases accepted
      | some item =>
        obtain ⟨r, p⟩ := item
        obtain ⟨v, u, rfl, rfl, item⟩ := item_of_readItem read
        rw [mergeFrom_item unswapped item zeroFree read] at accepted
        cases u with
        | nil => exact ⟨[r], by simpa using .last item, by simpa using item.comma_not_mem⟩
        | cons d u =>
          simp only [afterItem] at accepted
          split at accepted
          next atComma =>
            -- The next round finds the comma again.
            subst atComma
            cases fuel with
            | zero => cases accepted
            | succ fuel => cases accepted
          · split at accepted
            next atSemicolon =>
              obtain ⟨rs, list, commaFree⟩ := ih (fun zero => zeroFree (by simp [zero])) accepted
              have apart : comma ≠ semicolon := by decide
              refine ⟨r :: rs, .more item (.inr atSemicolon) list, ?_⟩
              simp [item.comma_not_mem, commaFree, atSemicolon, apart]
            · cases accepted

variable {rs : List (Nat × Nat)}

/-- Every blacklist without commas is accepted, and its ranges are reset one after the other. -/
theorem accepted_of_blackList (zeroFree : 0 ∉ w) (list : BlackList w rs) (commaFree : comma ∉ w)
    {fuel : Nat} (enough : w.length < fuel) (t : CompTables H) :
    mergeFrom unswapped w fuel 0 t = some (true, rs.foldl (CompTables.resetRange unswapped) t) := by
  induction list generalizing fuel t with
  | empty =>
    cases fuel with
    | zero => cases enough
    | succ fuel => rfl
  | @last w r item =>
    cases fuel with
    | zero => cases enough
    | succ fuel =>
      have read := readItem_of_item item [] (by decide)
      rw [← List.append_nil w] at zeroFree
      have round := mergeFrom_item unswapped item zeroFree read fuel t
      rwa [List.append_nil] at round
  | @more w s sep r rs item separator _ ih =>
    cases fuel with
    | zero => cases enough
    | succ fuel =>
      rcases separator with rfl | rfl
      · exact absurd (by simp) commaFree
      · have apart : semicolon ≠ dash := by decide
        have read := readItem_of_item item (semicolon :: s) apart
        have progress := item.length_pos
        rw [List.length_append, List.length_cons] at enough
        rw [mergeFrom_item unswapped item zeroFree read]
        exact ih (fun zero => zeroFree (by simp [zero])) (fun member => commaFree (by simp [member]))
          (by omega) _

/-! ### The opcodes -/

theorem Digits.lt {n m : Nat} (digits : Digits n w m) : m < 16 ^ w.length * (n + 1) := by
  induction digits with
  | nil n => simp
  | @cons n m d c w digit _ ih =>
    have small := digit.lt
    calc m < 16 ^ w.length * (16 * n + d + 1) := ih
      _ ≤ 16 ^ w.length * (16 * (n + 1)) := Nat.mul_le_mul_left _ (by omega)
      _ = 16 ^ (c :: w).length * (n + 1) := by rw [List.length_cons, Nat.pow_succ, Nat.mul_assoc]

theorem Number.lt {n : Nat} (number : Number w n) : n < 65536 := by
  have := number.2.lt
  rw [number.1] at this
  omega

theorem Item.lt (item : Item w r) : r.2 < 65536 := by
  cases item with
  | one number => exact number.lt
  | range _ number' => exact number'.lt

theorem BlackList.lt (list : BlackList w rs) : ∀ r ∈ rs, r.2 < 65536 := by
  induction list with
  | empty => simp
  | last item => simpa using item.lt
  | more item _ _ ih => simpa [item.lt] using ih

theorem cftMap_injOn {f g : Nat} (small : f < 65536) (small' : g < 65536)
    (same : cftMap unswapped f = cftMap unswapped g) : f = g := by
  cases unswapped with
  | false => exact same
  | true =>
    have parts : ∀ f, cftMap true f = 256 * (f % 256) + f / 256 % 256 := by
      intro f
      have low : ∀ n, n &&& 255 = n % 256 := fun n => Nat.and_two_pow_sub_one_eq_mod n 8
      have below : f / 256 % 256 < 2 ^ 8 := Nat.mod_lt _ (by decide)
      rw [cftMap, if_pos rfl, low, low, Nat.shiftRight_eq_div_pow, Nat.shiftLeft_eq, Nat.or_comm,
        Nat.mul_comm _ (2 ^ 8), Nat.two_pow_add_eq_or_of_lt below]
    rw [parts, parts] at same
    omega

theorem foldl_resetCompop (opcodes : List Nat) (t : CompTables H) (i : Nat) :
    let t' := opcodes.foldl (fun t opcode => t.resetCompop (cftMap unswapped opcode)) t
    t'.compfunctbl i =
        (if ∃ opcode ∈ opcodes, cftMap unswapped opcode = i then none else t.compfunctbl i) ∧
      t'.nfcompfunctbl i =
        (if ∃ opcode ∈ opcodes, cftMap unswapped opcode = i then none else t.nfcompfunctbl i) := by
  induction opcodes generalizing t with
  | nil => simp
  | cons opcode opcodes ih =>
    have rest := ih (t.resetCompop (cftMap unswapped opcode))
    simp only [List.foldl_cons, List.exists_mem_cons_iff]
    rw [rest.1, rest.2]
    by_cases here : cftMap unswapped opcode = i
    · simp [here, CompTables.resetCompop]
    · simp [here, CompTables.resetCompop, Function.update_of_ne (Ne.symm here)]

theorem resetRange_without (small : r.2 < 65536) (t : CompTables H) :
    (t.resetRange unswapped r).Without unswapped t [r] := by
  intro opcode below
  have same : (∃ o ∈ List.range' r.1 (r.2 + 1 - r.1), cftMap unswapped o = cftMap unswapped opcode) ↔
      InRanges [r] opcode := by
    simp only [List.mem_range'_1, InRanges, List.mem_singleton, exists_eq_left]
    constructor
    · rintro ⟨o, inside, equal⟩
      have := cftMap_injOn unswapped (by omega) below equal
      omega
    · intro inside
      exact ⟨opcode, by omega, rfl⟩
  have reset := foldl_resetCompop unswapped (List.range' r.1 (r.2 + 1 - r.1)) t
    (cftMap unswapped opcode)
  simp only [same] at reset
  exact reset

theorem CompTables.Without.trans {t t' t'' : CompTables H} {rs' : List (Nat × Nat)}
    (first : t'.Without unswapped t rs) (second : t''.Without unswapped t' rs') :
    t''.Without unswapped t (rs ++ rs') := by
  intro opcode below
  have listed : InRanges (rs ++ rs') opcode ↔ InRanges rs opcode ∨ InRanges rs' opcode := by
    simp only [InRanges, List.mem_append, or_and_right, exists_or]
  rw [(second opcode below).1, (second opcode below).2, (first opcode below).1,
    (first opcode below).2]
  by_cases early : InRanges rs opcode <;> by_cases late : InRanges rs' opcode <;>
    simp [listed, early, late]

theorem resetRanges_without (small : ∀ r ∈ rs, r.2 < 65536) (t : CompTables H) :
    (rs.foldl (CompTables.resetRange unswapped) t).Without unswapped t rs := by
  induction rs generalizing t with
  | nil =>
    intro opcode _
    simp [InRanges]
  | cons r rs ih =>
    have first := resetRange_without unswapped (small r (by simp)) t
    exact first.trans unswapped (ih (fun s member => small s (by simp [member])) _)

/-! ### The blacklist -/

variable (H) in
/-- A blacklist is merged right exactly when it has no comma in it. What is no blacklist is always
refused. -/
theorem mergedRight_iff (s : PrefsString) :
    MergedRight H unswapped s ↔ ((∃ rs, BlackList s.bytes rs) → comma ∉ s.bytes) := by
  constructor
  · rintro right ⟨rs, list⟩
    obtain ⟨accepted, t', merged, iff, -⟩ := right ⟨fun _ => none, fun _ => none⟩
    have accepts : accepted = true := iff.mpr ⟨rs, list⟩
    subst accepts
    obtain ⟨_, _, commaFree⟩ := blackList_of_accepted unswapped s.zeroFree merged
    exact commaFree
  · intro condition t
    obtain ⟨⟨accepted, t'⟩, merged⟩ :=
      mergeFrom_inside unswapped s.zeroFree (Nat.lt_succ_self _) t
    refine ⟨accepted, t', merged, ⟨?_, ?_⟩, ?_⟩
    · rintro rfl
      obtain ⟨rs, list, -⟩ := blackList_of_accepted unswapped s.zeroFree merged
      exact ⟨rs, list⟩
    · rintro ⟨rs, list⟩
      have success := accepted_of_blackList unswapped s.zeroFree list (condition ⟨rs, list⟩)
        (Nat.lt_succ_self _) t
      rw [merged] at success
      cases success
      rfl
    · intro rs list accepts
      have success := accepted_of_blackList unswapped s.zeroFree list (condition ⟨rs, list⟩)
        (Nat.lt_succ_self _) t
      rw [merged] at success
      cases success
      exact resetRanges_without unswapped list.lt t

/-- `4e71,4e75` -/
def commaList : PrefsString := ⟨ascii "4e71,4e75", by decide⟩

/-- It is a blacklist, and refused. -/
theorem comma_refused : ¬ MergedRight Unit false commaList := by
  intro right
  have digit : ∀ {c d}, hexDigit c = some d → HexDigit c d := fun found => (hexDigit_iff _ _).mp found
  have first : Number (ascii "4e71") 0x4e71 :=
    ⟨rfl, .cons (digit rfl) (.cons (digit rfl) (.cons (digit rfl) (.cons (digit rfl) (.nil _))))⟩
  have second : Number (ascii "4e75") 0x4e75 :=
    ⟨rfl, .cons (digit rfl) (.cons (digit rfl) (.cons (digit rfl) (.cons (digit rfl) (.nil _))))⟩
  have list : BlackList commaList.bytes [(0x4e71, 0x4e71), (0x4e75, 0x4e75)] :=
    .more (.one first) (.inl rfl) (.last (.one second))
  obtain ⟨accepted, t', merged, iff, -⟩ := right ⟨fun _ => none, fun _ => none⟩
  have refused : (mergeBlacklist false (some commaList)
      (⟨fun _ => none, fun _ => none⟩ : CompTables Unit)).map Prod.fst = some false := by decide
  rw [merged, Option.map_some, iff.mpr ⟨_, list⟩] at refused
  cases refused

end BasiliskII.Jit
