import Mathlib.Data.List.Basic

/-!
# Writing C strings into a buffer

The destination of the string functions of C: the string it holds, and the
indices written and read so far. An index is read below zero when a caller looks
at the byte in front of an empty string.
-/
namespace StringDest

structure Dest where
  string : List UInt8
  written : List Nat
  read : List Int

/-- A buffer with a string in it, before any access. -/
def holding (string : List UInt8) : Dest := ⟨string, [], []⟩

/-- Nothing is written from `size` on, and nothing is read before the start. -/
def Dest.Inside (size : Nat) (d : Dest) : Prop :=
  (∀ i ∈ d.written, i < size) ∧ ∀ i ∈ d.read, 0 ≤ i

/-- `dest[0] = 0` -/
def Dest.clear (d : Dest) : Dest := { d with string := [], written := d.written ++ [0] }

/-- `strncpy(dest, src, n)`, which fills up with zeros, and `dest[n] = 0` -/
def Dest.copy (d : Dest) (src : List UInt8) (n : Nat) : Dest :=
  { d with string := src.take n, written := d.written ++ List.range n ++ [n] }

/-- Read the byte at an index. -/
def Dest.look (d : Dest) (i : Int) : Dest := { d with read := d.read ++ [i] }

/-- `strlen(dest)`, which reads up to the terminator. -/
def Dest.strlen (d : Dest) : Nat × Dest :=
  (d.string.length,
    { d with read := d.read ++ (List.range (d.string.length + 1)).map Int.ofNat })

/-- `dest[l] = c; dest[l+1] = 0` for the length `l` -/
def Dest.push (d : Dest) (c : UInt8) : Dest :=
  { d with
    string := d.string ++ [c]
    written := d.written ++ [d.string.length, d.string.length + 1] }

/-- `strncat(dest, src, n)`, where the bound is on what is appended. -/
def Dest.strncat (d : Dest) (src : List UInt8) (n : Nat) : Dest :=
  let (l, d) := d.strlen
  { d with
    string := d.string ++ src.take n
    written := d.written ++ List.range' l ((src.take n).length + 1) }

variable {size : Nat} {d : Dest}

theorem holding_inside (string : List UInt8) : (holding string).Inside size := by
  simp [holding, Dest.Inside]

@[simp] theorem clear_string : d.clear.string = [] := rfl

@[simp] theorem copy_string (src : List UInt8) (n : Nat) : (d.copy src n).string = src.take n := rfl

@[simp] theorem look_string (i : Int) : (d.look i).string = d.string := rfl

@[simp] theorem strlen_string : d.strlen.2.string = d.string := rfl

@[simp] theorem push_string (c : UInt8) : (d.push c).string = d.string ++ [c] := rfl

@[simp] theorem strncat_string (src : List UInt8) (n : Nat) :
    (d.strncat src n).string = d.string ++ src.take n := rfl

theorem inside_clear : d.clear.Inside size ↔ d.Inside size ∧ 0 < size := by
  simp only [Dest.Inside, Dest.clear, List.forall_mem_append, List.forall_mem_singleton]
  exact and_right_comm

theorem inside_copy (src : List UInt8) (n : Nat) :
    (d.copy src n).Inside size ↔ d.Inside size ∧ n < size := by
  simp only [Dest.Inside, Dest.copy, List.forall_mem_append, List.forall_mem_singleton,
    List.mem_range]
  constructor
  · rintro ⟨⟨⟨written, _⟩, last⟩, read⟩
    exact ⟨⟨written, read⟩, last⟩
  · rintro ⟨⟨written, read⟩, last⟩
    exact ⟨⟨⟨written, fun i below => Nat.lt_trans below last⟩, last⟩, read⟩

theorem inside_look (i : Int) : (d.look i).Inside size ↔ d.Inside size ∧ 0 ≤ i := by
  simp only [Dest.Inside, Dest.look, List.forall_mem_append, List.forall_mem_singleton, and_assoc]

@[simp] theorem inside_strlen : d.strlen.2.Inside size ↔ d.Inside size := by
  have forward : ∀ i ∈ (List.range (d.string.length + 1)).map Int.ofNat, 0 ≤ i := by
    intro i member
    obtain ⟨k, _, rfl⟩ := List.mem_map.mp member
    exact Int.natCast_nonneg k
  simp only [Dest.Inside, Dest.strlen, List.forall_mem_append]
  exact and_congr_right fun _ => and_iff_left forward

theorem inside_push (c : UInt8) :
    (d.push c).Inside size ↔ d.Inside size ∧ d.string.length + 1 < size := by
  simp only [Dest.Inside, Dest.push, List.forall_mem_append, List.forall_mem_cons,
    List.not_mem_nil, false_implies, forall_const, and_true]
  constructor
  · rintro ⟨⟨written, _, last⟩, read⟩
    exact ⟨⟨written, read⟩, last⟩
  · rintro ⟨⟨written, read⟩, last⟩
    exact ⟨⟨written, by omega, last⟩, read⟩

/-- All of the appended part has to fit behind the string, with its terminator. -/
theorem inside_strncat (src : List UInt8) (n : Nat) :
    (d.strncat src n).Inside size ↔
      d.Inside size ∧ d.string.length + (src.take n).length < size := by
  have whole : d.strlen.2.Inside size ↔ d.Inside size := inside_strlen
  simp only [Dest.Inside, Dest.strlen] at whole
  simp only [Dest.Inside, Dest.strncat, Dest.strlen, List.forall_mem_append, List.mem_range'_1]
  constructor
  · rintro ⟨⟨written, appended⟩, read⟩
    exact ⟨⟨written, read.1⟩, appended _ ⟨Nat.le_add_right _ _, by omega⟩⟩
  · rintro ⟨⟨written, read⟩, fits⟩
    refine ⟨⟨written, fun i ⟨_, below⟩ => by omega⟩, ?_⟩
    exact List.forall_mem_append.mp (whole.mpr ⟨written, read⟩).2

end StringDest
