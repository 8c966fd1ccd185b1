import BasiliskII.ExtFS.Table
import BasiliskII.Stdio

/-!
# Helper files

Finder info and resource forks are kept in helper files, `/path/.finf/file` and
`/path/.rsrc/file` for `/path/file`. `make_helper_path` of extfs_psp.cpp makes
their names.
-/
namespace BasiliskII.ExtFS

/-- The last component of a path, behind the last slash. -/
def lastPart (src : CString) : CString := (src.reverse.takeWhile (· ≠ slash)).reverse

/-- Everything before. -/
def dirPart (src : CString) : CString := (src.reverse.dropWhile (· ≠ slash)).reverse

def makeHelperPath (src add : CString) (onlyDir : Bool) : CString :=
  -- Copy everything before, add additional component
  let dest := dirPart src ++ add.take (MAX_PATH_LENGTH - 1)
  -- Add last component
  if onlyDir then dest else dest ++ (lastPart src).take (MAX_PATH_LENGTH - 1)

inductive Helper where
  | finf | rsrc
  deriving DecidableEq, Repr

def Helper.dir : Helper → CString
  | .finf => ascii ".finf/"
  | .rsrc => ascii ".rsrc/"

/-- The helper file of a path. -/
def Helper.path (h : Helper) (src : CString) : CString := makeHelperPath src h.dir false

theorem dirPart_append_lastPart (src : CString) : dirPart src ++ lastPart src = src := by
  rw [dirPart, lastPart, ← List.reverse_append, List.takeWhile_append_dropWhile,
    List.reverse_reverse]

theorem slash_notMem_lastPart (src : CString) : slash ∉ lastPart src := by
  intro member
  simpa using List.mem_takeWhile_imp (List.mem_reverse.mp member)

theorem parts_of_slash {front last : CString} (plain : slash ∉ last) :
    lastPart (front ++ slash :: last) = last ∧
      dirPart (front ++ slash :: last) = front ++ [slash] := by
  have inside : ∀ c ∈ last.reverse, decide (c ≠ slash) = true := by
    intro c member
    have other : c ≠ slash := fun same => plain (same ▸ List.mem_reverse.mp member)
    simpa using other
  have turned : (front ++ slash :: last).reverse = last.reverse ++ slash :: front.reverse := by
    simp
  constructor
  · rw [lastPart, turned, List.takeWhile_append_of_pos inside]
    simp
  · rw [dirPart, turned, List.dropWhile_append_of_pos inside]
    simp

theorem length_parts (src : CString) :
    (dirPart src).length + (lastPart src).length = src.length := by
  rw [← List.length_append, dirPart_append_lastPart]

theorem Helper.path_eq (h : Helper) {src : CString} (short : src.length < MAX_PATH_LENGTH) :
    h.path src = dirPart src ++ h.dir ++ lastPart src := by
  have lengths := length_parts src
  have whole : (lastPart src).take (MAX_PATH_LENGTH - 1) = lastPart src :=
    List.take_of_length_le (by omega)
  have dir : h.dir.take (MAX_PATH_LENGTH - 1) = h.dir := by cases h <;> rfl
  rw [Helper.path, makeHelperPath, whole, dir]
  rfl

theorem Helper.length_dir (h : Helper) : h.dir.length = 6 := by cases h <;> rfl

theorem Helper.length_path (h : Helper) {src : CString} (short : src.length < MAX_PATH_LENGTH) :
    (h.path src).length = src.length + 6 := by
  rw [h.path_eq short, List.length_append, List.length_append, h.length_dir, ← length_parts src]
  omega

/-- The last components agree, and the directory lies one further down. -/
theorem Helper.path_parts (h : Helper) {src : CString} (short : src.length < MAX_PATH_LENGTH) :
    lastPart (h.path src) = lastPart src ∧ dirPart (h.path src) = dirPart src ++ h.dir := by
  obtain ⟨word, dir⟩ : ∃ word, h.dir = word ++ [slash] := by
    cases h with
    | finf => exact ⟨ascii ".finf", rfl⟩
    | rsrc => exact ⟨ascii ".rsrc", rfl⟩
  have path : h.path src = (dirPart src ++ word) ++ slash :: lastPart src := by
    rw [h.path_eq short, dir]
    simp
  rw [path, dir, ← List.append_assoc]
  exact parts_of_slash (slash_notMem_lastPart src)

theorem Helper.path_inj {h k : Helper} {p q : CString} (short_p : p.length < MAX_PATH_LENGTH)
    (short_q : q.length < MAX_PATH_LENGTH) (same : h.path p = k.path q) : h = k ∧ p = q := by
  obtain ⟨last_p, dir_p⟩ := h.path_parts short_p
  obtain ⟨last_q, dir_q⟩ := k.path_parts short_q
  rw [same, last_q] at last_p
  rw [same, dir_q] at dir_p
  have lengths : k.dir.length = h.dir.length := k.length_dir.trans h.length_dir.symm
  obtain ⟨front, kind⟩ := List.append_inj' dir_p lengths
  constructor
  · cases h <;> cases k <;> first | rfl | exact absurd kind (by decide)
  · rw [← dirPart_append_lastPart p, ← dirPart_append_lastPart q, front, last_p]

end BasiliskII.ExtFS
