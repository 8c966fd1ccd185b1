import Mathlib.Data.List.Basic

/-!
# The bytes of a file

Writing at a position of a file replaces what lies there, makes the file longer
where it ends before, and fills a gap with zeros.
-/
namespace FileBytes

def write (content : List UInt8) (pos : Nat) (data : List UInt8) : List UInt8 :=
  content.take pos ++ List.replicate (pos - content.length) 0 ++ data ++
    content.drop (pos + data.length)

def read (content : List UInt8) (pos n : Nat) : List UInt8 := (content.drop pos).take n

variable {a b c data : List UInt8}

/-- Over a part of the same length. -/
theorem write_middle (same : data.length = b.length) :
    write (a ++ b ++ c) a.length data = a ++ data ++ c := by
  have behind : (a ++ b ++ c).drop (a.length + data.length) = c := by
    rw [same, ← List.length_append, List.drop_left]
  have gap : a.length - (a ++ b ++ c).length = 0 := by
    simp only [List.length_append]
    omega
  rw [write, behind, gap, List.append_assoc a b c, List.take_left]
  simp

theorem write_end : write a a.length data = a ++ data := by
  simp [write]

theorem read_middle : read (a ++ b ++ c) a.length b.length = b := by
  rw [read, List.append_assoc, List.drop_left, List.take_left]

end FileBytes
