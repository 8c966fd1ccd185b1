import BasiliskII.ExtFS.FinderInfo
import BasiliskII.ExtFS.Operations

/-!
# Renaming and removing a file with its helper files

`extfs_rename` and `extfs_remove` of extfs_psp.cpp. Each of the host's calls may
fail by itself, and a call on a file that is not there fails. Making and
removing helper directories moves no file; where a missing directory makes a
rename fail, that is a failure of the rename.
-/
namespace BasiliskII.ExtFS

/-- The files of the host by path; no file has two paths. -/
structure HostFiles where
  file : CString → Option Nat
  single : ∀ p q i, file p = some i → file q = some i → p = q

/-- A file at one path is at the other, and whatever was there is gone. -/
def HostFiles.move (fs : HostFiles) (old new : CString) : HostFiles where
  file p := if p = new then fs.file old else if p = old then none else fs.file p
  single p q i := by
    intro first second
    have other := fs.single
    grind

def HostFiles.erase (fs : HostFiles) (path : CString) : HostFiles where
  file p := if p = path then none else fs.file p
  single p q i := by
    intro first second
    have other := fs.single
    grind

/-- `rename`, which does nothing when the names are the same. -/
def HostFiles.rename (fs : HostFiles) (old new : CString) (ok : Bool) : Bool × HostFiles :=
  if ok && (fs.file old).isSome then (true, if old = new then fs else fs.move old new)
  else (false, fs)

/-- `remove`, and `sceIoRmdir` for a directory. -/
def HostFiles.remove (fs : HostFiles) (path : CString) (ok : Bool) : Bool × HostFiles :=
  if ok && (fs.file path).isSome then (true, fs.erase path) else (false, fs)

/-- The first half of `extfs_rename`; `ok` tells which calls succeed. -/
def renameHelpers (fs : HostFiles) (old new : CString) (ok : Helper → Bool) : HostFiles :=
  -- Rename helpers first, don't complain if this fails
  let (_, fs) := fs.rename (Helper.finf.path old) (Helper.finf.path new) (ok .finf)
  let (_, fs) := fs.rename (Helper.rsrc.path old) (Helper.rsrc.path new) (ok .rsrc)
  fs

def extfsRename (fs : HostFiles) (old new : CString) (ok : Helper → Bool) (fileOk : Bool) :
    Bool × HostFiles :=
  -- Now rename file
  (renameHelpers fs old new ok).rename old new fileOk

def removeHelpers (fs : HostFiles) (path : CString) (ok : Helper → Bool) : HostFiles :=
  -- Remove helpers first, don't complain if this fails
  let (_, fs) := fs.remove (Helper.finf.path path) (ok .finf)
  let (_, fs) := fs.remove (Helper.rsrc.path path) (ok .rsrc)
  fs

/-- `removal` is the error of `remove(path)`, `rmdirOk` tells whether `sceIoRmdir(path)` succeeds. -/
def extfsRemove (fs : HostFiles) (path : CString) (ok : Helper → Bool) (removal : Option Errno)
    (rmdirOk : Bool) : Bool × HostFiles :=
  let fs := removeHelpers fs path ok
  -- Now remove file or directory
  let (removed, fs) := fs.remove path (removal = none)
  if removed then (true, fs)
  else if removal = some .isdir ∨ removal = some .notempty then fs.remove path rmdirOk
  else (false, fs)

/-- The file itself, or one of its helper files. -/
def partPath : Option Helper → CString → CString
  | none, path => path
  | some h, path => h.path path

/-- A rename that fails leaves the three files where they were, and one that succeeds takes all
that there are along. -/
def RenameKeeps (fs : HostFiles) (old new : CString) (ok : Helper → Bool) (fileOk : Bool) : Prop :=
  let reply := extfsRename fs old new ok fileOk
  (reply.1 = false → ∀ part, reply.2.file (partPath part old) = fs.file (partPath part old)) ∧
    (reply.1 = true → ∀ part i, fs.file (partPath part old) = some i →
      reply.2.file (partPath part new) = some i)

/-- A removal that fails leaves the three files there. -/
def RemoveKeeps (fs : HostFiles) (path : CString) (ok : Helper → Bool) (removal : Option Errno)
    (rmdirOk : Bool) : Prop :=
  let reply := extfsRemove fs path ok removal rmdirOk
  reply.1 = false → ∀ part, reply.2.file (partPath part path) = fs.file (partPath part path)

/-- The call on a helper file succeeds. -/
def helperGoes (fs : HostFiles) (path : CString) (ok : Helper → Bool) (h : Helper) : Bool :=
  ok h && (fs.file (h.path path)).isSome

/-- The answer is that about the file itself, and each helper file goes the way of its own call. -/
def RenameFollows (fs : HostFiles) (old new : CString) (ok : Helper → Bool) (fileOk : Bool) :
    Prop :=
  let reply := extfsRename fs old new ok fileOk
  reply.1 = (fileOk && (fs.file old).isSome) ∧
    reply.2.file (if reply.1 then new else old) = fs.file old ∧
    ∀ h : Helper,
      (helperGoes fs old ok h = true → reply.2.file (h.path new) = fs.file (h.path old)) ∧
      (helperGoes fs old ok h = false → reply.1 = false →
        reply.2.file (h.path old) = fs.file (h.path old))

/-- The file, or the directory when it is empty, is removed. -/
def fileRemoved (fs : HostFiles) (path : CString) (removal : Option Errno) (rmdirOk : Bool) : Bool :=
  (fs.file path).isSome &&
    (removal = none || (removal = some .isdir || removal = some .notempty) && rmdirOk)

def RemoveFollows (fs : HostFiles) (path : CString) (ok : Helper → Bool) (removal : Option Errno)
    (rmdirOk : Bool) : Prop :=
  let reply := extfsRemove fs path ok removal rmdirOk
  reply.1 = fileRemoved fs path removal rmdirOk ∧
    reply.2.file path = (if reply.1 then none else fs.file path) ∧
    ∀ h : Helper, reply.2.file (h.path path) =
      if helperGoes fs path ok h then none else fs.file (h.path path)

theorem rename_file {old new : CString} (other : old ≠ new) (fs : HostFiles) (ok : Bool)
    (p : CString) :
    (fs.rename old new ok).2.file p =
      if ok && (fs.file old).isSome then
        if p = new then fs.file old else if p = old then none else fs.file p
      else fs.file p := by
  unfold HostFiles.rename
  split
  · simp only [HostFiles.move]
  · rfl

theorem remove_file (fs : HostFiles) (path : CString) (ok : Bool) (p : CString) :
    (fs.remove path ok).2.file p =
      if (ok && (fs.file path).isSome) && p = path then none else fs.file p := by
  unfold HostFiles.remove
  split
  next goes => simp [HostFiles.erase, goes]
  next stays => simp [stays]

theorem helper_path_eq_iff {h k : Helper} {p q : HostPath} :
    h.path p.bytes = k.path q.bytes ↔ h = k ∧ p = q := by
  constructor
  · exact HostPath.helper_inj
  · rintro ⟨rfl, rfl⟩
    rfl

theorem helper_path_ne (h : Helper) (p : HostPath) : h.path p.bytes ≠ p.bytes := by
  intro same
  have length := congrArg List.length same
  rw [h.length_path p.short] at length
  omega

section Renaming

variable {fs : HostFiles} {old new : HostPath} {ok : Helper → Bool}

variable (fs ok) in
/-- What the first half of `extfs_rename` does to the helper files. -/
theorem renameHelpers_helper (other : old ≠ new) (h : Helper) :
    (renameHelpers fs old.bytes new.bytes ok).file (h.path old.bytes) =
        (if helperGoes fs old.bytes ok h then none else fs.file (h.path old.bytes)) ∧
      (renameHelpers fs old.bytes new.bytes ok).file (h.path new.bytes) =
        (if helperGoes fs old.bytes ok h then fs.file (h.path old.bytes)
          else fs.file (h.path new.bytes)) := by
  have apart : ∀ k : Helper, k.path old.bytes ≠ k.path new.bytes := fun k same =>
    other (helper_path_eq_iff.mp same).2
  cases h with
  | finf | rsrc =>
    simp only [renameHelpers, rename_file (apart _), helper_path_eq_iff]
    simp [helperGoes, other, Ne.symm other]

theorem renameHelpers_file (other : old ≠ new)
    (clear : ∀ h, helperGoes fs old.bytes ok h → h.path new.bytes ≠ old.bytes) :
    (renameHelpers fs old.bytes new.bytes ok).file old.bytes = fs.file old.bytes := by
  have apart : ∀ k : Helper, k.path old.bytes ≠ k.path new.bytes := fun k same =>
    other (helper_path_eq_iff.mp same).2
  have clear_finf := clear .finf
  have clear_rsrc := clear .rsrc
  have away : ∀ k : Helper, ¬ old.bytes = k.path old.bytes := fun k =>
    (helper_path_ne k old).symm
  simp only [renameHelpers, rename_file (apart _), helper_path_eq_iff]
  simp only [helperGoes] at clear_finf clear_rsrc
  simp only [away, reduceCtorEq, false_and, if_false]
  grind

/-- The calls on the helper files that there are end like that on the file, and none of them
puts a helper file where the file is. -/
def RenamesTogether (fs : HostFiles) (old new : CString) (ok : Helper → Bool) (fileOk : Bool) :
    Prop :=
  ∀ h : Helper, (fs.file (h.path old)).isSome →
    (ok h = (fileOk && (fs.file old).isSome)) ∧ (ok h = true → h.path new ≠ old)

theorem rename_self (fs : HostFiles) (path : CString) (ok : Bool) :
    fs.rename path path ok = (ok && (fs.file path).isSome, fs) := by
  unfold HostFiles.rename
  split
  next goes => simp [goes]
  next stays => simp [stays]

theorem renameKeeps_self (fs : HostFiles) (path : CString) (ok : Helper → Bool) (fileOk : Bool) :
    RenameKeeps fs path path ok fileOk := by
  simp [RenameKeeps, extfsRename, renameHelpers, rename_self]

theorem bytes_ne (other : old ≠ new) : old.bytes ≠ new.bytes := by
  intro same
  obtain ⟨_, _⟩ := old
  obtain ⟨_, _⟩ := new
  obtain rfl : _ = _ := same
  exact other rfl

/-- The last call decides. -/
theorem renameKeeps_cases (other : old ≠ new) (fileOk : Bool) :
    RenameKeeps fs old.bytes new.bytes ok fileOk ↔
      if fileOk && ((renameHelpers fs old.bytes new.bytes ok).file old.bytes).isSome then
        ∀ part i, fs.file (partPath part old.bytes) = some i →
          ((renameHelpers fs old.bytes new.bytes ok).move old.bytes new.bytes).file
            (partPath part new.bytes) = some i
      else
        ∀ part, (renameHelpers fs old.bytes new.bytes ok).file (partPath part old.bytes) =
          fs.file (partPath part old.bytes) := by
  simp only [RenameKeeps, extfsRename, HostFiles.rename, if_neg (bytes_ne other)]
  split <;> simp

/-- A helper file that is renamed onto the file does not stay where it should be. -/
theorem not_renameKeeps_of_clash (other : old ≠ new) {fileOk : Bool} {h : Helper}
    (goes : helperGoes fs old.bytes ok h) (clash : h.path new.bytes = old.bytes) :
    ¬ RenameKeeps fs old.bytes new.bytes ok fileOk := by
  obtain ⟨i, present⟩ := Option.isSome_iff_exists.mp (Bool.and_eq_true_iff.mp goes).2
  obtain ⟨left, _⟩ := renameHelpers_helper fs ok other h
  rw [if_pos goes] at left
  rw [renameKeeps_cases other]
  split
  · intro done
    have moved := done (some h) i present
    rw [partPath, clash] at moved
    simp [HostFiles.move, bytes_ne other] at moved
  · intro stayed
    have same := stayed (some h)
    rw [partPath, left, present] at same
    cases same

/-- When the file is renamed, every helper file there is goes along if it is renamed as well. -/
theorem all_moved_iff (other : old ≠ new)
    (clear : ∀ h, helperGoes fs old.bytes ok h → h.path new.bytes ≠ old.bytes) :
    (∀ part i, fs.file (partPath part old.bytes) = some i →
        ((renameHelpers fs old.bytes new.bytes ok).move old.bytes new.bytes).file
          (partPath part new.bytes) = some i) ↔
      ∀ h : Helper, (fs.file (h.path old.bytes)).isSome →
        ok h = true ∧ (ok h = true → h.path new.bytes ≠ old.bytes) := by
  have helpers := fun h => renameHelpers_helper fs ok other h
  constructor
  · intro done h there
    obtain ⟨i, present⟩ := Option.isSome_iff_exists.mp there
    have moved := done (some h) i present
    simp only [HostFiles.move, partPath, if_neg (helper_path_ne h new), (helpers h).2] at moved
    have goes : helperGoes fs old.bytes ok h = true := by
      by_contra stays
      rw [if_neg stays] at moved
      -- what is found at the new path is another file
      split at moved
      · cases moved
      · have same := fs.single _ _ _ present moved
        exact other (helper_path_eq_iff.mp same).2
    exact ⟨(Bool.and_eq_true_iff.mp goes).1, fun _ => clear h goes⟩
  · intro together part i present
    cases part with
    | none =>
      simp only [partPath, HostFiles.move, if_pos, renameHelpers_file other clear]
      exact present
    | some h =>
      have there : (fs.file (h.path old.bytes)).isSome = true :=
        Option.isSome_iff_exists.mpr ⟨i, present⟩
      obtain ⟨succeeds, apart⟩ := together h there
      have goes : helperGoes fs old.bytes ok h = true := Bool.and_eq_true_iff.mpr ⟨succeeds, there⟩
      simp only [partPath, HostFiles.move, if_neg (helper_path_ne h new),
        if_neg (apart succeeds), (helpers h).2, if_pos goes]
      exact present

/-- When the file stays, every helper file there is stays if it is not renamed either. -/
theorem all_stayed_iff (other : old ≠ new)
    (clear : ∀ h, helperGoes fs old.bytes ok h → h.path new.bytes ≠ old.bytes) :
    (∀ part, (renameHelpers fs old.bytes new.bytes ok).file (partPath part old.bytes) =
        fs.file (partPath part old.bytes)) ↔
      ∀ h : Helper, (fs.file (h.path old.bytes)).isSome → ok h = false := by
  have helpers := fun h => renameHelpers_helper fs ok other h
  constructor
  · intro stayed h there
    have same := stayed (some h)
    rw [partPath, (helpers h).1] at same
    by_contra succeeds
    rw [Bool.not_eq_false] at succeeds
    have goes : helperGoes fs old.bytes ok h = true := Bool.and_eq_true_iff.mpr ⟨succeeds, there⟩
    rw [if_pos goes] at same
    rw [← same] at there
    cases there
  · intro fails part
    cases part with
    | none => exact renameHelpers_file other clear
    | some h =>
      rw [partPath, (helpers h).1]
      split
      next goes =>
        obtain ⟨succeeds, there⟩ := Bool.and_eq_true_iff.mp goes
        rw [fails h there] at succeeds
        cases succeeds
      · rfl

theorem renameKeeps_iff (other : old ≠ new) (fileOk : Bool) :
    RenameKeeps fs old.bytes new.bytes ok fileOk ↔
      RenamesTogether fs old.bytes new.bytes ok fileOk := by
  by_cases clash : ∃ h, helperGoes fs old.bytes ok h ∧ h.path new.bytes = old.bytes
  · obtain ⟨h, goes, same⟩ := clash
    refine iff_of_false (not_renameKeeps_of_clash other goes same) fun together => ?_
    obtain ⟨succeeds, present⟩ := Bool.and_eq_true_iff.mp goes
    exact (together h present).2 succeeds same
  · have clear : ∀ h, helperGoes fs old.bytes ok h → h.path new.bytes ≠ old.bytes :=
      fun h goes same => clash ⟨h, goes, same⟩
    rw [renameKeeps_cases other, renameHelpers_file other clear]
    unfold RenamesTogether
    cases fileOk && (fs.file old.bytes).isSome with
    | true =>
      rw [if_pos rfl]
      exact all_moved_iff other clear
    | false =>
      rw [if_neg Bool.false_ne_true, all_stayed_iff other clear]
      refine forall₂_congr fun h _ => ⟨fun fails => ⟨fails, fun succeeds => ?_⟩, And.left⟩
      rw [fails] at succeeds
      cases succeeds

theorem renameFollows_self (fs : HostFiles) (path : CString) (ok : Helper → Bool) (fileOk : Bool) :
    RenameFollows fs path path ok fileOk := by
  simp [RenameFollows, extfsRename, renameHelpers, rename_self]

theorem renameFollows {fileOk : Bool}
    (clear : ∀ h, helperGoes fs old.bytes ok h → h.path new.bytes ≠ old.bytes) :
    RenameFollows fs old.bytes new.bytes ok fileOk := by
  by_cases same : old = new
  · obtain rfl := same
    exact renameFollows_self fs old.bytes ok fileOk
  have file := renameHelpers_file same clear
  have helpers := fun h => renameHelpers_helper fs ok same h
  unfold RenameFollows extfsRename HostFiles.rename
  rw [file]
  cases fileOk && (fs.file old.bytes).isSome with
  | true =>
    simp only [if_true, if_neg (bytes_ne same), HostFiles.move, file, true_and]
    refine fun h => ⟨fun goes => ?_, fun _ fails => by cases fails⟩
    rw [if_neg (helper_path_ne h new), if_neg (clear h goes), (helpers h).2, if_pos goes]
  | false =>
    simp only [Bool.false_eq_true, if_false, file, true_and]
    refine fun h => ⟨fun goes => ?_, fun stays _ => ?_⟩
    · rw [(helpers h).2, if_pos goes]
    · rw [(helpers h).1, stays, if_neg Bool.false_ne_true]

end Renaming

section Removal

variable {fs : HostFiles} {path : HostPath} {ok : Helper → Bool}

variable (fs path ok) in
theorem removeHelpers_file :
    (removeHelpers fs path.bytes ok).file path.bytes = fs.file path.bytes := by
  have away : ∀ k : Helper, ¬ path.bytes = k.path path.bytes := fun k =>
    (helper_path_ne k path).symm
  simp [removeHelpers, remove_file, away]

theorem removeHelpers_helper (h : Helper) :
    (removeHelpers fs path.bytes ok).file (h.path path.bytes) =
      if helperGoes fs path.bytes ok h then none else fs.file (h.path path.bytes) := by
  cases h with
  | finf | rsrc => simp [removeHelpers, remove_file, helper_path_eq_iff, helperGoes]

theorem extfsRemove_eq (removal : Option Errno) (rmdirOk : Bool) :
    extfsRemove fs path.bytes ok removal rmdirOk =
      if fileRemoved fs path.bytes removal rmdirOk then
        (true, (removeHelpers fs path.bytes ok).erase path.bytes)
      else (false, removeHelpers fs path.bytes ok) := by
  have file := removeHelpers_file fs path ok
  cases present : (fs.file path.bytes).isSome with
  | false => simp [extfsRemove, HostFiles.remove, fileRemoved, file, present]
  | true =>
    by_cases done : removal = none
    · simp [extfsRemove, HostFiles.remove, fileRemoved, file, present, done]
    · by_cases directory : removal = some .isdir ∨ removal = some .notempty
      · simp [extfsRemove, HostFiles.remove, fileRemoved, file, present, done, directory]
      · simp [extfsRemove, HostFiles.remove, fileRemoved, present, done, directory]

variable (fs path ok) in
theorem removeFollows (removal : Option Errno) (rmdirOk : Bool) :
    RemoveFollows fs path.bytes ok removal rmdirOk := by
  unfold RemoveFollows
  rw [extfsRemove_eq]
  cases fileRemoved fs path.bytes removal rmdirOk with
  | true => simp [HostFiles.erase, helper_path_ne, removeHelpers_helper]
  | false => simp [removeHelpers_file, removeHelpers_helper]

theorem removeKeeps_iff (removal : Option Errno) (rmdirOk : Bool) :
    RemoveKeeps fs path.bytes ok removal rmdirOk ↔
      fileRemoved fs path.bytes removal rmdirOk = true ∨
        ∀ h, helperGoes fs path.bytes ok h = false := by
  obtain ⟨answer, file, helpers⟩ := removeFollows fs path ok removal rmdirOk
  unfold RemoveKeeps
  simp only [answer] at file ⊢
  cases removed : fileRemoved fs path.bytes removal rmdirOk with
  | true => simp
  | false =>
    simp only [removed, Bool.false_eq_true, if_false] at file
    simp only [forall_const, Bool.false_eq_true, false_or]
    constructor
    · intro stayed h
      by_contra goes
      rw [Bool.not_eq_false] at goes
      have same := stayed (some h)
      rw [partPath, helpers h, if_pos goes] at same
      have there := (Bool.and_eq_true_iff.mp goes).2
      rw [← same] at there
      cases there
    · intro fails part
      cases part with
      | none => exact file
      | some h => rw [partPath, helpers h, fails h, if_neg Bool.false_ne_true]

end Removal

/-- The answer is that about the file, and the helper files go each its own way. So they stay
together exactly when all calls on what is there end alike, and after a removal that fails when
no helper file was removed. -/
theorem helper_files_follow (fs : HostFiles) (old new path : HostPath) (ok : Helper → Bool)
    (fileOk : Bool) (removal : Option Errno) (rmdirOk : Bool) :
    ((∀ h, helperGoes fs old.bytes ok h → h.path new.bytes ≠ old.bytes) →
        RenameFollows fs old.bytes new.bytes ok fileOk) ∧
      (RenameKeeps fs old.bytes new.bytes ok fileOk ↔
        old = new ∨ RenamesTogether fs old.bytes new.bytes ok fileOk) ∧
      RemoveFollows fs path.bytes ok removal rmdirOk ∧
      (RemoveKeeps fs path.bytes ok removal rmdirOk ↔
        fileRemoved fs path.bytes removal rmdirOk = true ∨
          ∀ h, helperGoes fs path.bytes ok h = false) := by
  refine ⟨renameFollows, ?_, removeFollows fs path ok removal rmdirOk, removeKeeps_iff removal rmdirOk⟩
  by_cases same : old = new
  · obtain rfl := same
    simp [renameKeeps_self]
  · rw [renameKeeps_iff same, or_iff_right same]

/-- `/r/a` and its Finder info. -/
def exampleFiles : HostFiles where
  file p := if p = ascii "/r/a" then some 0 else if p = ascii "/r/.finf/a" then some 1 else none
  single p q i := by
    intro first second
    grind

/-- The rename of the file fails behind that of its Finder info, the rename of the Finder info
fails before that of the file, and the removal of the file fails behind that of its Finder info. -/
theorem helper_files_left_behind :
    ¬ (RenameKeeps exampleFiles (ascii "/r/a") (ascii "/r/b") (fun _ => true) false ∨
        RenameKeeps exampleFiles (ascii "/r/a") (ascii "/r/b") (fun _ => false) true ∨
        RemoveKeeps exampleFiles (ascii "/r/a") (fun _ => true) (some .acces) false) := by
  rintro (renamed | renamed | removed)
  · exact absurd (renamed.1 rfl (some .finf)) (by decide)
  · exact absurd (renamed.2 rfl (some .finf) 1 rfl) (by decide)
  · exact absurd (removed rfl (some .finf)) (by decide)

end BasiliskII.ExtFS
