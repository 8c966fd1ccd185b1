/-!
# Host files

`Sys_read`, `Sys_write` and the questions about a file handle of sys_psp.cpp.
A host file is its bytes and its size. What the host transfers in one call is
given from outside: an error, or at most so many bytes.
-/
namespace BasiliskII.Sys

abbrev LOff := BitVec 64

/-- `size_t` of the Vita. -/
abbrev Size := BitVec 32

structure HostFile where
  content : Nat → BitVec 8
  size : Nat

/-- `file_handle`, with the file that is open under its descriptor. `isOpen` is `fd >= 0`. -/
structure FileHandle where
  isOpen : Bool
  isFile : Bool
  isFloppy : Bool
  isCdrom : Bool
  readOnly : Bool
  startByte : LOff
  fileSize : LOff
  host : HostFile

/-- What a `read` or `write` of the host does: fail, or transfer at most so many bytes. -/
abbrev Grant := Option Nat

/-- What `read` and `write` return when they fail. -/
def hostError : Size := -1

/-- The bytes `Sys_read` stores and what it returns. -/
def sysRead (f : FileHandle) (grant : Grant) (offset : LOff) (length : Size) :
    Size × List (BitVec 8) :=
  let position := offset + f.startByte
  if !f.isOpen || position.toInt < 0 then (0, [])
  else
    match grant with
    | none => (hostError, [])
    | some most =>
      let actual := min most (min length.toNat (f.host.size - position.toNat))
      (BitVec.ofNat 32 actual, (List.range actual).map fun i => f.host.content (position.toNat + i))

/-- The file with some bytes written to it. -/
def HostFile.write (file : HostFile) (position count : Nat) (bytes : Nat → BitVec 8) :
    HostFile where
  content := fun i =>
    if position ≤ i ∧ i < position + count then bytes (i - position) else file.content i
  size := if count = 0 then file.size else max file.size (position + count)

/-- What `Sys_write` returns, and the file afterwards. -/
def sysWrite (f : FileHandle) (grant : Grant) (offset : LOff) (length : Size)
    (bytes : Nat → BitVec 8) : Size × FileHandle :=
  let position := offset + f.startByte
  if !f.isOpen || position.toInt < 0 then (0, f)
  else
    match grant with
    | none => (hostError, f)
    | some most =>
      let actual := min most length.toNat
      (BitVec.ofNat 32 actual,
        { f with host := f.host.write position.toNat actual bytes })

def sysGetFileSize (f : FileHandle) : LOff :=
  if f.isFile then f.fileSize
  else if f.isFloppy then 1440 * 512  -- always high-density
  else if !f.isOpen then 650 * 1024
  else BitVec.ofNat 64 f.host.size - f.startByte

def sysIsFixedDisk (f : FileHandle) : Bool := f.isFile || !(f.isFloppy || f.isCdrom)

def sysIsDiskInserted (f : FileHandle) : Bool :=
  if f.isFile then true else if f.isFloppy || f.isCdrom then f.isOpen else true

end BasiliskII.Sys
