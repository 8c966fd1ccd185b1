import BasiliskII.Library.ByteMemory
import BasiliskII.Library.LinkCursor

/-!
# Resources in the ROM

`find_rom_resource` of rom_patches.cpp. The entries of the ROM's resource list
are linked by their offsets from the start of the ROM. The last entry looked at
is kept in `rsrc_ptr`, and a search that is continued goes on behind it without
looking whether the list is at its end there: it then takes the ROM header for
an entry.
-/
namespace BasiliskII.Rom

open ByteMemory LinkCursor

/-- The memory of the Mac, with the ROM in it. -/
structure MacRom where
  mem : Memory 32
  romBaseMac : BitVec 32

namespace MacRom

variable (rom : MacRom)

/-- The first entry of the resource list. -/
def resourceList : BitVec 32 :=
  getLong rom.mem (rom.romBaseMac + getLong rom.mem (rom.romBaseMac + 0x1a))

def link (p : BitVec 32) : BitVec 32 := getLong rom.mem (rom.romBaseMac + p + 8)

def data (p : BitVec 32) : BitVec 32 := getLong rom.mem (rom.romBaseMac + p + 12)

/-- The entry has the type and the ID. -/
def Matches (sType : BitVec 32) (sId : BitVec 16) (p : BitVec 32) : Prop :=
  getLong rom.mem (rom.romBaseMac + p + 16) = sType ∧ getWord rom.mem (rom.romBaseMac + p + 20) = sId

instance (sType : BitVec 32) (sId : BitVec 16) : DecidablePred (rom.Matches sType sId) :=
  fun _ => inferInstanceAs (Decidable (_ ∧ _))

/-- The loop of `find_rom_resource`: what it returns, and `rsrc_ptr`. It need not end; `none` is a
loop that has not after so many rounds. -/
def resourceLoop (sType : BitVec 32) (sId : BitVec 16) :
    Nat → BitVec 32 → Option (BitVec 32 × BitVec 32)
  | 0, _ => none
  | fuel + 1, rsrcPtr =>
    if rom.Matches sType sId rsrcPtr then some (rom.data rsrcPtr, rsrcPtr)
    else if rom.link rsrcPtr = 0 then some (0, 0)
    else resourceLoop sType sId fuel (rom.link rsrcPtr)

/-- Search ROM resource by type/ID, return ROM offset of resource data, and `rsrc_ptr`. -/
def findRomResource (fuel : Nat) (rsrcPtr sType : BitVec 32) (sId : BitVec 16) (cont : Bool) :
    Option (BitVec 32 × BitVec 32) :=
  rom.resourceLoop sType sId fuel (if cont then rom.link rsrcPtr else rom.resourceList)

/-- What so many calls return, the first of which is continued or not, and the others are. -/
def calls (fuel : Nat) (sType : BitVec 32) (sId : BitVec 16) :
    Nat → Bool → BitVec 32 → Option (List (BitVec 32))
  | 0, _, _ => some []
  | n + 1, cont, rsrcPtr =>
    (rom.findRomResource fuel rsrcPtr sType sId cont).bind fun (data, rsrcPtr) =>
      (calls fuel sType sId n true rsrcPtr).map fun rest => data :: rest

/-- The entries of the resource list, which has an end. -/
abbrev ResourceChain (entries : List (BitVec 32)) : Prop :=
  Chain rom.link 0 rom.resourceList entries

/-- However many calls are made, all of them return: the data of the entries with the type and the
ID in the order of the list, and then 0. -/
def Enumerates (sType : BitVec 32) (sId : BitVec 16) (entries : List (BitVec 32)) : Prop :=
  ∀ rsrcPtr n, ∃ fuel, rom.calls fuel sType sId n false rsrcPtr =
    some ((((entries.filter fun p => rom.Matches sType sId p).map rom.data) ++
      List.replicate n 0).take n)

/-- The header of the ROM and what its link leads to, read as entries, are no resources with the
type and the ID, and no search goes on among them for ever. -/
def QuietHeader (sType : BitVec 32) (sId : BitVec 16) (entries : List (BitVec 32)) : Prop :=
  Quiet rom.link 0 (rom.Matches sType sId) rom.data 0
    (overrun rom.link 0 (rom.Matches sType sId) entries)

end MacRom

/-! ### The loop is a walk -/

section Walk

variable {rom : MacRom} {sType : BitVec 32} {sId : BitVec 16}

/-- What a walk that ends returns. -/
def returned (rom : MacRom) (r : Option (BitVec 32)) : BitVec 32 × BitVec 32 :=
  (answer rom.data 0 r, r.getD 0)

theorem walks_of_resourceLoop {fuel : Nat} {p : BitVec 32} {result : BitVec 32 × BitVec 32}
    (ended : rom.resourceLoop sType sId fuel p = some result) :
    ∃ r, Walks rom.link 0 (rom.Matches sType sId) p r ∧ result = returned rom r := by
  -- The three branches of the loop are the three rules of a walk.
  induction fuel generalizing p with
  | zero => cases ended
  | succ fuel ih =>
    rw [MacRom.resourceLoop] at ended
    split at ended
    next pass =>
      cases ended
      exact ⟨some p, .found pass, rfl⟩
    next fail =>
      split at ended
      next last =>
        cases ended
        exact ⟨none, .ended fail last, rfl⟩
      next linked =>
        obtain ⟨r, walks, same⟩ := ih ended
        exact ⟨r, .onward fail linked walks, same⟩

theorem resourceLoop_of_walks {p : BitVec 32} {r : Option (BitVec 32)}
    (walks : Walks rom.link 0 (rom.Matches sType sId) p r) :
    ∃ least, ∀ fuel, least ≤ fuel → rom.resourceLoop sType sId fuel p = some (returned rom r) := by
  induction walks with
  | found pass =>
    refine ⟨1, fun fuel enough => ?_⟩
    obtain ⟨fuel, rfl⟩ := Nat.exists_eq_add_of_le' enough
    exact if_pos pass
  | ended fail last =>
    refine ⟨1, fun fuel enough => ?_⟩
    obtain ⟨fuel, rfl⟩ := Nat.exists_eq_add_of_le' enough
    rw [MacRom.resourceLoop, if_neg fail, if_pos last]
    rfl
  | onward fail linked _ ih =>
    obtain ⟨least, rest⟩ := ih
    refine ⟨least + 1, fun fuel enough => ?_⟩
    obtain ⟨fuel, rfl⟩ := Nat.exists_eq_add_of_le' enough
    rw [← Nat.add_assoc, MacRom.resourceLoop, if_neg fail, if_neg linked]
    exact rest _ (Nat.le_add_left least fuel)

/-- Where the first of some calls begins. -/
def startOf (rom : MacRom) (cont : Bool) (rsrcPtr : BitVec 32) : BitVec 32 :=
  if cont then rom.link rsrcPtr else rom.resourceList

theorem results_of_calls {fuel n : Nat} {cont : Bool} {rsrcPtr : BitVec 32}
    {answers : List (BitVec 32)} (called : rom.calls fuel sType sId n cont rsrcPtr = some answers) :
    ∃ rs, Results rom.link 0 (rom.Matches sType sId) (startOf rom cont rsrcPtr) rs ∧
      rs.map (answer rom.data 0) = answers := by
  induction n generalizing cont rsrcPtr answers with
  | zero =>
    cases called
    exact ⟨[], .nil _, rfl⟩
  | succ n ih =>
    obtain ⟨⟨data, rsrcPtr'⟩, first, later⟩ := Option.bind_eq_some_iff.mp called
    obtain ⟨rest, others, rfl⟩ := Option.map_eq_some_iff.mp later
    obtain ⟨r, walks, same⟩ := walks_of_resourceLoop first
    cases same
    obtain ⟨rs, results, rfl⟩ := ih others
    exact ⟨r :: rs, .cons walks results, rfl⟩

theorem calls_of_results {p : BitVec 32} {rs : List (Option (BitVec 32))}
    (results : Results rom.link 0 (rom.Matches sType sId) p rs) :
    ∃ least, ∀ fuel, least ≤ fuel → ∀ cont rsrcPtr, startOf rom cont rsrcPtr = p →
      rom.calls fuel sType sId rs.length cont rsrcPtr = some (rs.map (answer rom.data 0)) := by
  -- The bound has to do for the first walk and for all that follow it.
  induction results with
  | nil => exact ⟨0, fun _ _ _ _ _ => rfl⟩
  | @cons p r rs walks _ ih =>
    obtain ⟨least, ended⟩ := resourceLoop_of_walks walks
    obtain ⟨least', rest⟩ := ih
    refine ⟨max least least', fun fuel enough cont rsrcPtr start => ?_⟩
    have first : rom.findRomResource fuel rsrcPtr sType sId cont = some (returned rom r) := by
      subst start
      exact ended fuel (Nat.le_trans (Nat.le_max_left ..) enough)
    have later := rest fuel (Nat.le_trans (Nat.le_max_right ..) enough) true (r.getD 0) rfl
    simp only [MacRom.calls, List.length_cons, first, Option.bind_some, returned, later,
      Option.map_some, List.map_cons]

theorem enumerates_iff_yields {entries : List (BitVec 32)} :
    rom.Enumerates sType sId entries ↔
      Yields rom.link 0 (rom.Matches sType sId) rom.data 0 rom.resourceList
        ((entries.filter fun p => rom.Matches sType sId p).map rom.data) := by
  constructor
  · intro enumerates n
    obtain ⟨fuel, called⟩ := enumerates 0 n
    exact results_of_calls called
  · intro yields rsrcPtr n
    obtain ⟨rs, results, answers⟩ := yields n
    obtain ⟨least, called⟩ := calls_of_results results
    have length : rs.length = n := by
      have := congrArg List.length answers
      simpa using this
    have first := called least (Nat.le_refl least) false rsrcPtr rfl
    rw [length, answers] at first
    exact ⟨least, first⟩

end Walk

/-- The searches list the resources exactly if nothing is found in the header of the ROM. -/
theorem resources_enumerated_iff (rom : MacRom) (sType : BitVec 32) (sId : BitVec 16)
    (entries : List (BitVec 32)) (chain : rom.ResourceChain entries) :
    rom.Enumerates sType sId entries ↔ rom.QuietHeader sType sId entries := by
  rw [enumerates_iff_yields]
  exact yields_iff_quiet chain

/-- A ROM with one resource, of type 'DRVR' and ID 4, and this version in its header. -/
def oneResource (version : BitVec 32) : MacRom where
  mem :=
    let mem := putLong (fun _ => 0) (0x1000 + 8) version
    let mem := putLong (putLong mem (0x1000 + 0x1a) 0x80) (0x1000 + 0x80) 0x100
    let mem := putLong (putLong mem (0x1000 + 0x100 + 12) 0x40) (0x1000 + 0x100 + 16) 0x44525652
    putWord mem (0x1000 + 0x100 + 20) 4
  romBaseMac := 0x1000

theorem chain_of_one {rom : MacRom} {entry : BitVec 32} (first : rom.resourceList = entry)
    (present : entry ≠ 0) (last : rom.link entry = 0) : rom.ResourceChain [entry] := by
  rw [MacRom.ResourceChain, first]
  refine .place present ?_
  rw [last]
  exact .null

/-- The resource is listed once where the header has no link. -/
theorem one_resource_enumerated : (oneResource 0).Enumerates 0x44525652 4 [0x100] := by
  have chain : (oneResource 0).ResourceChain [0x100] :=
    chain_of_one (by decide) (by decide) (by decide)
  refine (resources_enumerated_iff (oneResource 0) 0x44525652 4 [0x100] chain).mpr ?_
  have start : overrun (oneResource 0).link 0 ((oneResource 0).Matches 0x44525652 4) [0x100] = 0 :=
    by decide
  have fixed : ∀ n, (lookedAfter (oneResource 0).link 0
      ((oneResource 0).Matches 0x44525652 4))^[n] 0 = 0 :=
    fun n => Function.iterate_fixed (by decide) n
  rw [MacRom.QuietHeader, start]
  refine ⟨fun n here => ?_, fun n => ⟨0, .inr ?_⟩⟩
  · rw [fixed] at here
    exact absurd here (by decide)
  · rw [fixed]
    decide

/-- The search that is continued finds the only resource once more. -/
theorem one_resource_repeated :
    ¬ ∀ (rom : MacRom) (sType : BitVec 32) (sId : BitVec 16) (entries : List (BitVec 32)),
      rom.ResourceChain entries → rom.Enumerates sType sId entries := by
  intro all
  have chain : (oneResource 0x100).ResourceChain [0x100] :=
    chain_of_one (by decide) (by decide) (by decide)
  have yields := enumerates_iff_yields.mp (all (oneResource 0x100) 0x44525652 4 [0x100] chain)
  have quiet := (yields_iff_quiet chain).mp yields
  have again := quiet.silent 1 (by decide)
  exact absurd again (by decide)

end BasiliskII.Rom
