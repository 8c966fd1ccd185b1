import BasiliskII.Video.Monitor
import Mathlib.Algebra.Group.Nat.Defs
import Mathlib.Data.List.Pairwise
import Mathlib.Tactic.Common

/-!
# The list of resolutions

`cscGetNextResolution` of `driver_status`: every call is given the resolution that the call
before returned, and answers with the next one that the monitor supports.
-/
namespace BasiliskII.Video

/-- The value of a `video_depth`. -/
def VideoDepth.rank : VideoDepth → Nat
  | .depth1bit => 0
  | .depth2bit => 1
  | .depth4bit => 2
  | .depth8bit => 3
  | .depth16bit => 4
  | .depth32bit => 5

theorem VideoDepth.rank_injective {a b : VideoDepth} (same : a.rank = b.rank) : a = b := by
  cases a <;> cases b <;> first | rfl | simp [rank] at same

theorem VideoDepth.mem_all (depth : VideoDepth) : depth ∈ VideoDepth.all := by
  cases depth <;> decide

namespace MonitorDesc

def hasResolution (m : MonitorDesc) (id : BitVec 32) : Bool :=
  m.modes.any (·.resolutionId = id)

/-- The mode with this Apple mode number and resolution; `none` for `invalid_mode()`. -/
def findMode (m : MonitorDesc) (appleMode : BitVec 16) (id : BitVec 32) : Option VideoMode :=
  m.modes.find? fun mode => mode.resolutionId = id && m.depthToAppleMode mode.depth = appleMode

/-- Maximum supported depth for a resolution: the source does not look at the resolution. -/
def maxDepthOfResolution (m : MonitorDesc) (_id : BitVec 32) : VideoDepth :=
  m.modes.foldl (fun deepest mode => if mode.depth.rank > deepest.rank then mode.depth else deepest)
    .depth1bit

end MonitorDesc

/-- What `cscGetNextResolution` writes for a resolution. -/
structure ResolutionInfo where
  displayModeId : BitVec 32
  horizontalPixels : BitVec 32
  verticalLines : BitVec 32
  refreshRate : BitVec 32
  maxDepthMode : BitVec 16
  resolutionFlags : BitVec 32
  deriving DecidableEq, Repr

inductive NextResolution
  | paramErr
  /-- No more resolutions: only `csRIDisplayModeID` is written. -/
  | noMore (displayModeId : BitVec 32)
  | resolution (info : ResolutionInfo)
  deriving DecidableEq, Repr

/-- `while (!has_resolution(id)) id++`; `none` if that has not ended within the fuel. -/
def firstResolution (has : BitVec 32 → Bool) : Nat → BitVec 32 → Option (BitVec 32)
  | 0, _ => none
  | fuel + 1, id => if has id then some id else firstResolution has fuel (id + 1)

/-- `while (!has_resolution(id) && id < 0x100) id++`, which makes at most 0x100 passes. -/
def nextResolution (has : BitVec 32 → Bool) : Nat → BitVec 32 → BitVec 32
  | 0, id => id
  | fuel + 1, id => if !has id && id < 0x100 then nextResolution has fuel (id + 1) else id

namespace MonitorDesc

def resolutionInfo (m : MonitorDesc) (id : BitVec 32) : ResolutionInfo where
  displayModeId := id
  horizontalPixels := (m.getSizeOfResolution id).1
  verticalLines := (m.getSizeOfResolution id).2
  refreshRate := 75 <<< 16
  maxDepthMode := m.depthToAppleMode (m.maxDepthOfResolution id)
  resolutionFlags := 0

/-- `cscGetNextResolution`, for the value of `csPreviousDisplayModeID`; `none` where the search
for the first resolution does not end. -/
def getNextResolution (m : MonitorDesc) (currentId id : BitVec 32) : Option NextResolution :=
  if id = 0 then
    some (.resolution (m.resolutionInfo currentId))
  else if id = 0xfffffffe then
    (firstResolution m.hasResolution (2 ^ 32) 0x80).map fun first =>
      .resolution (m.resolutionInfo first)
  else if !m.hasResolution id then
    some .paramErr
  else
    let next := nextResolution m.hasResolution 0x100 (id + 1)
    if next = 0x100 then
      some (.noMore 0xfffffffd)
    else
      some (.resolution (m.resolutionInfo next))

/-- The calls that start from `id` and go on from what each of them returned, up to the one that
finds no more resolutions. -/
inductive Enumerates (m : MonitorDesc) (currentId : BitVec 32) :
    BitVec 32 → List ResolutionInfo → Prop
  | noMore {id} (last : m.getNextResolution currentId id = some (.noMore 0xfffffffd)) :
      Enumerates m currentId id []
  | next {id info rest} (found : m.getNextResolution currentId id = some (.resolution info))
      (others : Enumerates m currentId info.displayModeId rest) :
      Enumerates m currentId id (info :: rest)

/-- The mode that is returned as the deepest one of a resolution is there and is the deepest. -/
def Usable (m : MonitorDesc) (info : ResolutionInfo) : Prop :=
  ∃ mode, m.findMode info.maxDepthMode info.displayModeId = some mode ∧
    ∀ other ∈ m.modes, other.resolutionId = info.displayModeId →
      other.depth.rank ≤ mode.depth.rank

/-- The calls return every supported resolution once, in ascending order, and each of them with
a mode that can be switched to. -/
structure Enumerated (m : MonitorDesc) (currentId : BitVec 32) (infos : List ResolutionInfo) :
    Prop where
  calls : m.Enumerates currentId 0xfffffffe infos
  ascending : (infos.map (·.displayModeId)).Pairwise (· < ·)
  supported (id : BitVec 32) : id ∈ infos.map (·.displayModeId) ↔ m.hasResolution id = true
  usable : ∀ info ∈ infos, m.Usable info

/-- Every resolution comes with the greatest depth of all modes. -/
def DeepestEverywhere (m : MonitorDesc) : Prop :=
  ∀ mode ∈ m.modes, ∃ deepest ∈ m.modes, deepest.resolutionId = mode.resolutionId ∧
    ∀ other ∈ m.modes, other.depth.rank ≤ deepest.depth.rank

end MonitorDesc

/-! ### Apple mode numbers -/

theorem appleModeLoop_ge (has : VideoDepth → Bool) {depth : VideoDepth} (present : has depth = true)
    {depths : List VideoDepth} (listed : depth ∈ depths) (mode : BitVec 16)
    (room : mode.toNat + depths.length < 2 ^ 16) :
    mode.toNat ≤ (appleModeLoop has depth depths mode).toNat := by
  induction depths generalizing mode with
  | nil => cases listed
  | cons d ds ih =>
    rw [appleModeLoop]
    by_cases here : d = depth
    · subst here
      simp [present]
    · have later : depth ∈ ds := by
        rcases List.mem_cons.mp listed with first | later
        · exact absurd first.symm here
        · exact later
      simp only [List.length_cons] at room
      rw [if_neg here]
      split
      · have step : (mode + 1).toNat = mode.toNat + 1 := by
          bv_omega
        have rest := ih later (mode + 1) (by omega)
        omega
      · exact ih later mode (by omega)

/-- Two depths that the monitor has do not share an Apple mode number. -/
theorem appleModeLoop_injective (has : VideoDepth → Bool) {a b : VideoDepth}
    (presentA : has a = true) (presentB : has b = true) {depths : List VideoDepth}
    (listedA : a ∈ depths) (listedB : b ∈ depths) (mode : BitVec 16)
    (room : mode.toNat + depths.length < 2 ^ 16)
    (same : appleModeLoop has a depths mode = appleModeLoop has b depths mode) : a = b := by
  induction depths generalizing mode with
  | nil => cases listedA
  | cons d ds ih =>
    simp only [List.length_cons] at room
    have step : (mode + 1).toNat = mode.toNat + 1 := by
      bv_omega
    -- a depth further down the list has a greater number than the first one
    have greater {c : VideoDepth} (present : has c = true) (later : c ∈ ds) :
        mode ≠ appleModeLoop has c ds (mode + 1) := by
      intro equal
      have above := appleModeLoop_ge has present later (mode + 1) (by omega)
      rw [← equal] at above
      omega
    have tail {c : VideoDepth} (listed : c ∈ d :: ds) (differs : d ≠ c) : c ∈ ds := by
      rcases List.mem_cons.mp listed with first | later
      · exact absurd first.symm differs
      · exact later
    simp only [appleModeLoop] at same
    by_cases hereA : d = a <;> by_cases hereB : d = b
    · exact hereA.symm.trans hereB
    · rw [if_pos hereA, if_neg hereB, hereA, if_pos presentA, if_pos presentA] at same
      exact absurd same (greater presentB (tail listedB hereB))
    · rw [if_neg hereA, if_pos hereB, hereB, if_pos presentB, if_pos presentB] at same
      exact absurd same.symm (greater presentA (tail listedA hereA))
    · rw [if_neg hereA, if_neg hereB] at same
      split at same
      · exact ih (tail listedA hereA) (tail listedB hereB) (mode + 1) (by omega) same
      · exact ih (tail listedA hereA) (tail listedB hereB) mode (by omega) same

namespace MonitorDesc

theorem hasDepth_of_mem {m : MonitorDesc} {mode : VideoMode} (member : mode ∈ m.modes) :
    m.hasDepth mode.depth = true := by
  simpa [hasDepth] using ⟨mode, member, rfl⟩

theorem depthToAppleMode_injective {m : MonitorDesc} {a b : VideoDepth}
    (presentA : m.hasDepth a = true) (presentB : m.hasDepth b = true)
    (same : m.depthToAppleMode a = m.depthToAppleMode b) : a = b :=
  appleModeLoop_injective m.hasDepth presentA presentB a.mem_all b.mem_all 0x80 (by decide) same

/-! ### The deepest mode -/

theorem maxDepth_loop (modes : List VideoMode) (start : VideoDepth) :
    let deepest := modes.foldl (fun deepest mode =>
      if mode.depth.rank > deepest.rank then mode.depth else deepest) start
    (deepest = start ∨ ∃ mode ∈ modes, mode.depth = deepest) ∧ start.rank ≤ deepest.rank ∧
      ∀ mode ∈ modes, mode.depth.rank ≤ deepest.rank := by
  -- The rest of the modes begins with the deeper of the start and the first mode.
  induction modes generalizing start with
  | nil => simp
  | cons mode rest ih =>
    simp only [List.foldl_cons]
    obtain ⟨origin, above, bounds⟩ :=
      ih (if mode.depth.rank > start.rank then mode.depth else start)
    have bothBelow : start.rank ≤ (if mode.depth.rank > start.rank then mode.depth else start).rank ∧
        mode.depth.rank ≤ (if mode.depth.rank > start.rank then mode.depth else start).rank := by
      split <;> omega
    refine ⟨?_, Nat.le_trans bothBelow.1 above, ?_⟩
    · rcases origin with origin | ⟨deepest, member, depth⟩
      · rw [origin]
        split
        · exact .inr ⟨mode, List.mem_cons_self, rfl⟩
        · exact .inl rfl
      · exact .inr ⟨deepest, List.mem_cons_of_mem _ member, depth⟩
    · intro other member
      rcases List.mem_cons.mp member with rfl | member
      · exact Nat.le_trans bothBelow.2 above
      · exact bounds other member

theorem depth_le_max (m : MonitorDesc) (id : BitVec 32) {mode : VideoMode}
    (member : mode ∈ m.modes) : mode.depth.rank ≤ (m.maxDepthOfResolution id).rank :=
  (maxDepth_loop m.modes .depth1bit).2.2 mode member

/-- Some mode has the depth, though not necessarily one of the resolution asked for. -/
theorem max_attained {m : MonitorDesc} (nonempty : m.modes ≠ []) (id : BitVec 32) :
    ∃ mode ∈ m.modes, mode.depth = m.maxDepthOfResolution id := by
  -- Where no mode is deeper than the start, all have the least depth there is.
  rcases (maxDepth_loop m.modes .depth1bit).1 with origin | attained
  · obtain ⟨mode, member⟩ := List.exists_mem_of_ne_nil m.modes nonempty
    have below := m.depth_le_max id member
    have lowest : m.maxDepthOfResolution id = .depth1bit := origin
    refine ⟨mode, member, VideoDepth.rank_injective ?_⟩
    rw [lowest] at below ⊢
    simpa [VideoDepth.rank] using below
  · exact attained

theorem findMode_some {m : MonitorDesc} {appleMode : BitVec 16} {id : BitVec 32}
    {mode : VideoMode} (found : m.findMode appleMode id = some mode) :
    mode ∈ m.modes ∧ mode.resolutionId = id ∧ m.depthToAppleMode mode.depth = appleMode := by
  have holds := List.find?_some found
  simp only [Bool.and_eq_true, decide_eq_true_eq] at holds
  exact ⟨List.mem_of_find?_eq_some found, holds.1, holds.2⟩

/-- `find_mode` finds a mode of the depth if the resolution has one, and no other mode. -/
theorem findMode_depth {m : MonitorDesc} {depth : VideoDepth} (present : m.hasDepth depth = true)
    (id : BitVec 32) :
    (∃ mode, m.findMode (m.depthToAppleMode depth) id = some mode ∧ mode.depth = depth) ∨
      (m.findMode (m.depthToAppleMode depth) id = none ∧
        ∀ mode ∈ m.modes, mode.resolutionId = id → mode.depth ≠ depth) := by
  cases found : m.findMode (m.depthToAppleMode depth) id with
  | some mode =>
    obtain ⟨member, _, same⟩ := findMode_some found
    exact .inl ⟨mode, rfl, depthToAppleMode_injective (hasDepth_of_mem member) present same⟩
  | none =>
    refine .inr ⟨rfl, fun mode member resolution depthSame => ?_⟩
    have fails := List.find?_eq_none.mp found mode member
    simp [resolution, depthSame] at fails

/-- What is returned for a supported resolution can be used iff one of its modes has the greatest
depth of all modes. -/
theorem usable_iff {m : MonitorDesc} (nonempty : m.modes ≠ []) (id : BitVec 32) :
    m.Usable (m.resolutionInfo id) ↔
      ∃ deepest ∈ m.modes, deepest.resolutionId = id ∧
        ∀ other ∈ m.modes, other.depth.rank ≤ deepest.depth.rank := by
  obtain ⟨top, topMember, topDepth⟩ := max_attained nonempty id
  have present : m.hasDepth (m.maxDepthOfResolution id) = true := by
    rw [← topDepth]
    exact hasDepth_of_mem topMember
  constructor
  · rintro ⟨mode, found, -⟩
    obtain ⟨member, resolution, same⟩ := findMode_some found
    have depth := depthToAppleMode_injective (hasDepth_of_mem member) present same
    refine ⟨mode, member, resolution, fun other otherMember => ?_⟩
    rw [depth]
    exact m.depth_le_max id otherMember
  · rintro ⟨deepest, member, resolution, bounds⟩
    have depth : deepest.depth = m.maxDepthOfResolution id := by
      apply VideoDepth.rank_injective
      have below := m.depth_le_max id member
      have above := bounds top topMember
      rw [topDepth] at above
      omega
    rcases findMode_depth present id with ⟨mode, found, modeDepth⟩ | ⟨_, missing⟩
    · refine ⟨mode, found, fun other otherMember _ => ?_⟩
      rw [modeDepth]
      exact m.depth_le_max id otherMember
    · exact absurd depth (missing deepest member resolution)

end MonitorDesc

/-! ### The two searches -/

theorem firstResolution_spec (has : BitVec 32 → Bool) (fuel : Nat) (id : BitVec 32)
    (later : ∃ target, id ≤ target ∧ has target = true ∧ target.toNat - id.toNat < fuel) :
    ∃ first, firstResolution has fuel id = some first ∧ has first = true ∧
      ∀ other, id ≤ other → has other = true → first ≤ other := by
  induction fuel generalizing id with
  | zero => grind
  | succ fuel ih =>
    obtain ⟨target, above, supported, near⟩ := later
    rw [firstResolution]
    by_cases here : has id = true
    · exact ⟨id, by simp [here], here, fun other above _ => above⟩
    · have further {other : BitVec 32} (above : id ≤ other) (supported : has other = true) :
          id + 1 ≤ other ∧ (id + 1).toNat = id.toNat + 1 := by
        have differs : id ≠ other := fun equal => here (equal ▸ supported)
        bv_omega
      obtain ⟨next, step⟩ := further above supported
      obtain ⟨first, result, firstSupported, least⟩ :=
        ih (id + 1) ⟨target, next, supported, by bv_omega⟩
      refine ⟨first, by rw [if_neg here, result], firstSupported,
        fun other otherAbove otherSupported => ?_⟩
      exact least other (further otherAbove otherSupported).1 otherSupported

theorem nextResolution_spec (has : BitVec 32 → Bool) (fuel : Nat) (id : BitVec 32)
    (below : id.toNat ≤ 0x100) (enough : 0x100 - id.toNat ≤ fuel) :
    let next := nextResolution has fuel id
    id ≤ next ∧ next.toNat ≤ 0x100 ∧ (next.toNat < 0x100 → has next = true) ∧
      ∀ other, id ≤ other → has other = true → next ≤ other ∨ 0x100 ≤ other.toNat := by
  induction fuel generalizing id with
  | zero =>
    refine ⟨BitVec.le_refl _, below, ?_, ?_⟩
    · simp only [nextResolution]
      omega
    · intro other above _
      exact .inl above
  | succ fuel ih =>
    simp only [nextResolution]
    split
    next goesOn =>
      simp only [Bool.and_eq_true, Bool.not_eq_true', decide_eq_true_eq] at goesOn
      obtain ⟨unsupported, low⟩ := goesOn
      have low : id.toNat < 0x100 := by simpa [BitVec.lt_def] using low
      have step : (id + 1).toNat = id.toNat + 1 := by bv_omega
      obtain ⟨above, high, supported, least⟩ := ih (id + 1) (by omega) (by omega)
      refine ⟨by bv_omega, high, supported, fun other otherAbove otherSupported => ?_⟩
      have differs : id ≠ other := by
        intro equal
        rw [equal, otherSupported] at unsupported
        cases unsupported
      exact least other (by bv_omega) otherSupported
    next stops =>
      refine ⟨BitVec.le_refl _, below, ?_, fun other above _ => .inl above⟩
      intro low
      simpa [BitVec.lt_def, low] using stops

namespace MonitorDesc

/-! ### The run of calls -/

theorem hasResolution_iff (m : MonitorDesc) (id : BitVec 32) :
    m.hasResolution id = true ↔ ∃ mode ∈ m.modes, mode.resolutionId = id := by
  simp [hasResolution]

/-- Everything the calls return is the description of some resolution. -/
theorem Enumerates.described {m : MonitorDesc} {currentId id : BitVec 32}
    {infos : List ResolutionInfo} (calls : m.Enumerates currentId id infos) :
    ∀ info ∈ infos, info = m.resolutionInfo info.displayModeId := by
  induction calls with
  | noMore _ => simp
  | @next id info rest found _ ih =>
    intro other member
    rcases List.mem_cons.mp member with rfl | member
    · unfold getNextResolution at found
      split at found
      · cases found
        rfl
      · split at found
        · obtain ⟨first, _, equal⟩ := Option.map_eq_some_iff.mp found
          cases equal
          rfl
        · split at found
          · cases found
          · dsimp only at found
            split at found
            · cases found
            · cases found
              rfl
    · exact ih other member

section
variable {m : MonitorDesc}
  (inRange : ∀ mode ∈ m.modes, 0x80 ≤ mode.resolutionId.toNat ∧ mode.resolutionId.toNat ≤ 0xff)
include inRange

theorem supported_range {id : BitVec 32} (supported : m.hasResolution id = true) :
    0x80 ≤ id.toNat ∧ id.toNat ≤ 0xff := by
  obtain ⟨mode, member, rfl⟩ := (m.hasResolution_iff id).mp supported
  exact inRange mode member

/-- From a supported resolution the calls return the supported ones above it. -/
theorem enumerates_above (currentId : BitVec 32) (left : Nat) (id : BitVec 32)
    (supported : m.hasResolution id = true) (near : 0x100 - id.toNat ≤ left) :
    ∃ infos, m.Enumerates currentId id infos ∧
      (infos.map (·.displayModeId)).Pairwise (· < ·) ∧
      ∀ other, other ∈ infos.map (·.displayModeId) ↔ id < other ∧ m.hasResolution other = true := by
  -- Each call leaves fewer numbers below the limit.
  induction left generalizing id with
  | zero =>
    have range := supported_range inRange supported
    omega
  | succ left ih =>
    have range := supported_range inRange supported
    have step : (id + 1).toNat = id.toNat + 1 := by bv_omega
    have call : m.getNextResolution currentId id =
        if nextResolution m.hasResolution 0x100 (id + 1) = 0x100 then some (.noMore 0xfffffffd)
        else some (.resolution
          (m.resolutionInfo (nextResolution m.hasResolution 0x100 (id + 1)))) := by
      rw [getNextResolution, if_neg (by bv_omega), if_neg (by bv_omega), supported]
      rfl
    obtain ⟨above, high, nextSupported, least⟩ :=
      nextResolution_spec m.hasResolution 0x100 (id + 1) (by omega) (by omega)
    generalize nextResolution m.hasResolution 0x100 (id + 1) = next at *
    -- A search that reaches the limit found nothing, and then there is nothing above.
    by_cases last : next = 0x100
    · refine ⟨[], .noMore (by rw [call, if_pos last]), .nil, fun other => ?_⟩
      simp only [List.map_nil, List.not_mem_nil, false_iff, not_and]
      intro otherAbove otherSupported
      have otherRange := supported_range inRange otherSupported
      rcases least other (by bv_omega) otherSupported with up | up
      · subst last
        bv_omega
      · omega
    · have low : next.toNat < 0x100 := by bv_omega
      obtain ⟨rest, calls, ascending, members⟩ := ih next (nextSupported low) (by bv_omega)
      refine ⟨m.resolutionInfo next :: rest, .next (by rw [call, if_neg last]) calls, ?_, ?_⟩
      · rw [List.map_cons, List.pairwise_cons]
        exact ⟨fun other member => ((members other).mp member).1, ascending⟩
      · intro other
        rw [List.map_cons, List.mem_cons, members]
        constructor
        · rintro (rfl | ⟨up, otherSupported⟩)
          · exact ⟨by bv_omega, nextSupported low⟩
          · exact ⟨by bv_omega, otherSupported⟩
        · rintro ⟨up, otherSupported⟩
          have otherRange := supported_range inRange otherSupported
          rcases least other (by bv_omega) otherSupported with further | further
          · by_cases equal : other = next
            · exact .inl equal
            · exact .inr ⟨by bv_omega, otherSupported⟩
          · omega

/-- The whole run of calls returns the supported resolutions in ascending order. -/
theorem enumerates_all (nonempty : m.modes ≠ []) (currentId : BitVec 32) :
    ∃ infos, m.Enumerates currentId 0xfffffffe infos ∧
      (infos.map (·.displayModeId)).Pairwise (· < ·) ∧
      ∀ id, id ∈ infos.map (·.displayModeId) ↔ m.hasResolution id = true := by
  obtain ⟨mode, member⟩ := List.exists_mem_of_ne_nil m.modes nonempty
  have modeRange := inRange mode member
  obtain ⟨first, result, supported, least⟩ :=
    firstResolution_spec m.hasResolution (2 ^ 32) 0x80
      ⟨mode.resolutionId, by bv_omega, (m.hasResolution_iff _).mpr ⟨mode, member, rfl⟩, by omega⟩
  obtain ⟨rest, calls, ascending, members⟩ :=
    enumerates_above inRange currentId 0x100 first supported (by omega)
  have call : m.getNextResolution currentId 0xfffffffe =
      some (.resolution (m.resolutionInfo first)) := by
    rw [getNextResolution, if_neg (by decide), if_pos rfl, result]
    rfl
  refine ⟨m.resolutionInfo first :: rest, .next call calls, ?_, ?_⟩
  · rw [List.map_cons, List.pairwise_cons]
    exact ⟨fun other member => ((members other).mp member).1, ascending⟩
  · intro id
    rw [List.map_cons, List.mem_cons, members]
    constructor
    · rintro (rfl | ⟨_, idSupported⟩)
      · exact supported
      · exact idSupported
    · intro idSupported
      have range := supported_range inRange idSupported
      have up := least id (by bv_omega) idSupported
      by_cases equal : id = first
      · exact .inl equal
      · exact .inr ⟨by bv_omega, idSupported⟩

end

/-! ### When the answers can be used -/

/-- The calls return every resolution once and in ascending order, and what they return can be
used iff every resolution comes with the greatest depth of all modes. -/
theorem resolutions_enumerated_iff (m : MonitorDesc) (currentId : BitVec 32)
    (nonempty : m.modes ≠ [])
    (inRange : ∀ mode ∈ m.modes,
      0x80 ≤ mode.resolutionId.toNat ∧ mode.resolutionId.toNat ≤ 0xff) :
    (∃ infos, m.Enumerated currentId infos) ↔ m.DeepestEverywhere := by
  constructor
  · rintro ⟨infos, run⟩ mode member
    have listed : mode.resolutionId ∈ infos.map (·.displayModeId) :=
      (run.supported _).mpr ((m.hasResolution_iff _).mpr ⟨mode, member, rfl⟩)
    obtain ⟨info, infoMember, same⟩ := List.mem_map.mp listed
    have usable := run.usable info infoMember
    rw [run.calls.described info infoMember, same] at usable
    exact (usable_iff nonempty _).mp usable
  · intro deepest
    obtain ⟨infos, calls, ascending, members⟩ := enumerates_all inRange nonempty currentId
    refine ⟨infos, calls, ascending, members, fun info infoMember => ?_⟩
    have supported := (members _).mp (List.mem_map_of_mem infoMember)
    obtain ⟨mode, member, same⟩ := (m.hasResolution_iff _).mp supported
    rw [calls.described info infoMember, ← same]
    exact (usable_iff nonempty _).mpr (deepest mode member)

end MonitorDesc

def vgaMode (depth : VideoDepth) : VideoMode := ⟨640, 480, 0x80, depth, trivialBytesPerRow 640 depth⟩

def svgaMode (depth : VideoDepth) : VideoMode := ⟨800, 600, 0x81, depth, trivialBytesPerRow 800 depth⟩

/-- Two resolutions with two depths each. -/
def evenMonitor : MonitorDesc where
  slotId := 0x80
  modes := [vgaMode .depth8bit, vgaMode .depth32bit, svgaMode .depth8bit, svgaMode .depth32bit]
  currentMode := vgaMode .depth8bit
  macFrameBase := 0xa0000000

/-- The greater resolution does not have the greater depth. -/
def unevenMonitor : MonitorDesc where
  slotId := 0x80
  modes := [vgaMode .depth8bit, vgaMode .depth32bit, svgaMode .depth8bit]
  currentMode := vgaMode .depth8bit
  macFrameBase := 0xa0000000

theorem even_resolutions_enumerated : ∃ infos, evenMonitor.Enumerated 0x80 infos :=
  (evenMonitor.resolutions_enumerated_iff 0x80 (by decide) (by decide)).mpr (by
    unfold MonitorDesc.DeepestEverywhere
    decide)

theorem uneven_resolutions_unusable :
    ¬ ∀ (m : MonitorDesc) (currentId : BitVec 32), m.modes ≠ [] →
      (∀ mode ∈ m.modes, 0x80 ≤ mode.resolutionId.toNat ∧ mode.resolutionId.toNat ≤ 0xff) →
      ∃ infos, m.Enumerated currentId infos := by
  intro all
  obtain ⟨infos, run⟩ := all unevenMonitor 0x80 (by decide) (by decide)
  have listed : 0x81 ∈ infos.map (·.displayModeId) := (run.supported 0x81).mpr (by decide)
  obtain ⟨info, member, same⟩ := List.mem_map.mp listed
  have usable := run.usable info member
  rw [run.calls.described info member, same] at usable
  obtain ⟨mode, found, -⟩ := usable
  have missing : unevenMonitor.findMode (unevenMonitor.resolutionInfo 0x81).maxDepthMode
      (unevenMonitor.resolutionInfo 0x81).displayModeId = none := by decide
  rw [missing] at found
  cases found

end BasiliskII.Video
