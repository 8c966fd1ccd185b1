import BasiliskII.Cdrom.Toc
import Mathlib.Data.List.Nodup
import Mathlib.Tactic.Common

/-!
# Audio positions

When an address that `position2msf` returns is the place that was asked for: a block number, a
minute, second and frame in BCD, or the start of a track, where stopping means the start of what
follows the track.
-/
namespace BasiliskII.Cdrom

open EndMarker

/-! ### Places -/

/-- The entries through the lead-out. -/
def Toc.listing (toc : Toc) : List TocEntry := through TocEntry.isLeadOut toc.entries

/-- Track numbers ascend, through the lead-out. -/
def Toc.Ascending (toc : Toc) : Prop :=
  toc.listing.Pairwise fun d e => d.track.toNat < e.track.toNat

/-- Second and frame are numbers of a second and a frame. -/
def Msf.Proper (t : Msf) : Prop := t.s.toNat < 60 ∧ t.f.toNat < 75

instance (t : Msf) : Decidable t.Proper := inferInstanceAs (Decidable (_ ∧ _))

/-- The BCD encoding of an address in a position. -/
def bcdPosition (t : Msf) : Nat := bcd t.m.toNat * 2 ^ 16 + bcd t.s.toNat * 2 ^ 8 + bcd t.f.toNat

/-- The position is a track of the TOC in BCD, and this entry is the track's; what follows it. -/
structure TrackAt (toc : Toc) (pos : BitVec 32) (e : TocEntry) (after : List TocEntry) : Prop where
  number : e.track.toNat < 100
  encoded : pos.toNat = bcd e.track.toNat
  listed : ∃ before, toc.listing = before ++ e :: after

/-- The start of the track, or when stopping of what follows it. -/
def TrackPlace (toc : Toc) (pos : BitVec 32) (stopping : Bool) (t : Msf) : Prop :=
  ∃ e after, TrackAt toc pos e after ∧
    if stopping then ∃ next rest, after = next :: rest ∧ t = next.msf else t = e.msf

/-- The address is the place that type and position stand for. -/
def Denotes (toc : Toc) (postype : BitVec 16) (pos : BitVec 32) (stopping : Bool) (t : Msf) : Prop :=
  t.Proper ∧
    if postype = 0 then (t.m.toNat * 60 + t.s.toNat) * 75 + t.f.toNat = pos.toNat
    else if postype = 1 then t.m.toNat < 100 ∧ pos.toNat = bcdPosition t
    else if postype = 2 then TrackPlace toc pos stopping t
    else False

/-- Whatever is returned is the place that was asked for. -/
def ConvertsFaithfully (toc : Toc) (postype : BitVec 16) (pos : BitVec 32) (stopping : Bool) :
    Prop :=
  ∀ t, position2msf toc postype pos stopping = some t → Denotes toc postype pos stopping t

/-- The number that a track search looks for. -/
def soughtTrack (pos : BitVec 32) (stopping : Bool) : BitVec 8 :=
  if stopping then bcd2bin (pos.extractLsb' 0 8) + 1 else bcd2bin (pos.extractLsb' 0 8)

/-- The entry a track search stops at. -/
def isSought (pos : BitVec 32) (stopping : Bool) (e : TocEntry) : Bool :=
  e.track = soughtTrack pos stopping || e.isLeadOut

/-- A track of the TOC is asked for. When stopping, the entry behind it has the next number, or
begins where the lead-out does. -/
def TrackConvertible (toc : Toc) (pos : BitVec 32) (stopping : Bool) : Prop :=
  ∃ e after, TrackAt toc pos e after ∧
    if stopping then
      ∃ next rest, after = next :: rest ∧ next.msf.Proper ∧
        (next.track.toNat = e.track.toNat + 1 ∨
          ∀ lead ∈ toc.listing, lead.isLeadOut = true → lead.msf = next.msf)
    else e.msf.Proper

/-- The minute fits into a byte; the position is a BCD address; the search finds nothing or a track
of the TOC is asked for. -/
def Convertible (toc : Toc) (postype : BitVec 16) (pos : BitVec 32) (stopping : Bool) : Prop :=
  if postype = 0 then pos.toNat < 256 * 60 * 75
  else if postype = 1 then
    ∃ t : Msf, t.m.toNat < 100 ∧ t.Proper ∧ pos.toNat = bcdPosition t
  else if postype = 2 then
    (∀ e ∈ toc.listing, isSought pos stopping e = false) ∨ TrackConvertible toc pos stopping
  else True

/-! ### Block numbers -/

theorem block_faithful_iff (toc : Toc) (pos : BitVec 32) (stopping : Bool) :
    ConvertsFaithfully toc 0 pos stopping ↔ pos.toNat < 256 * 60 * 75 := by
  have minutes : (BitVec.truncate 8 (pos / (60 * 75))).toNat = pos.toNat / 4500 % 256 := by
    simp [BitVec.toNat_udiv]
  have seconds : (BitVec.truncate 8 ((pos / 75) % 60)).toNat = pos.toNat / 75 % 60 := by
    have narrow : (BitVec.truncate 8 ((pos / 75) % 60)).toNat = pos.toNat / 75 % 60 % 256 := rfl
    omega
  have frames : (BitVec.truncate 8 (pos % 75)).toNat = pos.toNat % 75 := by
    have narrow : (BitVec.truncate 8 (pos % 75)).toNat = pos.toNat % 75 % 256 := rfl
    omega
  unfold ConvertsFaithfully position2msf Denotes Msf.Proper
  simp only [if_true]
  constructor
  · intro faithful
    obtain ⟨_, place⟩ := faithful _ rfl
    dsimp only at place
    rw [minutes, seconds, frames] at place
    omega
  · intro bound t returned
    cases returned
    dsimp only
    -- Only the minutes are cut off at eight bits; below the bound nothing is.
    rw [minutes, seconds, frames]
    omega

/-! ### BCD addresses -/

theorem bcd_lt {n : Nat} (small : n < 100) : bcd n < 256 := by
  unfold bcd
  omega

theorem bcd2bin_byte {pos : BitVec 32} {start : Nat} {b : BitVec 8} (small : b.toNat < 100)
    (byte : pos.toNat / 2 ^ start % 2 ^ 8 = bcd b.toNat) : bcd2bin (pos.extractLsb' start 8) = b := by
  have digits : pos.extractLsb' start 8 = BitVec.ofNat 8 (bcd b.toNat) := by
    apply BitVec.eq_of_toNat_eq
    rw [BitVec.extractLsb'_toNat, Nat.shiftRight_eq_div_pow, byte, BitVec.toNat_ofNat,
      Nat.mod_eq_of_lt (bcd_lt small)]
  rw [digits, bcd2bin_bcd _ small, BitVec.ofNat_toNat, BitVec.setWidth_eq]

theorem bcd_faithful_iff (toc : Toc) (pos : BitVec 32) (stopping : Bool) :
    ConvertsFaithfully toc 1 pos stopping ↔
      ∃ t : Msf, t.m.toNat < 100 ∧ t.Proper ∧ pos.toNat = bcdPosition t := by
  have other : (1 : BitVec 16) ≠ 0 := by decide
  unfold ConvertsFaithfully position2msf Denotes
  simp only [if_neg other, if_true]
  constructor
  · intro faithful
    obtain ⟨proper, minute, place⟩ := faithful _ rfl
    exact ⟨_, minute, proper, place⟩
  · rintro ⟨⟨m, s, f⟩, minute, ⟨second, frame⟩, place⟩ t returned
    dsimp only at minute second frame
    have minuteByte := bcd_lt minute
    have secondByte := bcd_lt (show s.toNat < 100 by omega)
    have frameByte := bcd_lt (show f.toNat < 100 by omega)
    have place' : pos.toNat = bcd m.toNat * 2 ^ 16 + bcd s.toNat * 2 ^ 8 + bcd f.toNat := place
    have exact : t = ⟨m, s, f⟩ := by
      cases returned
      rw [bcd2bin_byte minute (by omega), bcd2bin_byte (by omega : s.toNat < 100) (by omega),
        bcd2bin_byte (by omega : f.toNat < 100) (by omega)]
    rw [exact]
    exact ⟨⟨second, frame⟩, minute, place⟩

/-! ### Tracks -/

theorem position2msf_track (toc : Toc) (pos : BitVec 32) (stopping : Bool) :
    position2msf toc 2 pos stopping =
      (toc.listing.find? (isSought pos stopping)).map (·.msf) := by
  have searched : toc.search (fun t => t = soughtTrack pos stopping || t = 0xaa) 100 4 =
      some (4 + 8 * toc.entries.findIdx (isSought pos stopping)) := by
    have fromFirst := toc.search_eq (fun t => t = soughtTrack pos stopping || t = 0xaa)
      (show 0 + 100 = 100 from rfl)
    rwa [List.drop_zero, Nat.mul_zero, Nat.zero_add, Nat.add_zero] at fromFirst
  have counts (e : TocEntry) (last : e.isLeadOut = true) : isSought pos stopping e = true := by
    rw [isSought, last, Bool.or_true]
  unfold position2msf
  rw [if_neg (by decide), if_neg (by decide), if_pos rfl, Toc.listing, find?_through counts,
    List.find?_eq_getElem?_findIdx]
  change (do let i ← toc.search (fun t => t = soughtTrack pos stopping || t = 0xaa) 100 4; _) = _
  rw [searched]
  simp only [Option.bind_eq_bind, Option.bind_some]
  have bound : toc.entries.findIdx (isSought pos stopping) ≤ toc.entries.length :=
    List.findIdx_le_length
  rw [toc.length_entries] at bound
  generalize toc.entries.findIdx (isSought pos stopping) = k at bound ⊢
  by_cases found : k < 100
  · obtain ⟨_, _, m, s, f⟩ := toc.entry_bytes found
    have entry : toc.entries[k]? = some (toc.entry ⟨k, found⟩) := by
      have first := congrArg List.head? (toc.drop_entries found)
      rwa [List.head?_drop] at first
    rw [if_pos (by omega), m, s, f, entry]
    rfl
  · obtain rfl : k = 100 := by omega
    rw [if_neg (by omega), List.getElem?_eq_none (by simp)]
    rfl

section
variable {toc : Toc} (ascending : toc.Ascending) {pos : BitVec 32} {e : TocEntry}
  {after : List TocEntry}
include ascending

theorem same_entry {d e : TocEntry} (first : d ∈ toc.listing) (second : e ∈ toc.listing)
    (same : d.track = e.track) : d = e := by
  have numbers : (toc.listing.map (·.track.toNat)).Nodup :=
    List.pairwise_map.mpr (ascending.imp fun less => Nat.ne_of_lt less)
  exact List.inj_on_of_nodup_map numbers first second (congrArg BitVec.toNat same)

/-- Before the track come smaller numbers and no lead-out, and behind it greater numbers. -/
theorem TrackAt.order {before : List TocEntry} (parts : toc.listing = before ++ e :: after) :
    (∀ d ∈ before, d.track.toNat < e.track.toNat ∧ d.isLeadOut = false) ∧
      (∀ d ∈ after, e.track.toNat < d.track.toNat) := by
  have order : (before ++ e :: after).Pairwise fun d e => d.track.toNat < e.track.toNat :=
    parts ▸ ascending
  rw [List.pairwise_append] at order
  obtain ⟨_, behind, across⟩ := order
  refine ⟨fun d member => ⟨across d member e List.mem_cons_self, ?_⟩, ?_⟩
  · exact (not_end_of_through parts).1 d member
  · exact (List.pairwise_cons.mp behind).1

omit ascending in
theorem TrackAt.decoded (found : TrackAt toc pos e after) :
    bcd2bin (pos.extractLsb' 0 8) = e.track := by
  have digits : bcd e.track.toNat < 2 ^ 8 := bcd_lt found.number
  refine bcd2bin_byte found.number ?_
  rw [found.encoded, Nat.pow_zero, Nat.div_one, Nat.mod_eq_of_lt digits]

theorem find_track (found : TrackAt toc pos e after) :
    toc.listing.find? (isSought pos false) = some e := by
  obtain ⟨before, parts⟩ := found.listed
  have sought : soughtTrack pos false = e.track := found.decoded
  -- The numbers before the track are smaller than its own, and none is that of the lead-out.
  have skipped : before.find? (isSought pos false) = none := by
    refine List.find?_eq_none.mpr fun d member passes => ?_
    obtain ⟨less, notLast⟩ := (TrackAt.order ascending parts).1 d member
    rw [isSought, notLast, sought, Bool.or_false, decide_eq_true_eq] at passes
    rw [passes] at less
    exact Nat.lt_irrefl _ less
  have here : isSought pos false e = true := by simp [isSought, sought]
  rw [parts, List.find?_append, skipped, Option.none_or, List.find?_cons, here]

/-- When stopping, the search goes past the track and what comes before it. -/
theorem find_behind (found : TrackAt toc pos e after) (some_left : after ≠ []) :
    toc.listing.find? (isSought pos true) = after.find? (isSought pos true) ∧
      (soughtTrack pos true).toNat = e.track.toNat + 1 := by
  obtain ⟨before, parts⟩ := found.listed
  have sought : (soughtTrack pos true).toNat = e.track.toNat + 1 := by
    have small := found.number
    rw [soughtTrack, if_pos rfl, found.decoded]
    bv_omega
  have skips {d : TocEntry} (less : d.track.toNat ≤ e.track.toNat) (notLast : d.isLeadOut = false) :
      isSought pos true d = false := by
    have differs : d.track ≠ soughtTrack pos true := by
      intro same
      rw [← same] at sought
      omega
    rw [isSought, notLast, Bool.or_false]
    exact decide_eq_false differs
  refine ⟨?_, sought⟩
  have here : isSought pos true e = false :=
    skips (Nat.le_refl _) ((not_end_of_through parts).2 some_left)
  have skipped : before.find? (isSought pos true) = none := by
    refine List.find?_eq_none.mpr fun d member passes => ?_
    obtain ⟨less, notLast⟩ := (TrackAt.order ascending parts).1 d member
    rw [skips (Nat.le_of_lt less) notLast] at passes
    cases passes
  rw [parts, List.find?_append, skipped, Option.none_or, List.find?_cons, here]

/-- What the search finds behind a track is the entry with the next number, which then follows
the track, or the lead-out. -/
theorem found_behind {next : TocEntry} {rest : List TocEntry}
    (found : TrackAt toc pos e (next :: rest)) {d : TocEntry}
    (result : toc.listing.find? (isSought pos true) = some d) :
    if next.track.toNat = e.track.toNat + 1 then d = next
    else d ∈ toc.listing ∧ d.isLeadOut = true := by
  obtain ⟨behind, sought⟩ := find_behind ascending found (List.cons_ne_nil _ _)
  rw [behind] at result
  obtain ⟨before, parts⟩ := found.listed
  have order : (next :: rest).Pairwise fun d e => d.track.toNat < e.track.toNat := by
    have all : (before ++ e :: next :: rest).Pairwise fun d e => d.track.toNat < e.track.toNat :=
      parts ▸ ascending
    exact (List.pairwise_cons.mp (List.pairwise_append.mp all).2.1).2
  split
  next consecutive =>
    -- The entry behind the track is the one that is sought.
    have here : isSought pos true next = true := by
      have same : next.track = soughtTrack pos true :=
        BitVec.eq_of_toNat_eq (consecutive.trans sought.symm)
      simp [isSought, same]
    rw [List.find?_cons, here] at result
    exact (Option.some.inj result).symm
  next gap =>
    -- All numbers behind the track are too great, so only the lead-out is left.
    have member := List.mem_of_find?_eq_some result
    have above := (TrackAt.order ascending parts).2 next List.mem_cons_self
    have notNext : d.track ≠ soughtTrack pos true := by
      intro same
      have number : d.track.toNat = e.track.toNat + 1 := by rw [same, sought]
      rcases List.mem_cons.mp member with rfl | later
      · exact gap number
      · have further := (List.pairwise_cons.mp order).1 d later
        omega
    have passes := List.find?_some result
    rw [isSought, Bool.or_eq_true, decide_eq_true_eq] at passes
    refine ⟨?_, passes.resolve_left notNext⟩
    rw [parts]
    exact List.mem_append_right _ (List.mem_cons_of_mem _ member)

theorem convertible_of_place {stopping : Bool} {d : TocEntry}
    (result : toc.listing.find? (isSought pos stopping) = some d) (proper : d.msf.Proper)
    (place : TrackPlace toc pos stopping d.msf) : TrackConvertible toc pos stopping := by
  obtain ⟨e, after, found, place⟩ := place
  refine ⟨e, after, found, ?_⟩
  cases stopping with
  | false =>
    have start : d.msf = e.msf := place
    exact start ▸ proper
  | true =>
    obtain ⟨next, rest, rfl, start⟩ := place
    refine ⟨next, rest, rfl, start ▸ proper, ?_⟩
    have where_found := found_behind ascending found result
    by_cases consecutive : next.track.toNat = e.track.toNat + 1
    · exact .inl consecutive
    · rw [if_neg consecutive] at where_found
      refine .inr fun lead member last => ?_
      -- There is one lead-out, and the search found it.
      have same : lead.track = d.track := by
        have leadTrack : lead.track = 0xaa := of_decide_eq_true last
        have foundTrack : d.track = 0xaa := of_decide_eq_true where_found.2
        rw [leadTrack, foundTrack]
      rw [same_entry ascending member where_found.1 same, start]

theorem place_of_convertible {stopping : Bool} {d : TocEntry}
    (result : toc.listing.find? (isSought pos stopping) = some d)
    (convertible : TrackConvertible toc pos stopping) :
    d.msf.Proper ∧ TrackPlace toc pos stopping d.msf := by
  obtain ⟨e, after, found, place⟩ := convertible
  cases stopping with
  | false =>
    have here := find_track ascending found
    cases result.symm.trans here
    exact ⟨place, _, _, found, rfl⟩
  | true =>
    obtain ⟨next, rest, rfl, proper, follows⟩ := place
    have where_found := found_behind ascending found result
    have start : d.msf = next.msf := by
      split at where_found
      next consecutive => rw [where_found]
      next gap => exact follows.resolve_left gap d where_found.1 where_found.2
    exact ⟨start ▸ proper, _, _, found, next, rest, rfl, start⟩

theorem track_faithful_iff (stopping : Bool) :
    ConvertsFaithfully toc 2 pos stopping ↔
      (∀ e ∈ toc.listing, isSought pos stopping e = false) ∨ TrackConvertible toc pos stopping := by
  have first : (2 : BitVec 16) ≠ 0 := by decide
  have second : (2 : BitVec 16) ≠ 1 := by decide
  unfold ConvertsFaithfully Denotes
  simp only [position2msf_track, if_neg first, if_neg second, if_true]
  cases result : toc.listing.find? (isSought pos stopping) with
  | none =>
    have missing : ∀ e ∈ toc.listing, isSought pos stopping e = false := by
      intro e member
      simpa using List.find?_eq_none.mp result e member
    exact ⟨fun _ => .inl missing, fun _ t returned => by cases returned⟩
  | some d =>
    have present : ¬ ∀ e ∈ toc.listing, isSought pos stopping e = false := by
      intro missing
      have passes := List.find?_some result
      rw [missing d (List.mem_of_find?_eq_some result)] at passes
      cases passes
    rw [or_iff_right present]
    constructor
    · intro faithful
      obtain ⟨proper, place⟩ := faithful d.msf rfl
      exact convertible_of_place ascending result proper place
    · intro convertible t returned
      cases returned
      exact place_of_convertible ascending result convertible

end

/-- For a TOC with ascending tracks, positions convert faithfully exactly where they are
convertible. -/
theorem position_faithful_iff (toc : Toc) (postype : BitVec 16) (pos : BitVec 32) (stopping : Bool)
    (ascending : toc.Ascending) :
    ConvertsFaithfully toc postype pos stopping ↔ Convertible toc postype pos stopping := by
  unfold Convertible
  by_cases block : postype = 0
  · subst block
    rw [if_pos rfl]
    exact block_faithful_iff toc pos stopping
  · by_cases address : postype = 1
    · subst address
      rw [if_neg block, if_pos rfl]
      exact bcd_faithful_iff toc pos stopping
    · by_cases track : postype = 2
      · subst track
        rw [if_neg block, if_neg address, if_pos rfl]
        exact track_faithful_iff ascending stopping
      · rw [if_neg block, if_neg address, if_neg track]
        refine ⟨fun _ => trivial, fun _ t returned => ?_⟩
        rw [position2msf, if_neg block, if_neg address, if_neg track] at returned
        cases returned

/-- Two tracks and the lead-out. -/
def audioToc : Toc := fun i =>
  if i = 6 then 1 else if i = 10 then 2 else if i = 14 then 2 else if i = 17 then 3
  else if i = 22 then 0xaa else if i = 25 then 10 else 0

theorem audioToc_ascending : audioToc.Ascending := by
  unfold Toc.Ascending
  decide +kernel

theorem first_block_converts : ConvertsFaithfully audioToc 0 150 false :=
  (position_faithful_iff audioToc 0 150 false audioToc_ascending).mpr (by
    rw [Convertible, if_pos rfl]
    decide)

/-- Track 5 is not on the disk: the start of the lead-out is returned. -/
theorem missing_track_converts :
    ¬ ∀ (toc : Toc) (postype : BitVec 16) (pos : BitVec 32) (stopping : Bool), toc.Ascending →
      ConvertsFaithfully toc postype pos stopping := by
  intro all
  have faithful := all audioToc 2 5 false audioToc_ascending
  have returned : position2msf audioToc 2 5 false = some ⟨10, 0, 0⟩ := by decide +kernel
  obtain ⟨_, place⟩ := faithful _ returned
  rw [if_neg (by decide), if_neg (by decide), if_pos rfl] at place
  obtain ⟨e, after, found, -⟩ := place
  obtain ⟨before, parts⟩ := found.listed
  have number : bcd e.track.toNat = 5 := found.encoded.symm
  have member : e ∈ audioToc.listing := by
    rw [parts]
    exact List.mem_append_right _ List.mem_cons_self
  have missing : ∀ e ∈ audioToc.listing, bcd e.track.toNat ≠ 5 := by decide +kernel
  exact missing e member number

end BasiliskII.Cdrom
