import BasiliskII.Cdrom.Toc
import Mathlib.Tactic.Common

/-!
# What ReadTOC returns

When `Control(100)` action 3 stays inside the buffer it is given and inside the TOC, and returns
the entries from the requested track through the lead-out.
-/
namespace BasiliskII.Cdrom

open ByteMemory EndMarker

/-! ### The filling loop over the entries -/

/-- The filling loop on the entries that are left; reading on behind the last one fails. -/
def fillEntries : List TocEntry → BitVec 16 → Option (List (BitVec 8))
  | [], bufSize => if bufSize = 0 then some [] else none
  | e :: es, bufSize =>
    if bufSize = 0 then some []
    else if e.isLeadOut then some e.bytes
    else (fillEntries es (bufSize - 4)).map (e.bytes ++ ·)

theorem fillBuffer_eq (toc : Toc) {left k fuel : Nat} (all : k + left = 100) (enough : left < fuel)
    (bufSize : BitVec 16) :
    toc.fillBuffer fuel (4 + 8 * k) bufSize = fillEntries (toc.entries.drop k) bufSize := by
  induction left generalizing k fuel bufSize with
  | zero =>
    obtain rfl : k = 100 := by omega
    obtain ⟨fuel, rfl⟩ : ∃ n, fuel = n + 1 := ⟨fuel - 1, by omega⟩
    rw [toc.drop_all, Toc.fillBuffer, fillEntries]
    split
    · rfl
    · -- Behind the last entry the loop reads on outside the TOC.
      have outside : toc.byte (4 + 8 * 100 + 1) = none := dif_neg (by omega)
      rw [outside]
      rfl
  | succ left ih =>
    obtain ⟨fuel, rfl⟩ : ∃ n, fuel = n + 1 := ⟨fuel - 1, by omega⟩
    have inside : k < 100 := by omega
    obtain ⟨control, track, m, s, f⟩ := toc.entry_bytes inside
    rw [Toc.fillBuffer, toc.drop_entries inside, fillEntries, control, track, m, s, f]
    simp only [Option.bind_eq_bind, Option.bind_some]
    have next := ih (show k + 1 + left = 100 by omega) (show left < fuel by omega) (bufSize - 4)
    rw [show 4 + 8 * (k + 1) = 4 + 8 * k + 8 by omega] at next
    rw [next]
    cases fillEntries (toc.entries.drop (k + 1)) (bufSize - 4) <;>
      simp [TocEntry.isLeadOut, TocEntry.bytes]

@[simp] theorem TocEntry.length_bytes (e : TocEntry) : e.bytes.length = 4 := rfl

/-- The bytes of the entries through the lead-out. -/
def listedBytes (es : List TocEntry) : List (BitVec 8) :=
  (through TocEntry.isLeadOut es).flatMap TocEntry.bytes

variable (es : List TocEntry)

theorem length_listedBytes :
    (listedBytes es).length = 4 * (through TocEntry.isLeadOut es).length := by
  unfold listedBytes
  induction through TocEntry.isLeadOut es with
  | nil => rfl
  | cons e es ih =>
    rw [List.flatMap_cons, List.length_append, ih, e.length_bytes, List.length_cons]
    omega

theorem listedBytes_cons (e : TocEntry) (es : List TocEntry) :
    listedBytes (e :: es) = if e.isLeadOut then e.bytes else e.bytes ++ listedBytes es := by
  unfold listedBytes
  rw [through]
  split <;> simp

abbrev HasLeadOut (es : List TocEntry) : Prop := Ended TocEntry.isLeadOut es

/-- With a multiple of four the loop stops where the buffer is full or at the lead-out. -/
theorem fillEntries_whole (bufSize : BitVec 16) (whole : 4 ∣ bufSize.toNat) :
    fillEntries es bufSize =
      if HasLeadOut es ∨ bufSize.toNat ≤ (listedBytes es).length then
        some ((listedBytes es).take bufSize.toNat)
      else none := by
  -- The size stays a multiple of four, so that it reaches zero before it would wrap.
  induction es generalizing bufSize with
  | nil =>
    have length : (listedBytes []).length = 0 := rfl
    rw [fillEntries, length]
    by_cases full : bufSize = 0
    · rw [if_pos full, if_pos (.inr (by rw [full]; decide)), full]
      rfl
    · have positive : ¬ bufSize.toNat ≤ 0 := fun none => full (BitVec.eq_of_toNat_eq (by simpa using none))
      rw [if_neg full, if_neg (by rintro (ended | few); exacts [not_ended_nil ended, positive few])]
  | cons e es ih =>
    rw [fillEntries]
    by_cases full : bufSize = 0
    · have none : bufSize.toNat = 0 := by rw [full]; rfl
      rw [if_pos full, none, if_pos (.inr (Nat.zero_le _)), List.take_zero]
    · have room : 4 ≤ bufSize.toNat := by
        have positive : bufSize.toNat ≠ 0 := fun none => full (BitVec.eq_of_toNat_eq (by simpa using none))
        omega
      have less : (bufSize - 4).toNat = bufSize.toNat - 4 := by bv_omega
      rw [if_neg full, listedBytes_cons]
      by_cases last : e.isLeadOut = true
      · rw [if_pos last, if_pos last, if_pos (.inl ((ended_cons e es).mpr (.inl last))),
          List.take_of_length_le (by simpa using room)]
      · rw [if_neg last, if_neg last, ih (bufSize - 4) (by omega), less]
        have ended : HasLeadOut (e :: es) ↔ HasLeadOut es := by
          rw [HasLeadOut, ended_cons]
          exact or_iff_right last
        have length : (e.bytes ++ listedBytes es).length = 4 + (listedBytes es).length := by simp
        have same : bufSize.toNat - 4 ≤ (listedBytes es).length ↔
            bufSize.toNat ≤ 4 + (listedBytes es).length := by omega
        have entry : e.bytes.take bufSize.toNat = e.bytes :=
          List.take_of_length_le (by simpa using room)
        simp only [ended, length, same]
        split
        · rw [Option.map_some, List.take_append, entry, e.length_bytes]
        · rfl

theorem fillEntries_broken (bufSize : BitVec 16) (broken : ¬ 4 ∣ bufSize.toNat) :
    fillEntries es bufSize = if HasLeadOut es then some (listedBytes es) else none := by
  -- The size is never zero, whether it wraps or not.
  induction es generalizing bufSize with
  | nil =>
    have some_left : bufSize ≠ 0 := by
      rintro rfl
      exact broken (by decide)
    rw [fillEntries, if_neg some_left, if_neg not_ended_nil]
  | cons e es ih =>
    have some_left : bufSize ≠ 0 := by
      rintro rfl
      exact broken (by decide)
    rw [fillEntries, if_neg some_left, listedBytes_cons]
    by_cases last : e.isLeadOut = true
    · rw [if_pos last, if_pos last, if_pos ((ended_cons e es).mpr (.inl last))]
    · have ended : HasLeadOut (e :: es) ↔ HasLeadOut es := by
        rw [HasLeadOut, ended_cons]
        exact or_iff_right last
      have less : ¬ 4 ∣ (bufSize - 4).toNat := by
        have wrapped : (bufSize - 4).toNat = (bufSize.toNat + 65532) % 65536 := by
          rw [BitVec.toNat_sub, Nat.add_comm]
          rfl
        omega
      rw [if_neg last, if_neg last, ih (bufSize - 4) less]
      simp only [ended]
      split <;> rfl

/-- The size is a multiple of four or enough for everything, and there is a lead-out or no room
for more than there is. -/
def Fits (es : List TocEntry) (bufSize : BitVec 16) : Prop :=
  (4 ∣ bufSize.toNat ∨ (listedBytes es).length ≤ bufSize.toNat) ∧
    (HasLeadOut es ∨ bufSize.toNat ≤ (listedBytes es).length)

instance (es : List TocEntry) (bufSize : BitVec 16) : Decidable (Fits es bufSize) :=
  inferInstanceAs (Decidable (_ ∧ _))

theorem fillEntries_right_iff (bufSize : BitVec 16) :
    fillEntries es bufSize = some ((listedBytes es).take bufSize.toNat) ↔ Fits es bufSize := by
  have length := length_listedBytes es
  unfold Fits
  by_cases whole : 4 ∣ bufSize.toNat
  · rw [fillEntries_whole es bufSize whole]
    split
    next stops => exact ⟨fun _ => ⟨.inl whole, stops⟩, fun _ => rfl⟩
    next goesOn => exact ⟨fun same => (by cases same), fun fits => absurd fits.2 goesOn⟩
  · rw [fillEntries_broken es bufSize whole]
    split
    next ended =>
      rw [Option.some_inj]
      constructor
      · intro same
        -- Everything is stored, so it has to fit.
        have short := congrArg List.length same
        rw [List.length_take] at short
        exact ⟨.inr (by omega), .inl ended⟩
      · rintro ⟨multiple | enough, _⟩
        · exact absurd multiple whole
        · exact (List.take_of_length_le enough).symm
    next notEnded =>
      refine ⟨fun same => (by cases same), ?_⟩
      rintro ⟨multiple | enough, ended | full⟩
      · exact absurd multiple whole
      · exact absurd multiple whole
      · exact absurd ended notEnded
      · exact absurd ⟨(through TocEntry.isLeadOut es).length, by omega⟩ whole

/-! ### The call -/

/-- The entries from the track on whose number is this. -/
def fromTrack (toc : Toc) (track : BitVec 8) : List TocEntry :=
  toc.entries.dropWhile fun e => e.track ≠ track

/-- What the track asked for stands for: no entries where it is not a BCD number. -/
def requested (toc : Toc) (track : BitVec 8) : List TocEntry :=
  if IsBcd track then fromTrack toc (bcd2bin track) else []

/-- The call stores at most `buf_size` bytes, and these are the requested entries as far as they
go; nothing outside the TOC is read. -/
def ReadTocRight (info : TocInfo) (mem : Memory 32) (pb : BitVec 32) : Prop :=
  let bufSize := getWord mem (pb + csParam + 6)
  ∃ bytes, readToc info mem pb = some ⟨noErr, getLong mem (pb + csParam + 2), bytes⟩ ∧
    bytes.length ≤ bufSize.toNat ∧
    bytes = (listedBytes (requested info.toc (mem (pb + csParam + 8)))).take bufSize.toNat

/-- There is no entry with the number, or no room, or the track asked for is a BCD number and the
entries from it on fit. -/
def TocRequestFits (toc : Toc) (track : BitVec 8) (bufSize : BitVec 16) : Prop :=
  fromTrack toc (bcd2bin track) = [] ∨ bufSize = 0 ∨
    (IsBcd track ∧ Fits (fromTrack toc (bcd2bin track)) bufSize)

theorem fromTrack_eq_drop (toc : Toc) (track : BitVec 8) :
    fromTrack toc track = toc.entries.drop (toc.entries.findIdx fun e => e.track = track) := by
  rw [fromTrack, List.dropWhile_eq_drop_findIdx_not]
  simp

/-- The call stores what the filling loop stores from the first entry with the number on. -/
theorem readToc_eq (info : TocInfo) {mem : Memory 32} {pb : BitVec 32}
    (inPlace : mem (info.status + Disk.dsDiskInPlace) ≠ 0) (action : getWord mem (pb + csParam) = 3) :
    readToc info mem pb =
      let es := fromTrack info.toc (bcd2bin (mem (pb + csParam + 8)))
      if es = [] then some ⟨noErr, getLong mem (pb + csParam + 2), []⟩
      else (fillEntries es (getWord mem (pb + csParam + 6))).map
        (⟨noErr, getLong mem (pb + csParam + 2), ·⟩) := by
  unfold readToc
  rw [if_neg inPlace, action]
  dsimp only
  rw [if_neg (by decide), if_neg (by decide), if_pos rfl, fromTrack_eq_drop]
  have searched := info.toc.search_eq (fun t => t = bcd2bin (mem (pb + csParam + 8)))
    (show 0 + 100 = 100 from rfl)
  rw [List.drop_zero, Nat.mul_zero, Nat.zero_add, Nat.add_zero] at searched
  rw [searched]
  simp only [Option.bind_eq_bind, Option.bind_some]
  have bound : info.toc.entries.findIdx (fun e => e.track = bcd2bin (mem (pb + csParam + 8))) ≤
      info.toc.entries.length := List.findIdx_le_length
  rw [info.toc.length_entries] at bound
  generalize info.toc.entries.findIdx (fun e => decide (e.track = bcd2bin (mem (pb + csParam + 8)))) = k
    at bound ⊢
  by_cases found : k < 100
  · rw [if_pos (by omega), if_neg (by rw [info.toc.drop_entries found]; exact List.cons_ne_nil _ _),
      fillBuffer_eq info.toc (show k + (100 - k) = 100 by omega) (by omega)]
    cases fillEntries (info.toc.entries.drop k) (getWord mem (pb + csParam + 6)) <;> rfl
  · obtain rfl : k = 100 := by omega
    rw [if_neg (by omega), info.toc.drop_all, if_pos rfl]

theorem fillEntries_zero : fillEntries es 0 = some [] := by
  cases es <;> rfl

/-- What is stored for some entry is not empty where there is room. -/
theorem fillEntries_ne_nil {es : List TocEntry} {bufSize : BitVec 16} (entries : es ≠ [])
    (room : bufSize ≠ 0) : fillEntries es bufSize ≠ some [] := by
  cases es with
  | nil => exact absurd rfl entries
  | cons e es =>
    rw [fillEntries, if_neg room]
    split
    · simp [TocEntry.bytes]
    · cases fillEntries es (bufSize - 4) <;> simp [TocEntry.bytes]

/-- ReadTOC returns what it should exactly where the request fits. -/
theorem read_toc_right_iff (info : TocInfo) (mem : Memory 32) (pb : BitVec 32)
    (inPlace : mem (info.status + Disk.dsDiskInPlace) ≠ 0)
    (action : getWord mem (pb + csParam) = 3) :
    ReadTocRight info mem pb ↔
      TocRequestFits info.toc (mem (pb + csParam + 8)) (getWord mem (pb + csParam + 6)) := by
  unfold ReadTocRight TocRequestFits requested
  rw [readToc_eq info inPlace action]
  generalize mem (pb + csParam + 8) = track
  generalize getWord mem (pb + csParam + 6) = bufSize
  generalize getLong mem (pb + csParam + 2) = buf
  generalize es_eq : fromTrack info.toc (bcd2bin track) = es
  dsimp only
  -- Without an entry nothing is stored, whatever the size is.
  by_cases missing : es = []
  · subst missing
    refine ⟨fun _ => .inl rfl, fun _ => ⟨[], rfl, Nat.zero_le _, ?_⟩⟩
    split <;> exact List.take_nil.symm
  · rw [if_neg missing]
    constructor
    · rintro ⟨bytes, result, -, same⟩
      obtain ⟨stored, filled, equal⟩ := Option.map_eq_some_iff.mp result
      cases equal
      refine .inr ?_
      -- `bcd2bin` of what is no BCD number is 0xff, and an entry may have this number.
      by_cases valid : IsBcd track
      · rw [if_pos valid] at same
        exact .inr ⟨valid, (fillEntries_right_iff es bufSize).mp (same ▸ filled)⟩
      · rw [if_neg valid] at same
        refine .inl (not_not.mp fun room => fillEntries_ne_nil missing room ?_)
        rw [filled, same]
        exact congrArg some List.take_nil
    · rintro (none | rfl | ⟨valid, fits⟩)
      · exact absurd none missing
      · refine ⟨[], by rw [fillEntries_zero]; rfl, Nat.zero_le _, ?_⟩
        exact List.take_zero.symm
      · rw [(fillEntries_right_iff es bufSize).mpr fits, if_pos valid]
        refine ⟨_, rfl, ?_, rfl⟩
        rw [List.length_take]
        exact Nat.min_le_left _ _

/-- One track and the lead-out. -/
def shortToc : Toc := fun i =>
  if i = 6 then 1 else if i = 10 then 2 else if i = 14 then 0xaa else if i = 17 then 3 else 0

def shortInfo : TocInfo := ⟨shortToc, ⟨3, 0, 0⟩, 0x100⟩

/-- A disk is in the drive, and the parameter block at 0 asks for track 1. -/
def trackOneRequest (bufSize : BitVec 8) : Memory 32 := fun x =>
  if x = 0x103 then 1 else if x = 29 then 3 else if x = 32 then 0x10
  else if x = 35 then bufSize else if x = 36 then 1 else 0

theorem whole_toc_returned : ReadTocRight shortInfo (trackOneRequest 8) 0 :=
  (read_toc_right_iff shortInfo (trackOneRequest 8) 0 (by decide) (by decide)).mpr
    (.inr (.inr ⟨by decide, by decide +kernel⟩))

theorem small_buffer_overrun :
    ¬ ∀ (info : TocInfo) (mem : Memory 32) (pb : BitVec 32),
      mem (info.status + Disk.dsDiskInPlace) ≠ 0 → getWord mem (pb + csParam) = 3 →
      ReadTocRight info mem pb := by
  intro all
  obtain ⟨bytes, result, short, -⟩ := all shortInfo (trackOneRequest 2) 0 (by decide) (by decide)
  have stored : readToc shortInfo (trackOneRequest 2) 0 =
      some ⟨noErr, 0x1000, [0, 0, 0x02, 0, 0, 3, 0, 0]⟩ := by decide +kernel
  rw [stored] at result
  cases result
  exact absurd short (by decide)

end BasiliskII.Cdrom
