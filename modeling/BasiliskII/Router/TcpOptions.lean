import BasiliskII.Router.TcpEvents

/-!
# Segments of the Mac in memory

How `write_tcp` takes a packet apart: the length of its header, the options that are read with
SYN, and the data that is copied. Addresses count from the start of the packet. It is parsed inside
its bounds when the header fits in it and the options fit in the header.
-/
namespace BasiliskII.Router

/-- A packet handed to `write_tcp` and the memory it lies in, which goes on around it. -/
structure Segment where
  mem : Int → BitVec 8
  len : Nat

def ntohs (mem : Int → BitVec 8) (a : Int) : BitVec 16 := mem a ++ mem (a + 1)

def ntohl (mem : Int → BitVec 8) (a : Int) : BitVec 32 := ntohs mem a ++ ntohs mem (a + 2)

/-- The variables of `process_options`. -/
structure OptionScan where
  opt : Int
  len : Int
  mss : BitVec 32

def OptionScan.skip (s : OptionScan) (n : Int) : OptionScan :=
  { s with opt := s.opt + n, len := s.len - n }

/-- One turn of its loop, with the addresses that are read. -/
def optionStep (mem : Int → BitVec 8) (s : OptionScan) : List Int × OptionScan :=
  match (mem s.opt).toNat with
  -- End of Option List, No-Operation
  | 0 => ([s.opt], { s with len := 0 })
  | 1 => ([s.opt], s.skip 1)
  -- Maximum Segment Size
  | 2 =>
    ([s.opt, s.opt + 2, s.opt + 3],
      { s.skip 4 with mss := (ntohs mem (s.opt + 2)).setWidth 32 })
  -- Window Scale, Sack-Permitted
  | 3 => ([s.opt, s.opt + 2], s.skip 3)
  | 4 => ([s.opt], s.skip 2)
  -- Sack: nothing keeps its length from being 0.
  | 5 => ([s.opt, s.opt + 1], s.skip (mem (s.opt + 1)).toNat)
  -- Time Stamps
  | 8 =>
    ([s.opt, s.opt + 2, s.opt + 3, s.opt + 4, s.opt + 5, s.opt + 6, s.opt + 7, s.opt + 8,
      s.opt + 9], s.skip 10)
  | _ => ([s.opt], { s with len := 0 })

/-- `process_options`: what has been read, and the MSS; `none` after too many turns. -/
def processOptions (mem : Int → BitVec 8) : Nat → OptionScan → Option (List Int × BitVec 32)
  | 0, _ => none
  | fuel + 1, s =>
    if 0 < s.len then
      let (read, next) := optionStep mem s
      (processOptions mem fuel next).map fun (later, mss) => (read ++ later, mss)
    else some ([], s.mss)

def bytesAt (mem : Int → BitVec 8) (a : Int) (n : Nat) : List (BitVec 8) :=
  (List.range n).map fun k : Nat => mem (a + k)

namespace Segment

variable (g : Segment)

def flags : BitVec 8 := g.mem 47
def headerLen : Int := (g.mem 46 >>> 2).toNat
def optionBytes : Int := g.headerLen - 20

/-- `data`; the size of `tcp_t` is 54. -/
def data : Int := 54 + g.optionBytes
def dlen : Int := g.len - 54 - g.optionBytes

/-- What `process_options` is called with. -/
def options : OptionScan := ⟨g.data - g.optionBytes, g.optionBytes, 0⟩

/-- The packet as the state machine sees it. -/
def packet (mss : BitVec 32) : TcpPacket where
  ttl := g.mem 22
  ipSrc := ntohl g.mem 26
  ipDest := ntohl g.mem 30
  srcPort := ntohs g.mem 34
  destPort := ntohs g.mem 36
  seq := ntohl g.mem 38
  ack := ntohl g.mem 42
  flags := g.flags
  window := ntohs g.mem 48
  mss
  data := bytesAt g.mem g.data g.dlen.toNat

/-- The MSS that is found; options are looked at with SYN only. -/
def Finds (mss : BitVec 32) : Prop :=
  if isSet g.flags tcpFlagsSyn then ∃ fuel read, processOptions g.mem fuel g.options = some (read, mss)
  else mss = 0

/-- The address and the size of the `memcpy` of `write_tcp`, if it gets there. -/
def copied (env : Env) (mss : BitVec 32) (x : Turn) : Option (Int × Int) :=
  let (x, _) := hearMac (g.packet mss) x
  let (x, handleData, _) := stateMachine env (g.packet mss) x
  if handleData && g.dlen ≠ 0 && x.acceptMoreDataFromMac && x.seqIn = (g.packet mss).seq then
    some (g.data, min g.dlen maxSegmentSize)
  else none

/-- The packet is neither too small nor a reset. -/
def Parsed : Prop := 54 ≤ g.len ∧ isSet g.flags tcpFlagsRst = false

/-- The options end, all that is read of them is option area, what is copied is part of the packet,
and so is all that is read. -/
structure ParsedInside : Prop where
  options : isSet g.flags tcpFlagsSyn → ∃ fuel read mss,
    processOptions g.mem fuel g.options = some (read, mss) ∧
      ∀ a ∈ read, 54 ≤ a ∧ a < 54 + g.optionBytes ∧ a < g.len
  copy : ∀ env mss x start count, g.Finds mss → g.copied env mss x = some (start, count) →
    0 ≤ g.dlen ∧ 0 ≤ start ∧ 0 ≤ count ∧ start + count ≤ g.len

end Segment

/-! ### Options -/

/-- How many bytes of an option are looked at, from its kind on. -/
def optionExtent : Nat → Nat
  | 2 => 4
  | 3 => 3
  | 5 => 2
  | 8 => 10
  | _ => 1

/-- How many bytes it takes; `none` when it ends the list. -/
def optionLength (kind next : Nat) : Option Nat :=
  match kind with
  | 1 => some 1
  | 2 => some 4
  | 3 => some 3
  | 4 => some 2
  | 5 => some next
  | 8 => some 10
  | _ => none

/-- All bytes of the options that are looked at are there, and no option is empty. -/
def OptionsFit : List (BitVec 8) → Prop
  | [] => True
  | kind :: rest =>
    optionExtent kind.toNat ≤ rest.length + 1 ∧
      match optionLength kind.toNat (rest.headD 0).toNat with
      | none => True
      | some 0 => False
      | some (n + 1) => OptionsFit (rest.drop n)
termination_by bytes => bytes.length
decreasing_by
  rw [List.length_drop, List.length_cons]
  omega

/-- A turn reads up to the extent of its option and moves on by its length. -/
structure TakesOption (mem : Int → BitVec 8) (s : OptionScan) (turn : List Int × OptionScan) :
    Prop where
  covered : ∀ a ∈ turn.1, s.opt ≤ a ∧ a < s.opt + optionExtent (mem s.opt).toNat
  last : s.opt + optionExtent (mem s.opt).toNat - 1 ∈ turn.1
  moved : match optionLength (mem s.opt).toNat (mem (s.opt + 1)).toNat with
    | none => turn.2.len = 0
    | some n => turn.2.opt = s.opt + n ∧ turn.2.len = s.len - n

theorem unknown_option {kind : Nat} (next : Nat) (no_operation : kind ≠ 1) (mss : kind ≠ 2)
    (window_scale : kind ≠ 3) (sack_permitted : kind ≠ 4) (sack : kind ≠ 5) (time_stamps : kind ≠ 8) :
    optionExtent kind = 1 ∧ optionLength kind next = none := by
  unfold optionExtent optionLength
  constructor <;> split <;> first | rfl | contradiction

variable (mem : Int → BitVec 8)

theorem optionStep_takes (s : OptionScan) : TakesOption mem s (optionStep mem s) := by
  have ends : optionExtent (mem s.opt).toNat = 1 →
      optionLength (mem s.opt).toNat (mem (s.opt + 1)).toNat = none →
      TakesOption mem s ([s.opt], { s with len := 0 }) := by
    intro extent length
    refine ⟨?_, ?_, ?_⟩
    · rw [extent]
      intro a read
      rw [List.mem_singleton.mp read]
      omega
    · rw [extent]
      exact List.mem_singleton.mpr (Int.add_sub_cancel s.opt 1)
    · rw [length]
  unfold optionStep
  split
  case h_1 kind =>
    rw [kind] at ends
    exact ends rfl rfl
  case h_8 zero one two three four five eight =>
    obtain ⟨extent, length⟩ :=
      unknown_option (mem (s.opt + 1)).toNat one two three four five eight
    exact ends extent length
  -- The addresses of the others are written out.
  all_goals
    rename_i kind
    refine ⟨?_, ?_, ?_⟩
    · simp only [kind, optionExtent, List.mem_cons, List.not_mem_nil, or_false, forall_eq_or_imp,
        forall_eq]
      omega
    · simp only [kind, optionExtent, List.mem_cons, List.not_mem_nil, or_false]
      omega
    · rw [kind]
      exact ⟨rfl, rfl⟩

theorem length_bytesAt (a : Int) (n : Nat) : (bytesAt mem a n).length = n := by
  rw [bytesAt, List.length_map, List.length_range]

theorem bytesAt_succ (a : Int) (n : Nat) :
    bytesAt mem a (n + 1) = mem a :: bytesAt mem (a + 1) n := by
  rw [bytesAt, List.range_succ_eq_map, List.map_cons, List.map_map]
  refine congrArg₂ _ (congrArg mem (Int.add_zero a)) (List.map_congr_left fun k _ => ?_)
  have moved : a + (k + 1 : Nat) = a + 1 + (k : Int) := by omega
  exact congrArg mem moved

theorem drop_bytesAt (a : Int) (n k : Nat) :
    (bytesAt mem a n).drop k = bytesAt mem (a + k) (n - k) := by
  induction k generalizing a n with
  | zero => exact congrArg (bytesAt mem · n) (Int.add_zero a).symm
  | succ k ih =>
    cases n with
    | zero => rw [Nat.zero_sub]; rfl
    | succ n =>
      have further : a + 1 + (k : Int) = a + (k + 1 : Nat) := by omega
      rw [bytesAt_succ, List.drop_succ_cons, ih, further, Nat.succ_sub_succ]

/-- Only a Sack has its length in its second byte, and that byte is looked at. -/
theorem optionLength_next {kind : Nat} (one_byte : optionExtent kind ≤ 1) (next next' : Nat) :
    optionLength kind next = optionLength kind next' := by
  unfold optionLength
  split
  case h_5 => exact absurd one_byte (by decide)
  all_goals rfl

theorem optionsFit_bytesAt (a : Int) (n : Nat) :
    OptionsFit (bytesAt mem a (n + 1)) ↔
      optionExtent (mem a).toNat ≤ n + 1 ∧
        match optionLength (mem a).toNat (mem (a + 1)).toNat with
        | none => True
        | some 0 => False
        | some (k + 1) => OptionsFit (bytesAt mem (a + (k + 1 : Nat)) (n - k)) := by
  have further (k : Nat) : (bytesAt mem (a + 1) n).drop k = bytesAt mem (a + (k + 1 : Nat)) (n - k) := by
    have moved : a + 1 + (k : Int) = a + (k + 1 : Nat) := by omega
    rw [drop_bytesAt, moved]
  rw [bytesAt_succ, OptionsFit, length_bytesAt]
  refine and_congr_right fun extent => ?_
  have length : optionLength (mem a).toNat ((bytesAt mem (a + 1) n).headD 0).toNat =
      optionLength (mem a).toNat (mem (a + 1)).toNat := by
    cases n with
    -- Behind the last byte stands whatever does, but it is not looked at.
    | zero => exact optionLength_next extent _ _
    | succ n => rw [bytesAt_succ]; rfl
  simp only [length, further]

/-! ### The loop -/

theorem processOptions_succ (fuel : Nat) {s : OptionScan} (more : 0 < s.len) :
    processOptions mem (fuel + 1) s = (processOptions mem fuel (optionStep mem s).2).map
      fun (later, mss) => ((optionStep mem s).1 ++ later, mss) := if_pos more

theorem processOptions_ended (fuel : Nat) {s : OptionScan} (ended : s.len ≤ 0) :
    processOptions mem (fuel + 1) s = some ([], s.mss) :=
  if_neg (Int.not_lt.mpr ended)

theorem fit_of_read_inside (fuel : Nat) (s : OptionScan) {read : List Int} {mss : BitVec 32}
    (ended : processOptions mem fuel s = some (read, mss)) (inside : ∀ a ∈ read, a < s.opt + s.len) :
    OptionsFit (bytesAt mem s.opt s.len.toNat) := by
  induction fuel generalizing s read with
  | zero => cases ended
  | succ fuel ih =>
    by_cases more : 0 < s.len
    · obtain ⟨covered, last, moved⟩ := optionStep_takes mem s
      rw [processOptions_succ mem fuel more] at ended
      obtain ⟨⟨later, mss'⟩, rest, joined⟩ := Option.map_eq_some_iff.mp ended
      obtain ⟨rfl, rfl⟩ := Prod.mk.inj joined
      obtain ⟨n, length⟩ : ∃ n, s.len.toNat = n + 1 := ⟨s.len.toNat - 1, by omega⟩
      have last_inside := inside _ (List.mem_append_left _ last)
      rw [length, optionsFit_bytesAt]
      refine ⟨by omega, ?_⟩
      split at moved
      next none_left => rw [none_left]; trivial
      next k further =>
        obtain ⟨opt, len⟩ := moved
        have later_inside : ∀ a ∈ later, a < (optionStep mem s).2.opt + (optionStep mem s).2.len := by
          intro a read
          have before_end := inside a (List.mem_append_right _ read)
          omega
        have fits := ih (optionStep mem s).2 rest later_inside
        rw [further]
        cases k with
        | zero =>
          -- The scan stays where it is, so what is left would fit, and it has an empty option.
          have same : (optionStep mem s).2.opt = s.opt ∧ (optionStep mem s).2.len.toNat = n + 1 := by
            omega
          rw [same.1, same.2, optionsFit_bytesAt, further] at fits
          exact fits.2
        | succ k =>
          have left : (optionStep mem s).2.len.toNat = n - k := by omega
          rwa [opt, left] at fits
    · have empty : s.len.toNat = 0 := by omega
      rw [empty, bytesAt, List.range_zero, List.map_nil, OptionsFit]
      trivial

theorem read_inside_of_fit (n : Nat) (s : OptionScan) (few : s.len.toNat ≤ n)
    (fits : OptionsFit (bytesAt mem s.opt s.len.toNat)) :
    ∃ read mss, processOptions mem (n + 1) s = some (read, mss) ∧
      ∀ a ∈ read, s.opt ≤ a ∧ a < s.opt + s.len := by
  induction n generalizing s with
  | zero => exact ⟨[], s.mss, processOptions_ended mem 0 (by omega), by simp⟩
  | succ n ih =>
    by_cases more : 0 < s.len
    · obtain ⟨covered, last, moved⟩ := optionStep_takes mem s
      obtain ⟨left, length⟩ : ∃ left, s.len.toNat = left + 1 := ⟨s.len.toNat - 1, by omega⟩
      rw [length, optionsFit_bytesAt] at fits
      obtain ⟨extent, rest_fits⟩ := fits
      -- What the rest of the scan does, it does behind this option.
      suffices rest : ∃ later mss, processOptions mem (n + 1) (optionStep mem s).2 = some (later, mss) ∧
          ∀ a ∈ later, s.opt ≤ a ∧ a < s.opt + s.len by
        obtain ⟨later, mss, ended, later_inside⟩ := rest
        refine ⟨(optionStep mem s).1 ++ later, mss, ?_, ?_⟩
        · rw [processOptions_succ mem _ more, ended]
          rfl
        · intro a read
          rcases List.mem_append.mp read with now | after
          · have here := covered a now
            omega
          · exact later_inside a after
      split at moved
      next none_left =>
        exact ⟨[], _, processOptions_ended mem n (by omega), by simp⟩
      next k further =>
        obtain ⟨opt, len⟩ := moved
        rw [further] at rest_fits
        cases k with
        | zero => exact rest_fits.elim
        | succ k =>
          have fewer : (optionStep mem s).2.len.toNat = left - k := by omega
          have fits : OptionsFit (bytesAt mem (optionStep mem s).2.opt
              (optionStep mem s).2.len.toNat) := by
            rw [opt, fewer]
            exact rest_fits
          obtain ⟨later, mss, ended, inside⟩ := ih (optionStep mem s).2 (by omega) fits
          refine ⟨later, mss, ended, fun a read => ?_⟩
          have behind := inside a read
          omega
    -- Nothing is left to scan.
    · exact ⟨[], s.mss, processOptions_ended mem _ (by omega), by simp⟩

/-! ### The packet -/

namespace Segment

variable {g : Segment}

def optionArea (g : Segment) : List (BitVec 8) := bytesAt g.mem 54 g.optionBytes.toNat

/-- What `write_tcp` would have to check. -/
def Fits (g : Segment) : Prop :=
  (isSet g.flags tcpFlagsSyn → OptionsFit g.optionArea) ∧ 34 + g.headerLen ≤ g.len

theorem options_opt (g : Segment) : g.options.opt = 54 := Int.add_sub_cancel 54 g.optionBytes

theorem headerLen_nonneg (g : Segment) : 0 ≤ g.headerLen := Int.natCast_nonneg _

theorem noteMac_keeps (p : TcpPacket) (x : Turn) :
    (noteMac p x).state = x.state ∧ (noteMac p x).seqIn = x.seqIn ∧
      (noteMac p x).acceptMoreDataFromMac = x.acceptMoreDataFromMac := by
  unfold noteMac
  dsimp only
  split <;> exact ⟨rfl, rfl, rfl⟩

theorem hearMac_keeps (p : TcpPacket) (x : Turn) :
    (hearMac p x).1.state = x.state ∧ (hearMac p x).1.seqIn = x.seqIn ∧
      (hearMac p x).1.acceptMoreDataFromMac = x.acceptMoreDataFromMac := by
  have noted := noteMac_keeps p x
  unfold hearMac
  dsimp only
  split <;> exact noted

/-- In a connection that expects the packet's sequence number its data is copied. -/
theorem copied_established (g : Segment) (env : Env) (mss : BitVec 32) (some_data : g.dlen ≠ 0) :
    ∃ x, g.copied env mss x = some (g.data, min g.dlen maxSegmentSize) := by
  let p := g.packet mss
  -- A FIN is counted before the sequence numbers are compared.
  let seq := if isSet p.flags tcpFlagsFin then p.seq - 1 else p.seq
  let x : TcpSocket := { initSocket with
    state := .established, acceptMoreDataFromMac := true, seqIn := seq }
  obtain ⟨state, seqIn, accepts⟩ := hearMac_keeps p x.begin
  have opened : (hearMac p x.begin).1.state = .established := state
  have accepting : (hearMac p x.begin).1.acceptMoreDataFromMac = true := accepts
  have machine : ∃ y, stateMachine env p (hearMac p x.begin).1 = (y, true, false) ∧
      y.acceptMoreDataFromMac = true ∧ y.seqIn = p.seq := by
    unfold stateMachine
    simp only [opened]
    by_cases fin : isSet p.flags tcpFlagsFin = true
    · have counted : (hearMac p x.begin).1.seqIn + 1 = p.seq := by
        rw [seqIn]
        exact (congrArg (· + 1) (if_pos fin)).trans (BitVec.sub_add_cancel p.seq 1)
      rw [if_pos fin]
      exact ⟨_, rfl, accepting, counted⟩
    · have expected : (hearMac p x.begin).1.seqIn = p.seq := seqIn.trans (if_neg fin)
      rw [if_neg fin]
      exact ⟨_, rfl, accepting, expected⟩
  obtain ⟨y, run, accepts, expected⟩ := machine
  refine ⟨x.begin, ?_⟩
  have fetched : (y.seqIn = (g.packet mss).seq) := expected
  have step : stateMachine env (g.packet mss) (hearMac (g.packet mss) x.begin).1 = _ := run
  simp only [copied, step, accepts, fetched, some_data, ne_eq, not_false_eq_true, decide_true,
    Bool.and_self, if_true]

theorem copied_eq_some {env : Env} {mss : BitVec 32} {x : Turn} {start count : Int}
    (copied : g.copied env mss x = some (start, count)) :
    start = g.data ∧ count = min g.dlen maxSegmentSize := by
  unfold Segment.copied at copied
  dsimp only at copied
  split at copied
  · obtain ⟨rfl, rfl⟩ := Prod.mk.inj (Option.some.inj copied)
    exact ⟨rfl, rfl⟩
  · contradiction

/-- Packets are parsed inside their bounds when they fit, and no others are. -/
theorem parsed_inside_iff (g : Segment) :
    (g.Parsed → g.ParsedInside) ↔ (g.Parsed → g.Fits) := by
  refine imp_congr_right fun ⟨header, _⟩ => ?_
  have no_less := g.headerLen_nonneg
  constructor
  · intro inside
    have syn_fits : isSet g.flags tcpFlagsSyn → OptionsFit g.optionArea := by
      intro syn
      obtain ⟨fuel, read, mss, ended, read_inside⟩ := inside.options syn
      have fits := fit_of_read_inside g.mem fuel g.options ended fun a read => by
        have here := read_inside a read
        rw [options_opt]
        exact here.2.1
      rwa [options_opt] at fits
    refine ⟨syn_fits, ?_⟩
    -- A header longer than the packet would be copied from before its data.
    by_contra too_long
    have negative : g.dlen ≠ 0 := by
      unfold dlen optionBytes
      omega
    -- The MSS that is found does not matter.
    obtain ⟨mss, found⟩ : ∃ mss, g.Finds mss := by
      unfold Finds
      split
      next syn =>
        obtain ⟨fuel, read, mss, ended, _⟩ := inside.options syn
        exact ⟨mss, fuel, read, ended⟩
      next => exact ⟨0, rfl⟩
    obtain ⟨x, copied⟩ := g.copied_established quietEnv mss negative
    have forward := (inside.copy _ _ _ _ _ found copied).1
    unfold dlen optionBytes at forward
    omega
  · rintro ⟨syn_fits, fits⟩
    constructor
    · intro syn
      have area : OptionsFit (bytesAt g.mem g.options.opt g.options.len.toNat) := by
        rw [options_opt]
        exact syn_fits syn
      obtain ⟨read, mss, ended, inside⟩ := read_inside_of_fit g.mem _ g.options (Nat.le_refl _) area
      refine ⟨_, read, mss, ended, fun a read => ?_⟩
      obtain ⟨after, before⟩ := inside a read
      rw [options_opt] at after before
      have inside : a < 54 + g.optionBytes := before
      refine ⟨after, inside, ?_⟩
      unfold optionBytes at inside
      omega
    · intro env mss x start count _ copied
      obtain ⟨rfl, rfl⟩ := copied_eq_some copied
      unfold dlen data optionBytes maxSegmentSize
      omega

/-- A SYN whose only option is a Sack of length 0. -/
def emptySack : Segment where
  mem a := if a = 46 then 0x60 else if a = 47 then tcpFlagsSyn else if a = 54 then 5 else 0
  len := 58

/-- `process_options` never gets past it. -/
theorem emptySack_endless : ¬∀ g : Segment, g.Parsed → g.ParsedInside := by
  intro claim
  have parsed : emptySack.Parsed := ⟨by decide, by decide⟩
  have area : emptySack.optionArea = [5, 0, 0, 0] := by decide
  have syn_fits := ((parsed_inside_iff emptySack).mp (claim emptySack) parsed).1 rfl
  rw [area, OptionsFit] at syn_fits
  exact syn_fits.2

end Segment

end BasiliskII.Router
