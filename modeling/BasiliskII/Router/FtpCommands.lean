import BasiliskII.Library.SentinelScan
import BasiliskII.Stdio
import BasiliskII.Router.TcpEvents
import Mathlib.Data.List.Infix

/-!
# FTP port commands

The scanner and the rewriter of ftp.cpp. The scanner goes over a local copy of the segment that a
zero ends; a read outside of it is a failure. As what is left of the text it is a function on lists,
which never fails.
-/
namespace BasiliskII.Router

/-- What is not printable becomes a blank. -/
def plain (c : UInt8) : UInt8 :=
  if c < 32 || 122 < c then 32 else if 65 ≤ c && c ≤ 90 then c + 32 else c

/-- The text of the local copy, without its zero. -/
def localText (buf : CString) : CString := (buf.take 99).map plain

def atoi (s : CString) : Int := atol s

def isBlank (c : UInt8) : Bool := c = 32

/-- No zero and no comma. -/
def inField (c : UInt8) : Bool := c ≠ 0 && c ≠ 44

def inPort (c : UInt8) : Bool := c ≠ 0 && c ≠ 44 && c ≠ 41

def beforeParen (c : UInt8) : Bool := c ≠ 0 && c ≠ 40

section Scanner

open SentinelScan (skipOne)

variable (b : List UInt8)

/-- The string at `s`; there has to be a zero. -/
def stringAt (s : Nat) : Option CString :=
  (skipOne (· ≠ 0) b s).map fun last => (b.drop s).take (last - s)

/-- Where the numbers begin. -/
def findNumbers (is_pasv : Bool) : Option (Option Nat) := do
  let s ← skipOne isBlank b 0
  let str ← stringAt b s
  if is_pasv then
    if atoi str = 227 ∧ ascii "passive" <:+: str then
      let s ← skipOne beforeParen b s
      let c ← b[s]?
      if c = 0 then some none else some (some (s + 1))
    else some none
  else if ascii "port " <+: str then some (some (s + 5))
  else some none

/-- `ftp_ip`, and where the scanner is; the address is 0 when it breaks off. -/
def readIp : Nat → Nat → BitVec 32 → Option (BitVec 32 × Nat)
  | 0, s, ftp_ip => some (ftp_ip, s)
  | n + 1, s, ftp_ip => do
    let s ← skipOne isBlank b s
    let c ← b[s]?
    if !isdigit c then some (0, s)
    else
      let number ← stringAt b s
      let s ← skipOne inField b s
      let c ← b[s]?
      if c = 0 then some (0, s)
      else readIp n (s + 1) (ftp_ip <<< 8 + BitVec.ofInt 32 (atoi number))

def readPort : Nat → Nat → BitVec 16 → Option (BitVec 16)
  | 0, _, ftp_data_port => some ftp_data_port
  | n + 1, s, ftp_data_port => do
    let s ← skipOne isBlank b s
    let c ← b[s]?
    if !isdigit c then some 0
    else
      let number ← stringAt b s
      let ftp_data_port := ftp_data_port <<< 8 + BitVec.ofInt 16 (atoi number)
      let s ← skipOne inPort b s
      let c ← b[s]?
      if c = 0 then some ftp_data_port else readPort n (s + 1) ftp_data_port

/-- `ftp_parse_port_command` on the segment in `buf`. -/
def ftpParsePortCommand (buf : CString) (is_pasv : Bool) : Option (BitVec 16) :=
  if buf = [] then some 0
  else
    let b := localText buf ++ [0]
    do
      match ← findNumbers b is_pasv with
      | none => some 0
      | some s =>
        let c ← b[s]?
        if c = 0 then some 0
        else
          let (ftp_ip, s) ← readIp b 4 s 0
          if ftp_ip = 0 then some 0 else readPort b 2 s 0

end Scanner

/-- `sprintf` of the text for an address and a port. -/
def portCommand (ip : BitVec 32) (port : BitVec 16) (is_pasv : Bool) : CString :=
  let numbers := [ip >>> 24, ip >>> 16 &&& 0xff, ip >>> 8 &&& 0xff, ip &&& 0xff,
    (port >>> 8 &&& 0xff).setWidth 32, (port &&& 0xff).setWidth 32]
  let list := (numbers.map fun n => formatInt n.toInt).intersperse [44] |>.flatten
  if is_pasv then ascii "227 Entering Passive Mode (" ++ list ++ ascii ")." ++ [13, 10]
  else ascii "PORT " ++ list ++ [13, 10]

/-- What is in the buffer afterwards, if it is large enough. -/
def ftpModifyPortCommand (buf : CString) (max_size : Nat) (ip : BitVec 32) (port : BitVec 16)
    (is_pasv : Bool) : CString :=
  if max_size < 100 then buf else portCommand ip port is_pasv

/-! ### The scanner on what is left of the text -/

/-- What follows the first character that does not pass. -/
def behind (passes : UInt8 → Bool) (t : CString) : Option CString :=
  match t.dropWhile passes with
  | [] => none
  | _ :: rest => some rest

/-- A digit comes first, but for blanks. -/
def Led (t : CString) : Prop := ∃ c rest, t.dropWhile isBlank = c :: rest ∧ isdigit c

instance Led.decidable (t : CString) : Decidable (Led t) :=
  match left : t.dropWhile isBlank with
  | [] => .isFalse fun ⟨_, _, some_left, _⟩ => by cases left.symm.trans some_left
  | c :: rest =>
    if digit : isdigit c then .isTrue ⟨c, rest, left, digit⟩
    else .isFalse fun ⟨d, _, some_left, first⟩ => by
      cases left.symm.trans some_left
      exact digit first

def number (t : CString) : Int := atoi (t.dropWhile isBlank)

/-- Where each of the `n` numbers of the address begins, and where the port does. -/
def addressTails : Nat → CString → Option (List CString × CString)
  | 0, t => some ([], t)
  | n + 1, t =>
    if Led t then
      match behind inField t with
      | none => none
      | some rest => (addressTails n rest).map fun tails => (t :: tails.1, tails.2)
    else none

def address (ip : BitVec 32) (ts : List CString) : BitVec 32 :=
  ts.foldl (fun ip t => ip <<< 8 + BitVec.ofInt 32 (number t)) ip

def portNumber (t : CString) : BitVec 16 :=
  if Led t then
    match behind inPort t with
    | none => BitVec.ofInt 16 (number t)
    | some rest =>
      if Led rest then BitVec.ofInt 16 (number t) <<< 8 + BitVec.ofInt 16 (number rest) else 0
  else 0

def commandBody (is_pasv : Bool) (text : CString) : Option CString :=
  let str := text.dropWhile isBlank
  if is_pasv then
    if atoi str = 227 ∧ ascii "passive" <:+: str then behind beforeParen str else none
  else if ascii "port " <+: str then some (str.drop 5)
  else none

def parsedPort (is_pasv : Bool) (text : CString) : BitVec 16 :=
  match commandBody is_pasv text with
  | none => 0
  | some body =>
    match addressTails 4 body with
    | none => 0
    | some (ts, t) => if address 0 ts = 0 then 0 else portNumber t

theorem dropWhile_blanks {passes : UInt8 → Bool} (blank : passes 32 = true) (t : CString) :
    (t.dropWhile isBlank).dropWhile passes = t.dropWhile passes := by
  induction t with
  | nil => rfl
  | cons c t ih =>
    by_cases skipped : isBlank c = true
    · obtain rfl : c = 32 := of_decide_eq_true skipped
      rw [List.dropWhile_cons_of_pos skipped, ih, List.dropWhile_cons_of_pos blank]
    · rw [List.dropWhile_cons_of_neg skipped]

section Refinement

open SentinelScan (skipOne skipOne_append)

variable {text : CString} (no_zero : (0 : UInt8) ∉ text) {s : Nat} (inside : s ≤ text.length)
include inside

theorem skip_spec {passes : UInt8 → Bool} (stop : passes 0 = false) :
    ∃ s', skipOne passes (text ++ [0]) s = some s' ∧ s' ≤ text.length ∧
      text.drop s' = (text.drop s).dropWhile passes := by
  have skipped := List.takeWhile_append_dropWhile (p := passes) (l := text.drop s)
  have lengths := congrArg List.length skipped
  rw [List.length_append, List.length_drop] at lengths
  refine ⟨_, skipOne_append stop inside, by omega, ?_⟩
  rw [← List.drop_drop]
  exact (congrArg _ skipped.symm).trans List.drop_left

include no_zero in
/-- The zero is at the end of the text only. -/
theorem char_spec : (text.drop s = [] ∧ (text ++ [0])[s]? = some 0) ∨
    ∃ c rest, text.drop s = c :: rest ∧ (text ++ [0])[s]? = some c ∧ c ≠ 0 ∧
      s + 1 ≤ text.length ∧ text.drop (s + 1) = rest := by
  by_cases more : s < text.length
  · refine .inr ⟨text[s], text.drop (s + 1), List.drop_eq_getElem_cons more, ?_, ?_, more, rfl⟩
    · rw [List.getElem?_append_left more, List.getElem?_eq_getElem more]
    · exact fun zero => no_zero (zero ▸ List.getElem_mem more)
  · obtain rfl : s = text.length := Nat.le_antisymm inside (Nat.le_of_not_lt more)
    refine .inl ⟨List.drop_length, ?_⟩
    rw [List.getElem?_append_right (Nat.le_refl _), Nat.sub_self]
    rfl

include no_zero in
theorem stringAt_spec : stringAt (text ++ [0]) s = some (text.drop s) := by
  have all : (text.drop s).takeWhile (· ≠ 0) = text.drop s :=
    List.takeWhile_eq_self_iff.mpr fun c member =>
      decide_eq_true fun zero => no_zero (zero ▸ List.mem_of_mem_drop member)
  unfold stringAt
  rw [skipOne_append (by rfl) inside, all, Option.map_some, List.drop_append_of_le_length inside,
    Nat.add_sub_cancel_left, List.take_left]

include no_zero in
/-- One number, and what the scanner finds behind it. -/
theorem number_spec {passes : UInt8 → Bool} (stop : passes 0 = false) (blank : passes 32 = true) :
    ∃ s₁ c, skipOne isBlank (text ++ [0]) s = some s₁ ∧ (text ++ [0])[s₁]? = some c ∧
      (isdigit c ↔ Led (text.drop s)) ∧ s₁ ≤ text.length ∧
      stringAt (text ++ [0]) s₁ = some ((text.drop s).dropWhile isBlank) ∧
      ∃ s₂ d, skipOne passes (text ++ [0]) s₁ = some s₂ ∧ (text ++ [0])[s₂]? = some d ∧
        ((d = 0 ∧ behind passes (text.drop s) = none) ∨
          (d ≠ 0 ∧ s₂ + 1 ≤ text.length ∧
            behind passes (text.drop s) = some (text.drop (s₂ + 1)))) := by
  obtain ⟨s₁, blanks, inside₁, left⟩ := skip_spec inside (rfl : isBlank 0 = false)
  obtain ⟨s₂, field, inside₂, left₂⟩ := skip_spec inside₁ stop
  rw [left, dropWhile_blanks blank] at left₂
  have string := stringAt_spec no_zero inside₁
  rw [left] at string
  obtain ⟨c, first, led⟩ : ∃ c, (text ++ [0])[s₁]? = some c ∧ (isdigit c ↔ Led (text.drop s)) := by
    rcases char_spec no_zero inside₁ with ⟨ended, zero⟩ | ⟨c, rest, more, here, _⟩
    · refine ⟨0, zero, iff_of_false (by decide) ?_⟩
      rintro ⟨c, rest, some_left, _⟩
      rw [← left, ended] at some_left
      cases some_left
    · refine ⟨c, here, fun digit => ⟨c, rest, left.symm.trans more, digit⟩, ?_⟩
      rintro ⟨d, _, some_left, digit⟩
      cases more.symm.trans (left.trans some_left)
      exact digit
  refine ⟨s₁, c, blanks, first, led, inside₁, string, s₂, ?_⟩
  rcases char_spec no_zero inside₂ with ⟨ended, zero⟩ | ⟨d, rest, more, here, some_char, next, last⟩
  · refine ⟨0, field, zero, .inl ⟨rfl, ?_⟩⟩
    rw [behind, ← left₂, ended]
  · refine ⟨d, field, here, .inr ⟨some_char, next, ?_⟩⟩
    rw [behind, ← left₂, more, last]

include no_zero in
theorem readIp_spec (n : Nat) (ip : BitVec 32) : ∃ r, readIp (text ++ [0]) n s ip = some r ∧
    match addressTails n (text.drop s) with
    | none => r.1 = 0
    | some (ts, t) => r.1 = address ip ts ∧ r.2 ≤ text.length ∧ text.drop r.2 = t := by
  induction n generalizing s ip with
  | zero => exact ⟨(ip, s), rfl, rfl, inside, rfl⟩
  | succ n ih =>
    obtain ⟨s₁, c, blanks, first, led, inside₁, string, s₂, d, field, next, after⟩ :=
      number_spec no_zero inside (rfl : inField 0 = false) rfl
    simp only [readIp, addressTails, blanks, first, Option.bind_eq_bind, Option.bind_some]
    by_cases digit : isdigit c = true
    · rw [if_neg (by rw [digit]; decide), if_pos (led.mp digit)]
      simp only [string, field, next, Option.bind_some]
      rcases after with ⟨zero, ended⟩ | ⟨some_char, inside₂, rest⟩
      · rw [if_pos zero, ended]
        exact ⟨_, rfl, rfl⟩
      · obtain ⟨r, result, spec⟩ := ih inside₂ (ip <<< 8 + BitVec.ofInt 32 (number (text.drop s)))
        rw [if_neg some_char, rest]
        refine ⟨r, result, ?_⟩
        dsimp only
        cases tails : addressTails n (text.drop (s₂ + 1)) with
        | none =>
          rw [tails] at spec
          exact spec
        | some tails' =>
          rw [tails] at spec
          exact spec
    · rw [if_pos (by rw [Bool.not_eq_true] at digit; rw [digit]; rfl),
        if_neg fun led' => digit (led.mpr led')]
      exact ⟨_, rfl, rfl⟩

include no_zero in
theorem readPort_spec : readPort (text ++ [0]) 2 s 0 = some (portNumber (text.drop s)) := by
  obtain ⟨s₁, c, blanks, first, led, inside₁, string, s₂, d, field, next, after⟩ :=
    number_spec no_zero inside (rfl : inPort 0 = false) rfl
  have from_zero (n : BitVec 16) : (0 : BitVec 16) <<< 8 + n = n := by
    exact BitVec.zero_add n
  simp only [readPort, portNumber, blanks, first, Option.bind_eq_bind, Option.bind_some]
  by_cases digit : isdigit c = true
  · rw [if_neg (by rw [digit]; decide), if_pos (led.mp digit)]
    simp only [string, field, next, Option.bind_some]
    rcases after with ⟨zero, ended⟩ | ⟨some_char, inside₂, rest⟩
    · rw [if_pos zero, ended, from_zero]
      rfl
    · obtain ⟨s₃, c', blanks', first', led', inside₃, string', s₄, d', field', next', _⟩ :=
        number_spec no_zero inside₂ (rfl : inPort 0 = false) rfl
      rw [if_neg some_char, rest]
      simp only [blanks', first', Option.bind_some]
      by_cases digit' : isdigit c' = true
      · rw [if_neg (by rw [digit']; decide), if_pos (led'.mp digit')]
        simp only [string', field', next', Option.bind_some, ite_self, from_zero]
        rfl
      · rw [if_pos (by rw [Bool.not_eq_true] at digit'; rw [digit']; rfl),
          if_neg fun led => digit' (led'.mpr led)]
  · rw [if_pos (by rw [Bool.not_eq_true] at digit; rw [digit]; rfl),
      if_neg fun led' => digit (led.mpr led')]

include no_zero in
omit inside in
theorem findNumbers_spec (is_pasv : Bool) : ∃ r, findNumbers (text ++ [0]) is_pasv = some r ∧
    r.map text.drop = commandBody is_pasv text ∧ ∀ s ∈ r, s ≤ text.length := by
  obtain ⟨s, blanks, inside, left⟩ := skip_spec (Nat.zero_le text.length) (rfl : isBlank 0 = false)
  rw [List.drop_zero] at left
  have string := stringAt_spec no_zero inside
  rw [left] at string
  simp only [findNumbers, commandBody, blanks, string, Option.bind_eq_bind, Option.bind_some]
  split
  · split
    · obtain ⟨s₁, skipped, inside₁, left₁⟩ := skip_spec inside (rfl : beforeParen 0 = false)
      rw [left] at left₁
      simp only [skipped, Option.bind_some, behind, ← left₁]
      rcases char_spec no_zero inside₁ with ⟨ended, zero⟩ | ⟨c, rest, more, here, some_char, next, last⟩
      · rw [zero, Option.bind_some, if_pos rfl, ended]
        exact ⟨none, rfl, rfl, fun _ member => nomatch member⟩
      · rw [here, Option.bind_some, if_neg some_char, more]
        exact ⟨some (s₁ + 1), rfl, congrArg some last, fun _ member => by cases member; exact next⟩
    · exact ⟨none, rfl, rfl, fun _ member => nomatch member⟩
  · split
    next command =>
      have long := command.length_le
      rw [← left, List.length_drop] at long
      refine ⟨some (s + 5), rfl, ?_, fun _ member => ?_⟩
      · rw [Option.map_some, ← left, List.drop_drop]
      · cases member
        have five : (ascii "port ").length = 5 := rfl
        omega
    · exact ⟨none, rfl, rfl, fun _ member => nomatch member⟩

end Refinement

theorem plain_ne_zero (c : UInt8) : plain c ≠ 0 := by
  have low := c.toNat_lt
  intro zero
  have value := congrArg UInt8.toNat zero
  unfold plain at value
  split at value
  · cases value
  next printable =>
    rw [Bool.or_eq_true, decide_eq_true_eq, decide_eq_true_eq, not_or, UInt8.not_lt,
      UInt8.le_iff_toNat_le] at printable
    have first : 32 ≤ c.toNat := printable.1
    split at value
    next upper =>
      rw [Bool.and_eq_true, decide_eq_true_eq, decide_eq_true_eq, UInt8.le_iff_toNat_le,
        UInt8.le_iff_toNat_le] at upper
      have letter : 65 ≤ c.toNat ∧ c.toNat ≤ 90 := upper
      have sum : (c.toNat + 32) % 256 = 0 := value
      omega
    next other =>
      rw [value] at first
      cases first

theorem localText_no_zero (buf : CString) : (0 : UInt8) ∉ localText buf := by
  intro member
  obtain ⟨c, _, zero⟩ := List.mem_map.mp member
  exact plain_ne_zero c zero

/-- The scanner reads nothing outside of its copy, and finds this port. -/
theorem ftpParsePortCommand_eq (buf : CString) (is_pasv : Bool) :
    ftpParsePortCommand buf is_pasv = some (parsedPort is_pasv (localText buf)) := by
  unfold ftpParsePortCommand
  split
  next empty =>
    subst empty
    cases is_pasv <;> rfl
  · have no_zero := localText_no_zero buf
    obtain ⟨r, found, body, inside⟩ := findNumbers_spec no_zero is_pasv
    simp only [found, Option.bind_eq_bind, Option.bind_some, parsedPort, ← body]
    cases r with
    | none => rfl
    | some s =>
      have inside := inside s rfl
      obtain ⟨r, address, spec⟩ := readIp_spec no_zero inside 4 0
      rw [Option.map_some]
      dsimp only
      rcases char_spec no_zero inside with ⟨ended, zero⟩ | ⟨c, rest, more, here, some_char, _⟩
      · rw [zero, ended]
        rfl
      · simp only [here, Option.bind_some, address]
        rw [if_neg some_char]
        cases tails : addressTails 4 ((localText buf).drop s) with
        | none =>
          rw [tails] at spec
          exact if_pos spec
        | some tails' =>
          rw [tails] at spec
          obtain ⟨ip, inside', left⟩ := spec
          rw [ip, readPort_spec no_zero inside', left]
          exact (apply_ite some _ _ _).symm

end BasiliskII.Router
