import BasiliskII.Router.FtpCommands
import Mathlib.Algebra.Group.Int.Defs
import Mathlib.Algebra.Group.Nat.Defs
import Mathlib.Algebra.Ring.Int.Defs

/-!
# Which segments hold a port command

What a complete command is, and where the scanner of ftp.cpp agrees. It takes numbers of any size,
skips what stands between a number and the next comma, and is content with one number for the port;
and the rest of a segment goes with the command that is rewritten.
-/
namespace BasiliskII.Router

/-- A decimal number up to 255, with blanks around it. -/
def Number (n : Nat) (f : CString) : Prop :=
  ∃ i j digits, f = List.replicate i 32 ++ (digits ++ List.replicate j 32) ∧ digits ≠ [] ∧
    (∀ c ∈ digits, isdigit c) ∧ leadingNumber digits = n ∧ n ≤ 255

/-- Numbers with commas between them, and `ends` behind the last. -/
inductive Numbers (ends : UInt8) : List Nat → CString → Prop
  | last {n : Nat} {f : CString} (number : Number n f) (rest : CString) :
    Numbers ends [n] (f ++ ends :: rest)
  | more {n : Nat} {ns : List Nat} {f body : CString} (number : Number n f)
    (numbers : Numbers ends ns body) : Numbers ends (n :: ns) (f ++ 44 :: body)

/-- The end of a line is a blank in the local copy. -/
def endMark (is_pasv : Bool) : UInt8 := if is_pasv then 41 else 32

/-- Where the numbers of a command or a reply are. -/
def Body (is_pasv : Bool) (text body : CString) : Prop :=
  let str := text.dropWhile isBlank
  if is_pasv then
    atoi str = 227 ∧ ascii "passive" <:+: str ∧ ∃ before, str = before ++ 40 :: body ∧ 40 ∉ before
  else str = ascii "port " ++ body

def Complete (is_pasv : Bool) (text : CString) (ns : List Nat) : Prop :=
  ns.length = 6 ∧ ∃ body, Body is_pasv text body ∧ Numbers (endMark is_pasv) ns body

/-! ### Numbers of a text -/

theorem not_blank_of_digit {c : UInt8} (digit : isdigit c) : isBlank c = false := by
  have range := (isdigit_iff c).mp digit
  refine decide_eq_false ?_
  rintro rfl
  exact absurd range.1 (by decide)

theorem passes_of_digit {c : UInt8} (digit : isdigit c) :
    inField c = true ∧ inPort c = true ∧ beforeParen c = true := by
  have range := (isdigit_iff c).mp digit
  have other (d : UInt8) (outside : d.toNat < 48) : c ≠ d := by
    rintro rfl
    omega
  have separate (d : UInt8) (outside : d.toNat < 48) : decide (c ≠ d) = true :=
    decide_eq_true (other d outside)
  unfold inField inPort beforeParen
  rw [separate 0 (by decide), separate 44 (by decide), separate 41 (by decide),
    separate 40 (by decide)]
  exact ⟨rfl, rfl, rfl⟩

variable {n : Nat} {f : CString}

theorem Number.chars (number : Number n f) {c : UInt8} (member : c ∈ f) : c = 32 ∨ isdigit c := by
  obtain ⟨i, j, digits, rfl, _, all, _⟩ := number
  rcases List.mem_append.mp member with blank | member
  · exact .inl (List.eq_of_mem_replicate blank)
  · rcases List.mem_append.mp member with digit | blank
    · exact .inr (all c digit)
    · exact .inl (List.eq_of_mem_replicate blank)

theorem behind_append {passes : UInt8 → Bool} {d : UInt8} (pass : ∀ c ∈ f, passes c = true)
    (stop : passes d = false) (rest : CString) : behind passes (f ++ d :: rest) = some rest := by
  unfold behind
  rw [List.dropWhile_append_of_pos pass, List.dropWhile_cons_of_neg (by rw [stop]; decide)]

theorem Number.behind_inField (number : Number n f) (rest : CString) :
    behind inField (f ++ 44 :: rest) = some rest := by
  refine behind_append (fun c member => ?_) rfl rest
  rcases number.chars member with rfl | digit
  · rfl
  · exact (passes_of_digit digit).1

theorem Number.behind_inPort (number : Number n f) (rest : CString) :
    behind inPort (f ++ 44 :: rest) = some rest := by
  refine behind_append (fun c member => ?_) rfl rest
  rcases number.chars member with rfl | digit
  · rfl
  · exact (passes_of_digit digit).2.1

theorem Number.first (number : Number n f) (rest : CString) :
    ∃ j digits, (f ++ rest).dropWhile isBlank = digits ++ (List.replicate j 32 ++ rest) ∧
      digits ≠ [] ∧ (∀ c ∈ digits, isdigit c) ∧ leadingNumber digits = n ∧ n ≤ 255 := by
  obtain ⟨i, j, digits, rfl, some_digits, all, value, small⟩ := number
  refine ⟨j, digits, ?_, some_digits, all, value, small⟩
  obtain ⟨c, cs, rfl⟩ := List.exists_cons_of_ne_nil some_digits
  have digit := not_blank_of_digit (all c (List.mem_cons_self ..))
  rw [List.append_assoc, List.append_assoc, List.dropWhile_append_of_pos fun c member => by
    rw [List.eq_of_mem_replicate member]; rfl]
  exact List.dropWhile_cons_of_neg (by rw [digit]; decide)

theorem Number.led (number : Number n f) (rest : CString) : Led (f ++ rest) := by
  obtain ⟨j, digits, first, some_digits, all, _⟩ := number.first rest
  obtain ⟨c, cs, rfl⟩ := List.exists_cons_of_ne_nil some_digits
  exact ⟨c, _, first, all c (List.mem_cons_self ..)⟩

/-- `atoi` of digits that something else ends. -/
theorem atoi_digits {digits rest : CString} (some_digits : digits ≠ [])
    (all : ∀ c ∈ digits, isdigit c) (ended : ∀ c ∈ rest.head?, isdigit c = false) :
    atoi (digits ++ rest) = clampLong (leadingNumber digits) := by
  have taken : leadingNumber (digits ++ rest) = leadingNumber digits := by
    have none_left : rest.takeWhile isdigit = [] := by
      cases rest with
      | nil => rfl
      | cons c rest => exact List.takeWhile_cons_of_neg (by rw [ended c rfl]; decide)
    unfold leadingNumber
    rw [List.takeWhile_append_of_pos all, none_left, List.append_nil, List.takeWhile_eq_self_iff.mpr all]
  obtain ⟨c, cs, rfl⟩ := List.exists_cons_of_ne_nil some_digits
  have range := (isdigit_iff c).mp (all c (List.mem_cons_self ..))
  have no_space : isspace c = false := by
    rw [Bool.eq_false_iff, ne_eq, isspace_iff]
    omega
  have other (d : UInt8) (outside : d.toNat < 48) : c ≠ d := by
    rintro rfl
    omega
  rw [atoi, atol, List.cons_append, List.dropWhile_cons_of_neg (by rw [no_space]; decide)]
  split
  next same => exact absurd (List.cons.inj same).1 (other 45 (by decide))
  next same => exact absurd (List.cons.inj same).1 (other 43 (by decide))
  · rw [← List.cons_append, taken]

theorem Number.value (number : Number n f) {d : UInt8} (no_digit : isdigit d = false)
    (rest : CString) : Router.number (f ++ d :: rest) = n := by
  obtain ⟨j, digits, first, some_digits, all, value, small⟩ := number.first (d :: rest)
  have ended : ∀ c ∈ (List.replicate j 32 ++ d :: rest).head?, isdigit c = false := by
    intro c member
    cases j with
    | zero =>
      cases member
      exact no_digit
    | succ j =>
      cases member
      rfl
  rw [Router.number, first, atoi_digits some_digits all ended, value]
  unfold clampLong
  omega

/-! ### What the scanner takes for a command -/

/-- The number with these digits to the base 256. -/
def bytesValue (ns : List Int) : Int := ns.foldl (fun v n => v * 256 + n) 0

/-- Where the scanner finds the numbers of an address and of a port. The latter may be one or two. -/
def Scanned (is_pasv : Bool) (text : CString) (ip port : List CString) : Prop :=
  ∃ body t, Body is_pasv text body ∧ addressTails 4 body = some (ip, t) ∧
    port = t :: (behind inPort t).toList ∧ ∀ t ∈ port, Led t

/-- A number up to 255 and nothing else comes before the next `d`. -/
def Ended (d : UInt8) (t : CString) : Prop := ∃ n f rest, Number n f ∧ t = f ++ d :: rest

/-- Six numbers, as they have to be. -/
def Strict (is_pasv : Bool) (ip port : List CString) : Prop :=
  (∀ t ∈ ip, Ended 44 t) ∧ ∃ t t', port = [t, t'] ∧ Ended 44 t ∧ Ended (endMark is_pasv) t'

/-- The scanner takes a command as it has to be if and only if its address and its port are not zero,
as far as they fit into 32 and 16 bits. -/
def Tolerable (is_pasv : Bool) (text : CString) : Prop :=
  ∀ ip port, Scanned is_pasv text ip port →
    (Strict is_pasv ip port ↔
      ¬(2 ^ 32 : Int) ∣ bytesValue (ip.map number) ∧ ¬(2 ^ 16 : Int) ∣ bytesValue (port.map number))

theorem behind_paren_iff {str : CString} (no_zero : (0 : UInt8) ∉ str) (body : CString) :
    behind beforeParen str = some body ↔ ∃ before, str = before ++ 40 :: body ∧ 40 ∉ before := by
  constructor
  · intro found
    have whole := List.takeWhile_append_dropWhile (p := beforeParen) (l := str)
    have before : ∀ c ∈ str.takeWhile beforeParen, beforeParen c = true := fun c member =>
      List.mem_takeWhile_imp member
    unfold behind at found
    split at found
    · cases found
    next c rest left =>
      cases found
      have stop : beforeParen c = false := by
        have head := List.head?_dropWhile_not beforeParen str
        rw [left] at head
        exact head
      have some_char : c ≠ 0 := by
        rintro rfl
        exact no_zero ((List.dropWhile_suffix beforeParen).subset (left ▸ List.mem_cons_self ..))
      obtain rfl : c = 40 := by
        unfold beforeParen at stop
        rw [decide_eq_true some_char, Bool.true_and] at stop
        exact not_not.mp (of_decide_eq_false stop)
      exact ⟨_, (left ▸ whole).symm, fun member => nomatch before 40 member⟩
  · rintro ⟨before, rfl, outside⟩
    refine behind_append (fun c member => ?_) rfl body
    have some_char : c ≠ 0 := fun zero => no_zero (zero ▸ List.mem_append_left _ member)
    have other : c ≠ 40 := fun paren => outside (paren ▸ member)
    unfold beforeParen
    rw [decide_eq_true some_char, decide_eq_true other]
    rfl

variable {is_pasv : Bool} {text body : CString}

theorem commandBody_iff (no_zero : (0 : UInt8) ∉ text) :
    commandBody is_pasv text = some body ↔ Body is_pasv text body := by
  have no_zero_left : (0 : UInt8) ∉ text.dropWhile isBlank := fun member =>
    no_zero ((List.dropWhile_suffix isBlank).subset member)
  unfold commandBody Body
  dsimp only
  split
  · rw [← and_assoc]
    split
    next reply =>
      rw [and_iff_right reply]
      exact behind_paren_iff no_zero_left body
    next other => exact iff_of_false (Option.some_ne_none _).symm fun same => other same.1
  · split
    next command =>
      obtain ⟨rest, split⟩ := command
      rw [← split]
      have dropped : (ascii "port " ++ rest).drop 5 = rest := rfl
      rw [dropped, Option.some.injEq, List.append_cancel_left_eq]
    next other =>
      exact iff_of_false (Option.some_ne_none _).symm fun same => other ⟨body, same.symm⟩

theorem ofInt_shift (w : Nat) (v : Int) : BitVec.ofInt w v <<< 8 = BitVec.ofInt w (v * 256) := by
  have factor : BitVec.twoPow w 8 = BitVec.ofInt w 256 := by
    apply BitVec.eq_of_toNat_eq
    rw [BitVec.toNat_twoPow, BitVec.ofInt_ofNat, BitVec.toNat_ofNat]
  rw [BitVec.ofInt_mul, BitVec.shiftLeft_eq_mul_twoPow, factor]

theorem ofInt_eq_zero_iff (w : Nat) (v : Int) : BitVec.ofInt w v = 0 ↔ (2 ^ w : Int) ∣ v := by
  have cast : ((2 ^ w : Nat) : Int) = 2 ^ w := Int.natCast_pow 2 w
  have some_size := Nat.two_pow_pos w
  have rest := Int.emod_nonneg v (by omega : ((2 ^ w : Nat) : Int) ≠ 0)
  have value := BitVec.toNat_ofInt (n := w) v
  rw [← cast, Int.dvd_iff_emod_eq_zero]
  have zeros : (0 : BitVec w).toNat = 0 := (BitVec.toNat_ofNat 0 w).trans (Nat.zero_mod _)
  constructor
  · intro zero
    rw [zero, zeros] at value
    omega
  · intro zero
    rw [zero] at value
    exact BitVec.eq_of_toNat_eq (value.trans zeros.symm)

theorem address_eq (ts : List CString) :
    address 0 ts = BitVec.ofInt 32 (bytesValue (ts.map number)) := by
  have step (v : Int) : address (BitVec.ofInt 32 v) ts =
      BitVec.ofInt 32 ((ts.map number).foldl (fun v n => v * 256 + n) v) := by
    induction ts generalizing v with
    | nil => rfl
    | cons t ts ih =>
      rw [List.map_cons, List.foldl_cons, ← ih, BitVec.ofInt_add, ← ofInt_shift]
      rfl
  exact step 0

theorem Scanned.unique (no_zero : (0 : UInt8) ∉ text) {ip port ip' port' : List CString}
    (scanned : Scanned is_pasv text ip port) (again : Scanned is_pasv text ip' port') :
    ip = ip' ∧ port = port' := by
  obtain ⟨body, t, found, tails, rfl, _⟩ := scanned
  obtain ⟨body', t', found', tails', rfl, _⟩ := again
  rw [← commandBody_iff no_zero] at found found'
  cases found.symm.trans found'
  cases tails.symm.trans tails'
  exact ⟨rfl, rfl⟩

theorem portNumber_eq {t : CString} (led : ∀ t' ∈ t :: (behind inPort t).toList, Led t') :
    portNumber t = BitVec.ofInt 16 (bytesValue ((t :: (behind inPort t).toList).map number)) := by
  have first (n : Int) : (0 : Int) * 256 + n = n := by rw [Int.zero_mul, Int.zero_add]
  unfold portNumber
  rw [if_pos (led t (List.mem_cons_self ..))]
  cases after : behind inPort t with
  | none => exact congrArg (BitVec.ofInt 16) (first (number t)).symm
  | some rest =>
    rw [after] at led
    have second := led rest (List.mem_cons_of_mem _ (List.mem_singleton_self rest))
    dsimp only
    rw [if_pos second, ofInt_shift, ← BitVec.ofInt_add]
    exact congrArg (fun v => BitVec.ofInt 16 (v * 256 + number rest)) (first (number t)).symm

theorem parsedPort_of_scanned (no_zero : (0 : UInt8) ∉ text) {ip port : List CString}
    (scanned : Scanned is_pasv text ip port) :
    parsedPort is_pasv text = if (2 ^ 32 : Int) ∣ bytesValue (ip.map number) then 0
      else BitVec.ofInt 16 (bytesValue (port.map number)) := by
  obtain ⟨body, t, found, tails, rfl, led⟩ := scanned
  rw [← commandBody_iff no_zero] at found
  rw [parsedPort, found]
  dsimp only
  rw [tails]
  dsimp only
  rw [address_eq, portNumber_eq led]
  exact if_congr (ofInt_eq_zero_iff 32 _) rfl rfl

theorem parsedPort_of_not_scanned (no_zero : (0 : UInt8) ∉ text)
    (not_scanned : ∀ ip port, ¬Scanned is_pasv text ip port) : parsedPort is_pasv text = 0 := by
  unfold parsedPort
  cases found : commandBody is_pasv text with
  | none => rfl
  | some body =>
    dsimp only
    cases tails : addressTails 4 body with
    | none => rfl
    | some tails' =>
      obtain ⟨ip, t⟩ := tails'
      have missing : ¬∀ t' ∈ t :: (behind inPort t).toList, Led t' := fun led =>
        not_scanned ip _ ⟨body, t, (commandBody_iff no_zero).mp found, tails, rfl, led⟩
      have no_port : portNumber t = 0 := by
        unfold portNumber
        by_cases first : Led t
        · rw [if_pos first]
          cases after : behind inPort t with
          | none =>
            rw [after] at missing
            exact absurd (fun t' member => List.mem_singleton.mp member ▸ first) missing
          | some rest =>
            refine if_neg fun second => missing ?_
            rw [after]
            intro t' member
            rcases List.mem_cons.mp member with rfl | member
            · exact first
            · exact List.mem_singleton.mp member ▸ second
        · exact if_neg first
      dsimp only
      rw [no_port, ite_self]

variable {ends : UInt8} {ns : List Nat}

theorem Numbers.le (numbers : Numbers ends ns body) : ∀ n ∈ ns, n ≤ 255 := by
  have small {n : Nat} {f : CString} : Number n f → n ≤ 255 := fun ⟨_, _, _, _, _, _, _, small⟩ => small
  induction numbers with
  | last number _ => exact fun m member => List.mem_singleton.mp member ▸ small number
  | more number _ ih =>
    intro m member
    rcases List.mem_cons.mp member with rfl | later
    · exact small number
    · exact ih m later

theorem Numbers.more_inv {m : Nat} (numbers : Numbers ends (n :: m :: ns) body) :
    ∃ f rest, Number n f ∧ body = f ++ 44 :: rest ∧ Numbers ends (m :: ns) rest := by
  cases numbers with
  | more number numbers => exact ⟨_, _, number, rfl, numbers⟩

theorem Numbers.address {k : Nat} (numbers : Numbers ends ns body) (count : ns.length = k + 2) :
    ∃ ts t, addressTails k body = some (ts, t) ∧ (∀ u ∈ ts, Ended 44 u) ∧
      Numbers ends (ns.drop k) t ∧ ts.map number = (ns.take k).map (↑) := by
  induction k generalizing ns body with
  | zero => exact ⟨[], body, rfl, List.forall_mem_nil _, numbers, rfl⟩
  | succ k ih =>
    match ns with
    | n :: m :: ns =>
      obtain ⟨f, rest, number, rfl, later⟩ := numbers.more_inv
      obtain ⟨ts, t, tails, ended, last, values⟩ := ih later (Nat.succ.inj count)
      refine ⟨(f ++ 44 :: rest) :: ts, t, ?_, ?_, last, ?_⟩
      · rw [addressTails, if_pos (number.led _), number.behind_inField]
        dsimp only
        rw [tails]
        rfl
      · intro u member
        rcases List.mem_cons.mp member with rfl | member
        · exact ⟨n, f, rest, number, rfl⟩
        · exact ended u member
      · rw [List.map_cons, values, number.value rfl]
        rfl

theorem endMark_no_digit (is_pasv : Bool) : isdigit (endMark is_pasv) = false := by
  cases is_pasv <;> rfl

/-- The numbers of a complete command are those the scanner reads. -/
theorem Complete.scanned (complete : Complete is_pasv text ns) :
    ∃ ip port, Scanned is_pasv text ip port ∧
      Strict is_pasv ip port ∧ ip.map number = (ns.take 4).map (↑) ∧
        port.map number = (ns.drop 4).map (↑) := by
  obtain ⟨count, body, found, numbers⟩ := complete
  obtain ⟨ip, t, tails, ended, last, values⟩ := numbers.address count
  match rest : ns.drop 4, last with
  | [], last =>
    have none_left := congrArg List.length rest
    rw [List.length_drop, count] at none_left
    cases none_left
  | [p], last =>
    have one_left := congrArg List.length rest
    rw [List.length_drop, count] at one_left
    cases one_left
  | p :: q :: r, last =>
    have two_left := congrArg List.length rest
    rw [List.length_drop, count, List.length_cons, List.length_cons] at two_left
    obtain rfl : r = [] := List.length_eq_zero_iff.mp (by omega)
    obtain ⟨f, t', high, rfl, later⟩ := last.more_inv
    cases later with
    | more _ none_left => cases none_left
    | @last _ g low behind_port =>
      have first : Ended 44 (f ++ 44 :: (g ++ endMark is_pasv :: behind_port)) := ⟨p, f, _, high, rfl⟩
      have second : Ended (endMark is_pasv) (g ++ endMark is_pasv :: behind_port) :=
        ⟨q, g, behind_port, low, rfl⟩
      have ports := congrArg ((f ++ 44 :: (g ++ endMark is_pasv :: behind_port)) :: ·.toList)
        (high.behind_inPort (g ++ endMark is_pasv :: behind_port))
      refine ⟨ip, _, ⟨body, _, found, tails, rfl, ?_⟩, ⟨ended, _, _, ports, first, second⟩, values, ?_⟩
      · rw [ports]
        intro u member
        rcases List.mem_cons.mp member with rfl | member
        · exact high.led _
        · exact List.mem_singleton.mp member ▸ low.led _
      · have high_value := high.value (by rfl : isdigit 44 = false)
        have low_value := low.value (endMark_no_digit is_pasv)
        rw [ports]
        simp only [Option.toList_some, List.map_cons, List.map_nil, high_value, low_value]

theorem numbers_of_ended {k : Nat} {t : CString} {ts : List CString}
    (tails : addressTails k body = some (ts, t)) (ended : ∀ u ∈ ts, Ended 44 u)
    (numbers : Numbers ends ns t) : ∃ ms, ms.length = k ∧ Numbers ends (ms ++ ns) body := by
  induction k generalizing body ts with
  | zero =>
    cases tails
    exact ⟨[], rfl, numbers⟩
  | succ k ih =>
    rw [addressTails] at tails
    split at tails
    · split at tails
      · cases tails
      next rest found =>
        obtain ⟨⟨ts', t'⟩, later, same⟩ := Option.map_eq_some_iff.mp tails
        cases same
        obtain ⟨n, f, rest', number, split⟩ := ended body (List.mem_cons_self ..)
        obtain ⟨ms, count, all⟩ := ih later fun u member => ended u (List.mem_cons_of_mem _ member)
        rw [split, number.behind_inField] at found
        cases found
        exact ⟨n :: ms, congrArg Nat.succ count, split ▸ .more number all⟩
    · cases tails

theorem Strict.complete {ip port : List CString} (strict : Strict is_pasv ip port)
    (scanned : Scanned is_pasv text ip port) : ∃ ns, Complete is_pasv text ns := by
  obtain ⟨ended, t, t', rfl, ⟨p, f, rest, high, rfl⟩, q, g, rest', low, rfl⟩ := strict
  obtain ⟨body, t, found, tails, ports, _⟩ := scanned
  obtain ⟨rfl, after⟩ := List.cons.inj ports
  rw [high.behind_inPort] at after
  obtain ⟨rfl, _⟩ := List.cons.inj after
  obtain ⟨ms, count, numbers⟩ := numbers_of_ended tails ended (.more high (.last low rest'))
  exact ⟨ms ++ [p, q], by rw [List.length_append, count]; rfl, body, found, numbers⟩

/-- The port of a complete command, unless its address is zero. -/
theorem Complete.port (no_zero : (0 : UInt8) ∉ text) {a b c d p q : Nat}
    (complete : Complete is_pasv text [a, b, c, d, p, q]) :
    parsedPort is_pasv text =
      if a = 0 ∧ b = 0 ∧ c = 0 ∧ d = 0 then 0 else BitVec.ofNat 16 (p * 256 + q) := by
  obtain ⟨ip, port, scanned, _, ip_numbers, port_numbers⟩ := complete.scanned
  obtain ⟨_, body, _, numbers⟩ := complete
  have small (n : Nat) (member : n ∈ [a, b, c, d, p, q]) := numbers.le n member
  have a_small := small a (by simp)
  have b_small := small b (by simp)
  have c_small := small c (by simp)
  have d_small := small d (by simp)
  have ip_value : bytesValue (ip.map number) = ((a * 256 + b) * 256 + c) * 256 + d := by
    rw [ip_numbers]
    simp only [bytesValue, List.take_succ_cons, List.take_zero, List.map_cons, List.map_nil,
      List.foldl_cons, List.foldl_nil, Int.zero_mul, Int.zero_add]
  have port_value : bytesValue (port.map number) = (p * 256 + q : Nat) := by
    rw [port_numbers]
    simp only [bytesValue, List.drop_succ_cons, List.drop_zero, List.map_cons, List.map_nil,
      List.foldl_cons, List.foldl_nil, Int.zero_mul, Int.zero_add]
    rfl
  rw [parsedPort_of_scanned no_zero scanned, ip_value, port_value, BitVec.ofInt_natCast]
  refine if_congr ?_ rfl rfl
  omega

/-- Nothing outside of the copy is read, and the port is that of a complete command. -/
structure ParseRight (is_pasv : Bool) (payload : CString) : Prop where
  inside : ftpParsePortCommand payload is_pasv ≠ none
  found : ∀ port, ftpParsePortCommand payload is_pasv = some port →
    (port ≠ 0 ↔ ∃ ns, Complete is_pasv (localText payload) ns)
  value : ∀ port a b c d p q, ftpParsePortCommand payload is_pasv = some port →
    Complete is_pasv (localText payload) [a, b, c, d, p, q] → port.toNat = p * 256 + q

theorem parse_right_iff (is_pasv : Bool) (payload : CString) :
    ParseRight is_pasv payload ↔ Tolerable is_pasv (localText payload) := by
  have no_zero := localText_no_zero payload
  have parsed := ftpParsePortCommand_eq payload is_pasv
  by_cases some_numbers : ∃ ip port, Scanned is_pasv (localText payload) ip port
  · obtain ⟨ip, port, scanned⟩ := some_numbers
    have value := parsedPort_of_scanned no_zero scanned
    have some_port : parsedPort is_pasv (localText payload) ≠ 0 ↔
        ¬(2 ^ 32 : Int) ∣ bytesValue (ip.map number) ∧
          ¬(2 ^ 16 : Int) ∣ bytesValue (port.map number) := by
      rw [value, ← ofInt_eq_zero_iff 16]
      split
      next none_there => exact iff_of_false (not_not_intro rfl) fun both => both.1 none_there
      next some_there => exact (and_iff_right some_there).symm
    have complete : (∃ ns, Complete is_pasv (localText payload) ns) ↔ Strict is_pasv ip port := by
      constructor
      · rintro ⟨ns, complete⟩
        obtain ⟨ip', port', again, strict, _⟩ := complete.scanned
        obtain ⟨rfl, rfl⟩ := scanned.unique no_zero again
        exact strict
      · exact fun strict => strict.complete scanned
    constructor
    · intro right ip' port' again
      obtain ⟨rfl, rfl⟩ := scanned.unique no_zero again
      rw [← some_port, ← complete]
      exact (right.found _ parsed).symm
    · intro tolerable
      have same := tolerable ip port scanned
      rw [← some_port, ← complete] at same
      refine ⟨by rw [parsed]; exact Option.some_ne_none _, ?_, ?_⟩
      · intro port' result
        cases parsed.symm.trans result
        exact same.symm
      · intro port' a b c d p q result command
        cases parsed.symm.trans result
        have some_port := same.mp ⟨_, command⟩
        have port := command.port no_zero
        obtain ⟨_, _, _, numbers⟩ := command
        have high := numbers.le p (by simp)
        have low := numbers.le q (by simp)
        rw [port] at some_port ⊢
        split at some_port
        · exact absurd rfl some_port
        next some_address =>
          rw [if_neg some_address, BitVec.toNat_ofNat]
          omega
  · have none_there := parsedPort_of_not_scanned no_zero fun ip port scanned =>
      some_numbers ⟨ip, port, scanned⟩
    have incomplete : ¬∃ ns, Complete is_pasv (localText payload) ns := by
      rintro ⟨ns, complete⟩
      obtain ⟨ip, port, scanned, _⟩ := complete.scanned
      exact some_numbers ⟨ip, port, scanned⟩
    refine iff_of_true ⟨by rw [parsed]; exact Option.some_ne_none _, ?_, ?_⟩
      fun ip port scanned => absurd ⟨ip, port, scanned⟩ some_numbers
    · intro port result
      cases parsed.symm.trans result
      exact iff_of_false (not_not_intro none_there) incomplete
    · intro port a b c d p q _ command
      exact absurd ⟨_, command⟩ incomplete

/-! ### Commands that are rewritten -/

theorem number_printed (small : n ≤ 255) : Number n (printed n) :=
  ⟨0, 0, printed n, (List.append_nil _).symm, printed_ne_nil n, fun _ => isdigit_of_mem_printed,
    leadingNumber_printed n, small⟩

theorem printed_length (small : n ≤ 255) : (printed n).length ≤ 3 := by
  rw [printed, List.length_map]
  exact (Nat.length_toDigits_le_iff (by decide) (by decide)).mpr (by omega)

/-- Six numbers with commas between them. -/
def numberList (a b c d p q : Nat) : CString :=
  printed a ++ 44 :: (printed b ++ 44 :: (printed c ++ 44 :: (printed d ++ 44 ::
    (printed p ++ 44 :: printed q))))

theorem portCommand_eq (ip : BitVec 32) (port : BitVec 16) (is_pasv : Bool) :
    portCommand ip port is_pasv =
      let list := numberList (ip.toNat / 2 ^ 24) (ip.toNat / 2 ^ 16 % 256) (ip.toNat / 2 ^ 8 % 256)
        (ip.toNat % 256) (port.toNat / 2 ^ 8) (port.toNat % 256)
      if is_pasv then ascii "227 Entering Passive Mode (" ++ list ++ ascii ")." ++ [13, 10]
      else ascii "PORT " ++ list ++ [13, 10] := by
  have shown {n : BitVec 32} {k : Nat} (value : n.toNat = k) (small : k ≤ 255) :
      formatInt n.toInt = printed k := by
    have positive : n.toInt = k := by
      rw [BitVec.toInt_eq_toNat_of_lt (by omega), value]
    rw [positive, formatInt_eq, if_neg (by omega), Int.natAbs_natCast]
  have low (n : BitVec 32) : (n &&& 0xff).toNat = n.toNat % 256 :=
    (BitVec.toNat_and ..).trans (Nat.and_two_pow_sub_one_eq_mod n.toNat 8)
  have low_port (n : BitVec 16) : ((n &&& 0xff).setWidth 32).toNat = n.toNat % 256 := by
    have masked : (n &&& 0xff).toNat = n.toNat % 256 :=
      (BitVec.toNat_and ..).trans (Nat.and_two_pow_sub_one_eq_mod n.toNat 8)
    rw [BitVec.toNat_setWidth, masked]
    omega
  have shifted {w : Nat} (n : BitVec w) (k : Nat) : (n >>> k).toNat = n.toNat / 2 ^ k := by
    rw [BitVec.toNat_ushiftRight, Nat.shiftRight_eq_div_pow]
  have ip_small := ip.isLt
  have port_small := port.isLt
  have a := shown (shifted ip 24) (by omega)
  have b := shown ((low (ip >>> 16)).trans (congrArg (· % 256) (shifted ip 16))) (by omega)
  have c := shown ((low (ip >>> 8)).trans (congrArg (· % 256) (shifted ip 8))) (by omega)
  have d := shown (low ip) (by omega)
  have p := shown ((low_port (port >>> 8)).trans
    ((congrArg (· % 256) (shifted port 8)).trans (Nat.mod_eq_of_lt (by omega)))) (by omega)
  have q := shown (low_port port) (by omega)
  unfold portCommand numberList
  simp only [List.map_cons, List.map_nil, a, b, c, d, p, q, List.intersperse, List.flatten_cons,
    List.flatten_nil, List.append_nil, List.append_assoc, List.cons_append, List.nil_append]

theorem plain_of_digit {c : UInt8} (digit : isdigit c) : plain c = c := by
  have range := (isdigit_iff c).mp digit
  have printable : ¬(c < 32 || 122 < c) = true := by
    rw [Bool.or_eq_true, decide_eq_true_eq, decide_eq_true_eq, UInt8.lt_iff_toNat_lt,
      UInt8.lt_iff_toNat_lt]
    show ¬(c.toNat < 32 ∨ 122 < c.toNat)
    omega
  have no_letter : ¬(65 ≤ c && c ≤ 90) = true := by
    rw [Bool.and_eq_true, decide_eq_true_eq, decide_eq_true_eq, UInt8.le_iff_toNat_le]
    show ¬(65 ≤ c.toNat ∧ _)
    omega
  rw [plain, if_neg printable, if_neg no_letter]

theorem map_plain_printed (n : Nat) : (printed n).map plain = printed n :=
  (List.map_congr_left fun _ member => plain_of_digit (isdigit_of_mem_printed member)).trans
    (List.map_id _)

theorem portCommand_length (ip : BitVec 32) (port : BitVec 16) (is_pasv : Bool) :
    (portCommand ip port is_pasv).length ≤ 99 := by
  have ip_small := ip.isLt
  have port_small := port.isLt
  have a := printed_length (by omega : ip.toNat / 2 ^ 24 ≤ 255)
  have b := printed_length (by omega : ip.toNat / 2 ^ 16 % 256 ≤ 255)
  have c := printed_length (by omega : ip.toNat / 2 ^ 8 % 256 ≤ 255)
  have d := printed_length (by omega : ip.toNat % 256 ≤ 255)
  have p := printed_length (by omega : port.toNat / 2 ^ 8 ≤ 255)
  have q := printed_length (by omega : port.toNat % 256 ≤ 255)
  have reply : (ascii "227 Entering Passive Mode (").length = 27 := rfl
  have command : (ascii "PORT ").length = 5 := rfl
  have dot : (ascii ").").length = 2 := rfl
  rw [portCommand_eq]
  dsimp only [numberList]
  split
  · simp only [List.length_append, List.length_cons, List.length_nil]
    omega
  · simp only [List.length_append, List.length_cons, List.length_nil]
    omega

theorem localText_portCommand (ip : BitVec 32) (port : BitVec 16) (is_pasv : Bool) :
    localText (portCommand ip port is_pasv) =
      let list := numberList (ip.toNat / 2 ^ 24) (ip.toNat / 2 ^ 16 % 256) (ip.toNat / 2 ^ 8 % 256)
        (ip.toNat % 256) (port.toNat / 2 ^ 8) (port.toNat % 256)
      if is_pasv then ascii "227 entering passive mode (" ++ (list ++ [41, 46, 32, 32])
      else ascii "port " ++ (list ++ [32, 32]) := by
  have short := portCommand_length ip port is_pasv
  have reply : (ascii "227 Entering Passive Mode (").map plain = ascii "227 entering passive mode (" :=
    rfl
  have command : (ascii "PORT ").map plain = ascii "port " := rfl
  have dot : (ascii ").").map plain = [41, 46] := rfl
  have line_end : [13, 10].map plain = [32, 32] := rfl
  have comma : plain 44 = 44 := rfl
  rw [localText, List.take_of_length_le short, portCommand_eq]
  dsimp only [numberList]
  split
  · simp only [List.map_append, List.map_cons, map_plain_printed, reply, dot, comma, line_end,
      List.append_assoc]
    rfl
  · simp only [List.map_append, List.map_cons, map_plain_printed, command, comma, line_end,
      List.append_assoc]

theorem numberList_numbers {a b c d p q : Nat} (a_small : a ≤ 255) (b_small : b ≤ 255)
    (c_small : c ≤ 255) (d_small : d ≤ 255) (p_small : p ≤ 255) (q_small : q ≤ 255) (ends : UInt8)
    (rest : CString) : Numbers ends [a, b, c, d, p, q] (numberList a b c d p q ++ ends :: rest) := by
  have last : Numbers ends _ _ := .last (number_printed q_small) rest
  have numbers := Numbers.more (number_printed a_small) (.more (number_printed b_small)
    (.more (number_printed c_small) (.more (number_printed d_small) (.more (number_printed p_small)
      last))))
  rw [numberList]
  simp only [List.append_assoc, List.cons_append]
  exact numbers

theorem portCommand_complete (ip : BitVec 32) (port : BitVec 16) (is_pasv : Bool) :
    Complete is_pasv (localText (portCommand ip port is_pasv)) [ip.toNat / 2 ^ 24,
      ip.toNat / 2 ^ 16 % 256, ip.toNat / 2 ^ 8 % 256, ip.toNat % 256, port.toNat / 2 ^ 8,
      port.toNat % 256] := by
  have ip_small := ip.isLt
  have port_small := port.isLt
  have numbers := numberList_numbers (by omega : ip.toNat / 2 ^ 24 ≤ 255)
    (by omega : ip.toNat / 2 ^ 16 % 256 ≤ 255) (by omega : ip.toNat / 2 ^ 8 % 256 ≤ 255)
    (by omega : ip.toNat % 256 ≤ 255) (by omega : port.toNat / 2 ^ 8 ≤ 255)
    (by omega : port.toNat % 256 ≤ 255)
  rw [localText_portCommand]
  cases is_pasv with
  | false => exact ⟨rfl, _, rfl, numbers 32 [32]⟩
  | true =>
    have code (tail : CString) : atoi (ascii "227" ++ (ascii " entering passive mode (" ++ tail)) = 227 :=
      atoi_digits (by decide) (List.all_eq_true.mp (by decide)) fun c member => by cases member; rfl
    refine ⟨rfl, _, ⟨code _, ⟨ascii "227 entering ", ascii " mode (" ++ _, rfl⟩,
      ascii "227 entering passive mode ", rfl, by decide⟩, numbers 41 [46, 32, 32]⟩

/-- A command that has been made is read back. -/
theorem parse_portCommand {ip : BitVec 32} {port : BitVec 16} (some_ip : ip ≠ 0) (is_pasv : Bool) :
    ftpParsePortCommand (portCommand ip port is_pasv) is_pasv = some port := by
  have ip_small := ip.isLt
  have port_small := port.isLt
  have some_address : ip.toNat ≠ 0 := fun zero => some_ip (BitVec.eq_of_toNat_eq zero)
  rw [ftpParsePortCommand_eq, (portCommand_complete ip port is_pasv).port (localText_no_zero _),
    if_neg (by omega)]
  refine congrArg some (BitVec.eq_of_toNat_eq ?_)
  rw [BitVec.toNat_ofNat]
  omega

/-! ### What goes to the remote host -/

/-- The bytes of a segment as characters. -/
def segmentText (data : List (BitVec 8)) : CString := data.map UInt8.ofBitVec

/-- Which of the two commands is looked for, if any. -/
def ftpDirection (m_ftp_ports : List (BitVec 16)) (src_port dest_port : BitVec 16) : Option Bool :=
  if src_port ∈ m_ftp_ports then some true
  else if dest_port ∈ m_ftp_ports then some false
  else none

/-- The port that is found in a segment, and the text that takes its place. `name` is the address of
the socket. -/
def ftpEnv (m_ftp_ports : List (BitVec 16)) (name : BitVec 32) (p : TcpPacket) (x : Turn) (env : Env) :
    Env :=
  let buf := segmentText (p.data.take maxSegmentSize)
  match ftpDirection m_ftp_ports x.srcPort x.destPort with
  | none => { env with ftpDataPort := 0 }
  | some is_pasv =>
    let port := (ftpParsePortCommand buf is_pasv).getD 0
    let text := ftpModifyPortCommand buf maxSegmentSize name port is_pasv
    { env with ftpDataPort := port, ftpBuffer := text.map UInt8.toBitVec }

/-- What follows the first line of a segment. -/
def behindLine (data : List (BitVec 8)) : List (BitVec 8) := (data.dropWhile (· ≠ 10)).tail

/-- The bytes that are given to `b_send`. -/
def Turn.toSend (x : Turn) : List (BitVec 8) := x.writeBuf.take x.writeLen.toNat

/-- The command in the segment is found, and a socket listens for it. -/
structure Rewritten (e : Env) : Prop where
  port : e.ftpDataPort ≠ 0
  listens : e.listenSlot ≠ none

theorem ftpEnv_buffer {m_ftp_ports : List (BitVec 16)} {name : BitVec 32} {p : TcpPacket} {x : Turn}
    {env : Env} (found : (ftpEnv m_ftp_ports name p x env).ftpDataPort ≠ 0) :
    (ftpEnv m_ftp_ports name p x env).ftpBuffer.length ≤ 99 := by
  unfold ftpEnv at found ⊢
  dsimp only at found ⊢
  split
  next none_wanted =>
    rw [none_wanted] at found
    exact absurd rfl found
  next is_pasv _ =>
    rw [List.length_map]
    exact portCommand_length name _ is_pasv

theorem rewritten_toSend {e : Env} (rewritten : Rewritten e) (short : e.ftpBuffer.length ≤ 99)
    (x : Turn) : (ftpPatch e x).1.toSend = e.ftpBuffer := by
  obtain ⟨lst, listens⟩ := Option.ne_none_iff_exists'.mp rewritten.listens
  unfold ftpPatch
  rw [if_neg rewritten.port, listens]
  have length : (BitVec.ofNat 32 e.ftpBuffer.length).toNat = e.ftpBuffer.length := by
    rw [BitVec.toNat_ofNat, Nat.mod_eq_of_lt (by omega)]
  show (overwrite _ e.ftpBuffer).take _ = _
  rw [length, overwrite, List.take_left]

/-- The scanner finds exactly the complete commands if it is so for what it takes for one; the text
of the rewriter is read back; what follows the line of a command that is rewritten gets to the remote
host if there is nothing. -/
theorem ftp_port_commands_right_iff (is_pasv : Bool) (payload buf : CString) (ip : BitVec 32)
    (port : BitVec 16) (m_ftp_ports : List (BitVec 16)) (name : BitVec 32) (p : TcpPacket) (x : Turn)
    (env : Env) :
    (ParseRight is_pasv payload ↔ Tolerable is_pasv (localText payload)) ∧
    (ip ≠ 0 → port ≠ 0 → ftpParsePortCommand
      (ftpModifyPortCommand buf maxSegmentSize ip port is_pasv) is_pasv = some port) ∧
    (Rewritten (ftpEnv m_ftp_ports name p x env) →
      ((ftpPatch (ftpEnv m_ftp_ports name p x env) (bufferData p x)).1.toSend =
          (ftpEnv m_ftp_ports name p x env).ftpBuffer ++ behindLine (p.data.take maxSegmentSize) ↔
        behindLine (p.data.take maxSegmentSize) = [])) := by
  refine ⟨parse_right_iff is_pasv payload, fun some_ip _ => parse_portCommand some_ip is_pasv,
    fun rewritten => ?_⟩
  rw [rewritten_toSend rewritten (ftpEnv_buffer rewritten.port)]
  exact List.self_eq_append_right

/-- A command with one number for its port. -/
def shortCommand : CString := ascii "PORT 1,2,3,4,21" ++ [13, 10]

theorem short_command_taken : ¬∀ is_pasv payload, ParseRight is_pasv payload := by
  intro claim
  have tolerable := (parse_right_iff false shortCommand).mp (claim false shortCommand)
  have scanned : Scanned false (localText shortCommand) [ascii "1,2,3,4,21  ", ascii "2,3,4,21  ",
      ascii "3,4,21  ", ascii "4,21  "] [ascii "21  "] :=
    ⟨ascii "1,2,3,4,21  ", ascii "21  ", rfl, by decide, rfl, by decide⟩
  have strict := (tolerable _ _ scanned).mpr ⟨by decide, by decide⟩
  obtain ⟨_, t, t', two, _⟩ := strict
  cases two

end BasiliskII.Router
