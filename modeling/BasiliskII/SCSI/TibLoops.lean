import BasiliskII.SCSI.ScatterGather

/-!
# Loops of transfer instruction blocks

`Unrolled` is the meaning of a block whose `scLoop` instructions branch back
over the code before them: a loop entered with a count executes its body that
often, and once if the count is not positive. `exec_tib` follows the unrolled
block to its `scStop` exactly when every loop is entered with a positive count,
since it tests the decremented count as an unsigned number.
-/
namespace BasiliskII.SCSI

open ByteMemory StepSystem

variable {w : Nat} {mac2HostAddr : BitVec 32 → BitVec w}

/-! ### One round of `exec_tib` -/

/-- A round of the loop of `exec_tib`: it returns, or goes on at the next instruction. -/
def execRound (mac2HostAddr : BitVec 32 → BitVec w) (st : Exec w) (tib : BitVec 32) :
    (Int × Exec w) ⊕ (Exec w × BitVec 32) :=
  let cmd := getWord st.mem tib
  let ptr := getLong st.mem (tib + 2)
  let len := getLong st.mem (tib + 6)
  let tib := tib + 10
  match cmd with
  | 1 =>
    -- scInc
    let st := { st with mem := putLong st.mem (tib - 8) (ptr + len) }
    match st.addTransfer mac2HostAddr ptr len with
    | none => .inl (memFullErr, st)
    | some st => .inr (st, tib)
  | 2 =>
    -- scNoInc
    match st.addTransfer mac2HostAddr ptr len with
    | none => .inl (memFullErr, st)
    | some st => .inr (st, tib)
  | 3 =>
    -- scAdd
    .inr ({ st with mem := putLong st.mem ptr (getLong st.mem ptr + len) }, tib)
  | 4 =>
    -- scMove
    .inr ({ st with mem := putLong st.mem len (getLong st.mem ptr) }, tib)
  | 5 =>
    -- scLoop
    .inr ({ st with mem := putLong st.mem (tib - 4) (len - 1) },
      if len - 1 > 0 then tib + (ptr - 10) else tib)
  | 6 =>
    -- scNop
    .inr (st, tib)
  | 7 =>
    -- scStop
    .inl (0, st)
  | 8 =>
    -- scComp
    .inl (scCompareErr, st)
  | _ => .inl (scBadParmsErr, st)

theorem execTib_succ (fuel : Nat) (st : Exec w) (tib : BitVec 32) :
    execTib mac2HostAddr (fuel + 1) st tib =
      (execRound mac2HostAddr st tib).elim some
        (fun next => execTib mac2HostAddr fuel next.1 next.2) := by
  rw [execTib, execRound]
  dsimp only
  generalize getWord st.mem tib = cmd
  split
  case h_1 => -- scInc
    cases Exec.addTransfer mac2HostAddr _ _ _ <;> rfl
  case h_2 => -- scNoInc
    cases Exec.addTransfer mac2HostAddr _ _ _ <;> rfl
  case h_9 => simp only [Sum.elim_inl]
  all_goals rfl

/-- The rounds that go on, labelled with the addresses of their instructions. -/
def tibStep (mac2HostAddr : BitVec 32 → BitVec w) (s : Exec w × BitVec 32) (address : BitVec 32) :
    Option (Exec w × BitVec 32) :=
  if address = s.2 then (execRound mac2HostAddr s.1 s.2).getRight? else none

variable {tib : BitVec 32} {st st' : Exec w}

theorem tibStep_round {next : BitVec 32} (round : execRound mac2HostAddr st tib = .inr (st', next)) :
    tibStep mac2HostAddr (st, tib) tib = some (st', next) := by
  rw [tibStep, if_pos rfl, round]
  rfl

variable {addresses : List (BitVec 32)}

theorem run_round_iff {next : BitVec 32} {t : Exec w × BitVec 32}
    (round : execRound mac2HostAddr st tib = .inr (st', next)) :
    Run (tibStep mac2HostAddr) Free (st, tib) (tib :: addresses) t ↔
      Run (tibStep mac2HostAddr) Free (st', next) addresses t := by
  constructor
  · intro run
    cases run with
    | next _ taken rest =>
      cases (tibStep_round round).symm.trans taken
      exact rest
  · exact .next trivial (tibStep_round round)

theorem run_head {s t : Exec w × BitVec 32} (run : Run (tibStep mac2HostAddr) Free s addresses t) :
    (addresses ++ [t.2]).head? = some s.2 := by
  cases run with
  | done => rfl
  | @next _ _ _ address _ _ taken _ =>
    rw [tibStep] at taken
    split at taken
    next here => rw [here]; rfl
    · cases taken

/-- A run to an `scStop` is what `exec_tib` does. -/
theorem execTib_run {last : BitVec 32}
    (run : Run (tibStep mac2HostAddr) Free (st, tib) addresses (st', last))
    (stop : getWord st'.mem last = 7) :
    execTib mac2HostAddr (addresses.length + 1) st tib = some (0, st') := by
  generalize start : (st, tib) = s at run
  generalize finish : (st', last) = t at run
  induction run generalizing st tib with
  | done =>
    cases start
    cases finish
    rw [execTib_succ, execRound, stop]
    rfl
  | @next s u t address addresses _ taken _ ih =>
    cases start
    rw [tibStep] at taken
    split at taken
    · have round := Sum.getRight?_eq_some_iff.mp taken
      rw [List.length_cons, execTib_succ, round]
      exact ih rfl finish
    · cases taken

/-! ### Blocks with loops -/

/-- An instruction that is neither a loop nor an end, with room in the table for its transfer. -/
inductive Straight (mac2HostAddr : BitVec 32 → BitVec w) : Exec w → BitVec 32 → Exec w → Prop
  | inc {st st' tib ptr len} (here : InstructionAt st.mem tib 1 ptr len)
      (room : Exec.addTransfer mac2HostAddr { st with mem := putLong st.mem (tib + 2) (ptr + len) }
        ptr len = some st') : Straight mac2HostAddr st tib st'
  | noInc {st st' tib ptr len} (here : InstructionAt st.mem tib 2 ptr len)
      (room : st.addTransfer mac2HostAddr ptr len = some st') : Straight mac2HostAddr st tib st'
  | add {st tib ptr len} (here : InstructionAt st.mem tib 3 ptr len) :
      Straight mac2HostAddr st tib
        { st with mem := putLong st.mem ptr (getLong st.mem ptr + len) }
  | move {st tib ptr len} (here : InstructionAt st.mem tib 4 ptr len) :
      Straight mac2HostAddr st tib { st with mem := putLong st.mem len (getLong st.mem ptr) }
  | nop {st tib ptr len} (here : InstructionAt st.mem tib 6 ptr len) :
      Straight mac2HostAddr st tib st

/-- The instructions of a block before its `scStop`; each loop is behind its body. -/
inductive Shape where
  | done
  | straight (rest : Shape)
  | loop (body rest : Shape)

def Shape.size : Shape → Nat
  | .done => 0
  | .straight rest => rest.size + 1
  | .loop body rest => body.size + (rest.size + 1)

/-- The address behind `n` instructions. -/
def behind (tib : BitVec 32) (n : Nat) : BitVec 32 := tib + BitVec.ofNat 32 (10 * n)

/-- A block is shorter than the address space. -/
structure Block where
  shape : Shape
  fits : 10 * shape.size < 2 ^ 32

/-- One entry into a loop: its count, how often its body is executed, and what is left. -/
structure LoopEntry where
  count : BitVec 32
  passes : Nat
  left : BitVec 32
  deriving DecidableEq, Repr

/-- A part of a block: from a state, through the instructions at the addresses, entering loops,
to a state. -/
abbrev Part (w : Nat) := Exec w → List (BitVec 32) → List LoopEntry → Exec w → Prop

inductive Repeated (pass : Part w) : Nat → Part w
  | zero (st : Exec w) : Repeated pass 0 st [] [] st
  | succ {n st st' st'' addresses addresses' entries entries'}
      (first : pass st addresses entries st') (rest : Repeated pass n st' addresses' entries' st'') :
      Repeated pass (n + 1) st (addresses ++ addresses') (entries ++ entries') st''

/-- The body, which leaves the count of its loop alone, and the `scLoop` behind it. -/
def loopPass (body : Part w) (size : Nat) (loopAt : BitVec 32) : Part w :=
  fun st addresses entries st' =>
    ∃ addresses' st1, body st addresses' entries st1 ∧
      InstructionAt st1.mem loopAt 5 (-BitVec.ofNat 32 (10 * size)) (getLong st.mem (loopAt + 6)) ∧
      addresses = addresses' ++ [loopAt] ∧
      st' = { st1 with mem := putLong st1.mem (loopAt + 6) (getLong st.mem (loopAt + 6) - 1) }

def loopPasses (count : BitVec 32) : Nat := (max 1 count.toInt).toNat

/-- The execution of a block: a loop entered with a count runs `max 1 count` times. -/
def Unrolled (mac2HostAddr : BitVec 32 → BitVec w) : Shape → BitVec 32 → Part w
  | .done, _ => fun st addresses entries st' => addresses = [] ∧ entries = [] ∧ st' = st
  | .straight rest, tib => fun st addresses entries st' =>
    ∃ st1 addresses', Straight mac2HostAddr st tib st1 ∧
      Unrolled mac2HostAddr rest (tib + 10) st1 addresses' entries st' ∧
      addresses = tib :: addresses'
  | .loop body rest, tib => fun st addresses entries st' =>
    ∃ st1 addresses1 entries1 addresses2 entries2,
      Repeated (loopPass (Unrolled mac2HostAddr body tib) body.size (behind tib body.size))
        (loopPasses (getLong st.mem (behind tib body.size + 6))) st addresses1 entries1 st1 ∧
      Unrolled mac2HostAddr rest (behind tib body.size + 10) st1 addresses2 entries2 st' ∧
      addresses = addresses1 ++ addresses2 ∧
      entries = ⟨getLong st.mem (behind tib body.size + 6),
        loopPasses (getLong st.mem (behind tib body.size + 6)),
        getLong st1.mem (behind tib body.size + 6)⟩ :: (entries1 ++ entries2)

theorem straight_round (straight : Straight mac2HostAddr st tib st') :
    execRound mac2HostAddr st tib = .inr (st', tib + 10) := by
  have ptr_at : tib + 10 - 8 = tib + 2 := by grind
  cases straight with
  | inc here room =>
    rw [execRound, here.cmd, here.ptr, here.len]
    dsimp only
    rw [ptr_at, room]
    rfl
  | noInc here room =>
    rw [execRound, here.cmd, here.ptr, here.len]
    dsimp only
    rw [room]
    rfl
  | add here | move here =>
    rw [execRound, here.cmd, here.ptr, here.len]
    rfl
  | nop here =>
    rw [execRound, here.cmd]
    rfl

variable {size : Nat}

theorem loop_round {count : BitVec 32}
    (here : InstructionAt st.mem (behind tib size) 5 (-BitVec.ofNat 32 (10 * size)) count) :
    execRound mac2HostAddr st (behind tib size) =
      .inr ({ st with mem := putLong st.mem (behind tib size + 6) (count - 1) },
        if count = 1 then behind tib size + 10 else tib) := by
  have len_at : behind tib size + 10 - 4 = behind tib size + 6 := by grind
  have target : behind tib size + 10 + (-BitVec.ofNat 32 (10 * size) - 10) = tib := by
    rw [behind]
    grind
  rw [execRound, here.cmd, here.ptr, here.len]
  dsimp only
  rw [len_at, target]
  by_cases last : count = 1
  · rw [if_pos last, if_neg (by rw [last]; decide)]
    rfl
  · have again : count - 1 > 0 := by bv_omega
    rw [if_neg last, if_pos again]
    rfl

/-! ### Following the unrolled block -/

/-- Followed by what starts at its end, a part starts at its start. -/
def StartsAt (part : Part w) (first last : BitVec 32) : Prop :=
  ∀ st addresses entries st', part st addresses entries st' →
    ∀ rest : List (BitVec 32), rest.head? = some last → (addresses ++ rest).head? = some first

/-- Runs that are to go through the part and on from its end do so exactly if all loops are
entered with a positive count. -/
def FollowedIff (mac2HostAddr : BitVec 32 → BitVec w) (part : Part w) (first last : BitVec 32) :
    Prop :=
  ∀ st addresses entries st', part st addresses entries st' →
    ∀ (rest : List (BitVec 32)) (t : Exec w × BitVec 32), (rest ++ [t.2]).head? = some last →
      (Run (tibStep mac2HostAddr) Free (st, first) (addresses ++ rest) t ↔
        (∀ entry ∈ entries, 0 < entry.count.toInt) ∧
          Run (tibStep mac2HostAddr) Free (st', last) rest t)

theorem behind_succ (tib : BitVec 32) (n : Nat) : behind tib (n + 1) = behind (tib + 10) n := by
  have ten : BitVec.ofNat 32 (10 * (n + 1)) = 10 + BitVec.ofNat 32 (10 * n) := by
    rw [Nat.mul_succ, Nat.add_comm, BitVec.ofNat_add]
    rfl
  rw [behind, behind, ten, BitVec.add_assoc]

theorem behind_add (tib : BitVec 32) (m n : Nat) :
    behind tib (m + n) = behind (behind tib m) n := by
  rw [behind, behind, behind, Nat.mul_add, BitVec.ofNat_add, BitVec.add_assoc]

/-- A loop that fits in the address space does not end where it starts. -/
theorem loop_end_ne (tib : BitVec 32) (fits : 10 * (size + 1) < 2 ^ 32) :
    behind tib size + 10 ≠ tib := by
  intro same
  have step : behind tib size + 10 = tib + BitVec.ofNat 32 (10 * (size + 1)) := by
    rw [behind, Nat.mul_succ, BitVec.ofNat_add, BitVec.add_assoc]
    rfl
  rw [step] at same
  have zero : BitVec.ofNat 32 (10 * (size + 1)) = 0#32 := BitVec.add_right_eq_self.mp same
  have value := congrArg BitVec.toNat zero
  rw [BitVec.toNat_ofNat, Nat.mod_eq_of_lt fits] at value
  simp at value

variable {body : Part w} {entries : List LoopEntry} {n : Nat}

theorem repeated_startsAt (starts : StartsAt body tib (behind tib size)) (positive : 0 < n)
    (repeated : Repeated (loopPass body size (behind tib size)) n st addresses entries st')
    (rest : List (BitVec 32)) : (addresses ++ rest).head? = some tib := by
  cases repeated with
  | zero => exact absurd positive (Nat.lt_irrefl 0)
  | @succ n _ _ _ _ addresses' _ _ first later =>
    obtain ⟨inside, st1, ran, _, rfl, _⟩ := first
    have head := starts _ _ _ _ ran (behind tib size :: (addresses' ++ rest)) rfl
    simpa using head

/-- One decrement per pass. -/
theorem repeated_count {loopAt : BitVec 32}
    (repeated : Repeated (loopPass body size loopAt) n st addresses entries st') :
    getLong st'.mem (loopAt + 6) = getLong st.mem (loopAt + 6) - BitVec.ofNat 32 n := by
  induction repeated with
  | zero st => simp
  | @succ n st st1 st2 _ _ _ _ first _ ih =>
    obtain ⟨_, _, _, _, _, rfl⟩ := first
    rw [ih, getLong_putLong (by decide), Nat.add_comm, BitVec.ofNat_add, BitVec.sub_sub]
    rfl

theorem repeated_entries {loopAt : BitVec 32} {Q : LoopEntry → Prop}
    (all : ∀ st addresses entries st', body st addresses entries st' → ∀ entry ∈ entries, Q entry)
    (repeated : Repeated (loopPass body size loopAt) n st addresses entries st') :
    ∀ entry ∈ entries, Q entry := by
  induction repeated with
  | zero => simp
  | succ first _ ih =>
    obtain ⟨_, _, ran, _⟩ := first
    intro entry member
    rcases List.mem_append.mp member with now | afterwards
    · exact all _ _ _ _ ran entry now
    · exact ih entry afterwards

/-- A loop of `n` passes is followed exactly if it is entered with the count `n`. -/
theorem repeated_followed_iff (fits : 10 * (size + 1) < 2 ^ 32)
    (starts : StartsAt body tib (behind tib size))
    (followed : FollowedIff mac2HostAddr body tib (behind tib size)) (small : n < 2 ^ 32)
    (positive : 0 < n)
    (repeated : Repeated (loopPass body size (behind tib size)) n st addresses entries st')
    (rest : List (BitVec 32)) (t : Exec w × BitVec 32)
    (head : (rest ++ [t.2]).head? = some (behind tib size + 10)) :
    Run (tibStep mac2HostAddr) Free (st, tib) (addresses ++ rest) t ↔
      ((getLong st.mem (behind tib size + 6)).toNat = n ∧ ∀ entry ∈ entries, 0 < entry.count.toInt) ∧
        Run (tibStep mac2HostAddr) Free (st', behind tib size + 10) rest t := by
  -- Induction on the passes: after each, the code goes back unless the count was 1.
  have leaves := loop_end_ne tib fits
  induction repeated with
  | zero => exact absurd positive (Nat.lt_irrefl 0)
  | @succ n st st1 st2 addresses addresses' entries entries' first later ih =>
    obtain ⟨inside, st0, ran, here, rfl, rfl⟩ := first
    generalize count_at : getLong st.mem (behind tib size + 6) = count at *
    have through := followed _ _ _ _ ran (behind tib size :: (addresses' ++ rest)) t rfl
    rw [run_round_iff (loop_round here)] at through
    rw [List.append_assoc, List.append_assoc, List.singleton_append, through]
    simp only [List.mem_append, or_imp, forall_and]
    cases n with
    | zero =>
      cases later with
      | zero =>
        by_cases last : count = 1
        · simp [last]
        · rw [if_neg last]
          constructor
          · rintro ⟨_, run⟩
            have back := run_head run
            rw [List.nil_append, head] at back
            exact absurd (Option.some.inj back) leaves
          · rintro ⟨⟨one, _⟩, _⟩
            exact absurd (BitVec.eq_of_toNat_eq one) last
    | succ n =>
      have further := ih (by omega) (by omega)
      rw [getLong_putLong (by decide)] at further
      have at_start := repeated_startsAt starts (Nat.succ_pos n) later (rest ++ [t.2])
      by_cases last : count = 1
      · rw [if_pos last]
        constructor
        · rintro ⟨_, run⟩
          have left := run_head run
          rw [List.append_assoc, at_start] at left
          exact absurd (Option.some.inj left).symm leaves
        · rintro ⟨⟨more, _⟩, _⟩
          rw [last] at more
          exact absurd more (by simp)
      · have one_less : (count - 1).toNat = n + 1 ↔ count.toNat = n + 1 + 1 := by bv_omega
        rw [if_neg last]
        refine (and_congr_right fun _ => further).trans ?_
        rw [one_less, ← and_assoc, and_left_comm]

theorem loopPasses_pos (count : BitVec 32) : 0 < loopPasses count := by
  rw [loopPasses]
  omega

theorem loopPasses_lt (count : BitVec 32) : loopPasses count < 2 ^ 32 := by
  have below := BitVec.toInt_lt (x := count)
  rw [loopPasses]
  omega

theorem loopPasses_iff (count : BitVec 32) : count.toNat = loopPasses count ↔ 0 < count.toInt := by
  have size := count.isLt
  rw [loopPasses, BitVec.toInt_eq_toNat_cond]
  split <;> omega

theorem unrolled_startsAt (shape : Shape) (tib : BitVec 32) :
    StartsAt (Unrolled mac2HostAddr shape tib) tib (behind tib shape.size) := by
  induction shape generalizing tib with
  | done =>
    rintro st addresses entries st' ⟨rfl, _, _⟩ rest head
    rw [List.nil_append, head, Shape.size, behind, Nat.mul_zero, BitVec.add_zero]
  | straight rest _ =>
    rintro st addresses entries st' ⟨st1, addresses', _, _, rfl⟩ after _
    rfl
  | loop body rest ih_body _ =>
    rintro st addresses entries st' ⟨st1, addresses1, _, _, _, repeated, _, rfl, _⟩ after _
    rw [List.append_assoc]
    exact repeated_startsAt (ih_body tib) (loopPasses_pos _) repeated _

/-- Runs follow the unrolled block exactly if its loops are entered with positive counts. -/
theorem unrolled_followed_iff (shape : Shape) (fits : 10 * shape.size < 2 ^ 32) (tib : BitVec 32) :
    FollowedIff mac2HostAddr (Unrolled mac2HostAddr shape tib) tib (behind tib shape.size) := by
  -- Induction on the shape; each part is followed up to where the next one starts.
  induction shape generalizing tib with
  | done =>
    rintro st addresses entries st' ⟨rfl, rfl, rfl⟩ rest t _
    simp [Shape.size, behind]
  | straight rest ih =>
    rintro st addresses entries st' ⟨st1, addresses', straight, later, rfl⟩ after t head
    rw [Shape.size] at fits
    rw [Shape.size, behind_succ] at head ⊢
    rw [List.cons_append, run_round_iff (straight_round straight)]
    exact ih (by omega) (tib + 10) st1 addresses' entries st' later after t head
  | loop body rest ih_body ih_rest =>
    rintro st addresses entries st'
      ⟨st1, addresses1, entries1, addresses2, entries2, repeated, later, rfl, rfl⟩ after t head
    rw [Shape.size] at fits
    rw [Shape.size, behind_add, behind_succ] at head ⊢
    have start_rest := unrolled_startsAt rest _ st1 addresses2 entries2 st' later (after ++ [t.2])
      head
    rw [← List.append_assoc] at start_rest
    have passes := repeated_followed_iff (by omega) (unrolled_startsAt body tib)
      (ih_body (by omega) tib) (loopPasses_lt _) (loopPasses_pos _) repeated (addresses2 ++ after) t
      start_rest
    have remaining := ih_rest (by omega) _ st1 addresses2 entries2 st' later after t head
    rw [List.append_assoc, passes, remaining, loopPasses_iff]
    simp only [List.mem_cons, List.mem_append, or_imp, forall_and, forall_eq, and_assoc]

theorem unrolled_left (shape : Shape) (tib : BitVec 32)
    (unrolled : Unrolled mac2HostAddr shape tib st addresses entries st') :
    ∀ entry ∈ entries, entry.left = entry.count - BitVec.ofNat 32 entry.passes ∧
      entry.passes = loopPasses entry.count := by
  induction shape generalizing tib st st' addresses entries with
  | done =>
    obtain ⟨_, rfl, _⟩ := unrolled
    simp
  | straight rest ih =>
    obtain ⟨_, _, _, later, _⟩ := unrolled
    exact ih _ later
  | loop body rest ih_body ih_rest =>
    obtain ⟨st1, addresses1, entries1, addresses2, entries2, repeated, later, rfl, rfl⟩ := unrolled
    intro entry member
    rcases List.mem_cons.mp member with rfl | member
    · exact ⟨repeated_count repeated, rfl⟩
    · rcases List.mem_append.mp member with within | behind_it
      · exact repeated_entries (fun _ _ _ _ ran => ih_body _ ran) repeated entry within
      · exact ih_rest _ later entry behind_it

/-- `exec_tib` runs the block to its `scStop` as its loops say: each one `max 1 count` times, with
one decrement per pass. -/
def RunsUnrolled (mac2HostAddr : BitVec 32 → BitVec w) (block : Block) (tib : BitVec 32)
    (st : Exec w) : Prop :=
  ∃ addresses entries st', Unrolled mac2HostAddr block.shape tib st addresses entries st' ∧
    getWord st'.mem (behind tib block.shape.size) = 7 ∧
    (∀ entry ∈ entries, entry.left = entry.count - BitVec.ofNat 32 entry.passes ∧
      entry.passes = loopPasses entry.count) ∧
    Run (tibStep mac2HostAddr) Free (st, tib) addresses (st', behind tib block.shape.size) ∧
    execTib mac2HostAddr (addresses.length + 1) st tib = some (0, st')

/-- It does so exactly for the blocks that unroll, with room in the table for their transfers, to
an `scStop`, entering every loop with a positive count. -/
theorem tib_loops_iff (mac2HostAddr : BitVec 32 → BitVec w) (block : Block) (tib : BitVec 32)
    (st : Exec w) :
    RunsUnrolled mac2HostAddr block tib st ↔
      ∃ addresses entries st', Unrolled mac2HostAddr block.shape tib st addresses entries st' ∧
        getWord st'.mem (behind tib block.shape.size) = 7 ∧
        ∀ entry ∈ entries, 0 < entry.count.toInt := by
  constructor
  · rintro ⟨addresses, entries, st', unrolled, stop, _, run, _⟩
    have followed := unrolled_followed_iff block.shape block.fits tib _ _ _ _ unrolled []
      (st', behind tib block.shape.size) rfl
    rw [List.append_nil] at followed
    exact ⟨addresses, entries, st', unrolled, stop, (followed.mp run).1⟩
  · rintro ⟨addresses, entries, st', unrolled, stop, counts⟩
    have followed := unrolled_followed_iff block.shape block.fits tib _ _ _ _ unrolled []
      (st', behind tib block.shape.size) rfl
    rw [List.append_nil] at followed
    have run := followed.mpr ⟨counts, .done _⟩
    exact ⟨addresses, entries, st', unrolled, stop, unrolled_left _ _ unrolled, run,
      execTib_run run stop⟩

/-- RAM with a block at 0x100: an `scNop` in a loop with the given count, and an `scStop`. -/
def loopMemory (count : BitVec 32) : Memory 32 :=
  putWord (putLong (putLong (putWord (putWord (fun _ => 0) 0x100 6) 0x10a 5) 0x10c (-10)) 0x110
    count) 0x114 7

def loopBlock : Block := ⟨.loop (.straight .done) .done, by decide⟩

def loopExec (count : BitVec 32) : Exec 64 := ⟨loopMemory count, .empty, 0, []⟩

/-- Unrolled, the loop is executed once. -/
theorem zero_count_unrolls :
    ∃ addresses entries st',
      Unrolled (BitVec.setWidth 64) loopBlock.shape 0x100 (loopExec 0) addresses entries st' ∧
        getWord st'.mem (behind 0x100 loopBlock.shape.size) = 7 := by
  let body : Part 64 := Unrolled (BitVec.setWidth 64) (.straight .done) 0x100
  let after : Exec 64 :=
    { loopExec 0 with
      mem := putLong (loopExec 0).mem (behind 0x100 1 + 6)
        (getLong (loopExec 0).mem (behind 0x100 1 + 6) - 1) }
  have nop : Straight (BitVec.setWidth 64) (loopExec 0) 0x100 (loopExec 0) :=
    .nop ⟨by decide, rfl, rfl⟩
  have pass : loopPass body 1 (behind 0x100 1) (loopExec 0) ([0x100] ++ [behind 0x100 1]) [] after :=
    ⟨[0x100], loopExec 0, ⟨loopExec 0, [], nop, ⟨rfl, rfl, rfl⟩, rfl⟩,
      ⟨by decide, by decide, rfl⟩, rfl, rfl⟩
  have once : loopPasses (getLong (loopExec 0).mem (behind 0x100 1 + 6)) = 1 := by decide
  have repeated : Repeated (loopPass body 1 (behind 0x100 1))
      (loopPasses (getLong (loopExec 0).mem (behind 0x100 1 + 6))) (loopExec 0)
      ([0x100, behind 0x100 1] ++ []) ([] ++ []) after := by
    rw [once]
    exact .succ pass (.zero after)
  exact ⟨_, _, _, ⟨_, _, _, _, _, repeated, ⟨rfl, rfl, rfl⟩, rfl, rfl⟩, by decide⟩

/-- A loop entered with the count 0 is not left after one pass. -/
theorem zero_count_not_unrolled :
    ¬ ∀ (block : Block) (tib : BitVec 32) (st : Exec 64),
      (∃ addresses entries st',
        Unrolled (BitVec.setWidth 64) block.shape tib st addresses entries st' ∧
          getWord st'.mem (behind tib block.shape.size) = 7) →
        RunsUnrolled (BitVec.setWidth 64) block tib st := by
  intro all
  obtain ⟨addresses, entries, st', unrolled, _, _, run, _⟩ :=
    all loopBlock 0x100 (loopExec 0) zero_count_unrolls
  have followed := unrolled_followed_iff loopBlock.shape loopBlock.fits 0x100 _ _ _ _ unrolled []
    (st', behind 0x100 2) rfl
  rw [List.append_nil] at followed
  have positive := (followed.mp run).1
  obtain ⟨_, _, entries1, _, entries2, _, _, _, rfl⟩ := unrolled
  have first : 0 < (getLong (loopExec 0).mem (behind 0x100 1 + 6)).toInt :=
    positive _ (List.mem_cons_self ..)
  exact absurd first (by decide)

end BasiliskII.SCSI
