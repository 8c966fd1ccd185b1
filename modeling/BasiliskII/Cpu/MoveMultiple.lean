import BasiliskII.Cpu.AddressingModes
import BasiliskII.Cpu.LongDivision
import BasiliskII.Library.BitWalk
import BasiliskII.Library.ByteMemory

/-!
# MOVEM

`genmovemel` and `genmovemle` of gencpu.c: the loops take the lowest bit of a
byte of the mask through the tables of `init_m68k`. The predecrement form has
its mask the other way round and stores downwards.
-/
namespace BasiliskII.Cpu

open ByteMemory BitWalk

-- The tables of `init_m68k`.

def movemIndex1 (i : BitVec 8) : Nat := lowest i

def movemIndex2 (i : BitVec 8) : Nat := 7 - lowest i

/-- `while (mask) { …; mask = movem_next[mask]; }` -/
def movemWhile {σ : Type} (body : BitVec 8 → σ → σ) (mask : BitVec 8) (s : σ) : σ := walk body mask s

/-- `genamode` for a MOVEM, which moves the register of `(An)+` or `-(An)` itself. -/
def MemMode.movemAddress (cpu : CPUType) (mode : MemMode) (reg : BitVec 3) (size : Size)
    (h : Handler) : BitVec 32 × Handler :=
  match mode with
  | .apdi => (h.st.regs.areg reg, h)
  | mode => mode.address cpu reg size h

/-- A round of a loop of `genmovemel`; `set` is for data or for address registers. -/
def movemLoad (size : Size) (mem : Memory 32) (set : Regs → BitVec 3 → BitVec 32 → Regs)
    (mask : BitVec 8) (s : BitVec 32 × Regs) : BitVec 32 × Regs :=
  (s.1 + BitVec.ofNat 32 size.bytes,
    set s.2 (BitVec.ofNat 3 (movemIndex1 mask)) ((size.get mem s.1).signExtend 32))

def genmovemel (cpu : CPUType) (size : Size) (dmode : MemMode) (dstreg : BitVec 3) (st : Machine) :
    Machine :=
  let (mask, h) := st.begin.nextIword
  let dmask := mask.extractLsb' 0 8
  let amask := mask.extractLsb' 8 8
  let (srca, h) := dmode.movemAddress cpu dstreg size h
  let loaded := movemWhile (movemLoad size h.st.mem Regs.setDreg) dmask (srca, h.st.regs)
  let (srca, regs) := movemWhile (movemLoad size h.st.mem Regs.setAreg) amask loaded
  -- Whatever was loaded into An is lost.
  let regs := if dmode = .aipi then regs.setAreg dstreg srca else regs
  ({ h with st := ⟨regs, h.st.mem⟩ } : Handler).syncPc.st

/-- A round of a loop of `genmovemle` that stores upwards. -/
def movemStore (size : Size) (reg : BitVec 3 → BitVec 32) (mask : BitVec 8)
    (s : BitVec 32 × Memory 32) : BitVec 32 × Memory 32 :=
  (s.1 + BitVec.ofNat 32 size.bytes, size.put s.2 s.1 (reg (BitVec.ofNat 3 (movemIndex1 mask))))

/-- A round of a loop that stores downwards. -/
def movemPush (size : Size) (reg : BitVec 3 → BitVec 32) (mask : BitVec 8)
    (s : BitVec 32 × Memory 32) : BitVec 32 × Memory 32 :=
  let srca := s.1 - BitVec.ofNat 32 size.bytes
  (srca, size.put s.2 srca (reg (BitVec.ofNat 3 (movemIndex2 mask))))

def genmovemle (cpu : CPUType) (size : Size) (dmode : MemMode) (dstreg : BitVec 3) (st : Machine) :
    Machine :=
  let (mask, h) := st.begin.nextIword
  let (srca, h) := dmode.movemAddress cpu dstreg size h
  let regs := h.st.regs
  if dmode = .apdi then
    -- A7 is bit 0 and D0 bit 15; An is stored as it was.
    let amask := mask.extractLsb' 0 8
    let dmask := mask.extractLsb' 8 8
    let stored := movemWhile (movemPush size regs.areg) amask (srca, h.st.mem)
    let (srca, mem) := movemWhile (movemPush size regs.dreg) dmask stored
    ({ h with st := ⟨regs.setAreg dstreg srca, mem⟩ } : Handler).syncPc.st
  else
    let dmask := mask.extractLsb' 0 8
    let amask := mask.extractLsb' 8 8
    let stored := movemWhile (movemStore size regs.dreg) dmask (srca, h.st.mem)
    let (_, mem) := movemWhile (movemStore size regs.areg) amask stored
    ({ h with st := ⟨regs, mem⟩ } : Handler).syncPc.st

-- What the two are to do together.

/-- The registers in a list, D0 to D7 and A0 to A7, in this order. -/
def listed (list : BitVec 16) : List (BitVec 4) := (setBits list).map (BitVec.ofNat 4)

/-- The number of an address register among all registers. -/
def aregNum (an : BitVec 3) : BitVec 4 := an.setWidth 4 ||| 8

/-- The mask of the MOVEM a machine is about to execute. -/
def movemMask (st : Machine) : BitVec 16 := getWord st.mem (st.regs.pc + 2)

/-- The listed registers stand from `a` on, as longs; that is all that has been written. -/
structure MovemImage (list : BitVec 16) (regs : Regs) (before after : Memory 32) (a : BitVec 32) :
    Prop where
  count : (listed list).length = list.cpop.toNat
  longs : ∀ (i : Nat) (inside : i < (listed list).length),
    getLong after (longAt a i) = regs.reg ((listed list).get ⟨i, inside⟩)
  outside : ∀ x, 4 * list.cpop.toNat ≤ (x - a).toNat → after x = before x

/-- The listed registers and An are as they were saved, all others as before the load. -/
structure MovemRestored (list : BitVec 16) (an : BitVec 3) (saved before after : Regs) : Prop where
  listed : ∀ num, num ∈ listed list ∨ num = aregNum an → after.reg num = saved.reg num
  others : ∀ num, num ∉ Cpu.listed list → num ≠ aregNum an → after.reg num = before.reg num
  rest : after = { before with dreg := after.dreg, areg := after.areg, pc := after.pc }

/-- `saved` is what a store of the list below An makes of `st`. -/
structure MovemSaved (cpu : CPUType) (list : BitVec 16) (an : BitVec 3) (st saved : Machine) :
    Prop where
  address : saved.regs.areg an = st.regs.areg an - BitVec.ofNat 32 (4 * list.cpop.toNat)
  image : MovemImage list st.regs st.mem saved.mem (saved.regs.areg an)
  -- A store of the same registers in another mode, at the decremented address.
  control : ∀ (mode : MemMode) (reg : BitVec 3) (other : Machine), mode ≠ .apdi →
    movemMask other = list → other.regs.reg = st.regs.reg →
    (mode.movemAddress cpu reg .long other.begin.nextIword.2).1 = saved.regs.areg an →
    MovemImage list st.regs other.mem (genmovemle cpu .long mode reg other).mem
        (saved.regs.areg an) ∧
      (other.mem = st.mem → (genmovemle cpu .long mode reg other).mem = saved.mem)
  -- The load that follows at once,
  restored : movemMask saved = list →
    (genmovemel cpu .long .aipi an saved).regs =
      { st.regs with pc := (genmovemel cpu .long .aipi an saved).regs.pc }
  -- or after code that has kept An and the image.
  later : ∀ between : Machine, movemMask between = list →
    between.regs.areg an = saved.regs.areg an →
    SameBytes saved.mem between.mem (saved.regs.areg an) (4 * list.cpop.toNat) →
    MovemRestored list an st.regs between.regs (genmovemel cpu .long .aipi an between).regs

-- The registers of a list.

/-- `regs.regs[num] = value` -/
def Regs.setReg (regs : Regs) (num : BitVec 4) (value : BitVec 32) : Regs :=
  if num.getLsbD 3 then regs.setAreg (num.setWidth 3) value else regs.setDreg (num.setWidth 3) value

def dregNum (dn : BitVec 3) : BitVec 4 := dn.setWidth 4

theorem dregNum_parts : ∀ dn, (dregNum dn).getLsbD 3 = false ∧ (dregNum dn).setWidth 3 = dn := by
  decide

theorem aregNum_parts : ∀ an, (aregNum an).getLsbD 3 = true ∧ (aregNum an).setWidth 3 = an := by
  decide

theorem num_eq_iff : ∀ num other : BitVec 4,
    num = other ↔ num.getLsbD 3 = other.getLsbD 3 ∧ num.setWidth 3 = other.setWidth 3 := by
  decide

variable (regs : Regs)

theorem Regs.reg_dregNum (dn : BitVec 3) : regs.reg (dregNum dn) = regs.dreg dn := by
  obtain ⟨kind, number⟩ := dregNum_parts dn
  rw [Regs.reg, kind, number]
  rfl

theorem Regs.reg_aregNum (an : BitVec 3) : regs.reg (aregNum an) = regs.areg an := by
  obtain ⟨kind, number⟩ := aregNum_parts an
  rw [Regs.reg, kind, number]
  rfl

theorem Regs.setReg_dregNum (dn : BitVec 3) (value : BitVec 32) :
    regs.setReg (dregNum dn) value = regs.setDreg dn value := by
  obtain ⟨kind, number⟩ := dregNum_parts dn
  rw [Regs.setReg, kind, number]
  rfl

theorem Regs.setReg_aregNum (an : BitVec 3) (value : BitVec 32) :
    regs.setReg (aregNum an) value = regs.setAreg an value := by
  obtain ⟨kind, number⟩ := aregNum_parts an
  rw [Regs.setReg, kind, number]
  rfl

theorem Regs.setReg_reg (num other : BitVec 4) (value : BitVec 32) :
    (regs.setReg num value).reg other = if other = num then value else regs.reg other := by
  have same := num_eq_iff other num
  cases kind : num.getLsbD 3 <;> cases kind' : other.getLsbD 3 <;>
    simp only [Regs.setReg, Regs.reg, Regs.setDreg, Regs.setAreg, same, kind, kind',
      Bool.false_eq_true, Bool.true_eq_false, if_true, if_false, true_and, false_and]

theorem listed_eq (list : BitVec 16) :
    listed list =
      (setBits (list.extractLsb' 0 8)).map (fun j => dregNum (BitVec.ofNat 3 j)) ++
        (setBits (list.extractLsb' 8 8)).map (fun j => aregNum (BitVec.ofNat 3 j)) := by
  have data : ∀ j < 8, BitVec.ofNat 4 j = dregNum (BitVec.ofNat 3 j) := by decide
  have address : ∀ j < 8, BitVec.ofNat 4 (8 + j) = aregNum (BitVec.ofNat 3 j) := by decide
  have range : List.range 16 = List.range 8 ++ (List.range 8).map (8 + ·) := by decide
  have low : (List.range 8).filter list.getLsbD = setBits (list.extractLsb' 0 8) := by
    apply List.filter_congr
    intro j member
    have inside := List.mem_range.mp member
    simp [inside]
  have high : (List.range 8).filter (list.getLsbD ∘ (8 + ·)) = setBits (list.extractLsb' 8 8) := by
    apply List.filter_congr
    intro j member
    have inside := List.mem_range.mp member
    simp [inside]
  rw [listed, setBits, range, List.filter_append, List.filter_map, low, high, List.map_append,
    List.map_map]
  congr 1
  · apply List.map_congr_left
    intro j member
    exact data j (BitVec.lt_of_getLsbD ((mem_setBits _ j).mp member))
  · apply List.map_congr_left
    intro j member
    exact address j (BitVec.lt_of_getLsbD ((mem_setBits _ j).mp member))

theorem listed_length (list : BitVec 16) : (listed list).length = list.cpop.toNat := by
  rw [listed, List.length_map, setBits_length]

theorem listed_nodup (list : BitVec 16) : (listed list).Nodup := by
  rw [listed]
  apply (List.pairwise_map).mpr
  apply (setBits_nodup list).imp_of_mem
  intro i j member member' different same
  have inside := BitVec.lt_of_getLsbD ((mem_setBits list i).mp member)
  have inside' := BitVec.lt_of_getLsbD ((mem_setBits list j).mp member')
  have value := congrArg BitVec.toNat same
  rw [BitVec.toNat_ofNat, BitVec.toNat_ofNat, Nat.mod_eq_of_lt inside, Nat.mod_eq_of_lt inside']
    at value
  exact different value

theorem listed_le (list : BitVec 16) : (listed list).length ≤ 16 := by
  rw [listed, List.length_map]
  have within := List.length_filter_le list.getLsbD (List.range 16)
  rwa [List.length_range] at within

/-- The low byte of a mask read backwards is its high byte read backwards. -/
theorem reverse_bytes (list : BitVec 16) :
    list.reverse.extractLsb' 0 8 = (list.extractLsb' 8 8).reverse ∧
      list.reverse.extractLsb' 8 8 = (list.extractLsb' 0 8).reverse := by
  constructor
  · apply BitVec.eq_of_getLsbD_eq
    intro i inside
    have place : 16 - 1 - (0 + i) = 8 + (8 - 1 - i) := by omega
    rw [BitVec.getLsbD_extractLsb', BitVec.getLsbD_reverse, BitVec.getLsbD_reverse,
      BitVec.getMsbD_eq_getLsbD, BitVec.getMsbD_eq_getLsbD, BitVec.getLsbD_extractLsb', place]
    simp [inside, show i < 16 by omega, show 7 - i < 8 by omega]
  · apply BitVec.eq_of_getLsbD_eq
    intro i inside
    have place : 16 - 1 - (8 + i) = 0 + (8 - 1 - i) := by omega
    rw [BitVec.getLsbD_extractLsb', BitVec.getLsbD_reverse, BitVec.getLsbD_reverse,
      BitVec.getMsbD_eq_getLsbD, BitVec.getMsbD_eq_getLsbD, BitVec.getLsbD_extractLsb', place]
    simp [inside, show 8 + i < 16 by omega, show 7 - i < 8 by omega]

-- The loops, as one over the list.

/-- Loading longs into registers, one after the other. -/
def loadLong (mem : Memory 32) (s : BitVec 32 × Regs) (num : BitVec 4) : BitVec 32 × Regs :=
  (s.1 + 4, s.2.setReg num (getLong mem s.1))

def storeLong (regs : Regs) (s : BitVec 32 × Memory 32) (num : BitVec 4) :
    BitVec 32 × Memory 32 :=
  (s.1 + 4, putLong s.2 s.1 (regs.reg num))

def pushLongReg (regs : Regs) (s : BitVec 32 × Memory 32) (num : BitVec 4) :
    BitVec 32 × Memory 32 :=
  (s.1 - 4, putLong s.2 (s.1 - 4) (regs.reg num))

theorem movemLoad_long (mem : Memory 32) (set : Regs → BitVec 3 → BitVec 32 → Regs)
    (mask : BitVec 8) (s : BitVec 32 × Regs) :
    movemLoad .long mem set mask s =
      (s.1 + 4, set s.2 (BitVec.ofNat 3 (lowest mask)) (getLong mem s.1)) := by
  have value : (Size.long.get mem s.1).signExtend 32 = getLong mem s.1 := BitVec.signExtend_eq _
  rw [movemLoad, value]
  rfl

section

variable {σ : Type} {data address : BitVec 8 → σ → σ} {step : σ → BitVec 4 → σ}

/-- A loop for the data and one for the address registers meet what is listed. -/
theorem movemWhile_listed (list : BitVec 16) (s : σ)
    (at_data : ∀ mask s, data mask s = step s (dregNum (BitVec.ofNat 3 (lowest mask))))
    (at_address : ∀ mask s, address mask s = step s (aregNum (BitVec.ofNat 3 (lowest mask)))) :
    movemWhile address (list.extractLsb' 8 8) (movemWhile data (list.extractLsb' 0 8) s) =
      (listed list).foldl step s := by
  obtain rfl := funext fun mask => funext fun s => at_data mask s
  obtain rfl := funext fun mask => funext fun s => at_address mask s
  rw [listed_eq, List.foldl_append, List.foldl_map, List.foldl_map, movemWhile, movemWhile]
  rw [walk_eq_foldl (fun j s => step s (dregNum (BitVec.ofNat 3 j))),
    walk_eq_foldl (fun j s => step s (aregNum (BitVec.ofNat 3 j)))]

/-- With the mask reversed they meet the same registers from the last one on. -/
theorem movemWhile_listed_reverse (list : BitVec 16) (s : σ)
    (at_data : ∀ mask s, data mask s = step s (dregNum (BitVec.ofNat 3 (8 - 1 - lowest mask))))
    (at_address : ∀ mask s,
      address mask s = step s (aregNum (BitVec.ofNat 3 (8 - 1 - lowest mask)))) :
    movemWhile data (list.reverse.extractLsb' 8 8)
        (movemWhile address (list.reverse.extractLsb' 0 8) s) =
      (listed list).reverse.foldl step s := by
  obtain rfl := funext fun mask => funext fun s => at_data mask s
  obtain rfl := funext fun mask => funext fun s => at_address mask s
  obtain ⟨low, high⟩ := reverse_bytes list
  rw [listed_eq, List.reverse_append, ← List.map_reverse, ← List.map_reverse, List.foldl_append,
    List.foldl_map, List.foldl_map, ← setBits_reverse, ← setBits_reverse, List.foldl_map,
    List.foldl_map, movemWhile, movemWhile, low, high]
  rw [walk_eq_foldl (fun j s => step s (dregNum (BitVec.ofNat 3 (8 - 1 - j)))),
    walk_eq_foldl (fun j s => step s (aregNum (BitVec.ofNat 3 (8 - 1 - j))))]

end

theorem loads_eq (list : BitVec 16) (mem : Memory 32) (s : BitVec 32 × Regs) :
    movemWhile (movemLoad .long mem Regs.setAreg) (list.extractLsb' 8 8)
        (movemWhile (movemLoad .long mem Regs.setDreg) (list.extractLsb' 0 8) s) =
      (listed list).foldl (loadLong mem) s := by
  apply movemWhile_listed
  · intro mask s
    rw [loadLong, Regs.setReg_dregNum, movemLoad_long]
  · intro mask s
    rw [loadLong, Regs.setReg_aregNum, movemLoad_long]

theorem stores_eq (list : BitVec 16) (regs : Regs) (s : BitVec 32 × Memory 32) :
    movemWhile (movemStore .long regs.areg) (list.extractLsb' 8 8)
        (movemWhile (movemStore .long regs.dreg) (list.extractLsb' 0 8) s) =
      (listed list).foldl (storeLong regs) s := by
  apply movemWhile_listed
  · intro mask s
    rw [storeLong, Regs.reg_dregNum]
    rfl
  · intro mask s
    rw [storeLong, Regs.reg_aregNum]
    rfl

theorem pushes_eq (list : BitVec 16) (regs : Regs) (s : BitVec 32 × Memory 32) :
    movemWhile (movemPush .long regs.dreg) (list.reverse.extractLsb' 8 8)
        (movemWhile (movemPush .long regs.areg) (list.reverse.extractLsb' 0 8) s) =
      (listed list).reverse.foldl (pushLongReg regs) s := by
  apply movemWhile_listed_reverse
  · intro mask s
    rw [pushLongReg, Regs.reg_dregNum]
    rfl
  · intro mask s
    rw [pushLongReg, Regs.reg_aregNum]
    rfl

theorem foldl_storeLong (nums : List (BitVec 4)) (a : BitVec 32) (mem : Memory 32) :
    (nums.foldl (storeLong regs) (a, mem)).2 = putLongs mem a (nums.map regs.reg) := by
  induction nums generalizing a mem with
  | nil => rfl
  | cons num nums ih => exact ih _ _

theorem foldl_pushLongReg (nums : List (BitVec 4)) (a : BitVec 32) (mem : Memory 32) :
    nums.foldl (pushLongReg regs) (a, mem) =
      (a - BitVec.ofNat 32 (4 * nums.length), pushLongs mem a (nums.map regs.reg)) := by
  induction nums generalizing a mem with
  | nil => rw [List.foldl_nil, List.length_nil, BitVec.sub_zero]; rfl
  | cons num nums ih =>
    have sum : a - 4 - BitVec.ofNat 32 (4 * nums.length) =
        a - BitVec.ofNat 32 (4 * (num :: nums).length) := by
      rw [List.length_cons, Nat.mul_succ, BitVec.ofNat_add]
      grind
    rw [List.foldl_cons, pushLongReg, ih, sum]
    rfl

/-- Loading touches the registers of the list only. -/
structure Loaded (mem : Memory 32) (nums : List (BitVec 4)) (before : BitVec 32 × Regs)
    (after : BitVec 32 × Regs) : Prop where
  address : after.1 = longAt before.1 nums.length
  longs : ∀ (i : Nat) (inside : i < nums.length),
    after.2.reg (nums.get ⟨i, inside⟩) = getLong mem (longAt before.1 i)
  others : ∀ num, num ∉ nums → after.2.reg num = before.2.reg num
  rest : after.2 = { before.2 with dreg := after.2.dreg, areg := after.2.areg }

theorem Regs.setReg_rest (num : BitVec 4) (value : BitVec 32) :
    regs.setReg num value =
      { regs with dreg := (regs.setReg num value).dreg, areg := (regs.setReg num value).areg } := by
  rw [Regs.setReg]
  split <;> rfl

theorem foldl_loadLong (mem : Memory 32) (nums : List (BitVec 4)) (distinct : nums.Nodup)
    (before : BitVec 32 × Regs) : Loaded mem nums before (nums.foldl (loadLong mem) before) := by
  induction nums generalizing before with
  | nil =>
    exact
      { address := (longAt_zero _).symm
        longs := fun _ inside => absurd inside (Nat.not_lt_zero _)
        others := fun _ _ => rfl
        rest := rfl }
  | cons num nums ih =>
    obtain ⟨fresh, distinct⟩ := List.nodup_cons.mp distinct
    have loaded := ih distinct (loadLong mem before num)
    constructor
    · rw [List.length_cons, longAt_succ]
      exact loaded.address
    · intro i inside
      cases i with
      | zero =>
        -- No later long goes to the same register.
        rw [longAt_zero]
        apply (loaded.others num fresh).trans
        rw [loadLong, Regs.setReg_reg, if_pos rfl]
      | succ i =>
        rw [longAt_succ]
        exact loaded.longs i (Nat.lt_of_succ_lt_succ inside)
    · intro other absent
      obtain ⟨different, outside⟩ := not_or.mp (mt List.mem_cons.mpr absent)
      apply (loaded.others other outside).trans
      rw [loadLong, Regs.setReg_reg, if_neg different]
    · have first := Regs.setReg_rest before.2 num (getLong mem before.1)
      have rest := loaded.rest
      rw [List.foldl_cons, rest, loadLong, first]

-- The two instructions.

section

variable (cpu : CPUType) (list : BitVec 16) (an : BitVec 3) (st : Machine)

/-- The longs a store of the list writes. -/
def listedLongs (regs : Regs) : List (BitVec 32) := (listed list).map regs.reg

theorem listedLongs_length (regs : Regs) : (listedLongs list regs).length = list.cpop.toNat := by
  rw [listedLongs, List.length_map, listed_length]

theorem block_fits : 4 * list.cpop.toNat ≤ 2 ^ 32 := by
  have few := listed_le list
  rw [listed_length] at few
  omega

/-- The decremented address. -/
def savedAddress : BitVec 32 := st.regs.areg an - BitVec.ofNat 32 (4 * list.cpop.toNat)

theorem genmovemle_apdi (mask : movemMask st = list.reverse) :
    genmovemle cpu .long .apdi an st =
      ⟨{ st.regs.setAreg an (savedAddress list an st) with pc := st.regs.pc + 4 },
        putLongs st.mem (savedAddress list an st) (listedLongs list st.regs)⟩ := by
  have fits := block_fits list
  have word : st.begin.nextIword.1 = list.reverse := mask
  have pushed := pushes_eq list st.regs (st.regs.areg an, st.mem)
  rw [foldl_pushLongReg, List.length_reverse, listed_length, List.map_reverse,
    pushLongs_eq _ _ _ (by rwa [List.length_reverse, List.length_map, listed_length]),
    List.length_reverse, List.length_map, listed_length, List.reverse_reverse] at pushed
  simp only [genmovemle, MemMode.movemAddress, if_true, word]
  simp only [Machine.begin, Handler.nextIword, pushed]
  rfl

theorem listed_image (before : Memory 32) (a : BitVec 32) (regs : Regs) :
    MovemImage list regs before (putLongs before a (listedLongs list regs)) a := by
  have length := listedLongs_length list regs
  have fits := block_fits list
  constructor
  · exact listed_length list
  · intro i inside
    have within : i < (listedLongs list regs).length := by rwa [listedLongs, List.length_map]
    rw [getLong_putLongs (by decide) before a _ (by rwa [length]) within]
    exact List.getElem_map regs.reg
  · intro x outside
    exact putLongs_outside before a _ (by rwa [length])

theorem movemAddress_onlyPc (mode : MemMode) (reg : BitVec 3) (h : Handler) :
    OnlyPc h.st (mode.movemAddress cpu reg .long h).2.st := by
  cases mode with
  | apdi => exact .refl _
  | _ => exact MemMode.address_onlyPc cpu _ reg .long h

theorem genmovemle_control (mode : MemMode) (upwards : mode ≠ .apdi) (reg : BitVec 3)
    (mask : movemMask st = list) :
    (genmovemle cpu .long mode reg st).mem =
      putLongs st.mem (mode.movemAddress cpu reg .long st.begin.nextIword.2).1
        (listedLongs list st.regs) := by
  have word : st.begin.nextIword.1 = list := mask
  have only := movemAddress_onlyPc cpu mode reg st.begin.nextIword.2
  have same : (mode.movemAddress cpu reg .long st.begin.nextIword.2).2.st.regs.reg = st.regs.reg := by
    funext num
    exact only.reg num
  simp only [genmovemle, if_neg upwards, word, stores_eq]
  apply (foldl_storeLong _ _ _ _).trans
  rw [same, only.mem]
  rfl

theorem genmovemel_aipi (mask : movemMask st = list) :
    (genmovemel cpu .long .aipi an st).regs =
      { ((listed list).foldl (loadLong st.mem) (st.regs.areg an, st.regs)).2.setAreg an
          ((listed list).foldl (loadLong st.mem) (st.regs.areg an, st.regs)).1 with
        pc := (genmovemel cpu .long .aipi an st).regs.pc } := by
  have word : st.begin.nextIword.1 = list := mask
  simp only [genmovemel, MemMode.movemAddress, if_true, word, loads_eq]
  rfl

variable {list an}

theorem saved_incremented : longAt (savedAddress list an st) list.cpop.toNat = st.regs.areg an := by
  rw [longAt, savedAddress, BitVec.sub_add_cancel]

theorem movem_restored {image : Memory 32} {between : Machine}
    (saved : MovemImage list st.regs st.mem image (savedAddress list an st))
    (mask : movemMask between = list) (address : between.regs.areg an = savedAddress list an st)
    (same : SameBytes image between.mem (savedAddress list an st) (4 * list.cpop.toNat)) :
    MovemRestored list an st.regs between.regs (genmovemel cpu .long .aipi an between).regs := by
  have loaded := foldl_loadLong between.mem (listed list) (listed_nodup list)
    (between.regs.areg an, between.regs)
  have after := genmovemel_aipi cpu list an between mask
  generalize (listed list).foldl (loadLong between.mem) (between.regs.areg an, between.regs) = s
    at loaded after
  have last : s.1 = st.regs.areg an := by
    rw [loaded.address, address, listed_length, saved_incremented]
  have reg : ∀ num, (genmovemel cpu .long .aipi an between).regs.reg num =
      if num = aregNum an then s.1 else s.2.reg num := by
    intro num
    rw [after, ← Regs.setReg_aregNum]
    exact Regs.setReg_reg s.2 (aregNum an) num s.1
  constructor
  · intro num among
    rw [reg]
    split
    next here => rw [here, last, Regs.reg_aregNum]
    next other =>
      obtain ⟨i, inside, rfl⟩ := List.getElem_of_mem (among.resolve_right other)
      have long := saved.longs i inside
      have part : SameBytes image between.mem (longAt (savedAddress list an st) i) 4 := by
        apply same.shift
        rw [← listed_length]
        omega
      apply (loaded.longs i inside).trans
      rw [address, getLong_congr part]
      exact long
  · intro num absent other
    rw [reg, if_neg other]
    exact loaded.others num absent
  · rw [after, loaded.rest]
    rfl

end

/-- MOVEM.L list,-(An) and MOVEM.L (An)+,list are inverse to each other, and the first leaves the
image a store in another mode leaves. -/
theorem movem_round_trip (cpu : CPUType) (list : BitVec 16) (an : BitVec 3) (st : Machine)
    (mask : movemMask st = list.reverse) :
    MovemSaved cpu list an st (genmovemle cpu .long .apdi an st) := by
  have saved := genmovemle_apdi cpu list an st mask
  have address : (genmovemle cpu .long .apdi an st).regs.areg an = savedAddress list an st := by
    rw [saved]
    exact Regs.setAreg_same st.regs an _
  have image := listed_image list st.mem (savedAddress list an st) st.regs
  have written : (genmovemle cpu .long .apdi an st).mem =
      putLongs st.mem (savedAddress list an st) (listedLongs list st.regs) := by
    rw [saved]
  have kept : ∀ num, num ≠ aregNum an →
      (genmovemle cpu .long .apdi an st).regs.reg num = st.regs.reg num := by
    intro num other
    rw [saved]
    apply (Regs.setReg_aregNum st.regs an _ ▸ Regs.setReg_reg st.regs (aregNum an) num _).trans
    rw [if_neg other]
  constructor
  · exact address
  · rw [address, written]
    exact image
  · intro mode reg other upwards otherMask sameRegs sameAddress
    have stored := genmovemle_control cpu list other mode upwards reg otherMask
    have values : listedLongs list other.regs = listedLongs list st.regs := by
      rw [listedLongs, listedLongs, sameRegs]
    rw [sameAddress, address, values] at stored
    rw [stored, address, written]
    constructor
    · exact listed_image list other.mem _ st.regs
    · intro sameMem
      rw [sameMem]
  · intro next
    have restored := movem_restored cpu st (written ▸ image) next address (fun _ _ => rfl)
    have all : ∀ num, (genmovemel cpu .long .aipi an (genmovemle cpu .long .apdi an st)).regs.reg
        num = st.regs.reg num := by
      intro num
      by_cases among : num ∈ listed list ∨ num = aregNum an
      · exact restored.listed num among
      · obtain ⟨absent, other⟩ := not_or.mp among
        exact (restored.others num absent other).trans (kept num other)
    have dreg : (genmovemel cpu .long .aipi an (genmovemle cpu .long .apdi an st)).regs.dreg =
        st.regs.dreg := by
      funext dn
      rw [← Regs.reg_dregNum, ← Regs.reg_dregNum, all]
    have areg : (genmovemel cpu .long .aipi an (genmovemle cpu .long .apdi an st)).regs.areg =
        st.regs.areg := by
      funext k
      rw [← Regs.reg_aregNum, ← Regs.reg_aregNum, all]
    rw [restored.rest, dreg, areg, saved]
    rfl
  · intro between next sameAn same
    rw [address] at sameAn same
    rw [written] at same
    exact movem_restored cpu st image next sameAn same

/-- The masks of all registers fill memory, and A0 points away from the code at 0. -/
def allRegisters : Machine := ⟨{ zeroRegs with areg := fun _ => 0x1000 }, fun _ => 0xff⟩

theorem movem_all_registers :
    movemMask allRegisters = (0xffff : BitVec 16).reverse ∧
      movemMask (genmovemle .mc68020 .long .apdi 0 allRegisters) = 0xffff ∧
      (genmovemel .mc68020 .long .aipi 0 (genmovemle .mc68020 .long .apdi 0 allRegisters)).regs.reg =
        allRegisters.regs.reg := by
  have first : movemMask allRegisters = (0xffff : BitVec 16).reverse := by decide
  have away : Apart (savedAddress 0xffff 0 allRegisters)
      (4 * (listedLongs 0xffff allRegisters.regs).length) 6 2 := by
    rw [listedLongs_length]
    decide
  have next : movemMask (genmovemle .mc68020 .long .apdi 0 allRegisters) = 0xffff := by
    rw [genmovemle_apdi _ _ _ _ first]
    exact getWord_congr (putLongs_sameBytes allRegisters.mem _ away)
  have restored := (movem_round_trip .mc68020 0xffff 0 allRegisters first).restored next
  exact ⟨first, next, by rw [restored]; rfl⟩

end BasiliskII.Cpu
