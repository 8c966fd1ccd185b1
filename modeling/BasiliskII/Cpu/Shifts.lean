import BasiliskII.Cpu.Registers

/-!
# Shifts and rotates

The code gencpu.c emits for the shifts and rotates of a data register by a
count, and for the memory forms, which go by one bit. The operand is in the low
bits of a `uae_u32`. A shift by 32 or more gives zero, as it does in a register
of the host.
-/
namespace BasiliskII.Cpu

/-- `wordsizes` of readcpu.h. -/
inductive Size
  | byte | word | long
  deriving DecidableEq, Repr

def Size.bits : Size → Nat
  | .byte => 8
  | .word => 16
  | .long => 32

/-- `bit_mask`. -/
def Size.bitMask : Size → BitVec 32
  | .byte => 0xff
  | .word => 0xffff
  | .long => 0xffffffff

/-- `cmask`: the sign bit. -/
def Size.cmask : Size → BitVec 32
  | .byte => 0x80
  | .word => 0x8000
  | .long => 0x80000000

/-- The cast to `uae_u8`, `uae_u16` or `uae_u32`. -/
def Size.cast (size : Size) (data : BitVec 32) : BitVec 32 := data &&& size.bitMask

theorem Size.bits_pos (size : Size) : 0 < size.bits := by cases size <;> decide

theorem Size.bits_le (size : Size) : size.bits ≤ 32 := by cases size <;> decide

theorem Size.bitMask_bit (size : Size) (i : Nat) :
    size.bitMask.getLsbD i = decide (i < size.bits) := by
  have mask : size.bitMask = BitVec.ofNat 32 (2 ^ size.bits - 1) := by cases size <;> rfl
  have fits := size.bits_le
  rw [mask, BitVec.getLsbD_ofNat, Nat.testBit_two_pow_sub_one]
  by_cases inside : i < size.bits
  · simp [inside, show i < 32 by omega]
  · simp [inside]

inductive ShiftOp
  | asr | asl | lsr | lsl | rol | ror | roxl | roxr
  deriving DecidableEq, Repr

/-- What a flag macro makes of a number that is 0 or 1. -/
def flagBit (v : BitVec 32) : Bool := v.getLsbD 0

/-- A flag as a number. -/
def flagValue (flag : Bool) : BitVec 32 := if flag then 1 else 0

/-- `CLEAR_CZNV` -/
def Flags.clearCZNV (f : Flags) : Flags := ⟨f.x, false, false, false, false⟩

/-- `SET_CFLG` and, with `COPY_CARRY`, `SET_XFLG`. -/
def Flags.setCX (f : Flags) (carry : Bool) : Flags := { f with c := carry, x := carry }

/-- `flag_logical_noclobber` of `genflags`. -/
def Flags.setZN (f : Flags) (size : Size) (val : BitVec 32) : Flags :=
  { f with z := size.cast val = 0, n := val &&& size.cmask ≠ 0 }

/-- `flag_logical` of `genflags`. -/
def Flags.logical (f : Flags) (size : Size) (val : BitVec 32) : Flags := f.clearCZNV.setZN size val

/-- The operand as it is stored, and the flags. -/
abbrev Shifted := BitVec 32 × Flags

section RegisterForms

variable (size : Size) (cnt : Nat) (data : BitVec 32) (f : Flags)

def asr : Shifted :=
  let val := size.cast data
  let sign := (size.cmask &&& val) >>> (size.bits - 1)
  let f := f.clearCZNV
  let (val, f) :=
    if cnt ≥ size.bits then (size.bitMask &&& -sign, f.setCX (flagBit sign))
    else if cnt > 0 then
      let val := val >>> (cnt - 1)
      let f := f.setCX (flagBit (val &&& 1))
      let val := val >>> 1
      let val := val ||| (size.bitMask <<< (size.bits - cnt) &&& -sign)
      (val &&& size.bitMask, f)
    else (val, f)
  (size.cast val, f.setZN size val)

def asl : Shifted :=
  let val := size.cast data
  let f := f.clearCZNV
  let (val, f) :=
    if cnt ≥ size.bits then
      let f := { f with v := val ≠ 0 }
      ((0 : BitVec 32), f.setCX (flagBit (if cnt = size.bits then val &&& 1 else 0)))
    else if cnt > 0 then
      let mask := size.bitMask <<< (size.bits - 1 - cnt) &&& size.bitMask
      let f := { f with v := val &&& mask ≠ mask && val &&& mask ≠ 0 }
      let val := val <<< (cnt - 1)
      let f := f.setCX (flagBit ((val &&& size.cmask) >>> (size.bits - 1)))
      let val := val <<< 1
      (val &&& size.bitMask, f)
    else (val, f)
  (size.cast val, f.setZN size val)

def lsr : Shifted :=
  let val := size.cast data
  let f := f.clearCZNV
  let (val, f) :=
    if cnt ≥ size.bits then
      ((0 : BitVec 32), f.setCX (flagBit (flagValue (cnt = size.bits) &&& val >>> (size.bits - 1))))
    else if cnt > 0 then
      let val := val >>> (cnt - 1)
      let f := f.setCX (flagBit (val &&& 1))
      (val >>> 1, f)
    else (val, f)
  (size.cast val, f.setZN size val)

def lsl : Shifted :=
  let val := size.cast data
  let f := f.clearCZNV
  let (val, f) :=
    if cnt ≥ size.bits then
      ((0 : BitVec 32), f.setCX (flagBit (if cnt = size.bits then val &&& 1 else 0)))
    else if cnt > 0 then
      let val := val <<< (cnt - 1)
      let f := f.setCX (flagBit ((val &&& size.cmask) >>> (size.bits - 1)))
      let val := val <<< 1
      (val &&& size.bitMask, f)
    else (val, f)
  (size.cast val, f.setZN size val)

def rol : Shifted :=
  let val := size.cast data
  let f := f.clearCZNV
  let (val, f) :=
    if cnt > 0 then
      let cnt := cnt &&& (size.bits - 1)
      let loval := val >>> (size.bits - cnt)
      let val := val <<< cnt
      let val := val ||| loval
      let val := val &&& size.bitMask
      (val, { f with c := flagBit (val &&& 1) })
    else (val, f)
  (size.cast val, f.setZN size val)

def ror : Shifted :=
  let val := size.cast data
  let f := f.clearCZNV
  let (val, f) :=
    if cnt > 0 then
      let cnt := cnt &&& (size.bits - 1)
      let hival := val <<< (size.bits - cnt)
      let val := val >>> cnt
      let val := val ||| hival
      let val := val &&& size.bitMask
      (val, { f with c := flagBit ((val &&& size.cmask) >>> (size.bits - 1)) })
    else (val, f)
  (size.cast val, f.setZN size val)

/-- `force_range_for_rox` -/
def forceRangeForRox : Size → Nat → Nat
  | .long, cnt => if cnt ≥ 33 then cnt - 33 else cnt
  | .word, cnt =>
    let cnt := if cnt ≥ 34 then cnt - 34 else cnt
    if cnt ≥ 17 then cnt - 17 else cnt
  | .byte, cnt =>
    let cnt := if cnt ≥ 36 then cnt - 36 else cnt
    let cnt := if cnt ≥ 18 then cnt - 18 else cnt
    if cnt ≥ 9 then cnt - 9 else cnt

def roxl : Shifted :=
  let val := size.cast data
  let f := f.clearCZNV
  let cnt := forceRangeForRox size cnt
  let (val, f) :=
    if cnt > 0 then
      let cnt := cnt - 1
      let loval := val >>> (size.bits - 1 - cnt)
      let carry := loval &&& 1
      let val := (val <<< 1 ||| flagValue f.x) <<< cnt ||| loval >>> 1
      (val &&& size.bitMask, { f with x := flagBit carry })
    else (val, f)
  let f := { f with c := f.x }
  (size.cast val, f.setZN size val)

def roxr : Shifted :=
  let val := size.cast data
  let f := f.clearCZNV
  let cnt := forceRangeForRox size cnt
  let (val, f) :=
    if cnt > 0 then
      let cnt := cnt - 1
      let hival := val <<< 1 ||| flagValue f.x
      let hival := hival <<< (size.bits - 1 - cnt)
      let val := val >>> cnt
      let carry := val &&& 1
      let val := val >>> 1
      let val := val ||| hival
      (val &&& size.bitMask, { f with x := flagBit carry })
    else (val, f)
  let f := { f with c := f.x }
  (size.cast val, f.setZN size val)

end RegisterForms

def shiftRegister : ShiftOp → Size → Nat → BitVec 32 → Flags → Shifted
  | .asr => asr
  | .asl => asl
  | .lsr => lsr
  | .lsl => lsl
  | .rol => rol
  | .ror => ror
  | .roxl => roxl
  | .roxr => roxr

/-- The handler of a shift of `dstreg` by the count in `srcreg`. -/
def shiftHandler (op : ShiftOp) (size : Size) (srcreg dstreg : BitVec 3) (regs : Regs) : Regs :=
  let cnt := (regs.dreg srcreg &&& 63).toNat
  let data := regs.dreg dstreg
  let (val, f) := shiftRegister op size cnt data regs.flags
  { regs.setDreg dstreg (data &&& ~~~size.bitMask ||| val) with flags := f }

section MemoryForms

variable (size : Size) (data : BitVec 32) (f : Flags)

def asrw : Shifted :=
  let val := size.cast data
  let sign := size.cmask &&& val
  let cflg := val &&& 1
  let val := val >>> 1 ||| sign
  (size.cast val, (f.logical size val).setCX (flagBit cflg))

def aslw : Shifted :=
  let val := size.cast data
  let sign := size.cmask &&& val
  let val := val <<< 1
  let f := f.logical size val
  let sign2 := size.cmask &&& val
  let f := f.setCX (sign ≠ 0)
  (size.cast val, { f with v := f.v || sign2 ≠ sign })

def lsrw : Shifted :=
  let val := size.cast data
  let carry := val &&& 1
  let val := val >>> 1
  (size.cast val, (f.logical size val).setCX (flagBit carry))

def lslw : Shifted :=
  let val := size.cast data
  let carry := val &&& size.cmask
  let val := size.cast (val <<< 1)
  (size.cast val, (f.logical size val).setCX (flagBit (carry >>> (size.bits - 1))))

def rolw : Shifted :=
  let val := size.cast data
  let carry := val &&& size.cmask
  let val := size.cast (val <<< 1)
  let val := if carry ≠ 0 then val ||| 1 else val
  (size.cast val, { f.logical size val with c := flagBit (carry >>> (size.bits - 1)) })

def rorw : Shifted :=
  let val := size.cast data
  let carry := val &&& 1
  let val := val >>> 1
  let val := if carry ≠ 0 then val ||| size.cmask else val
  (size.cast val, { f.logical size val with c := flagBit carry })

def roxlw : Shifted :=
  let val := size.cast data
  let carry := val &&& size.cmask
  let val := size.cast (val <<< 1)
  let val := if f.x then val ||| 1 else val
  (size.cast val, (f.logical size val).setCX (flagBit (carry >>> (size.bits - 1))))

def roxrw : Shifted :=
  let val := size.cast data
  let carry := val &&& 1
  let val := val >>> 1
  let val := if f.x then val ||| size.cmask else val
  (size.cast val, (f.logical size val).setCX (flagBit carry))

end MemoryForms

def shiftMemory : ShiftOp → Size → BitVec 32 → Flags → Shifted
  | .asr => asrw
  | .asl => aslw
  | .lsr => lsrw
  | .lsl => lslw
  | .rol => rolw
  | .ror => rorw
  | .roxl => roxlw
  | .roxr => roxrw

end BasiliskII.Cpu
