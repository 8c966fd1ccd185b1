import BasiliskII.Router.Checksums

/-!
# ICMP packets for the Mac

error_winsock_2_icmp answers a packet that could not be passed on, and icmp_read_completion passes a
datagram on that has come in. Both build a packet in a block of their own. Which ranges they write
and read, there and in what they copy from, is on record.
-/
namespace BasiliskII.Router

/-- What the router knows. -/
structure Host where
  ether_addr : Vector (BitVec 8) 6
  macos_ip_address : BitVec 32
  router_ip_address : BitVec 32
  next_ip_ident_number : BitVec 16

def routerMacAddr : Vector (BitVec 8) 6 := #v[0x34, 0x32, 0x36, 0x37, 0x37, 0x39]

namespace Block

/-- The long at `a` gets `htonl(l)`. -/
def storeLong (a : Nat) (l : BitVec 32) (b : Block) : Block :=
  b.store a [l.extractLsb' 24 8, l.extractLsb' 16 8, l.extractLsb' 8 8, l.extractLsb' 0 8]

/-- A block as malloc returns it. -/
def fresh (heap : Nat → BitVec 8) : Block := { WriteLog.Area.fresh heap with read := [] }

/-- MAC addresses and type. -/
def storeMac (h : Host) (b : Block) : Block :=
  ((b.store 0 h.ether_addr.toList).store 6 routerMacAddr.toList).storeWord 12 0x0800

/-- No access is outside of the block. -/
def Inside (size : Nat) (b : Block) : Prop :=
  WriteLog.Within size b.toArea ∧ ∀ r ∈ b.read, r.1 + r.2 ≤ size

end Block

open Block

/-- A packet for the Mac, and the ranges that were read of the packet it is made from. -/
structure Made where
  icmp : Block
  icmp_size : Nat
  source_read : List (Nat × Nat)

/-- Type and code for an error of Winsock. -/
def icmpOfError (err : Int) : Option (BitVec 8 × BitVec 8) :=
  if err = 10065 ∨ err = 10060 then some (3, 1)
  else if err = 10050 ∨ err = 10051 then some (3, 0)
  else if err = 10000 + 1999 + 17 then some (11, 0)
  else none

/-- The packet of error_winsock_2_icmp, in memory that holds `heap`. -/
def errorReply (h : Host) (type code : BitVec 8) (ip_err heap : Nat → BitVec 8) : Made :=
  let msg_size := (ipHeaderLen ip_err).toNat * 4 + 4 + 8
  let icmp_size := 38 + msg_size
  let icmp := (Block.fresh heap).storeMac h
  -- Version 4, five words of header, no type of service.
  let icmp := (icmp.store 14 [0x45, 0]).storeWord 16 (BitVec.ofNat 16 (24 + msg_size))
  let icmp := (icmp.storeWord 18 h.next_ip_ident_number).storeWord 20 0
  let icmp := (icmp.store 22 [128, 1]).storeLong 26 h.router_ip_address
  let icmp := makeIp4Checksum (icmp.storeLong 30 h.macos_ip_address)
  let icmp := (icmp.store 34 [type, code]).storeLong 38 0
  -- msg_size counts the unused long that is already filled.
  let icmp := icmp.store 42 (WriteLog.slice ip_err 14 msg_size)
  let icmp := (makeIcmpChecksum icmp_size icmp).load 0 icmp_size
  { icmp, icmp_size, source_read := [(14, 1), (14, msg_size)] }

/-- `malloc` gives no memory, or some that holds anything. -/
def errorWinsock2Icmp (h : Host) (err : Int) (ip_err : Nat → BitVec 8)
    (malloc : Option (Nat → BitVec 8)) : Option Made × Host :=
  match icmpOfError err, malloc with
  | some (type, code), some heap =>
    if h.macos_ip_address = 0 then (none, h)
    else (some (errorReply h type code ip_err heap),
      { h with next_ip_ident_number := h.next_ip_ident_number + 1 })
  | _, _ => (none, h)

/-- Types whose data begins with an IP header of the Mac. -/
def Returned (type : BitVec 8) : Prop := type = 3 ∨ type = 4 ∨ type = 5 ∨ type = 11 ∨ type = 12

instance Returned.decidable (type : BitVec 8) : Decidable (Returned type) := by
  unfold Returned
  infer_instance

/-- The source of the returned header becomes the Mac. Its protocol is looked at. -/
def patchReturned (h : Host) (icmp : Block) : Block :=
  let type := icmp.bytes 34
  let icmp := icmp.load 34 1
  if Returned type then (icmp.storeLong 54 h.macos_ip_address).load 51 1 else icmp

/-- The datagram behind a MAC header. -/
def received (h : Host) (bytes_read : Nat) (buf heap : Nat → BitVec 8) : Block :=
  ((Block.fresh heap).storeMac h).store 14 (WriteLog.slice buf 0 bytes_read)

/-- The packet of icmp_read_completion, from a datagram of `bytes_read` bytes. -/
def readCompletionPacket (h : Host) (bytes_read : Nat) (buf heap : Nat → BitVec 8) : Made :=
  let icmp_size := 14 + bytes_read
  let icmp := patchReturned h (received h bytes_read buf heap)
  let icmp := makeIcmpChecksum icmp_size icmp
  let icmp := (icmp.storeLong 30 h.macos_ip_address).load 22 1
  let icmp := makeIp4Checksum (icmp.store 22 [icmp.bytes 22 - 1])
  { icmp := icmp.load 22 1, icmp_size, source_read := [(0, bytes_read)] }

/-- What is made of a datagram, and whether it is enqueued. -/
def icmpReadCompletion (h : Host) (error bytes_read : Nat) (buf : Nat → BitVec 8)
    (malloc : Option (Nat → BitVec 8)) : Option (Made × Bool) :=
  if error = 0 ∧ h.macos_ip_address ≠ 0 then
    if 1460 < bytes_read then none
    else malloc.map fun heap =>
      let made := readCompletionPacket h bytes_read buf heap
      if made.icmp.bytes 22 = 0 then (made, false)
      else ({ made with icmp := made.icmp.load 0 made.icmp_size }, true)
  else none

/-- Where a packet of the Mac goes. -/
inductive Routed
  | dropped
  | expired (reply : Option Made)
  | write_icmp
  | write_tcp
  | write_udp

def writeIp4 (h : Host) (ip : Nat → BitVec 8) (len : Int) (malloc : Option (Nat → BitVec 8)) :
    Routed :=
  if len < 34 then .dropped
  else
    let proto := ip 23
    let ip := Function.update ip 22 (ip 22 - 1)
    if ip 22 = 0 then .expired (errorWinsock2Icmp h (10000 + 1999 + 17) ip malloc).1
    else if proto = 1 then .write_icmp
    else if proto = 6 then .write_tcp
    else if proto = 17 then .write_udp
    else .dropped

/-! ### Records of accesses -/

theorem inside_fresh (size : Nat) (heap : Nat → BitVec 8) : Inside size (Block.fresh heap) :=
  ⟨WriteLog.fresh_within size heap, fun _ member => nomatch member⟩

theorem inside_store {size : Nat} (b : Block) (start : Nat) (data : List (BitVec 8)) :
    Inside size (b.store start data) ↔ Inside size b ∧ start + data.length ≤ size := by
  constructor
  · intro inside
    have now := inside.1 _ ((WriteLog.mem_written_store ..).mpr (.inr rfl))
    exact ⟨⟨fun w earlier => inside.1 w ((WriteLog.mem_written_store ..).mpr (.inl earlier)),
      inside.2⟩, now⟩
  · rintro ⟨inside, fits⟩
    exact ⟨inside.1.store fits, inside.2⟩

theorem inside_load {size : Nat} (b : Block) (start n : Nat) :
    Inside size (b.load start n) ↔ Inside size b ∧ start + n ≤ size := by
  constructor
  · intro inside
    have now := inside.2 (start, n) (List.mem_append_right _ (List.mem_singleton_self _))
    exact ⟨⟨inside.1, fun r earlier => inside.2 r (List.mem_append_left _ earlier)⟩, now⟩
  · rintro ⟨inside, fits⟩
    refine ⟨inside.1, fun r member => ?_⟩
    rcases List.mem_append.mp member with earlier | now
    · exact inside.2 r earlier
    · cases List.mem_singleton.mp now
      exact fits

theorem inside_storeWord {size : Nat} (a : Nat) (w : BitVec 16) (b : Block) :
    Inside size (b.storeWord a w) ↔ Inside size b ∧ a + 2 ≤ size := inside_store ..

theorem inside_storeLong {size : Nat} (a : Nat) (l : BitVec 32) (b : Block) :
    Inside size (b.storeLong a l) ↔ Inside size b ∧ a + 4 ≤ size := inside_store ..

variable (h : Host)

theorem inside_storeMac {size : Nat} (b : Block) :
    Inside size (b.storeMac h) ↔ Inside size b ∧ 14 ≤ size := by
  unfold storeMac
  rw [inside_storeWord, inside_store, inside_store, Vector.length_toList, Vector.length_toList,
    and_assoc, and_assoc]
  exact and_congr_right fun _ => by omega

theorem inside_makeIp4Checksum {size : Nat} (b : Block) : Inside size (makeIp4Checksum b) ↔
    Inside size b ∧ 26 ≤ size ∧ 14 + 4 * (ipHeaderLen b.bytes).toNat ≤ size := by
  have header : ipHeaderLen (b.storeWord 24 0).bytes = ipHeaderLen b.bytes := by
    unfold ipHeaderLen
    rw [storeWord_elsewhere (by decide)]
  unfold makeIp4Checksum
  rw [inside_storeWord, inside_load, inside_load, inside_storeWord, header, and_assoc, and_assoc,
    and_assoc]
  exact and_congr_right fun _ => by omega

theorem inside_makeIcmpChecksum {size : Nat} (len : Int) (b : Block) :
    Inside size (makeIcmpChecksum len b) ↔ Inside size b ∧ 38 ≤ size ∧
      34 + 2 * (((BitVec.ofInt 32 len - 34) / 2).setWidth 16 : BitVec 16).toNat ≤ size := by
  unfold makeIcmpChecksum
  rw [inside_storeWord, inside_load, inside_storeWord, and_assoc, and_assoc]
  exact and_congr_right fun _ => by omega

theorem makeIp4Checksum_elsewhere {i : Nat} (other : i < 24 ∨ 25 < i) (b : Block) :
    (makeIp4Checksum b).bytes i = b.bytes i := by
  obtain ⟨checksum, result, _⟩ := makeIp4Checksum_bytes b
  rw [result, storeWord_elsewhere other, storeWord_elsewhere other]

theorem makeIcmpChecksum_elsewhere {i : Nat} (other : i < 36 ∨ 37 < i) (len : Int) (b : Block) :
    (makeIcmpChecksum len b).bytes i = b.bytes i :=
  (storeWord_elsewhere other _ _).trans (storeWord_elsewhere other b 0)

theorem store_elsewhere {start i : Nat} {data : List (BitVec 8)}
    (other : i < start ∨ start + data.length ≤ i) (b : Block) :
    (b.store start data).bytes i = b.bytes i := WriteLog.store_outside b.toArea other

/-! ### Error replies -/

/-- Accesses are inside, and the header announces what is enqueued. -/
structure Made.Right (made : Made) (source_len : Nat) : Prop where
  inside : Inside made.icmp_size made.icmp
  source : ∀ r ∈ made.source_read, r.1 + r.2 ≤ source_len
  announced : 14 + (word made.icmp.bytes 16).toNat = made.icmp_size

/-- The copied bytes begin four bytes further than the size allows. -/
theorem errorReply_overruns (type code : BitVec 8) (ip_err heap : Nat → BitVec 8) :
    ¬Inside (errorReply h type code ip_err heap).icmp_size
      (errorReply h type code ip_err heap).icmp := by
  intro inside
  have copied := ((inside_store ..).mp
    ((inside_makeIcmpChecksum ..).mp ((inside_load ..).mp inside).1).1).2
  rw [WriteLog.slice_length] at copied
  have size : (errorReply h type code ip_err heap).icmp_size =
    38 + ((ipHeaderLen ip_err).toNat * 4 + 4 + 8) := rfl
  omega

/-- There is an ICMP message for the error, somebody to send it to, and memory for it. -/
def Replies (h : Host) (err : Int) (malloc : Option (Nat → BitVec 8)) : Prop :=
  (icmpOfError err).isSome ∧ h.macos_ip_address ≠ 0 ∧ malloc.isSome

theorem errorWinsock2Icmp_none_iff (err : Int) (ip_err : Nat → BitVec 8)
    (malloc : Option (Nat → BitVec 8)) :
    (errorWinsock2Icmp h err ip_err malloc).1 = none ↔ ¬Replies h err malloc := by
  unfold Replies errorWinsock2Icmp
  match icmpOfError err, malloc with
  | none, _ => exact iff_of_true rfl fun replies => absurd replies.1 (by decide)
  | some _, none => exact iff_of_true rfl fun replies => absurd replies.2.2 (by decide)
  | some (type, code), some heap =>
    dsimp only
    split
    next zero => exact iff_of_true rfl fun replies => replies.2.1 zero
    next other => exact iff_of_false (Option.some_ne_none _) fun silent => silent ⟨rfl, other, rfl⟩

theorem errorWinsock2Icmp_some {h : Host} {err : Int} {ip_err : Nat → BitVec 8}
    {malloc : Option (Nat → BitVec 8)} {made : Made}
    (built : (errorWinsock2Icmp h err ip_err malloc).1 = some made) :
    ∃ type code heap, made = errorReply h type code ip_err heap := by
  unfold errorWinsock2Icmp at built
  match icmpOfError err, malloc, built with
  | some (type, code), some heap, built =>
    dsimp only at built
    split at built
    · cases built
    · exact ⟨type, code, heap, (Option.some.inj built).symm⟩

theorem error_right_iff (err : Int) (ip_err : Nat → BitVec 8) (len : Nat)
    (malloc : Option (Nat → BitVec 8)) :
    (∀ made ∈ (errorWinsock2Icmp h err ip_err malloc).1, made.Right len) ↔
      ¬Replies h err malloc := by
  rw [← errorWinsock2Icmp_none_iff h err ip_err malloc, Option.eq_none_iff_forall_not_mem]
  refine forall_congr' fun made => ⟨fun right built => ?_, fun not_built built => absurd built not_built⟩
  obtain ⟨type, code, heap, rfl⟩ := errorWinsock2Icmp_some built
  exact errorReply_overruns h type code ip_err heap (right built).inside

theorem writeIp4_expired {h : Host} {ip : Nat → BitVec 8} {len : Int}
    {malloc : Option (Nat → BitVec 8)} (complete : 34 ≤ len) (last_hop : ip 22 = 1) :
    writeIp4 h ip len malloc = .expired (errorWinsock2Icmp h 12016
      (Function.update ip 22 0) malloc).1 := by
  unfold writeIp4
  dsimp only
  rw [if_neg (by omega), last_hop]
  exact if_pos (Function.update_self ..)

/-! ### Datagrams -/

theorem patchReturned_elsewhere {i : Nat} (other : i < 54 ∨ 57 < i) (h : Host) (b : Block) :
    (patchReturned h b).bytes i = b.bytes i := by
  unfold patchReturned
  dsimp only
  split
  · exact store_elsewhere (by show i < 54 ∨ 54 + 4 ≤ i; omega) _
  · rfl

theorem inside_patchReturned {size : Nat} (b : Block) : Inside size (patchReturned h b) ↔
    Inside size b ∧ 35 ≤ size ∧ (Returned (b.bytes 34) → 58 ≤ size) := by
  unfold patchReturned
  dsimp only
  split
  next returned =>
    rw [inside_load, inside_storeLong, inside_load, and_assoc, and_assoc]
    exact and_congr_right fun _ => ⟨fun fits => ⟨fits.1, fun _ => fits.2.1⟩,
      fun fits => ⟨fits.1, fits.2 returned, by have := fits.2 returned; omega⟩⟩
  next other =>
    rw [inside_load]
    exact and_congr_right fun _ => ⟨fun fits => ⟨fits, fun returned => absurd returned other⟩,
      fun fits => fits.1⟩

theorem received_datagram {n i : Nat} (inside : i < n) (buf heap : Nat → BitVec 8) :
    (received h n buf heap).bytes (14 + i) = buf i := by
  have bound : i < (WriteLog.slice buf 0 n).length := by rwa [WriteLog.slice_length]
  have here := WriteLog.store_inside ((Block.fresh heap).storeMac h).toArea 14 _ bound
  refine here.trans ?_
  rw [List.getD_eq_getElem?_getD, WriteLog.slice, List.getElem?_map, List.getElem?_range inside,
    Option.map_some, Option.getD_some, Nat.zero_add]

theorem inside_received {size : Nat} (n : Nat) (buf heap : Nat → BitVec 8) :
    Inside size (received h n buf heap) ↔ 14 + n ≤ size := by
  unfold received
  rw [inside_store, inside_storeMac, iff_true_intro (inside_fresh ..), true_and,
    WriteLog.slice_length]
  omega

/-- Neither the first byte of the IP header nor the hop count changes before the latter is
decremented. -/
theorem before_hop {i : Nat} (header : i < 24) (h : Host) (len : Int) (b : Block) :
    (((makeIcmpChecksum len (patchReturned h b)).storeLong 30 h.macos_ip_address).load 22 1).bytes i =
      b.bytes i := by
  refine (store_elsewhere (.inl (by omega)) _).trans ?_
  rw [makeIcmpChecksum_elsewhere (by omega), patchReturned_elsewhere (by omega)]

/-- The header length of a datagram. -/
def headerLen (buf : Nat → BitVec 8) : Nat := ((buf 0).extractLsb' 0 4).toNat

theorem readCompletion_inside {n : Nat} (short : n ≤ 1460) (buf heap : Nat → BitVec 8) :
    Inside (14 + n) (readCompletionPacket h n buf heap).icmp ↔
      24 ≤ n ∧ (Returned (buf 20) → 44 ≤ n) ∧ 4 * headerLen buf ≤ n := by
  have header (x : BitVec 8) : ipHeaderLen ((((makeIcmpChecksum (14 + n : Nat) (patchReturned h
      (received h n buf heap))).storeLong 30 h.macos_ip_address).load 22 1).store 22 [x]).bytes =
        ipHeaderLen (received h n buf heap).bytes := by
    unfold ipHeaderLen
    rw [store_elsewhere (.inl (by decide)), before_hop (by decide)]
  unfold readCompletionPacket
  dsimp only
  rw [inside_load, inside_makeIp4Checksum, inside_store, inside_load, inside_storeLong,
    inside_makeIcmpChecksum, inside_patchReturned, inside_received, header]
  by_cases long : 24 ≤ n
  · have words := @icmp_words (14 + n) (by omega) (by omega)
    have type : (received h n buf heap).bytes 34 = buf 20 :=
      received_datagram h (by omega : 20 < n) buf heap
    have first : (received h n buf heap).bytes 14 = buf 0 :=
      received_datagram h (by omega : 0 < n) buf heap
    rw [words, type, ipHeaderLen, first, ← headerLen]
    constructor
    · rintro ⟨⟨⟨⟨⟨⟨⟨_, _, patched⟩, _⟩, _⟩, _⟩, _⟩, _, header⟩, _⟩
      exact ⟨long, fun returned => by have := patched returned; omega, by omega⟩
    · rintro ⟨_, patched, header⟩
      have patched : Returned (buf 20) → 58 ≤ 14 + n := fun returned => by
        have := patched returned
        omega
      rw [List.length_singleton]
      refine ⟨⟨⟨⟨⟨⟨⟨?_, ?_, patched⟩, ?_, ?_⟩, ?_⟩, ?_⟩, ?_⟩, ?_, ?_⟩, ?_⟩
      all_goals omega
  · refine iff_of_false ?_ fun fits => long fits.1
    rintro ⟨⟨⟨⟨⟨⟨_, checksum, _⟩, _⟩, _⟩, _⟩, _⟩, _⟩
    omega

theorem readCompletion_hop {n : Nat} (long : 8 < n) (buf heap : Nat → BitVec 8) :
    (readCompletionPacket h n buf heap).icmp.bytes 22 = buf 8 - 1 := by
  unfold readCompletionPacket
  refine (makeIp4Checksum_elsewhere (.inl (by decide)) _).trans ?_
  rw [before_hop (by decide), show 22 = 14 + 8 from rfl, received_datagram h long buf heap]
  rfl

/-- Accesses are inside, and a datagram without a hop left is not passed on. -/
structure CompletionRight (buf : Nat → BitVec 8) (bytes_read : Nat) (result : Made × Bool) : Prop where
  inside : Inside result.1.icmp_size result.1.icmp
  source : ∀ r ∈ result.1.source_read, r.1 + r.2 ≤ bytes_read
  expired : buf 8 = 0 → result.2 = false

/-- Something is made of the datagram. -/
def Handled (h : Host) (error bytes_read : Nat) (malloc : Option (Nat → BitVec 8)) : Prop :=
  error = 0 ∧ h.macos_ip_address ≠ 0 ∧ bytes_read ≤ 1460 ∧ malloc.isSome

/-- A header and the first half of a message, for some types also the header that is returned, the
header as long as it says, and a hop left. -/
def DatagramComplete (bytes_read : Nat) (buf : Nat → BitVec 8) : Prop :=
  24 ≤ bytes_read ∧ (Returned (buf 20) → 44 ≤ bytes_read) ∧ 4 * headerLen buf ≤ bytes_read ∧
    buf 8 ≠ 0

theorem icmpReadCompletion_none {h : Host} {error n : Nat} {malloc : Option (Nat → BitVec 8)}
    (not_handled : ¬Handled h error n malloc) (buf : Nat → BitVec 8) :
    icmpReadCompletion h error n buf malloc = none := by
  unfold icmpReadCompletion
  split
  next wanted =>
    split
    · rfl
    next short =>
      match malloc with
      | none => rfl
      | some _ => exact absurd ⟨wanted.1, wanted.2, by omega, rfl⟩ not_handled
  · rfl

/-- What is made of a datagram is right if the datagram is complete. -/
theorem made_right_iff {n : Nat} (short : n ≤ 1460) (buf heap : Nat → BitVec 8) :
    (∀ result ∈ icmpReadCompletion h 0 n buf (some heap), CompletionRight buf n result) ↔
      h.macos_ip_address = 0 ∨ DatagramComplete n buf := by
  by_cases wanted : h.macos_ip_address = 0
  · have nothing : icmpReadCompletion h 0 n buf (some heap) = none :=
      icmpReadCompletion_none (fun handled => handled.2.1 wanted) buf
    rw [nothing]
    exact iff_of_true (fun _ member => nomatch member) (.inl wanted)
  · have inside := readCompletion_inside h short buf heap
    have whole : ∀ r ∈ (readCompletionPacket h n buf heap).source_read, r.1 + r.2 ≤ n := by
      intro r member
      cases List.mem_singleton.mp member
      exact Nat.le_of_eq (Nat.zero_add n)
    unfold icmpReadCompletion
    rw [if_pos ⟨rfl, wanted⟩, if_neg (by omega), or_iff_right wanted, Option.map_some]
    dsimp only
    split
    next hop =>
      constructor
      · intro right
        obtain ⟨long, patched, header⟩ := inside.mp (right _ rfl).inside
        rw [readCompletion_hop h (by omega)] at hop
        exact ⟨long, patched, header, fun none_left => by rw [none_left] at hop; cases hop⟩
      · rintro ⟨long, patched, header, _⟩ result member
        cases member
        exact ⟨inside.mpr ⟨long, patched, header⟩, whole, fun _ => rfl⟩
    next hop =>
      constructor
      · intro right
        obtain ⟨long, patched, header⟩ := inside.mp ((inside_load ..).mp (right _ rfl).inside).1
        exact ⟨long, patched, header, fun none_left => nomatch (right _ rfl).expired none_left⟩
      · rintro ⟨long, patched, header, left⟩ result member
        cases member
        have enqueued : 0 + (14 + n) ≤ 14 + n := by omega
        exact ⟨(inside_load ..).mpr ⟨inside.mpr ⟨long, patched, header⟩, enqueued⟩, whole,
          fun none_left => absurd none_left left⟩

theorem completion_right_iff (error n : Nat) (buf : Nat → BitVec 8)
    (malloc : Option (Nat → BitVec 8)) :
    (∀ result ∈ icmpReadCompletion h error n buf malloc, CompletionRight buf n result) ↔
      ¬Handled h error n malloc ∨ DatagramComplete n buf := by
  by_cases handled : Handled h error n malloc
  · obtain ⟨rfl, wanted, short, memory⟩ := handled
    obtain ⟨heap, rfl⟩ := Option.isSome_iff_exists.mp memory
    rw [made_right_iff h short, or_iff_right wanted, or_iff_right (not_not_intro ⟨rfl, wanted, short, rfl⟩)]
  · rw [icmpReadCompletion_none handled]
    exact iff_of_true (fun _ member => nomatch member) (.inl handled)

/-- Error replies are right if there are none; packets made of datagrams, if these are complete. -/
theorem icmp_right_iff (h : Host) (malloc : Option (Nat → BitVec 8)) :
    (∀ err ip_err len, (∀ made ∈ (errorWinsock2Icmp h err ip_err malloc).1, made.Right len) ↔
      ¬Replies h err malloc) ∧
    ∀ error n buf, (∀ result ∈ icmpReadCompletion h error n buf malloc, CompletionRight buf n result) ↔
      ¬Handled h error n malloc ∨ DatagramComplete n buf :=
  ⟨fun err ip_err len => error_right_iff h err ip_err len malloc,
    fun error n buf => completion_right_iff h error n buf malloc⟩

/-- The Mac has an address. -/
def someHost : Host where
  ether_addr := #v[0, 5, 2, 1, 2, 3]
  macos_ip_address := 0xc0a80002
  router_ip_address := 0xc0a80001
  next_ip_ident_number := 1

/-- A packet with a header of five words and one hop left. -/
def lastHop (i : Nat) : BitVec 8 := if i = 14 then 0x45 else if i = 22 then 1 else 0

theorem expired_packet_overruns : ¬∀ h ip (len : Nat) malloc reply, 34 ≤ len →
    writeIp4 h ip len malloc = .expired reply → ∀ made ∈ reply, made.Right len := by
  intro claim
  have expired := @writeIp4_expired someHost lastHop (62 : Nat) (some lastHop) (by decide) rfl
  have right := claim someHost lastHop 62 (some lastHop) _ (by decide) expired
  exact (error_right_iff ..).mp right ⟨rfl, by decide, rfl⟩

end BasiliskII.Router
