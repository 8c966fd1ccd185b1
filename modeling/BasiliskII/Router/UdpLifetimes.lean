import BasiliskII.Router.UdpSockets
import Mathlib.Data.List.Nodup

/-!
# Lifetimes of UDP socket objects

Between events every object in the table has a read outstanding. So all is well exactly as long as
nothing deletes an object but its read completion, and as long as no system socket is closed before
that: packets come for new ports or old connections, the table does not overflow, and expiry and
the end find nothing to close twice.
-/
namespace BasiliskII.Router

open StepSystem SwapRemove

namespace UdpState

/-- What always holds of objects, table and system sockets while none is closed twice. -/
structure Base (st : UdpState) : Prop where
  nodup : st.allSockets.Nodup
  live : ∀ id, id ∈ st.allSockets ↔ (st.objects id).isSome
  bound : st.allSockets.length ≤ maxOpenSockets
  handle : ∀ id cmpl, st.objects id = some cmpl → cmpl.s = some id
  unborn : ∀ id, st.next ≤ id → st.objects id = none
  created_before : ∀ s ∈ st.created, s < st.next
  has_socket : ∀ id, (st.objects id).isSome → id ∈ st.created
  closed_created : ∀ s ∈ st.closed, s ∈ st.created
  closed_once : st.closed.Nodup
  closed_or_live : ∀ s ∈ st.created, s ∈ st.closed ∨ (st.objects s).isSome

/-- Between events there is one read for each object, and nothing has gone wrong. -/
structure Ok (st : UdpState) : Prop extends Base st where
  one_read : st.pending.Nodup
  reading : ∀ id, id ∈ st.pending ↔ id ∈ st.allSockets
  deleted_idle : st.deletedPending = []
  handled_live : st.handledDeleted = []

theorem initUdp_ok : initUdp.Ok where
  nodup := List.nodup_nil
  live _ := by simp [initUdp]
  bound := Nat.zero_le _
  handle _ _ none := by cases none
  unborn _ _ := rfl
  created_before _ member := (List.not_mem_nil member).elim
  has_socket _ none := by cases none
  closed_created _ member := (List.not_mem_nil member).elim
  closed_once := List.nodup_nil
  closed_or_live _ member := (List.not_mem_nil member).elim
  one_read := List.nodup_nil
  reading _ := Iff.rfl
  deleted_idle := rfl
  handled_live := rfl

/-- What it means that an object of the table has been deleted. -/
structure Deleted (st : UdpState) (id : Nat) (st' : UdpState) : Prop where
  objects : st'.objects = Function.update st.objects id none
  closed : st'.closed = st.closed ++ [id]
  log : st'.deletedPending = st.deletedPending ++ if id ∈ st.pending then [id] else []
  nodup : st'.allSockets.Nodup
  mem : ∀ other, other ∈ st'.allSockets ↔ other ∈ st.allSockets ∧ other ≠ id
  length : st'.allSockets.length ≤ st.allSockets.length
  next : st'.next = st.next
  pending : st'.pending = st.pending
  created : st'.created = st.created
  handled : st'.handledDeleted = st.handledDeleted

variable {st : UdpState} {id : Nat}

theorem Base.object (base : st.Base) (member : id ∈ st.allSockets) :
    ∃ cmpl, st.objects id = some cmpl ∧ cmpl.s = some id := by
  obtain ⟨cmpl, object⟩ := Option.isSome_iff_exists.mp ((base.live id).mp member)
  exact ⟨cmpl, object, base.handle id cmpl object⟩

theorem Base.delete_eq (base : st.Base) (member : id ∈ st.allSockets) :
    st.delete id = { st with
      objects := Function.update st.objects id none
      closed := st.closed ++ [id]
      deletedPending := st.deletedPending ++ if id ∈ st.pending then [id] else [] } := by
  obtain ⟨cmpl, object, s⟩ := base.object member
  unfold UdpState.delete
  rw [object]
  dsimp only
  rw [s]
  rfl

theorem Base.deleteAt (base : st.Base) {i : Nat} (inside : i < st.allSockets.length) :
    st.Deleted st.allSockets[i] (st.deleteAt i) := by
  have deleted := base.delete_eq (List.getElem_mem inside)
  have result : st.deleteAt i =
      { st.delete st.allSockets[i] with allSockets := swapRemove st.allSockets i } := by
    unfold UdpState.deleteAt
    rw [List.getElem?_eq_getElem inside]
  rw [result, deleted]
  have shorter := length_swapRemove st.allSockets inside
  exact ⟨rfl, rfl, rfl, nodup_swapRemove base.nodup inside, fun _ => mem_swapRemove base.nodup inside,
    by dsimp only; omega, rfl, rfl, rfl, rfl⟩

theorem Base.deleteSocket (base : st.Base) (member : id ∈ st.allSockets) :
    st.Deleted id (st.deleteSocket id) := by
  unfold UdpState.deleteSocket
  cases found : st.allSockets.findIdx? fun other => other = id with
  | none =>
    rw [List.findIdx?_eq_none_iff] at found
    exact absurd (found id member) (by simp)
  | some i =>
    obtain ⟨inside, same, _⟩ := List.findIdx?_eq_some_iff_getElem.mp found
    have entry : st.allSockets[i] = id := of_decide_eq_true same
    exact entry ▸ base.deleteAt inside

theorem Deleted.base {st' : UdpState} (deleted : st.Deleted id st') (base : st.Base)
    (member : id ∈ st.allSockets) (still_open : id ∉ st.closed) : st'.Base where
  nodup := deleted.nodup
  live other := by
    rw [deleted.mem, deleted.objects, Function.update_apply, base.live]
    split
    next same => simp [same]
    next differs => simp [differs]
  bound := Nat.le_trans deleted.length base.bound
  handle other cmpl object := by
    rw [deleted.objects, Function.update_apply] at object
    split at object
    · cases object
    · exact base.handle other cmpl object
  unborn other later := by
    rw [deleted.next] at later
    rw [deleted.objects, Function.update_apply]
    split
    · rfl
    · exact base.unborn other later
  created_before s made := by
    rw [deleted.created] at made
    exact deleted.next ▸ base.created_before s made
  has_socket other object := by
    rw [deleted.objects, Function.update_apply] at object
    rw [deleted.created]
    split at object
    · cases object
    · exact base.has_socket other object
  closed_created s shut := by
    rw [deleted.closed, List.mem_append, List.mem_singleton] at shut
    rw [deleted.created]
    rcases shut with before | rfl
    · exact base.closed_created s before
    · exact base.has_socket s ((base.live s).mp member)
  closed_once := by
    rw [deleted.closed]
    -- The destructor closes it now, for the first time.
    rw [← List.concat_eq_append]
    exact base.closed_once.concat still_open
  closed_or_live s made := by
    rw [deleted.created] at made
    rw [deleted.closed, deleted.objects, List.mem_append, List.mem_singleton, Function.update_apply]
    -- The object that went has closed its socket.
    by_cases same : s = id
    · exact .inl (.inr same)
    · rw [if_neg same]
      exact (base.closed_or_live s made).imp_left .inl

/-! ### Sending and reading -/

theorem Base.isOpen_iff (base : st.Base) (member : id ∈ st.allSockets) :
    st.isOpen id = true ↔ id ∉ st.closed := by
  obtain ⟨cmpl, object, s⟩ := base.object member
  have handle : (st.objects id).bind (·.s) = some id := by rw [object]; exact s
  unfold UdpState.isOpen
  rw [handle]
  exact decide_eq_true_iff

theorem touch_isSome (st : UdpState) (id other : Nat) (tickCount : BitVec 32) :
    ((st.touch id tickCount).objects other).isSome = (st.objects other).isSome := by
  unfold UdpState.touch
  dsimp only
  rw [Function.update_apply]
  split
  next here => rw [here, Option.isSome_map]
  next => rfl

theorem touch_s {other : Nat} {tickCount : BitVec 32} {cmpl : SocketT}
    (object : (st.touch id tickCount).objects other = some cmpl) :
    ∃ old, st.objects other = some old ∧ old.s = cmpl.s := by
  unfold UdpState.touch at object
  dsimp only at object
  rw [Function.update_apply] at object
  split at object
  next here =>
    obtain ⟨old, was, rfl⟩ := Option.map_eq_some_iff.mp object
    exact ⟨old, here ▸ was, rfl⟩
  next => exact ⟨cmpl, object, rfl⟩

theorem Base.touch (base : st.Base) (id : Nat) (tickCount : BitVec 32) :
    (st.touch id tickCount).Base where
  nodup := base.nodup
  live other := by
    rw [touch_isSome]
    exact base.live other
  bound := base.bound
  handle other cmpl object := by
    obtain ⟨old, was, same⟩ := touch_s object
    rw [← same]
    exact base.handle other old was
  unborn other later := by
    rw [← Option.isNone_iff_eq_none, ← Option.not_isSome, touch_isSome, base.unborn other later]
    rfl
  created_before := base.created_before
  has_socket other object := base.has_socket other (touch_isSome st id other tickCount ▸ object)
  closed_created := base.closed_created
  closed_once := base.closed_once
  closed_or_live s made := (base.closed_or_live s made).imp_right fun live => by
    rwa [touch_isSome]

theorem Ok.touch (ok : st.Ok) (id : Nat) (tickCount : BitVec 32) : (st.touch id tickCount).Ok :=
  ⟨ok.toBase.touch id tickCount, ok.one_read, ok.reading, ok.deleted_idle, ok.handled_live⟩

theorem Base.with_pending (base : st.Base) (pending : List Nat) :
    ({ st with pending } : UdpState).Base :=
  ⟨base.nodup, base.live, base.bound, base.handle, base.unborn, base.created_before,
    base.has_socket, base.closed_created, base.closed_once, base.closed_or_live⟩

/-- An object with no read outstanding gets one or is deleted. -/
structure Idle (st : UdpState) (id : Nat) : Prop extends Base st where
  member : id ∈ st.allSockets
  one_read : st.pending.Nodup
  reading : ∀ other, other ∈ st.pending ↔ other ∈ st.allSockets ∧ other ≠ id
  deleted_idle : st.deletedPending = []
  handled_live : st.handledDeleted = []

theorem Idle.no_read (idle : st.Idle id) : id ∉ st.pending :=
  fun reading => ((idle.reading id).mp reading).2 rfl

theorem Idle.read (idle : st.Idle id) : ({ st with pending := st.pending ++ [id] } : UdpState).Ok where
  toBase := idle.toBase.with_pending _
  one_read := by
    rw [← List.concat_eq_append]
    exact idle.one_read.concat idle.no_read
  reading other := by
    rw [List.mem_append, List.mem_singleton, idle.reading]
    constructor
    · rintro (⟨member, _⟩ | rfl)
      · exact member
      · exact idle.member
    · intro member
      by_cases same : other = id
      · exact .inr same
      · exact .inl ⟨member, same⟩
  deleted_idle := idle.deleted_idle
  handled_live := idle.handled_live

theorem Idle.delete (idle : st.Idle id) (still_open : id ∉ st.closed) : (st.deleteSocket id).Ok := by
  have deleted := idle.toBase.deleteSocket idle.member
  refine ⟨deleted.base idle.toBase idle.member still_open, ?_, fun other => ?_, ?_, ?_⟩
  · rw [deleted.pending]
    exact idle.one_read
  · rw [deleted.pending, deleted.mem]
    exact idle.reading other
  · rw [deleted.log, if_neg idle.no_read, List.append_nil]
    exact idle.deleted_idle
  · rw [deleted.handled]
    exact idle.handled_live

theorem Idle.touch (idle : st.Idle id) (tickCount : BitVec 32) : (st.touch id tickCount).Idle id :=
  ⟨idle.toBase.touch id tickCount, idle.member, idle.one_read, idle.reading, idle.deleted_idle,
    idle.handled_live⟩

theorem Ok.completed (ok : st.Ok) (reading : id ∈ st.pending) :
    ({ st with pending := st.pending.erase id } : UdpState).Idle id where
  toBase := ok.toBase.with_pending _
  member := (ok.reading id).mp reading
  one_read := ok.one_read.erase id
  reading other := by
    rw [ok.one_read.mem_erase_iff, ok.reading]
    exact And.comm
  deleted_idle := ok.deleted_idle
  handled_live := ok.handled_live

/-! ### The events -/

theorem bRecfrom_cases (st : UdpState) (id : Nat) (received : Bool) :
    st.isOpen id = true ∧ st.bRecfrom id received = (true, { st with pending := st.pending ++ [id] }) ∨
      st.bRecfrom id received = (false, st) := by
  unfold UdpState.bRecfrom
  split
  next taken => exact .inl ⟨(Bool.and_eq_true_iff.mp taken).2, rfl⟩
  next => exact .inr rfl

theorem Ok.readCompletion (ok : st.Ok) (reading : id ∈ st.pending) (still_open : id ∉ st.closed)
    (received isRouterShuttingDown : Bool) (tickCount : BitVec 32) :
    (st.readCompletion id received isRouterShuttingDown tickCount).Ok := by
  have idle := ok.completed reading
  obtain ⟨cmpl, object, _⟩ := idle.toBase.object idle.member
  unfold UdpState.readCompletion
  dsimp only
  rw [show st.objects id = some cmpl from object]
  dsimp only
  split
  -- The next read is taken, or the object goes.
  · rcases bRecfrom_cases { st with pending := st.pending.erase id } id received with
      ⟨_, taken⟩ | failed
    · rw [taken]
      exact idle.read.touch id tickCount
    · rw [failed]
      exact idle.delete still_open
  · exact idle.delete still_open

theorem Deleted.closed_twice {st' : UdpState} (deleted : st.Deleted id st') (shut : id ∈ st.closed) :
    ¬st'.closed.Nodup := by
  intro once
  rw [deleted.closed, List.nodup_append] at once
  exact once.2.2 id shut id (List.mem_singleton_self id) rfl

theorem Base.readCompletion_closed (base : st.Base) (member : id ∈ st.allSockets)
    (shut : id ∈ st.closed) (received isRouterShuttingDown : Bool) (tickCount : BitVec 32) :
    ¬(st.readCompletion id received isRouterShuttingDown tickCount).closed.Nodup := by
  have base' := base.with_pending (st.pending.erase id)
  have deleted := base'.deleteSocket member
  obtain ⟨cmpl, object, _⟩ := base.object member
  unfold UdpState.readCompletion
  dsimp only
  rw [object]
  dsimp only
  split
  · rcases bRecfrom_cases { st with pending := st.pending.erase id } id received with
      ⟨still_open, _⟩ | failed
    -- No read is taken on a closed socket.
    · exact absurd shut ((base'.isOpen_iff member).mp still_open)
    · rw [failed]
      exact deleted.closed_twice shut
  · exact deleted.closed_twice shut

/-! ### Packets -/

/-- The object of the ports of a packet. -/
def found (st : UdpState) (w : UdpPacket) : Option Nat :=
  (st.getSocketIndex fun cmpl =>
    cmpl.srcPort = w.srcPort && cmpl.destPort = w.destPort).bind (st.allSockets[·]?)

/-- The first object of the Mac's port of a packet. -/
def samePort (st : UdpState) (w : UdpPacket) : Option Nat :=
  (st.getSocketIndex fun cmpl => cmpl.srcPort = w.srcPort).bind (st.allSockets[·]?)

theorem getSocketIndex_inside {test : SocketT → Bool} {i : Nat}
    (found : st.getSocketIndex test = some i) : ∃ inside : i < st.allSockets.length,
      st.allSockets[i]? = some st.allSockets[i] := by
  obtain ⟨inside, _⟩ := List.findIdx?_eq_some_iff_getElem.mp found
  exact ⟨inside, List.getElem?_eq_getElem inside⟩

variable {w : UdpPacket}

theorem found_mem (found : st.found w = some id) : id ∈ st.allSockets := by
  obtain ⟨i, _, entry⟩ := Option.bind_eq_some_iff.mp found
  exact List.mem_of_getElem? entry

theorem samePort_mem (taken : st.samePort w = some id) : id ∈ st.allSockets := by
  obtain ⟨i, _, entry⟩ := Option.bind_eq_some_iff.mp taken
  exact List.mem_of_getElem? entry

/-- An object with the ports, or the one with the Mac's port deleted. -/
theorem findSocket_eq (st : UdpState) (w : UdpPacket) : st.findSocket w.srcPort w.destPort =
    match st.found w, st.samePort w with
    | some id, _ => (some id, st)
    | none, some id => (none, st.deleteSocket id)
    | none, none => (none, st) := by
  unfold UdpState.findSocket UdpState.found UdpState.samePort
  cases both : st.getSocketIndex fun cmpl =>
    cmpl.srcPort = w.srcPort && cmpl.destPort = w.destPort with
  | some i =>
    obtain ⟨inside, entry⟩ := getSocketIndex_inside both
    simp [entry]
  | none =>
    cases port : st.getSocketIndex fun cmpl => cmpl.srcPort = w.srcPort with
    | some i =>
      obtain ⟨inside, entry⟩ := getSocketIndex_inside port
      simp [entry]
    | none => simp

/-- `write_udp` from where the ports have no object. -/
def openNew (w : UdpPacket) (st : UdpState) : UdpState :=
  if w.created then ((st.newSocket w).addSocket st.next).send w false st.next
  else (st.newSocket w).delete st.next

theorem writeUdp_eq (st : UdpState) (w : UdpPacket) : st.writeUdp w =
    if w.len < sizeofUdp then st
    else
      match st.found w, st.samePort w with
      | some id, _ => st.send w true id
      | none, some id => (st.deleteSocket id).openNew w
      | none, none => st.openNew w := by
  unfold writeUdp
  rw [findSocket_eq]
  split
  · rfl
  · cases st.found w with
    | some id => rfl
    | none =>
      cases st.samePort w with
      | some id => rfl
      | none => rfl

theorem Base.next_new (base : st.Base) : st.next ∉ st.allSockets ∧ st.next ∉ st.closed := by
  constructor
  · intro member
    rw [base.live, base.unborn st.next (Nat.le_refl _)] at member
    cases member
  · intro shut
    exact Nat.lt_irrefl _ (base.created_before _ (base.closed_created _ shut))

theorem addSocket_room (w : UdpPacket) (space : st.allSockets.length < maxOpenSockets) :
    (st.newSocket w).addSocket st.next =
      { st.newSocket w with allSockets := st.allSockets ++ [st.next] } := if_pos space

theorem Base.newSocket (base : st.Base) (created : w.created = true)
    (space : st.allSockets.length < maxOpenSockets) :
    ((st.newSocket w).addSocket st.next).Base := by
  have made : (st.newSocket w).created = st.created ++ [st.next] :=
    congrArg (st.created ++ ·) (if_pos created)
  have object : ∀ id, (st.newSocket w).objects id = if id = st.next then
      some ⟨some st.next, false, w.srcPort, w.destPort, w.tickCount + 60000⟩ else st.objects id := by
    intro id
    unfold UdpState.newSocket
    rw [if_pos created]
    exact Function.update_apply ..
  rw [addSocket_room w space]
  constructor
  case nodup =>
    dsimp only
    rw [← List.concat_eq_append]
    exact base.nodup.concat base.next_new.1
  case live =>
    intro id
    dsimp only
    rw [object, List.mem_append, List.mem_singleton, base.live]
    split
    next new => simp [new]
    next old => simp [old]
  case bound =>
    dsimp only
    rw [List.length_append, List.length_singleton]
    exact space
  case handle =>
    intro id cmpl here
    dsimp only at here
    rw [object] at here
    split at here
    next new =>
      cases here
      rw [new]
    next => exact base.handle id cmpl here
  case unborn =>
    intro id later
    have after : st.next + 1 ≤ id := later
    dsimp only
    rw [object, if_neg (by omega)]
    exact base.unborn id (by omega)
  case created_before =>
    intro s member
    dsimp only at member
    rw [made, List.mem_append, List.mem_singleton] at member
    change s < st.next + 1
    rcases member with before | rfl
    · exact Nat.lt_succ_of_lt (base.created_before s before)
    · exact Nat.lt_succ_self _
  case has_socket =>
    intro id here
    dsimp only at here ⊢
    rw [object] at here
    rw [made, List.mem_append, List.mem_singleton]
    split at here
    next new => exact .inr new
    next => exact .inl (base.has_socket id here)
  case closed_created =>
    intro s shut
    dsimp only
    rw [made]
    exact List.mem_append_left _ (base.closed_created s shut)
  case closed_once =>
    exact base.closed_once
  case closed_or_live =>
    intro s member
    dsimp only at member ⊢
    rw [made, List.mem_append, List.mem_singleton] at member
    rw [object]
    split
    next => exact .inr rfl
    next old => exact base.closed_or_live s (member.resolve_right old)

theorem Ok.newSocket_idle (ok : st.Ok) (created : w.created = true)
    (space : st.allSockets.length < maxOpenSockets) :
    ((st.newSocket w).addSocket st.next).Idle st.next := by
  have base := ok.toBase.newSocket created space
  rw [addSocket_room w space] at base ⊢
  refine ⟨base, List.mem_append_right _ (List.mem_singleton_self _), ok.one_read, fun other => ?_,
    ok.deleted_idle, ok.handled_live⟩
  change other ∈ st.pending ↔ other ∈ st.allSockets ++ [st.next] ∧ other ≠ st.next
  rw [ok.reading, List.mem_append, List.mem_singleton]
  constructor
  · intro old
    exact ⟨.inl old, fun same => ok.toBase.next_new.1 (same ▸ old)⟩
  · rintro ⟨old | new, differs⟩
    · exact old
    · exact (differs new).elim

/-- Without a system socket nothing but a number is left of the new object. -/
theorem Ok.newSocket_failed (ok : st.Ok) (not_created : w.created = false) :
    ((st.newSocket w).delete st.next).Ok := by
  have no_object : st.objects st.next = none := ok.unborn st.next (Nat.le_refl _)
  have no_read : st.next ∉ st.pending := fun reading =>
    ok.toBase.next_new.1 ((ok.reading _).mp reading)
  -- It was not in the table yet, and has nothing to close.
  have nothing : (st.newSocket w).delete st.next = { st with next := st.next + 1 } := by
    have restored : Function.update st.objects st.next none = st.objects :=
      Function.update_eq_self_iff.mpr no_object.symm
    simp [UdpState.newSocket, UdpState.delete, not_created, no_read, restored]
  rw [nothing]
  exact
    { ok with
      unborn := fun id later => ok.unborn id (Nat.le_of_succ_le later)
      created_before := fun s made => Nat.lt_succ_of_lt (ok.created_before s made) }

theorem Idle.send (idle : st.Idle id) (still_open : id ∉ st.closed) (w : UdpPacket) :
    (st.send w false id).Ok := by
  unfold UdpState.send
  split
  · rcases bRecfrom_cases st id w.received with ⟨_, taken⟩ | failed
    · rw [taken]
      exact idle.read.touch id w.tickCount
    -- No read: `please_close` is still set.
    · rw [failed]
      exact (idle.touch w.tickCount).delete still_open
  · exact idle.delete still_open

theorem Ok.openNew (ok : st.Ok) (space : w.created = true → st.allSockets.length < maxOpenSockets) :
    (st.openNew w).Ok := by
  unfold UdpState.openNew
  split
  next created =>
    refine (ok.newSocket_idle created (space created)).send ?_ w
    rw [addSocket_room w (space created)]
    exact ok.toBase.next_new.2
  next not_created => exact ok.newSocket_failed (Bool.eq_false_iff.mpr not_created)

/-- An object that is there keeps its read as long as the packet can be sent. -/
theorem Ok.send (ok : st.Ok) (member : id ∈ st.allSockets) (sent : w.sent = true)
    (still_open : id ∉ st.closed) : (st.send w true id).Ok := by
  unfold UdpState.send
  rw [sent, (ok.toBase.isOpen_iff member).mpr still_open]
  exact ok.touch id w.tickCount

/-! ### Objects deleted with a read outstanding -/

theorem delete_logged (object : (st.objects id).isSome) (reading : id ∈ st.pending) :
    (st.delete id).deletedPending ≠ [] := by
  obtain ⟨cmpl, here⟩ := Option.isSome_iff_exists.mp object
  unfold UdpState.delete
  rw [here]
  dsimp only
  rw [if_pos reading]
  exact List.concat_ne_nil _ _

theorem Ok.deleteSocket_logged (ok : st.Ok) (member : id ∈ st.allSockets) :
    (st.deleteSocket id).deletedPending ≠ [] := by
  have deleted := ok.toBase.deleteSocket member
  rw [deleted.log, if_pos ((ok.reading id).mpr member)]
  exact List.concat_ne_nil _ _

theorem Ok.send_logged (ok : st.Ok) (member : id ∈ st.allSockets)
    (failed : ¬(w.sent = true ∧ id ∉ st.closed)) : (st.send w true id).deletedPending ≠ [] := by
  unfold UdpState.send
  rw [if_neg]
  · exact ok.deleteSocket_logged member
  · rw [Bool.and_eq_true, ok.toBase.isOpen_iff member]
    exact failed

theorem delete_grows (st : UdpState) (id : Nat) :
    st.deletedPending <+: (st.delete id).deletedPending := by
  unfold UdpState.delete
  split
  · exact List.prefix_rfl
  · exact List.prefix_append ..

theorem deleteSocket_grows (st : UdpState) (id : Nat) :
    st.deletedPending <+: (st.deleteSocket id).deletedPending := by
  unfold UdpState.deleteSocket
  split
  · unfold UdpState.deleteAt
    split
    · exact List.prefix_rfl
    · exact delete_grows ..
  · exact List.prefix_rfl

theorem addSocket_grows (st : UdpState) (id : Nat) :
    st.deletedPending <+: (st.addSocket id).deletedPending := by
  unfold UdpState.addSocket
  split
  · exact List.prefix_rfl
  · split
    · exact delete_grows ..
    · exact List.prefix_rfl

theorem send_grows (st : UdpState) (w : UdpPacket) (oldSocketFound : Bool) (id : Nat) :
    st.deletedPending <+: (st.send w oldSocketFound id).deletedPending := by
  unfold UdpState.send
  split
  · cases oldSocketFound with
    | true => exact List.prefix_rfl
    | false =>
      rcases bRecfrom_cases st id w.received with ⟨_, taken⟩ | failed
      · rw [taken]
        exact List.prefix_rfl
      · rw [failed]
        exact deleteSocket_grows (st.touch id w.tickCount) id
  · exact deleteSocket_grows ..

theorem openNew_grows (st : UdpState) (w : UdpPacket) :
    st.deletedPending <+: (st.openNew w).deletedPending := by
  unfold UdpState.openNew
  split
  · exact (addSocket_grows (st.newSocket w) st.next).trans (send_grows ..)
  · exact delete_grows (st.newSocket w) st.next

theorem Ok.openNew_logged (ok : st.Ok) (created : w.created = true)
    (full : ¬st.allSockets.length < maxOpenSockets) : (st.openNew w).deletedPending ≠ [] := by
  unfold UdpState.openNew
  rw [if_pos created]
  have inside : 0 < st.allSockets.length := by
    unfold maxOpenSockets at full
    omega
  have first : st.allSockets[0] ∈ st.allSockets := List.getElem_mem inside
  -- The first object is an old one, with its read outstanding.
  have other : st.allSockets[0] ≠ st.next := fun same => ok.toBase.next_new.1 (same ▸ first)
  have overflow : (st.newSocket w).addSocket st.next =
      { (st.newSocket w).delete st.allSockets[0] with
        allSockets := st.allSockets.set 0 st.next } := by
    unfold UdpState.addSocket
    rw [if_neg (show ¬(st.newSocket w).allSockets.length < maxOpenSockets from full)]
    rw [show (st.newSocket w).allSockets[0]? = some st.allSockets[0] from
      List.getElem?_eq_getElem inside]
    rfl
  have object : ((st.newSocket w).objects st.allSockets[0]).isSome := by
    dsimp only [UdpState.newSocket]
    rw [Function.update_of_ne other]
    exact (ok.live _).mp first
  have lost : ((st.newSocket w).addSocket st.next).deletedPending ≠ [] := by
    rw [overflow]
    exact delete_logged object ((ok.reading _).mpr first)
  exact (send_grows ..).ne_nil lost

end UdpState

end BasiliskII.Router
