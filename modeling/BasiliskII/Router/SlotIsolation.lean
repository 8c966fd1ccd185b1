import BasiliskII.Router.Slots
import BasiliskII.Router.TcpFrame

/-!
# Connections in slots

A slot that is given out anew must have no read or write under way, and a packet
of the Mac must not come upon the slot of another connection. Then no late
completion gets at a later connection, and connections keep apart.
-/
namespace BasiliskII.Router

open StepSystem

/-- The next slot is free, and nothing that an earlier connection has started is under way. -/
def TcpRouter.Fresh (r : TcpRouter) : Prop :=
  r.nextSlot.2 = true ∧ ∀ op ∈ r.io, op.slot ≠ r.nextSlot.1

instance (r : TcpRouter) : Decidable r.Fresh := inferInstanceAs (Decidable (_ ∧ _))

/-- The slot with the ports of the packet has its remote address. If there is none, no slot has its
Mac port, and the next slot is fresh. -/
def TcpRouter.Distinguishes (r : TcpRouter) (p : TcpPacket) : Prop :=
  match r.getSocketIndex p.srcPort p.destPort with
  | some i => (r.sockets i).ipDest = p.ipDest
  | none => r.getSocketIndexOfPort p.srcPort = none ∧ r.Fresh

instance (r : TcpRouter) (p : TcpPacket) : Decidable (r.Distinguishes p) := by
  unfold TcpRouter.Distinguishes
  split <;> infer_instance

def TcpRouter.Allows (r : TcpRouter) : RouterEvent → Prop
  | .packet _ _ _ p => r.Distinguishes p
  | .accept .. => r.Fresh
  | _ => True

-- A late completion on a free slot.

theorem late_read (env : Env) {x : TcpSocket} (error : BitVec 32) (data : List (BitVec 8))
    (free : x.inUse = false) : (slotEvent env x (.read error data)).effects = [] := by
  simp [slotEvent, tcpReadCompletion, TcpSocket.begin, free]

theorem late_write (env : Env) {x : TcpSocket} (bytesWritten : BitVec 32)
    (free : x.inUse = false) : (slotEvent env x (.write bytesWritten)).effects = [] := by
  simp [slotEvent, tcpWriteCompletion, TcpSocket.begin, free]

theorem read_error_effects (env : Env) {x : TcpSocket} {error : BitVec 32}
    {data : List (BitVec 8)} (used : x.inUse = true) (failed : error ≠ 0) :
    (slotEvent env x (.read error data)).effects ≠ [] := by
  have reset : ∃ y, slotEvent env x (.read error data) = freeSocket (tcpReply tcpFlagsRst y) := by
    unfold slotEvent tcpReadCompletion
    dsimp only
    rw [if_neg (by simp [TcpSocket.begin, used]), if_pos failed]
    exact ⟨_, rfl⟩
  obtain ⟨y, freed⟩ := reset
  rw [freed]
  exact List.ne_nil_of_mem
    (freeSocket_effects _ _ (List.mem_append_right _ (List.mem_singleton_self _)))

/-- What is under way on a slot in use has been started by the connection that has it. -/
def TcpRouter.OwnIo (r : TcpRouter) : Prop :=
  ∀ op ∈ r.io, (r.sockets op.slot).inUse = true → op.connection = r.connection op.slot

section Act

variable (r : TcpRouter) (env : Env) (t : Fin maxSockets) (event : SlotEvent)

theorem TcpRouter.act_self :
    (r.act env t event).1.sockets t = (slotEvent env (r.sockets t) event).toTcpSocket :=
  Function.update_self ..

theorem TcpRouter.act_other {u : Fin maxSockets} (other : u ≠ t) :
    (r.act env t event).1.sockets u = r.sockets u := Function.update_of_ne other ..

theorem TcpRouter.act_effects {u : Fin maxSockets} {e : Effect}
    (done : (u, e) ∈ (r.act env t event).2) : u = t := by
  obtain ⟨_, _, same⟩ := List.mem_map.mp done
  exact (Prod.mk.inj same).1.symm

/-- What an event of a slot starts is under way for the connection the slot has. -/
theorem TcpRouter.act_io {op : Io} (started : op ∈ (r.act env t event).1.io) :
    op ∈ r.io ∨ op.slot = t ∧ op.connection = r.connection t := by
  rcases List.mem_append.mp started with before | now
  · exact .inl before
  · obtain ⟨e, _, post⟩ := List.mem_filterMap.mp now
    refine .inr ?_
    unfold posted at post
    split at post
    · cases post
      exact ⟨rfl, rfl⟩
    · cases post
      exact ⟨rfl, rfl⟩
    · cases post

variable {r env t event}

theorem TcpRouter.OwnIo.act (own : r.OwnIo)
    (fresh : event.IsCreate → ∀ op ∈ r.io, op.slot ≠ t) : (r.act env t event).1.OwnIo := by
  intro op started used
  have connection : (r.act env t event).1.connection = r.connection := rfl
  rw [connection]
  rcases r.act_io env t event started with before | ⟨slot, now⟩
  · refine own op before ?_
    by_cases here : op.slot = t
    · have other : ¬event.IsCreate := fun create => fresh create op before here
      rw [here] at used ⊢
      rw [r.act_self env t event] at used
      exact slotEvent_inUse other used
    · rwa [r.act_other env t event here] at used
  · rw [slot]
    exact now

end Act

section Steps

variable {r : TcpRouter}

theorem TcpRouter.OwnIo.alloc (own : r.OwnIo) (fresh : r.Fresh) (env : Env)
    (created : Option Socket) (bound : Bool) (srcPort destPort : BitVec 16) (ipDest : BitVec 32) :
    (r.alloc env created bound srcPort destPort ipDest).1.OwnIo := by
  obtain ⟨free, idle⟩ := fresh
  unfold TcpRouter.alloc
  dsimp only
  rw [if_pos free]
  refine TcpRouter.OwnIo.act ?_ fun _ => idle
  -- The connection is a new one in a slot with nothing under way.
  intro op before used
  dsimp only
  rw [Function.update_of_ne (idle op before)]
  exact own op before used

theorem TcpRouter.OwnIo.writeTcp (own : r.OwnIo) {p : TcpPacket} (allowed : r.Distinguishes p)
    (env : Env) (created : Option Socket) (bound : Bool) :
    (r.writeTcp env created bound p).1.OwnIo := by
  unfold TcpRouter.Distinguishes at allowed
  unfold TcpRouter.writeTcp TcpRouter.findSocket
  cases found : r.getSocketIndex p.srcPort p.destPort with
  | some i => exact own.act False.elim
  | none =>
    rw [found] at allowed
    rw [allowed.1]
    have opened := own.alloc allowed.2 env created bound p.srcPort p.destPort p.ipDest
    dsimp only
    split
    · exact opened.act False.elim
    · exact opened

theorem TcpRouter.OwnIo.timeouts (envs : Fin maxSockets → Env) (ts : List (Fin maxSockets))
    (own : r.OwnIo) : (TcpRouter.timeouts envs ts r).1.OwnIo := by
  induction ts generalizing r with
  | nil => exact own
  | cons t ts ih => exact ih (own.act False.elim)

theorem TcpRouter.OwnIo.erase (own : r.OwnIo) (op : Io) :
    TcpRouter.OwnIo { r with io := r.io.erase op } :=
  fun other before used => own other (List.mem_of_mem_erase before) used

theorem TcpRouter.OwnIo.step (own : r.OwnIo) {event : RouterEvent} {after : TcpRouter}
    (allowed : r.Allows event) (step : routerStep r event = some after) : after.OwnIo := by
  obtain ⟨⟨_, effects⟩, done, same⟩ := Option.map_eq_some_iff.mp step
  cases same
  cases event with
  | packet env created bound p =>
    have same := congrArg Prod.fst (Option.some.inj done)
    exact same ▸ own.writeTcp allowed env created bound
  | accept env created bound s macosIpAddress srcPort destPort ipDest =>
    obtain ⟨t, _, same⟩ := Option.map_eq_some_iff.mp done
    cases same
    exact (own.alloc allowed env created bound srcPort destPort ipDest).act False.elim
  | read env op error data =>
    simp only [TcpRouter.event] at done
    split at done
    · cases done
      exact (own.erase op).act False.elim
    · cases done
  | write env op bytesWritten =>
    simp only [TcpRouter.event] at done
    split at done
    · cases done
      exact (own.erase op).act False.elim
    · cases done
  | network env t what =>
    cases done
    exact own.act False.elim
  | timeouts envs =>
    have same := congrArg Prod.fst (Option.some.inj done)
    exact same ▸ own.timeouts envs (List.finRange maxSockets)

end Steps

-- A packet keeps to the slot of its connection.

theorem freeSocket_key (x : Turn) : (freeSocket x).key = x.key := by
  unfold freeSocket
  dsimp only
  split <;> split <;> rfl

theorem takeFin_key (x : Turn) : (takeFin x).key = x.key := by
  unfold takeFin
  dsimp only
  split <;> rfl

theorem stateMachine_key (env : Env) {p : TcpPacket} {x : Turn}
    (own : x.state = .closed ∨ x.key = p.key) : (stateMachine env p x).1.key = p.key := by
  unfold stateMachine startTimeWait
  cases state : x.state <;> dsimp only
  case closed =>
    split
    · rfl
    · exact freeSocket_key _
  all_goals
    have kept : x.key = p.key := own.resolve_left (by rw [state]; decide)
    clear own
    repeat' split
    all_goals first
      | exact kept
      | exact (freeSocket_key x).trans kept
      | exact (takeFin_key x).trans kept

theorem writeTcp_key (env : Env) {p : TcpPacket} {x : Turn}
    (own : x.state = .closed ∨ x.key = p.key) (used : (writeTcp env p x).inUse = true) :
    (writeTcp env p x).key = p.key := by
  by_cases reset : isSet p.flags tcpFlagsRst
  · rw [writeTcp, if_pos reset, freeSocket_inUse] at used
    cases used
  · have heard := hearMac_keepsState p x
    have same : (hearMac p x).1.state = .closed ∨ (hearMac p x).1.key = p.key := by
      rw [heard.state, heard.key]
      exact own
    exact (writeTcp_keepsState env x reset).key.trans (stateMachine_key env same)

theorem allocLoop_free {sockets : Fin maxSockets → TcpSocket} {n : Nat} {i : Fin maxSockets}
    (free : (allocLoop sockets n i).2 = true) :
    (sockets (allocLoop sockets n i).1).inUse = false := by
  induction n generalizing i with
  | zero => cases free
  | succ n ih =>
    unfold allocLoop at free ⊢
    split
    next found => simpa using found
    next used =>
      rw [if_neg used] at free
      exact ih free

/-- Only slot `t` is changed, and nothing is done for another. -/
structure TcpRouter.Touches (r : TcpRouter) (t : Fin maxSockets) (after : TcpRouter)
    (effects : Effects) : Prop where
  others : ∀ u, u ≠ t → after.sockets u = r.sockets u
  own : ∀ u e, (u, e) ∈ effects → u = t

theorem TcpRouter.touches_act (r : TcpRouter) (env : Env) (t : Fin maxSockets)
    (event : SlotEvent) : r.Touches t (r.act env t event).1 (r.act env t event).2 :=
  ⟨fun _ other => r.act_other env t event other, fun _ _ done => r.act_effects env t event done⟩

theorem TcpRouter.Touches.append {r s after : TcpRouter} {t : Fin maxSockets} {first second : Effects}
    (one : r.Touches t s first) (two : s.Touches t after second) :
    r.Touches t after (first ++ second) where
  others u other := (two.others u other).trans (one.others u other)
  own u e done := (List.mem_append.mp done).elim (one.own u e) (two.own u e)

section Alloc

variable (r : TcpRouter) (env : Env) (created : Option Socket) (bound : Bool)
  (srcPort destPort : BitVec 16) (ipDest : BitVec 32)

theorem TcpRouter.touches_alloc :
    r.Touches r.nextSlot.1 (r.alloc env created bound srcPort destPort ipDest).1
      (r.alloc env created bound srcPort destPort ipDest).2.1 := by
  have created_slot := fun s : TcpRouter =>
    s.touches_act env r.nextSlot.1 (.create created bound srcPort destPort ipDest)
  unfold TcpRouter.alloc
  dsimp only
  split
  · exact ⟨(created_slot _).others, (created_slot _).own⟩
  · exact created_slot r

theorem TcpRouter.alloc_slot :
    (r.alloc env created bound srcPort destPort ipDest).2.2 =
      if created.isSome && bound then some r.nextSlot.1 else none := rfl

theorem TcpRouter.alloc_self :
    (r.alloc env created bound srcPort destPort ipDest).1.sockets r.nextSlot.1 =
      (slotEvent env (r.sockets r.nextSlot.1)
        (.create created bound srcPort destPort ipDest)).toTcpSocket := by
  unfold TcpRouter.alloc
  dsimp only
  split
  · exact TcpRouter.act_self ..
  · exact TcpRouter.act_self ..

end Alloc

theorem TcpRouter.getSocketIndex_some {r : TcpRouter} {srcPort destPort : BitVec 16}
    {i : Fin maxSockets} (found : r.getSocketIndex srcPort destPort = some i) :
    (r.sockets i).srcPort = srcPort ∧ (r.sockets i).destPort = destPort := by
  have here := List.find?_some found
  simp only [Bool.and_eq_true, decide_eq_true_iff] at here
  exact ⟨here.1.2, here.2⟩

/-- The one slot a packet is let to is free or has the connection of the packet, and keeps it. -/
theorem TcpRouter.writeTcp_touches {r : TcpRouter} {p : TcpPacket} (allowed : r.Distinguishes p)
    (env : Env) (created : Option Socket) (bound : Bool) :
    ∃ t, r.Touches t (r.writeTcp env created bound p).1 (r.writeTcp env created bound p).2 ∧
      ((r.sockets t).inUse = true → (r.sockets t).key = p.key) ∧
      (((r.writeTcp env created bound p).1.sockets t).inUse = true →
        ((r.writeTcp env created bound p).1.sockets t).key = p.key) := by
  unfold TcpRouter.Distinguishes at allowed
  unfold TcpRouter.writeTcp TcpRouter.findSocket
  cases found : r.getSocketIndex p.srcPort p.destPort with
  | some i =>
    rw [found] at allowed
    obtain ⟨src, dest⟩ := TcpRouter.getSocketIndex_some found
    have own : (r.sockets i).key = p.key := by
      rw [TcpSocket.key, src, dest, allowed, TcpPacket.key]
    refine ⟨i, r.touches_act env i (.packet p), fun _ => own, fun used => ?_⟩
    dsimp only at used ⊢
    rw [r.act_self] at used ⊢
    exact writeTcp_key env (.inr own) used
  | none =>
    rw [found] at allowed
    obtain ⟨unknown, free, _⟩ := allowed
    rw [unknown]
    have idle := allocLoop_free free
    have opened := r.touches_alloc env created bound p.srcPort p.destPort p.ipDest
    have slot := create_spec env idle created bound p.srcPort p.destPort p.ipDest
    have self := r.alloc_self env created bound p.srcPort p.destPort p.ipDest
    refine ⟨r.nextSlot.1, ?_⟩
    dsimp only
    rw [r.alloc_slot]
    by_cases kept : (created.isSome && bound) = true
    · rw [if_pos kept] at slot ⊢
      dsimp only
      refine ⟨opened.append (TcpRouter.touches_act ..), fun used => ?_, fun used => ?_⟩
      · exact absurd (idle.symm.trans used) Bool.false_ne_true
      · rw [TcpRouter.act_self] at used ⊢
        refine writeTcp_key env (.inl ?_) used
        exact (congrArg TcpSocket.state self).trans slot
    · rw [if_neg kept] at slot ⊢
      dsimp only
      refine ⟨?_, fun used => ?_, fun used => ?_⟩
      · rw [List.nil_append]
        exact opened
      · exact absurd (idle.symm.trans used) Bool.false_ne_true
      · rw [self] at used
        exact absurd (slot.symm.trans used) Bool.false_ne_true

theorem TcpRouter.accept_touches {r after : TcpRouter} {effects : Effects} (fresh : r.Fresh)
    {env : Env} {created : Option Socket} {bound : Bool} {s : Socket}
    {macosIpAddress : BitVec 32} {srcPort destPort : BitVec 16} {ipDest : BitVec 32}
    (done : r.accept env created bound s macosIpAddress srcPort destPort ipDest =
      some (after, effects)) :
    r.Touches r.nextSlot.1 after effects ∧ (r.sockets r.nextSlot.1).inUse = false ∧
      (after.sockets r.nextSlot.1).key = ⟨srcPort, ipDest, destPort⟩ := by
  unfold TcpRouter.accept at done
  dsimp only at done
  rw [r.alloc_slot] at done
  split at done
  · obtain ⟨rfl, rfl⟩ := Prod.mk.inj (Option.some.inj done)
    refine ⟨(r.touches_alloc ..).append (TcpRouter.touches_act ..), allocLoop_free fresh.1, ?_⟩
    rw [TcpRouter.act_self]
    rfl
  · cases done

/-- A late completion: an earlier connection of the slot has started the operation. -/
def TcpRouter.Late (r : TcpRouter) (op : Io) : Prop :=
  op ∈ r.io ∧ op.connection ≠ r.connection op.slot

/-- Nothing is done, and no slot in use changes. -/
def TcpRouter.Ignores (r : TcpRouter) (event : RouterEvent) : Prop :=
  ∀ after effects, r.event event = some (after, effects) →
    effects = [] ∧ ∀ t, (r.sockets t).inUse = true → after.sockets t = r.sockets t

/-- An event of connection `k` leaves the slots of other connections alone, and the slots it does
change are free afterwards or those of `k`. -/
def TcpRouter.KeepsApart (r : TcpRouter) (k : ConnectionKey) (event : RouterEvent) : Prop :=
  ∀ after effects, r.event event = some (after, effects) →
    (∀ t, (r.sockets t).inUse = true → (r.sockets t).key ≠ k →
      after.sockets t = r.sockets t ∧ ∀ e, (t, e) ∉ effects) ∧
    ∀ t, (after.sockets t).inUse = true → after.sockets t ≠ r.sockets t →
      (after.sockets t).key = k

theorem TcpRouter.act_ignored {r : TcpRouter} {env : Env} {t : Fin maxSockets} {event : SlotEvent}
    (free : (r.sockets t).inUse = false)
    (silent : (slotEvent env (r.sockets t) event).effects = []) :
    (r.act env t event).2 = [] ∧
      ∀ u, (r.sockets u).inUse = true → (r.act env t event).1.sockets u = r.sockets u := by
  constructor
  · rw [TcpRouter.act, silent]
    rfl
  · intro u used
    refine r.act_other env t event ?_
    rintro rfl
    exact Bool.false_ne_true (free.symm.trans used)

theorem TcpRouter.Late.free {r : TcpRouter} {op : Io} (late : r.Late op) (own : r.OwnIo) :
    (r.sockets op.slot).inUse = false := by
  by_contra used
  exact late.2 (own op late.1 (by simpa using used))

def macPacket (remote : BitVec 32) (flags : BitVec 8) (ack : BitVec 32) : TcpPacket where
  ttl := 64
  ipSrc := 0xC0A80002
  ipDest := remote
  srcPort := 2000
  destPort := 80
  seq := 7
  ack := ack
  flags := flags
  window := 1460
  mss := 0
  data := []

def synOut (remote : BitVec 32) : RouterEvent :=
  .packet quietEnv (some 1) true (macPacket remote tcpFlagsSyn 0)

/-- The read of the first connection of slot 0. -/
def firstRead : Io := ⟨0, 1, false⟩

/-- A connection is reset while its read is under way, other packets use up the slots, and the next
connection gets the slot. -/
def reuseEvents : List RouterEvent :=
  [synOut 1, .network quietEnv 0 (.connect false),
    .packet quietEnv none false (macPacket 1 tcpFlagsAck 2),
    .packet quietEnv none false (macPacket 1 tcpFlagsRst 2)] ++
  List.replicate 63 (.packet quietEnv (some 2) true (macPacket 3 tcpFlagsAck 0)) ++
  [synOut 2]

end BasiliskII.Router
