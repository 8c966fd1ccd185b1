import BasiliskII.Router.ListenerLinks

/-!
# Runs of the slot tables

Every routine keeps the links, and so do runs. What a run must not do is find all slots in use,
fail to get a system socket for a connection that is let in, take the slot of a connection that
has a child but no socket, listen to a second data port, or fail to write without a data port.
-/
namespace BasiliskII.Router

open MutualLinks StepSystem

namespace SlotTables

theorem Ok.free {l : SlotTables} (ok : l.Ok) (t : Fin maxSockets) :
    (l.free t).Ok ∧ ∀ lst, l.Closes (l.free t) lst → (l.lSockets lst).parent = some t := by
  obtain ⟨listening, child⟩ := freeSocket_listening (l.sockets t).begin
  have given_up : (l.turn t none freeSocket).Ok ∧
      ∀ lst, l.Closes (l.turn t none freeSocket) lst → (l.lSockets lst).parent = some t :=
    ok.turn_closing listening child
  exact ⟨given_up.1.free_log t, given_up.2⟩

theorem Ok.forceClose {l : SlotTables} (ok : l.Ok) {t : Fin maxSockets}
    (allowed : (l.sockets t).s ≠ none ∨ (l.sockets t).child = none) :
    (l.turn t none Router.forceClose).Ok ∧
      ∀ lst, l.Closes (l.turn t none Router.forceClose) lst → (l.lSockets lst).parent = some t := by
  by_cases no_socket : (l.sockets t).s = none
  · have taken : Router.forceClose (l.sockets t).begin =
        { (l.sockets t).begin with inUse := false } := if_pos no_socket
    have childless := allowed.resolve_left (not_not.mpr no_socket)
    have quiet : (Router.forceClose (l.sockets t).begin).listening = [] := by
      rw [taken]
      rfl
    have same : (l.turn t none Router.forceClose).lSockets = l.lSockets := turn_quiet quiet
    obtain ⟨kept, nothing_closed⟩ := ok.turn_same same (by rw [taken]; rfl) fun _ => childless
    exact ⟨kept, fun lst closed => (nothing_closed lst closed).elim⟩
  -- With a socket it is freed as any other.
  · have freed : Router.forceClose (l.sockets t).begin = freeSocket (l.sockets t).begin :=
      if_neg no_socket
    obtain ⟨listening, child⟩ := freeSocket_listening (l.sockets t).begin
    exact ok.turn_closing (freed ▸ listening) (freed ▸ child)

theorem Ok.configure {l : SlotTables} (ok : l.Ok) {port : BitVec 16} (some_port : port ≠ 0)
    (iface : BitVec 32) (created : Option Socket) :
    (l.configure port iface created).Ok ∧ ∀ lst, ¬l.Closes (l.configure port iface created) lst := by
  cases next : l.nextListen with
  | none =>
    have unchanged : l.configure port iface created = l := by
      unfold SlotTables.configure ListenTable.allocListenSocket
      rw [next]
    rw [unchanged]
    exact ⟨ok, fun lst => closes_of_same rfl⟩
  | some new =>
    have closed : (l.lSockets new.val).port = 0 := listenLoop_free next
    have slots : (l.configure port iface created).lSockets =
        Function.update l.lSockets new.val ⟨created, port, 0, iface, false, none⟩ := by
      unfold SlotTables.configure ListenTable.allocListenSocket
      rw [next]
      simp only [ListenTable.tcpStartListen, ListenTable.set, Function.update_self,
        Function.update_idem, ne_eq, some_port, not_false_eq_true, if_true]
    have sockets : (l.configure port iface created).sockets = l.sockets := by
      unfold SlotTables.configure
      split <;> rfl
    have freed : (l.configure port iface created).freed = l.freed := by
      unfold SlotTables.configure
      split <;> rfl
    have sets := ok.sets slots (fun _ => rfl) fun has => (has rfl).elim
    have same : Function.update l.parentOf new.val none = l.parentOf :=
      Function.update_eq_self_iff.mpr (ok.parentless new.val closed).symm
    refine ⟨⟨?_, ?_, sets.parentless, sets.in_table, ?_⟩, fun lst closes => ?_⟩
    · rw [childOf_of_same sockets, sets.parents, same]
      exact ok.linked
    · rw [sockets]
      exact ok.childless
    · rw [FreedInside, freed]
      exact ok.freed
    -- The slot that changes had no port to close.
    · have here := sets.closes lst closes
      subst here
      exact closes.1 closed

theorem Ok.free_all {l : SlotTables} (ok : l.Ok) (ts : List (Fin maxSockets)) :
    (ts.foldl (fun l t => l.free t) l).Ok := by
  induction ts generalizing l with
  | nil => exact ok
  | cons t ts ih => exact ih (ok.free t).1

theorem Ok.shutdown {l : SlotTables} (ok : l.Ok) : l.shutdown.Ok := by
  have freed := ok.free_all (List.finRange maxSockets)
  exact ⟨freed.linked, freed.childless, freed.parentless, freed.in_table, freed.freed⟩

/-! ### Steps and runs -/

/-- The event comes to `alloc_socket`. -/
def Allocates (l : SlotTables) : TableEvent → Prop
  | .alloc .. => True
  | .listen _ _ lst (some a) => l.Authorized lst.val a
  | _ => False

def Allows (l : SlotTables) : TableEvent → Prop
  | .alloc .. => l.HasFree
  | .forceClose t => (l.sockets t).s ≠ none ∨ (l.sockets t).child = none
  | .send env p t _ => l.Writes env p t
  | .listen _ _ lst (some a) => l.Admits lst.val a
  | _ => True

/-- What may close a listening slot: its parent, its event in once mode, and the end. -/
def MayClose (l : SlotTables) (lst : Nat) : TableEvent → Prop
  | .free t | .forceClose t | .send _ _ t _ => (l.lSockets lst).parent = some t
  | .listen _ _ lst' _ => lst = lst'.val ∧ (l.lSockets lst).once = true
  | .shutdown => True
  | .alloc .. | .configure .. => False

structure StepRight (l : SlotTables) (e : TableEvent) (l' : SlotTables) : Prop where
  alloc : l.Allocates e → l.AllocRight
  freed : l'.FreedInside
  linked : Linked l'.childOf l'.parentOf
  closes : ∀ lst, l.Closes l' lst → l.MayClose lst e

theorem Ok.right {l l' : SlotTables} {e : TableEvent} (ok : l'.Ok)
    (alloc : l.Allocates e → l.HasFree) (closes : ∀ lst, l.Closes l' lst → l.MayClose lst e) :
    l'.Ok ∧ l.StepRight e l' :=
  ⟨ok, fun allocates => l.allocRight_iff.mpr (alloc allocates), ok.freed, ok.linked, closes⟩

theorem Ok.step {l l' : SlotTables} (ok : l.Ok) {e : TableEvent} (allowed : l.Allows e)
    (step : tableStep l e = some l') : l'.Ok ∧ l.StepRight e l' := by
  cases e with
  | alloc created bound srcPort destPort ipDest =>
    obtain ⟨kept, slots, _⟩ := ok.allocNewSocket allowed created bound srcPort destPort ipDest
    obtain rfl := Option.some.inj step
    exact kept.right (fun _ => allowed) fun lst closed =>
      (closes_of_same (congrFun slots lst) closed).elim
  | free t =>
    obtain ⟨kept, closes⟩ := ok.free t
    obtain rfl := Option.some.inj step
    exact kept.right (fun nothing => nothing.elim) closes
  | forceClose t =>
    obtain ⟨kept, closes⟩ := ok.forceClose allowed
    obtain rfl := Option.some.inj step
    -- Only `free_socket` logs the number of the slot.
    dsimp only
    split
    · exact kept.right (fun nothing => nothing.elim) closes
    · exact (kept.free_log t).right (fun nothing => nothing.elim) closes
  | send env p t created =>
    dsimp only [tableStep] at step
    split at step
    next used =>
      obtain ⟨kept, closes⟩ := ok.send allowed used created
      obtain rfl := Option.some.inj step
      exact kept.right (fun nothing => nothing.elim) closes
    next => cases step
  | listen env macosIpAddress lst attempt =>
    dsimp only [tableStep] at step
    have admits : ∀ a, attempt = some a → l.Admits lst.val a := by
      rintro a rfl
      exact allowed
    split at step
    next => cases step
    next =>
      obtain ⟨kept, closes⟩ := ok.listenEvent admits env macosIpAddress
      obtain rfl := Option.some.inj step
      refine kept.right ?_ fun other closed => ?_
      · cases attempt with
        | none => exact fun nothing => nothing.elim
        | some a => exact fun authorized => (admits a rfl authorized).1
      · obtain ⟨rfl, once⟩ := closes other closed
        exact ⟨rfl, once⟩
  | configure port iface created =>
    dsimp only [tableStep] at step
    split at step
    next some_port =>
      obtain ⟨kept, nothing_closed⟩ := ok.configure some_port iface created
      obtain rfl := Option.some.inj step
      exact kept.right (fun nothing => nothing.elim) fun lst closed => (nothing_closed lst closed).elim
    next => cases step
  | shutdown =>
    obtain rfl := Option.some.inj step
    exact ok.shutdown.right (fun nothing => nothing.elim) fun _ _ => trivial

theorem initTables_ok : initTables.Ok :=
  ⟨linked_none, fun _ _ => rfl, fun _ _ => rfl, fun _ has => (has rfl).elim,
    fun _ member => (List.not_mem_nil member).elim⟩

/-- In every run with free slots, system sockets, one data port a connection and no failing writes
without one, all is as it should be, and every further step of this kind keeps it so. -/
theorem slot_tables_right {l : SlotTables} {events : List TableEvent}
    (run : Run tableStep Allows initTables events l) :
    Linked l.childOf l.parentOf ∧ l.FreedInside ∧
      ∀ e l', l.Allows e → tableStep l e = some l' → l.StepRight e l' := by
  have ok : l.Ok :=
    run.invariant (fun _ _ _ ok allowed step => (ok.step allowed step).1) initTables_ok
  exact ⟨ok.linked, ok.freed, fun e l' allowed step => (ok.step allowed step).2⟩

/-! A connection with a data port, and one whose write fails. -/

def connect : TableEvent := .alloc (some 7) true 1024 21 0x0a000001

def connected (l : SlotTables) : SlotTables :=
  (l.allocNewSocket (some 7) true 1024 21 0x0a000001).2

/-- The first packet of a new connection, as its slot expects it. -/
def firstData : TcpPacket where
  ttl := 64
  ipSrc := 0
  ipDest := 0x0a000001
  srcPort := 1024
  destPort := 21
  seq := 0
  ack := 0
  flags := tcpFlagsAck
  window := 1460
  mss := 0
  data := [0]

def dataPort : Env := { quietEnv with ftpDataPort := 2000 }

theorem data_port_right :
    Linked ((initTables.connected.send dataPort firstData 0 (some 8)).childOf)
        ((initTables.connected.send dataPort firstData 0 (some 8)).parentOf) ∧
      (initTables.connected.send dataPort firstData 0 (some 8)).childOf 0 = some 0 := by
  have childless : initTables.connected.Allows (.send dataPort firstData 0 (some 8)) :=
    fun _ => .inl rfl
  have run : Run tableStep Allows initTables [connect, .send dataPort firstData 0 (some 8)]
      (initTables.connected.send dataPort firstData 0 (some 8)) :=
    .next ⟨0, rfl⟩ rfl (.next childless rfl (.done _))
  exact ⟨(slot_tables_right run).1, rfl⟩

/-- The router listens to ports 21 and 80. -/
def listening : SlotTables := (initTables.configure 21 0 (some 5)).configure 80 0 (some 6)

/-- A write that fails closes port 80. -/
theorem failed_write_closes_first_slot :
    ¬∀ events l, Run tableStep Free initTables events l →
      ∀ e l', tableStep l e = some l' → l.StepRight e l' := by
  intro claim
  have run : Run tableStep Free initTables
      [.configure 21 0 (some 5), .configure 80 0 (some 6), connect] listening.connected :=
    .next trivial rfl (.next trivial rfl (.next trivial rfl (.done _)))
  have right := claim _ _ run (.send { quietEnv with send := .failed } firstData 0 none) _ rfl
  have closed : (listening.connected).Closes
      (listening.connected.send { quietEnv with send := .failed } firstData 0 none) 1 :=
    ⟨by decide, .inl rfl⟩
  have own : (listening.connected.lSockets 1).parent = some 0 := right.closes 1 closed
  cases own

end SlotTables

end BasiliskII.Router
