import BasiliskII.Library.MutualLinks
import BasiliskII.Router.Listeners
import BasiliskII.Router.SlotIsolation

/-!
# Links between connections and listening slots

Slots in use are not given out, `free_socket` gets numbers of slots, children and parents point at
each other, and only a parent closes its listening slot, as long as there is a free slot and
a system socket for every connection, a connection asks for one data port at a time, and no write
fails that has no listening slot of its own.
-/
namespace BasiliskII.Router

open MutualLinks StepSystem

/-! ### What a routine does to the listening slots -/

def isListening : Effect → Bool
  | .closeListening _ | .dropListening _ | .allocListening .. => true
  | _ => false

def Turn.listening (x : Turn) : List Effect := x.effects.filter isListening

theorem foldl_perform_filter (t : Fin maxSockets) (created : Option Socket) (l : ListenTable)
    (effects : List Effect) :
    effects.foldl (ListenTable.perform t created) l =
      (effects.filter isListening).foldl (ListenTable.perform t created) l := by
  induction effects generalizing l with
  | nil => rfl
  | cons e effects ih =>
    -- What is left out leaves the table as it is.
    rw [List.foldl_cons, ih]
    cases e <;> rfl

theorem SlotTables.turn_table (l : SlotTables) (t : Fin maxSockets) (created : Option Socket)
    (f : Turn → Turn) : (l.turn t created f).toListenTable =
      (f (l.sockets t).begin).listening.foldl (ListenTable.perform t created) l.toListenTable :=
  foldl_perform_filter ..

/-- What `free_socket` does for the child of a connection. -/
def closing : Option Nat → List Effect
  | some lst => [.closeListening lst]
  | none => []

theorem freeSocket_listening (x : Turn) :
    (freeSocket x).listening = x.listening ++ closing x.child ∧ (freeSocket x).child = none := by
  unfold freeSocket
  cases s : x.s <;> cases child : x.child <;>
    simp [Turn.listening, Turn.emit, closing, isListening, child]

theorem tcpAcceptCallback_listening (env : Env) (s : Socket) (macosIpAddress : BitVec 32)
    (srcPort destPort : BitVec 16) (ipDest : BitVec 32) (x : Turn) :
    (tcpAcceptCallback env s macosIpAddress srcPort destPort ipDest x).listening = x.listening ∧
      (tcpAcceptCallback env s macosIpAddress srcPort destPort ipDest x).child = x.child := by
  refine ⟨?_, rfl⟩
  simp [tcpAcceptCallback, tcpReply, Turn.listening, Turn.emit, isListening]

/-- What data does to the listening slots, and the child it leaves. -/
def dataListening (env : Env) (x : TcpSocket) : List Effect × Option Nat :=
  let alloc := Effect.allocListening env.ftpDataPort x.ipDest
  if env.ftpDataPort = 0 then
    if env.send = .failed then ([.dropListening 1], none) else ([], x.child)
  else
    match env.listenSlot with
    | none => ([alloc], x.child)
    | some lst =>
      if env.send = .failed then ([alloc, .dropListening lst], none) else ([alloc], some lst)

theorem takeData_listening (env : Env) {p : TcpPacket} {x : Turn} (expected : x.seqIn = p.seq) :
    (takeData env p x).listening = x.listening ++ (dataListening env x.toTcpSocket).1 ∧
      (takeData env p x).child = (dataListening env x.toTcpSocket).2 := by
  unfold takeData ftpPatch dataListening
  rw [if_neg (not_not.mpr expected)]
  -- Only a PORT command in the data asks for a listening slot.
  by_cases plain : env.ftpDataPort = 0
  · simp only [if_pos plain]
    cases sent : env.send <;>
      simp [sent, bSend, bufferData, Turn.listening, Turn.emit, isListening]
  · simp only [if_neg plain]
    cases slot : env.listenSlot <;> cases sent : env.send <;>
      simp [sent, bSend, bufferData, Turn.listening, Turn.emit, isListening, List.filter_cons]

theorem takeData_inUse (env : Env) (p : TcpPacket) (x : Turn) :
    (takeData env p x).inUse = x.inUse := (takeData_keepsState env p x).inUse

theorem takeData_unexpected (env : Env) {p : TcpPacket} {x : Turn} (other : x.seqIn ≠ p.seq) :
    takeData env p x = x := if_pos other

/-! ### What holds of the tables -/

namespace SlotTables

def childOf (l : SlotTables) (t : Fin maxSockets) : Option Nat := (l.sockets t).child

def parentOf (l : SlotTables) (lst : Nat) : Option (Fin maxSockets) := (l.lSockets lst).parent

theorem childOf_of_same {l l' : SlotTables} (same : l'.sockets = l.sockets) :
    l'.childOf = l.childOf := by
  funext t
  rw [childOf, same, childOf]

def FreedInside (l : SlotTables) : Prop := ∀ n ∈ l.freed, 0 ≤ n ∧ n < maxSockets

structure Ok (l : SlotTables) : Prop where
  linked : Linked l.childOf l.parentOf
  childless : ∀ t, (l.sockets t).inUse = false → (l.sockets t).child = none
  parentless : ∀ lst, (l.lSockets lst).port = 0 → (l.lSockets lst).parent = none
  in_table : ∀ lst, (l.lSockets lst).parent ≠ none → lst < maxSockets
  freed : l.FreedInside

/-- A listening slot is given up, or its socket is closed. -/
def Closes (l l' : SlotTables) (lst : Nat) : Prop :=
  (l.lSockets lst).port ≠ 0 ∧
    ((l'.lSockets lst).port = 0 ∨ (l.lSockets lst).s.isSome ∧ (l'.lSockets lst).s = none)

theorem closes_of_same {l l' : SlotTables} {lst : Nat} (same : l'.lSockets lst = l.lSockets lst) :
    ¬l.Closes l' lst := by
  rintro ⟨open_port, shut | ⟨some_socket, no_socket⟩⟩
  · rw [same] at shut
    exact open_port shut
  · rw [← same, no_socket] at some_socket
    cases some_socket

/-- What follows from changing no more than one listening slot. -/
structure Sets (l l' : SlotTables) (lst : Nat) (x : ListeningSocket) : Prop where
  parents : l'.parentOf = Function.update l.parentOf lst x.parent
  parentless : ∀ other, (l'.lSockets other).port = 0 → (l'.lSockets other).parent = none
  in_table : ∀ other, (l'.lSockets other).parent ≠ none → other < maxSockets
  closes : ∀ other, l.Closes l' other → other = lst

theorem Ok.sets {l l' : SlotTables} (ok : l.Ok) {lst : Nat} {x : ListeningSocket}
    (slots : l'.lSockets = Function.update l.lSockets lst x) (closed : x.port = 0 → x.parent = none)
    (inside : x.parent ≠ none → lst < maxSockets) : Sets l l' lst x where
  parents := by
    funext other
    by_cases here : other = lst
    · rw [here, Function.update_self, parentOf, slots, Function.update_self]
    · rw [Function.update_of_ne here, parentOf, slots, Function.update_of_ne here, parentOf]
  parentless other := by
    rw [slots, Function.update_apply]
    split
    · exact closed
    · exact ok.parentless other
  in_table other := by
    rw [slots, Function.update_apply]
    split
    next here => exact here ▸ inside
    next => exact ok.in_table other
  closes other closes := by
    by_contra elsewhere
    exact closes_of_same (by rw [slots, Function.update_of_ne elsewhere]) closes

theorem Ok.sets_nothing {l l' : SlotTables} (ok : l.Ok) (slots : l'.lSockets = l.lSockets) :
    l'.parentOf = l.parentOf ∧
      (∀ lst, (l'.lSockets lst).port = 0 → (l'.lSockets lst).parent = none) ∧
      (∀ lst, (l'.lSockets lst).parent ≠ none → lst < maxSockets) ∧ ∀ lst, ¬l.Closes l' lst := by
  refine ⟨?_, ?_, ?_, fun lst => closes_of_same (by rw [slots])⟩
  · funext lst
    rw [parentOf, slots, parentOf]
  · rw [slots]
    exact ok.parentless
  · rw [slots]
    exact ok.in_table

variable {l : SlotTables} {t : Fin maxSockets} {created : Option Socket} {f : Turn → Turn}

theorem turn_self : (l.turn t created f).sockets t = (f (l.sockets t).begin).toTcpSocket :=
  Function.update_self ..

theorem turn_other {u : Fin maxSockets} (other : u ≠ t) :
    (l.turn t created f).sockets u = l.sockets u := Function.update_of_ne other ..

theorem turn_childOf : (l.turn t created f).childOf =
    Function.update l.childOf t (f (l.sockets t).begin).child := by
  funext u
  by_cases here : u = t
  · rw [here, Function.update_self, childOf, turn_self]
  · rw [Function.update_of_ne here, childOf, turn_other here, childOf]

theorem turn_quiet (quiet : (f (l.sockets t).begin).listening = []) :
    (l.turn t created f).lSockets = l.lSockets := by
  rw [turn_table, quiet]
  rfl

theorem Ok.turn_childless (ok : l.Ok)
    (used : (f (l.sockets t).begin).inUse = false → (f (l.sockets t).begin).child = none) :
    ∀ u, ((l.turn t created f).sockets u).inUse = false →
      ((l.turn t created f).sockets u).child = none := by
  intro u free
  by_cases here : u = t
  · subst here
    rw [turn_self] at free ⊢
    exact used free
  · rw [turn_other here] at free ⊢
    exact ok.childless u free

theorem Ok.turn_same (ok : l.Ok) (slots : (l.turn t created f).lSockets = l.lSockets)
    (child : (f (l.sockets t).begin).child = (l.sockets t).child)
    (used : (f (l.sockets t).begin).inUse = false → (l.sockets t).child = none) :
    (l.turn t created f).Ok ∧ ∀ lst, ¬l.Closes (l.turn t created f) lst := by
  obtain ⟨parents, parentless, in_table, closes⟩ := ok.sets_nothing slots
  have children : (l.turn t created f).childOf = l.childOf := by
    rw [turn_childOf, child]
    exact Function.update_eq_self ..
  refine ⟨⟨?_, ok.turn_childless (child.symm ▸ used), parentless, in_table, ok.freed⟩, closes⟩
  rw [children, parents]
  exact ok.linked

/-- A routine that changes a slot without parent, or the child's, and leaves no child. -/
theorem Ok.turn_cut (ok : l.Ok) {lst : Nat} {x : ListeningSocket}
    (table : (l.turn t created f).lSockets = Function.update l.lSockets lst x)
    (orphan : x.parent = none) (child : (f (l.sockets t).begin).child = none)
    (own : (l.sockets t).child = some lst ∨
      (l.sockets t).child = none ∧ (l.lSockets lst).parent = none) :
    Sets l (l.turn t created f) lst x ∧ (l.turn t created f).Ok := by
  have sets := ok.sets table (fun _ => orphan) fun has => (has orphan).elim
  refine ⟨sets, ?_, ok.turn_childless fun _ => child, sets.parentless, sets.in_table, ok.freed⟩
  rw [turn_childOf, child, sets.parents, orphan]
  -- Either the child is cut off, or there is no link to cut.
  rcases own with tied | ⟨no_child, no_parent⟩
  · exact ok.linked.cut tied
  · have same : Function.update l.parentOf lst none = l.parentOf :=
      Function.update_eq_self_iff.mpr no_parent.symm
    rw [same]
    exact ok.linked.cut_none no_child

theorem Ok.turn_closing (ok : l.Ok)
    (closes : (f (l.sockets t).begin).listening = closing (l.sockets t).child)
    (child : (f (l.sockets t).begin).child = none) :
    (l.turn t created f).Ok ∧
      ∀ lst, l.Closes (l.turn t created f) lst → (l.lSockets lst).parent = some t := by
  cases had : (l.sockets t).child with
  -- Without a child nothing is closed.
  | none =>
    rw [had] at closes
    have same : (l.turn t created f).lSockets = l.lSockets := SlotTables.turn_quiet closes
    obtain ⟨kept, none_closed⟩ := ok.turn_same same (child.trans had.symm) fun _ => had
    exact ⟨kept, fun lst closed => (none_closed lst closed).elim⟩
  | some lst =>
    have table := turn_table l t created f
    rw [closes, had] at table
    obtain ⟨sets, kept⟩ := ok.turn_cut (congrArg ListenTable.lSockets table) rfl child (.inl had)
    refine ⟨kept, fun other closed => ?_⟩
    rw [sets.closes other closed]
    exact (ok.linked t lst).mp had

/-! ### Giving out slots -/

/-- `alloc_socket` returns a slot that is not in use, or none exactly when all are. -/
def AllocRight (l : SlotTables) : Prop :=
  match l.allocSocket.1 with
  | some t => (l.sockets t).inUse = false
  | none => ∀ t, (l.sockets t).inUse = true

def HasFree (l : SlotTables) : Prop := ∃ t, (l.sockets t).inUse = false

theorem allocSocket_fst (l : SlotTables) :
    l.allocSocket.1 = some (allocLoop l.sockets maxSockets l.lastAllocatedSocket).1 := by
  have inside := (allocLoop l.sockets maxSockets l.lastAllocatedSocket).1.isLt
  unfold allocSocket
  dsimp only
  split
  next past => exact absurd past (Nat.ne_of_lt inside)
  next => rfl

theorem allocLoop_visits (sockets : Fin maxSockets → TcpSocket) (n : Nat) (i t : Fin maxSockets)
    (none_found : (allocLoop sockets n i).2 = false)
    (near : (t.val + maxSockets - (i.val + 1)) % maxSockets < n) : (sockets t).inUse = true := by
  induction n generalizing i with
  | zero => exact absurd near (Nat.not_lt_zero _)
  | succ n ih =>
    have next : (i + 1).val = (i.val + 1) % maxSockets := Fin.val_add i 1
    unfold allocLoop at none_found
    split at none_found
    next => cases none_found
    next used =>
      by_cases here : t = i + 1
      · rw [here]
        simpa using used
      · have elsewhere : t.val ≠ (i + 1).val := fun same => here (Fin.ext same)
        refine ih (i + 1) none_found ?_
        -- One slot fewer lies between the cursor and `t`.
        have t_inside : t.val < 64 := t.isLt
        have i_inside : i.val < 64 := i.isLt
        have near : (t.val + 64 - (i.val + 1)) % 64 < n + 1 := near
        have next : (i + 1).val = (i.val + 1) % 64 := next
        have nearer : (t.val + 64 - ((i + 1).val + 1)) % 64 < n := by omega
        exact nearer

theorem allocLoop_finds {l : SlotTables} (free : l.HasFree) :
    (allocLoop l.sockets maxSockets l.lastAllocatedSocket).2 = true := by
  obtain ⟨t, unused⟩ := free
  by_contra full
  have used := allocLoop_visits l.sockets maxSockets l.lastAllocatedSocket t
    (Bool.not_eq_true _ ▸ full) (Nat.mod_lt _ (by decide))
  rw [unused] at used
  cases used

/-- It does as it should as long as there is a free slot. -/
theorem allocRight_iff (l : SlotTables) : l.AllocRight ↔ l.HasFree := by
  unfold AllocRight
  rw [allocSocket_fst]
  constructor
  · exact fun unused => ⟨_, unused⟩
  · exact fun free => allocLoop_free (allocLoop_finds free)

/-- The slot `alloc_socket` gives out, as it leaves it. -/
def allocated (l : SlotTables) : Fin maxSockets :=
  (allocLoop l.sockets maxSockets l.lastAllocatedSocket).1

def afterAlloc (l : SlotTables) : SlotTables :=
  { l with
    lastAllocatedSocket := l.allocated
    sockets := Function.update l.sockets l.allocated (Router.allocSocket (l.sockets l.allocated)) }

theorem allocSocket_eq {l : SlotTables} (free : l.HasFree) :
    l.allocSocket = (some l.allocated, l.afterAlloc) := by
  have found : allocLoop l.sockets maxSockets l.lastAllocatedSocket = (l.allocated, true) :=
    Prod.ext rfl (allocLoop_finds free)
  unfold allocSocket
  rw [found]
  exact if_neg (Nat.ne_of_lt l.allocated.isLt)

theorem afterAlloc_self (l : SlotTables) :
    l.afterAlloc.sockets l.allocated = Router.allocSocket (l.sockets l.allocated) :=
  Function.update_self ..

theorem afterAlloc_other {l : SlotTables} {u : Fin maxSockets} (other : u ≠ l.allocated) :
    l.afterAlloc.sockets u = l.sockets u := Function.update_of_ne other ..

theorem Ok.afterAlloc {l : SlotTables} (ok : l.Ok) (free : l.HasFree) : l.afterAlloc.Ok := by
  have unused : (l.sockets l.allocated).inUse = false := allocLoop_free (allocLoop_finds free)
  have children : l.afterAlloc.childOf = l.childOf := by
    funext u
    by_cases here : u = l.allocated
    · rw [here, childOf, childOf, afterAlloc_self, ok.childless _ unused]
      rfl
    · rw [childOf, childOf, afterAlloc_other here]
  refine ⟨?_, fun u free => ?_, ok.parentless, ok.in_table, ok.freed⟩
  · rw [children]
    exact ok.linked
  -- The slot given out is in use from here on.
  · by_cases here : u = l.allocated
    · rw [here, afterAlloc_self]
      rfl
    · rw [afterAlloc_other here] at free ⊢
      exact ok.childless u free

theorem Ok.free_log {l : SlotTables} (ok : l.Ok) (t : Fin maxSockets) :
    ({ l with freed := l.freed ++ [(t.val : Int)] } : SlotTables).Ok := by
  refine ⟨ok.linked, ok.childless, ok.parentless, ok.in_table, fun n member => ?_⟩
  rcases List.mem_append.mp member with before | now
  · exact ok.freed n before
  · rw [List.mem_singleton.mp now]
    exact ⟨Int.natCast_nonneg _, Int.ofNat_lt.mpr t.isLt⟩

/-- Whether the slot is kept or freed again, a connection without child has none then. -/
theorem allocNewSocket_quiet (created : Option Socket) (bound : Bool) (srcPort destPort : BitVec 16)
    (ipDest : BitVec 32) {x : TcpSocket} (childless : x.child = none) :
    (Router.allocNewSocket created bound srcPort destPort ipDest x.begin).1.listening = [] ∧
      (Router.allocNewSocket created bound srcPort destPort ipDest x.begin).1.child = none := by
  have closing_none : closing x.child = [] := by rw [childless]; rfl
  have freed {y : Turn} (nothing : y.listening = []) (same : y.child = x.child) :
      (freeSocket y).listening = [] ∧ (freeSocket y).child = none := by
    obtain ⟨listening, child⟩ := freeSocket_listening y
    rw [nothing, same, closing_none] at listening
    exact ⟨listening, child⟩
  -- No socket, or none that can be bound: the slot goes back.
  unfold Router.allocNewSocket
  dsimp only
  split
  · exact freed rfl rfl
  · split
    · exact ⟨rfl, childless⟩
    · exact freed rfl rfl

/-- A new connection in a free slot leaves the listening slots alone. -/
theorem Ok.allocNewSocket {l : SlotTables} (ok : l.Ok) (free : l.HasFree) (created : Option Socket)
    (bound : Bool) (srcPort destPort : BitVec 16) (ipDest : BitVec 32) :
    (l.allocNewSocket created bound srcPort destPort ipDest).2.Ok ∧
      (l.allocNewSocket created bound srcPort destPort ipDest).2.lSockets = l.lSockets ∧
      ((created.isSome && bound) = true →
        (l.allocNewSocket created bound srcPort destPort ipDest).1 = some l.allocated) := by
  let f : Turn → Turn := fun x =>
    (Router.allocNewSocket created bound srcPort destPort ipDest x).1
  let turned := l.afterAlloc.turn l.allocated none f
  have unfolded : l.allocNewSocket created bound srcPort destPort ipDest =
      if (created.isSome && bound) = true then (some l.allocated, turned)
      else (none, { turned with freed := turned.freed ++ [(l.allocated.val : Int)] }) := by
    unfold SlotTables.allocNewSocket
    rw [allocSocket_eq free]
  have childless : (l.afterAlloc.sockets l.allocated).child = none := by
    rw [afterAlloc_self]
    rfl
  obtain ⟨quiet, child⟩ := allocNewSocket_quiet created bound srcPort destPort ipDest childless
  have slots : turned.lSockets = l.lSockets := turn_quiet (l := l.afterAlloc) (f := f) quiet
  obtain ⟨kept, _⟩ := (ok.afterAlloc free).turn_same slots (child.trans childless.symm)
    fun _ => childless
  rw [unfolded]
  split
  · exact ⟨kept, slots, fun _ => rfl⟩
  next not_kept => exact ⟨kept.free_log l.allocated, slots, fun kept => (not_kept kept).elim⟩

/-! ### Attempts to connect -/

/-- An attempt that is let in finds a free slot and gets a system socket for it. -/
def Admits (l : SlotTables) (lst : Nat) (a : Attempt) : Prop :=
  l.Authorized lst a → l.HasFree ∧ (a.created.isSome && a.bound) = true

theorem Ok.acceptCallback {l : SlotTables} (ok : l.Ok) {lst : Nat} {a : Attempt}
    (admits : l.Admits lst a) (env : Env) (macosIpAddress : BitVec 32) :
    (l.acceptCallback env macosIpAddress lst a).Ok ∧
      (l.acceptCallback env macosIpAddress lst a).lSockets = l.lSockets := by
  unfold SlotTables.acceptCallback
  dsimp only
  split
  next authorized =>
    obtain ⟨free, created⟩ := admits authorized
    obtain ⟨new, slots, given⟩ :=
      ok.allocNewSocket free a.created a.bound (l.lSockets lst).port a.port a.ip
    split
    next full =>
      -- A connection that is let in has got its slot.
      have some_slot := given created
      rw [full] at some_slot
      cases some_slot
    next t l' allocated =>
      rw [allocated] at new slots
      obtain ⟨listening, child⟩ := tcpAcceptCallback_listening env a.s macosIpAddress
        (l.lSockets lst).port a.port a.ip (l'.sockets t).begin
      have same : (l'.turn t none _).lSockets = l'.lSockets := turn_quiet listening
      obtain ⟨accepted, _⟩ := new.turn_same same child (new.childless t)
      exact ⟨accepted, same.trans slots⟩
  next => exact ⟨ok, rfl⟩

theorem Ok.closeOnce {l : SlotTables} (ok : l.Ok) (lst : Nat) :
    (l.closeOnce lst).Ok ∧ ∀ other, l.Closes (l.closeOnce lst) other → other = lst := by
  have sets : Sets l (l.closeOnce lst) lst { (l.lSockets lst).close with ip := 0 } :=
    ok.sets rfl (fun _ => rfl) fun has => (has rfl).elim
  have parents : (l.closeOnce lst).parentOf = Function.update l.parentOf lst none := sets.parents
  refine ⟨?_, sets.closes⟩
  cases parent : (l.lSockets lst).parent with
  | none =>
    have sockets : (l.closeOnce lst).sockets = l.sockets := by
      unfold SlotTables.closeOnce
      rw [parent]
    have same : Function.update l.parentOf lst none = l.parentOf :=
      Function.update_eq_self_iff.mpr parent.symm
    refine ⟨?_, ?_, sets.parentless, sets.in_table, ok.freed⟩
    · rw [childOf_of_same sockets, parents, same]
      exact ok.linked
    · rw [sockets]
      exact ok.childless
  -- The parent gives up its child with the slot.
  | some t =>
    have sockets : (l.closeOnce lst).sockets =
        Function.update l.sockets t { l.sockets t with child := none } := by
      unfold SlotTables.closeOnce
      rw [parent]
    have children : (l.closeOnce lst).childOf = Function.update l.childOf t none := by
      funext u
      by_cases here : u = t
      · rw [here, Function.update_self, childOf, sockets, Function.update_self]
      · rw [Function.update_of_ne here, childOf, sockets, Function.update_of_ne here, childOf]
    refine ⟨?_, fun u free => ?_, sets.parentless, sets.in_table, ok.freed⟩
    · rw [children, parents]
      exact ok.linked.cut ((ok.linked t lst).mpr parent)
    · by_cases here : u = t
      · rw [here, sockets, Function.update_self]
      · rw [sockets, Function.update_of_ne here] at free ⊢
        exact ok.childless u free

/-- An event closes at most its own slot, and that in once mode only. -/
theorem Ok.listenEvent {l : SlotTables} (ok : l.Ok) {lst : Nat} {attempt : Option Attempt}
    (admits : ∀ a, attempt = some a → l.Admits lst a) (env : Env) (macosIpAddress : BitVec 32) :
    (l.listenEvent env macosIpAddress lst attempt).Ok ∧
      ∀ other, l.Closes (l.listenEvent env macosIpAddress lst attempt) other →
        other = lst ∧ (l.lSockets lst).once = true := by
  have taken : ∃ l' : SlotTables, l'.Ok ∧ l'.lSockets = l.lSockets ∧
      l.listenEvent env macosIpAddress lst attempt =
        if (l'.lSockets lst).once then l'.closeOnce lst else l' := by
    cases attempt with
    | none => exact ⟨l, ok, rfl, rfl⟩
    | some a =>
      obtain ⟨accepted, slots⟩ := ok.acceptCallback (admits a rfl) env macosIpAddress
      exact ⟨_, accepted, slots, rfl⟩
  obtain ⟨l', ok', slots, event⟩ := taken
  rw [event]
  split
  next once =>
    obtain ⟨closed_ok, closes⟩ := ok'.closeOnce lst
    refine ⟨closed_ok, fun other closed => ?_⟩
    have closed' : l'.Closes (l'.closeOnce lst) other := by
      unfold Closes
      rw [slots]
      exact closed
    -- The attempt has not touched the slot.
    rw [slots] at once
    exact ⟨closes other closed', once⟩
  next => exact ⟨ok', fun other closed => (closes_of_same (by rw [slots]) closed).elim⟩

/-! ### FTP -/

theorem listenLoop_free {lSockets : Nat → ListeningSocket} {n : Nat} {i slot : Fin maxSockets}
    (found : ListenTable.listenLoop lSockets n i = some slot) : (lSockets slot.val).port = 0 := by
  induction n generalizing i with
  | zero => cases found
  | succ n ih =>
    unfold ListenTable.listenLoop at found
    split at found
    next free => exact Option.some.inj found ▸ free
    next => exact ih found

theorem perform_alloc {table : ListenTable} {slot : Fin maxSockets}
    (next : table.nextListen = some slot) (t : Fin maxSockets) (created : Option Socket)
    {port : BitVec 16} (some_port : port ≠ 0) (ip : BitVec 32) :
    (table.perform t created (.allocListening port ip)).lSockets =
      Function.update table.lSockets slot.val ⟨created, port, ip, 0, true, some t⟩ := by
  unfold ListenTable.perform ListenTable.allocListenSocket
  rw [next]
  simp only [ListenTable.tcpStartListen, ListenTable.set, Function.update_self, Function.update_idem,
    ne_eq, some_port, not_false_eq_true, if_true]

theorem perform_alloc_full {table : ListenTable} (full : table.nextListen = none)
    (t : Fin maxSockets) (created : Option Socket) (port : BitVec 16) (ip : BitVec 32) :
    table.perform t created (.allocListening port ip) = table := by
  unfold ListenTable.perform ListenTable.allocListenSocket
  rw [full]

/-- A connection listens to one data port at a time, and only for one with the first slot as child,
or where that is free and there is no child, may a write without data port fail. -/
def Writes (l : SlotTables) (env : Env) (p : TcpPacket) (t : Fin maxSockets) : Prop :=
  (l.sockets t).seqIn = p.seq →
    if env.ftpDataPort = 0 then
      env.send = .failed → (l.sockets t).child = some 1 ∨
        (l.sockets t).child = none ∧ (l.lSockets 1).port = 0
    else (l.sockets t).child = none ∨ l.nextListen = none

section

variable {l : SlotTables} {env : Env} {p : TcpPacket} {t : Fin maxSockets} {created : Option Socket}

theorem send_used (used : (l.sockets t).inUse = true) {P : Prop}
    (free : (takeData env p (l.sockets t).begin).inUse = false) : P := by
  rw [takeData_inUse] at free
  exact absurd (used.symm.trans free) (by decide)

/-- Without a data port the first slot is dropped when the write fails. -/
theorem Ok.send_plain (ok : l.Ok) (used : (l.sockets t).inUse = true)
    (expected : (l.sockets t).seqIn = p.seq) (plain : env.ftpDataPort = 0)
    (allowed : env.send = .failed → (l.sockets t).child = some 1 ∨
      (l.sockets t).child = none ∧ (l.lSockets 1).port = 0) :
    (l.turn t created (takeData env p)).Ok ∧
      ∀ lst, l.Closes (l.turn t created (takeData env p)) lst → (l.lSockets lst).parent = some t := by
  obtain ⟨listening, child⟩ := takeData_listening env (x := (l.sockets t).begin) expected
  have table := turn_table l t created (takeData env p)
  rw [listening] at table
  unfold dataListening at table child
  simp only [if_pos plain] at table child
  -- `lst` still has the value 1 it was declared with.
  by_cases failed : env.send = .failed
  · simp only [if_pos failed] at table child
    have own : (l.sockets t).child = some 1 ∨
        (l.sockets t).child = none ∧ (l.lSockets 1).parent = none :=
      (allowed failed).imp_right fun ⟨childless, closed⟩ => ⟨childless, ok.parentless 1 closed⟩
    obtain ⟨sets, kept⟩ := ok.turn_cut (congrArg ListenTable.lSockets table) rfl child own
    refine ⟨kept, fun lst closed => ?_⟩
    have first := sets.closes lst closed
    subst first
    rcases allowed failed with tied | ⟨_, free⟩
    · exact (ok.linked t 1).mp tied
    · exact absurd free closed.1
  · simp only [if_neg failed] at table child
    obtain ⟨kept, nothing_closed⟩ :=
      ok.turn_same (congrArg ListenTable.lSockets table) child (send_used used)
    exact ⟨kept, fun lst closed => (nothing_closed lst closed).elim⟩

/-- With one, what is dropped is the slot that has just been given out. -/
theorem Ok.send_ftp (ok : l.Ok) (used : (l.sockets t).inUse = true)
    (expected : (l.sockets t).seqIn = p.seq) (ftp : env.ftpDataPort ≠ 0)
    (slot : env.listenSlot = l.nextListen.map (·.val))
    (allowed : (l.sockets t).child = none ∨ l.nextListen = none) :
    (l.turn t created (takeData env p)).Ok ∧
      ∀ lst, ¬l.Closes (l.turn t created (takeData env p)) lst := by
  obtain ⟨listening, child⟩ := takeData_listening env (x := (l.sockets t).begin) expected
  have table := turn_table l t created (takeData env p)
  rw [listening] at table
  unfold dataListening at table child
  simp only [if_neg ftp, slot] at table child
  cases next : l.nextListen with
  | none =>
    rw [next] at table child
    have same : (l.turn t created (takeData env p)).toListenTable = l.toListenTable :=
      table.trans (perform_alloc_full next ..)
    exact ok.turn_same (congrArg ListenTable.lSockets same) child (send_used used)
  | some new =>
    rw [next] at table child
    have childless : (l.sockets t).child = none :=
      allowed.resolve_right (by rw [next]; exact Option.some_ne_none new)
    have closed : (l.lSockets new.val).port = 0 := listenLoop_free next
    have given := perform_alloc next t created ftp (l.sockets t).ipDest
    have not_closed {l' : SlotTables} (only : ∀ lst, l.Closes l' lst → lst = new.val) (lst : Nat) :
        ¬l.Closes l' lst := by
      intro closes
      have same := only lst closes
      subst same
      exact closes.1 closed
    -- Given out and dropped again, the slot is as free as before.
    by_cases failed : env.send = .failed
    · simp only [Option.map_some, if_pos failed] at table child
      have dropped : (l.turn t created (takeData env p)).lSockets =
          Function.update l.lSockets new.val ⟨none, 0, 0, 0, true, none⟩ := by
        have last : (l.turn t created (takeData env p)).toListenTable =
            (l.perform t created (.allocListening env.ftpDataPort (l.sockets t).ipDest)).perform t
              created (.dropListening new.val) := table
        rw [last, ListenTable.perform, ListenTable.set, given]
        simp only [Function.update_self, Function.update_idem, ListeningSocket.close]
      obtain ⟨sets, kept⟩ := ok.turn_cut dropped rfl child
        (.inr ⟨childless, ok.parentless new.val closed⟩)
      exact ⟨kept, not_closed sets.closes⟩
    · simp only [Option.map_some, if_neg failed] at table child
      have slots : (l.turn t created (takeData env p)).lSockets = _ :=
        (congrArg ListenTable.lSockets table).trans given
      have sets := ok.sets slots (fun no_port => (ftp no_port).elim) fun _ => new.isLt
      refine ⟨⟨?_, ok.turn_childless (send_used used), sets.parentless, sets.in_table, ok.freed⟩,
        not_closed sets.closes⟩
      rw [turn_childOf, child, sets.parents]
      exact ok.linked.tie childless (ok.parentless new.val closed)

theorem Ok.send (ok : l.Ok) (writes : l.Writes env p t) (used : (l.sockets t).inUse = true)
    (created : Option Socket) :
    (l.send env p t created).Ok ∧
      ∀ lst, l.Closes (l.send env p t created) lst → (l.lSockets lst).parent = some t := by
  let env' : Env := { env with listenSlot := l.nextListen.map (·.val) }
  by_cases expected : (l.sockets t).seqIn = p.seq
  · have allowed := writes expected
    by_cases plain : env.ftpDataPort = 0
    · rw [if_pos plain] at allowed
      change (l.turn t created (takeData env' p)).Ok ∧ _
      exact ok.send_plain used expected plain allowed
    · rw [if_neg plain] at allowed
      have kept : (l.turn t created (takeData env' p)).Ok ∧
          ∀ lst, ¬l.Closes (l.turn t created (takeData env' p)) lst :=
        ok.send_ftp used expected plain rfl allowed
      obtain ⟨kept, nothing_closed⟩ := kept
      exact ⟨kept, fun lst closed => (nothing_closed lst closed).elim⟩
  · have unchanged : takeData env' p (l.sockets t).begin = (l.sockets t).begin :=
      takeData_unexpected env' expected
    have quiet : (takeData env' p (l.sockets t).begin).listening = [] := by
      rw [unchanged]
      rfl
    have same : (l.turn t created (takeData env' p)).lSockets = l.lSockets := turn_quiet quiet
    obtain ⟨kept, nothing_closed⟩ := ok.turn_same same (by rw [unchanged]; rfl) (send_used used)
    exact ⟨kept, fun lst closed => (nothing_closed lst closed).elim⟩

end

end SlotTables

end BasiliskII.Router
