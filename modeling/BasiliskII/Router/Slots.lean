import Mathlib.Algebra.GroupWithZero.Nat
import Mathlib.Data.Fintype.Defs
import Mathlib.Logic.Function.Basic
import BasiliskII.Library.StepSystem
import BasiliskII.Router.TcpEvents

/-!
# The table of TCP slots

Finding and allocating slots for the packets of the Mac and for accepted
connections, and the events of the whole table. A completion comes for a read or
write that is under way, with nothing but the number of its slot. Which
connection of the slot has started it is kept beside the state of the code, to
tell late completions.
-/
namespace BasiliskII.Router

/-- `MAX_SOCKETS` -/
abbrev maxSockets : Nat := 64

instance maxSockets_neZero : NeZero maxSockets := ⟨by decide⟩

/-- A read or write under way, and the connection of the slot that has started it. -/
structure Io where
  slot : Fin maxSockets
  connection : Nat
  writing : Bool
  deriving DecidableEq, Repr

/-- The slots, and how many connections each slot has had. -/
structure TcpRouter where
  sockets : Fin maxSockets → TcpSocket
  lastAllocatedSocket : Fin maxSockets
  connection : Fin maxSockets → Nat
  io : List Io

/-- The table after `init_tcp`. A search from slot -1 goes on at slot 0, as from the last one. -/
def initRouter : TcpRouter where
  sockets := fun _ => initSocket
  lastAllocatedSocket := Fin.last 63
  connection := fun _ => 0
  io := []

def posted (t : Fin maxSockets) (connection : Nat) : Effect → Option Io
  | .wsaRecv .. => some ⟨t, connection, false⟩
  | .wsaSend .. => some ⟨t, connection, true⟩
  | _ => none

/-- What is done outside of the slots, and by which. -/
abbrev Effects := List (Fin maxSockets × Effect)

/-- An event of one slot. -/
def TcpRouter.act (r : TcpRouter) (env : Env) (t : Fin maxSockets) (event : SlotEvent) :
    TcpRouter × Effects :=
  let turn := slotEvent env (r.sockets t) event
  ({ r with
      sockets := Function.update r.sockets t turn.toTcpSocket
      io := r.io ++ turn.effects.filterMap (posted t (r.connection t)) },
    turn.effects.map fun e => (t, e))

/-- `get_socket_index` -/
def TcpRouter.getSocketIndex (r : TcpRouter) (srcPort destPort : BitVec 16) :
    Option (Fin maxSockets) :=
  (List.finRange maxSockets).find? fun i =>
    (r.sockets i).inUse && (r.sockets i).srcPort = srcPort && (r.sockets i).destPort = destPort

/-- `get_socket_index` with the port of the Mac alone. -/
def TcpRouter.getSocketIndexOfPort (r : TcpRouter) (srcPort : BitVec 16) :
    Option (Fin maxSockets) :=
  (List.finRange maxSockets).find? fun i =>
    (r.sockets i).inUse && (r.sockets i).srcPort = srcPort

def TcpRouter.findSocket (r : TcpRouter) (env : Env) (srcPort destPort : BitVec 16) :
    TcpRouter × Effects × Option (Fin maxSockets) :=
  match r.getSocketIndex srcPort destPort with
  | some i => (r, [], some i)
  | none =>
    match r.getSocketIndexOfPort srcPort with
    | some i =>
      let (r, effects) := r.act env i .forceClose
      (r, effects, none)
    | none => (r, [], none)

/-- The loop of `alloc_socket`: the slot it returns, and whether it was free. The numbers of the
slots wrap around. -/
def allocLoop (sockets : Fin maxSockets → TcpSocket) :
    Nat → Fin maxSockets → Fin maxSockets × Bool
  | 0, i => (i, false)
  | n + 1, i => if !(sockets (i + 1)).inUse then (i + 1, true) else allocLoop sockets n (i + 1)

/-- The slot that is given out next, and whether it is free. -/
def TcpRouter.nextSlot (r : TcpRouter) : Fin maxSockets × Bool :=
  allocLoop r.sockets maxSockets r.lastAllocatedSocket

/-- `alloc_new_socket` -/
def TcpRouter.alloc (r : TcpRouter) (env : Env) (created : Option Socket) (bound : Bool)
    (srcPort destPort : BitVec 16) (ipDest : BitVec 32) :
    TcpRouter × Effects × Option (Fin maxSockets) :=
  let (t, free) := r.nextSlot
  let r :=
    if free then
      { r with
        lastAllocatedSocket := t
        connection := Function.update r.connection t (r.connection t + 1) }
    else r
  let (r, effects) := r.act env t (.create created bound srcPort destPort ipDest)
  (r, effects, if created.isSome && bound then some t else none)

/-- `write_tcp`. `created` and `bound` are for the case that a slot has to be allocated. -/
def TcpRouter.writeTcp (r : TcpRouter) (env : Env) (created : Option Socket) (bound : Bool)
    (p : TcpPacket) : TcpRouter × Effects :=
  let (r, closing, found) := r.findSocket env p.srcPort p.destPort
  let (r, opening, t) :=
    match found with
    | some t => (r, [], some t)
    | none => r.alloc env created bound p.srcPort p.destPort p.ipDest
  match t with
  | some t =>
    let (r, effects) := r.act env t (.packet p)
    (r, closing ++ opening ++ effects)
  | none => (r, closing ++ opening)

/-- `tcp_accept_callback` for an authorized connection. Where there is no slot for it,
`free_socket` writes in front of the table, which is a failure. -/
def TcpRouter.accept (r : TcpRouter) (env : Env) (created : Option Socket) (bound : Bool)
    (s : Socket) (macosIpAddress : BitVec 32) (srcPort destPort : BitVec 16)
    (ipDest : BitVec 32) : Option (TcpRouter × Effects) :=
  let (r, opening, t) := r.alloc env created bound srcPort destPort ipDest
  t.map fun t =>
    let (r, effects) := r.act env t (.accept s macosIpAddress srcPort destPort ipDest)
    (r, opening ++ effects)

/-- One pass over the timeouts. -/
def TcpRouter.timeouts (envs : Fin maxSockets → Env) :
    List (Fin maxSockets) → TcpRouter → TcpRouter × Effects
  | [], r => (r, [])
  | t :: ts, r =>
    let (r, effects) := r.act (envs t) t .timeout
    let (r, more) := TcpRouter.timeouts envs ts r
    (r, effects ++ more)

inductive RouterEvent
  | packet (env : Env) (created : Option Socket) (bound : Bool) (p : TcpPacket)
  | accept (env : Env) (created : Option Socket) (bound : Bool) (s : Socket)
    (macosIpAddress : BitVec 32) (srcPort destPort : BitVec 16) (ipDest : BitVec 32)
  | read (env : Env) (op : Io) (error : BitVec 32) (data : List (BitVec 8))
  | write (env : Env) (op : Io) (bytesWritten : BitVec 32)
  | network (env : Env) (t : Fin maxSockets) (what : NetworkEvents)
  | timeouts (envs : Fin maxSockets → Env)

def TcpRouter.event (r : TcpRouter) : RouterEvent → Option (TcpRouter × Effects)
  | .packet env created bound p => some (r.writeTcp env created bound p)
  | .accept env created bound s macosIpAddress srcPort destPort ipDest =>
    r.accept env created bound s macosIpAddress srcPort destPort ipDest
  | .read env op error data =>
    if op ∈ r.io ∧ op.writing = false then
      some ({ r with io := r.io.erase op }.act env op.slot (.read error data))
    else none
  | .write env op bytesWritten =>
    if op ∈ r.io ∧ op.writing = true then
      some ({ r with io := r.io.erase op }.act env op.slot (.write bytesWritten))
    else none
  | .network env t what => some (r.act env t (.network what))
  | .timeouts envs => some (TcpRouter.timeouts envs (List.finRange maxSockets) r)

def routerStep (r : TcpRouter) (event : RouterEvent) : Option TcpRouter := (r.event event).map (·.1)

end BasiliskII.Router
