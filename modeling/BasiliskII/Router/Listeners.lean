import BasiliskII.Library.StepSystem
import BasiliskII.Router.Slots

/-!
# Listening slots

The table of listening sockets of tcp.cpp beside the table of connections. A connection of FTP has
the listening slot of its data port as `child`, and the slot has it as `parent`. The routines that
give out and free slots, take connections and listen for FTP may come in any order.
-/
namespace BasiliskII.Router

/-- `tcp_listening_socket_t` -/
structure ListeningSocket where
  s : Option Socket
  port : BitVec 16
  ip : BitVec 32
  iface : BitVec 32
  once : Bool
  parent : Option (Fin maxSockets)

/-- As `free_socket` leaves the slot of a child. -/
def ListeningSocket.close (x : ListeningSocket) : ListeningSocket :=
  { x with s := none, port := 0, parent := none }

/-- `l_sockets`; slots from `MAX_SOCKETS` on are not used. -/
structure ListenTable where
  lSockets : Nat → ListeningSocket
  lastAllocatedListen : Fin maxSockets

/-- Both tables, and the slot numbers `free_socket` has been called with. -/
structure SlotTables extends ListenTable where
  sockets : Fin maxSockets → TcpSocket
  lastAllocatedSocket : Fin maxSockets
  freed : List Int

/-- After `init_tcp`, before it listens to any port. -/
def initTables : SlotTables where
  lSockets := fun _ => ⟨none, 0, 0, 0, false, none⟩
  lastAllocatedListen := Fin.last 63
  sockets := fun _ => initSocket
  lastAllocatedSocket := Fin.last 63
  freed := []

namespace ListenTable

/-- The loop of `alloc_listen_socket`. -/
def listenLoop (lSockets : Nat → ListeningSocket) : Nat → Fin maxSockets → Option (Fin maxSockets)
  | 0, _ => none
  | n + 1, i =>
    if (lSockets (i + 1).val).port = 0 then some (i + 1) else listenLoop lSockets n (i + 1)

def nextListen (l : ListenTable) : Option (Fin maxSockets) :=
  listenLoop l.lSockets maxSockets l.lastAllocatedListen

def set (l : ListenTable) (lst : Nat) (x : ListeningSocket) : ListenTable :=
  { l with lSockets := Function.update l.lSockets lst x }

def allocListenSocket (port : BitVec 16) (ip iface : BitVec 32) (once : Bool) (l : ListenTable) :
    Option Nat × ListenTable :=
  match l.nextListen with
  | none => (none, l)
  | some i =>
    let x := { l.lSockets i.val with port, ip, iface, once, parent := none }
    (some i.val, { l.set i.val x with lastAllocatedListen := i })

/-- `tcp_start_listen`; `created` is what `socket` returns. -/
def tcpStartListen (i : Nat) (created : Option Socket) (l : ListenTable) : ListenTable :=
  if (l.lSockets i).port ≠ 0 then l.set i { l.lSockets i with s := created } else l

/-- What a routine at work on connection `t` does to the listening slots. -/
def perform (t : Fin maxSockets) (created : Option Socket) (l : ListenTable) : Effect → ListenTable
  | .closeListening lst => l.set lst (l.lSockets lst).close
  | .dropListening lst => l.set lst { (l.lSockets lst).close with ip := 0 }
  | .allocListening port ip =>
    match l.allocListenSocket port ip 0 true with
    | (none, l) => l
    | (some lst, l) =>
      let l := l.tcpStartListen lst created
      l.set lst { l.lSockets lst with parent := some t }
  | _ => l

end ListenTable

/-- A connection that is waiting, and what `alloc_new_socket` gets for it. -/
structure Attempt where
  s : Socket
  ip : BitVec 32
  port : BitVec 16
  created : Option Socket
  bound : Bool

inductive TableEvent
  | alloc (created : Option Socket) (bound : Bool) (srcPort destPort : BitVec 16)
    (ipDest : BitVec 32)
  | free (t : Fin maxSockets)
  | forceClose (t : Fin maxSockets)
  | send (env : Env) (p : TcpPacket) (t : Fin maxSockets) (created : Option Socket)
  | listen (env : Env) (macosIpAddress : BitVec 32) (lst : Fin maxSockets)
    (attempt : Option Attempt)
  | configure (port : BitVec 16) (iface : BitVec 32) (created : Option Socket)
  | shutdown

namespace SlotTables

/-- A routine at work on connection `t`. -/
def turn (l : SlotTables) (t : Fin maxSockets) (created : Option Socket) (f : Turn → Turn) :
    SlotTables :=
  let x := f (l.sockets t).begin
  { l with
    toListenTable := x.effects.foldl (ListenTable.perform t created) l.toListenTable
    sockets := Function.update l.sockets t x.toTcpSocket }

/-- `free_socket` -/
def free (t : Fin maxSockets) (l : SlotTables) : SlotTables :=
  { l.turn t none freeSocket with freed := l.freed ++ [(t.val : Int)] }

/-- `alloc_socket`: numbers wrap around before they are compared with `MAX_SOCKETS`. -/
def allocSocket (l : SlotTables) : Option (Fin maxSockets) × SlotTables :=
  let (i, free) := allocLoop l.sockets maxSockets l.lastAllocatedSocket
  let l :=
    if free then
      { l with
        lastAllocatedSocket := i
        sockets := Function.update l.sockets i (Router.allocSocket (l.sockets i)) }
    else l
  if i.val = maxSockets then (none, l) else (some i, l)

def allocNewSocket (created : Option Socket) (bound : Bool) (srcPort destPort : BitVec 16)
    (ipDest : BitVec 32) (l : SlotTables) : Option (Fin maxSockets) × SlotTables :=
  match l.allocSocket with
  | (none, l) => (none, l)
  | (some t, l) =>
    let l := l.turn t none fun x =>
      (Router.allocNewSocket created bound srcPort destPort ipDest x).1
    if created.isSome && bound then (some t, l)
    else (none, { l with freed := l.freed ++ [(t.val : Int)] })

/-- `l_sockets[lst].ip` allows the remote host. -/
def Authorized (l : SlotTables) (lst : Nat) (a : Attempt) : Prop :=
  (l.lSockets lst).ip = 0 ∨ (l.lSockets lst).ip = a.ip

instance authorizedDecidable (l : SlotTables) (lst : Nat) (a : Attempt) :
    Decidable (l.Authorized lst a) :=
  inferInstanceAs (Decidable (_ ∨ _))

def acceptCallback (env : Env) (macosIpAddress : BitVec 32) (lst : Nat) (a : Attempt)
    (l : SlotTables) : SlotTables :=
  let port := (l.lSockets lst).port
  if l.Authorized lst a then
    match l.allocNewSocket a.created a.bound port a.port a.ip with
    -- `free_socket(t)` with what it has just found to be no slot
    | (none, l) => { l with freed := l.freed ++ [-1] }
    | (some t, l) => l.turn t none (tcpAcceptCallback env a.s macosIpAddress port a.port a.ip)
  else l

/-- The listening slot in once mode is closed after its event. -/
def closeOnce (lst : Nat) (l : SlotTables) : SlotTables :=
  let sockets :=
    match (l.lSockets lst).parent with
    | some t => Function.update l.sockets t { l.sockets t with child := none }
    | none => l.sockets
  { l with
    toListenTable := l.set lst { (l.lSockets lst).close with ip := 0 }
    sockets }

/-- An event of `tcp_listen_thread`. -/
def listenEvent (env : Env) (macosIpAddress : BitVec 32) (lst : Nat) (attempt : Option Attempt)
    (l : SlotTables) : SlotTables :=
  let l :=
    match attempt with
    | some a => l.acceptCallback env macosIpAddress lst a
    | none => l
  if (l.lSockets lst).once then l.closeOnce lst else l

/-- What `write_tcp` does with data, where FTP gets the next listening slot. -/
def send (env : Env) (p : TcpPacket) (t : Fin maxSockets) (created : Option Socket)
    (l : SlotTables) : SlotTables :=
  l.turn t created (takeData { env with listenSlot := l.nextListen.map (·.val) } p)

/-- A port of the preferences. -/
def configure (port : BitVec 16) (iface : BitVec 32) (created : Option Socket) (l : SlotTables) :
    SlotTables :=
  match l.allocListenSocket port 0 iface false with
  | (none, table) => { l with toListenTable := table }
  | (some lst, table) => { l with toListenTable := table.tcpStartListen lst created }

/-- `final_tcp` -/
def shutdown (l : SlotTables) : SlotTables :=
  let l := (List.finRange maxSockets).foldl (fun l t => l.free t) l
  { l with lSockets := fun lst => { l.lSockets lst with s := none } }

end SlotTables

/-- Data comes for connections in use, attempts where there is a socket, and configured ports
are not 0. -/
def tableStep (l : SlotTables) : TableEvent → Option SlotTables
  | .alloc created bound srcPort destPort ipDest =>
    some (l.allocNewSocket created bound srcPort destPort ipDest).2
  | .free t => some (l.free t)
  | .forceClose t =>
    let freed := if (l.sockets t).s = none then l.freed else l.freed ++ [(t.val : Int)]
    some { l.turn t none Router.forceClose with freed }
  | .send env p t created => if (l.sockets t).inUse then some (l.send env p t created) else none
  | .listen env macosIpAddress lst attempt =>
    if attempt.isSome ∧ (l.lSockets lst.val).s = none then none
    else some (l.listenEvent env macosIpAddress lst.val attempt)
  | .configure port iface created => if port ≠ 0 then some (l.configure port iface created) else none
  | .shutdown => some l.shutdown

end BasiliskII.Router
