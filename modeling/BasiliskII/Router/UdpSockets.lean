import BasiliskII.Library.SwapRemove
import BasiliskII.Library.StepSystem
import BasiliskII.Router.TcpSocket
import Mathlib.Logic.Function.Basic

/-!
# UDP socket objects

The objects of ipsocket.cpp for the UDP ports of the Mac, the table they are in, and udp.cpp where
it sends and where reads complete. A pointer is a number that no other object gets. Beside the state
of the code stand the overlapped reads that are outstanding, the system sockets that have been
created and closed, and what must not happen: objects deleted with a read outstanding, and
completions for deleted objects.
-/
namespace BasiliskII.Router

open SwapRemove

/-- `MAX_OPEN_SOCKETS` -/
def maxOpenSockets : Nat := 1024

/-- `socket_t`, for UDP. -/
structure SocketT where
  s : Option Socket
  permanent : Bool
  srcPort : BitVec 16
  destPort : BitVec 16
  socketTtl : BitVec 32

structure UdpState where
  objects : Nat → Option SocketT
  next : Nat
  allSockets : List Nat
  pending : List Nat
  created : List Socket
  closed : List Socket
  deletedPending : List Nat
  handledDeleted : List Nat

def initUdp : UdpState where
  objects := fun _ => none
  next := 0
  allSockets := []
  pending := []
  created := []
  closed := []
  deletedPending := []
  handledDeleted := []

/-- `sizeof(udp_t)` -/
def sizeofUdp : BitVec 32 := 42

/-- A packet of the Mac, what Windows answers, and the tick count. -/
structure UdpPacket where
  len : BitVec 32
  srcPort : BitVec 16
  destPort : BitVec 16
  created : Bool
  sent : Bool
  received : Bool
  tickCount : BitVec 32

namespace UdpState

def closesocket (s : Socket) (st : UdpState) : UdpState := { st with closed := st.closed ++ [s] }

/-- `delete cmpl`, with the destructor. -/
def delete (id : Nat) (st : UdpState) : UdpState :=
  match st.objects id with
  | none => st
  | some cmpl =>
    { st with
      objects := Function.update st.objects id none
      closed := st.closed ++ cmpl.s.toList
      deletedPending := st.deletedPending ++ if id ∈ st.pending then [id] else [] }

/-- `delete all_sockets[i]; all_sockets[i] = all_sockets[--open_sockets]` -/
def deleteAt (i : Nat) (st : UdpState) : UdpState :=
  match st.allSockets[i]? with
  | none => st
  | some id => { st.delete id with allSockets := swapRemove st.allSockets i }

/-- `get_socket_index` by a test on the objects. -/
def getSocketIndex (test : SocketT → Bool) (st : UdpState) : Option Nat :=
  st.allSockets.findIdx? fun id => (st.objects id).any test

def deleteSocket (id : Nat) (st : UdpState) : UdpState :=
  match st.allSockets.findIdx? fun other => other = id with
  | some i => st.deleteAt i
  | none => st

def findSocket (srcPort destPort : BitVec 16) (st : UdpState) : Option Nat × UdpState :=
  match st.getSocketIndex fun cmpl => cmpl.srcPort = srcPort && cmpl.destPort = destPort with
  | some i => (st.allSockets[i]?, st)
  | none =>
    match st.getSocketIndex fun cmpl => cmpl.srcPort = srcPort with
    | some i =>
      match st.allSockets[i]? with
      | some id => (none, st.deleteSocket id)
      | none => (none, st)
    | none => (none, st)

def addSocket (id : Nat) (st : UdpState) : UdpState :=
  if st.allSockets.length < maxOpenSockets then { st with allSockets := st.allSockets ++ [id] }
  else
    match st.allSockets[0]? with
    | some first => { st.delete first with allSockets := st.allSockets.set 0 id }
    | none => st

/-- A system socket that has not been closed. -/
def isOpen (id : Nat) (st : UdpState) : Bool :=
  match (st.objects id).bind (·.s) with
  | some s => s ∉ st.closed
  | none => false

/-- Windows takes a read on an open socket only. -/
def bRecfrom (id : Nat) (received : Bool) (st : UdpState) : Bool × UdpState :=
  if received && st.isOpen id then (true, { st with pending := st.pending ++ [id] }) else (false, st)

def touch (id : Nat) (tickCount : BitVec 32) (st : UdpState) : UdpState :=
  { st with
    objects := Function.update st.objects id
      ((st.objects id).map fun cmpl => { cmpl with socketTtl := tickCount + 60000 }) }

/-- `new socket_t`; its system socket has the number of the object. -/
def newSocket (w : UdpPacket) (st : UdpState) : UdpState :=
  { st with
    objects := Function.update st.objects st.next
      (some ⟨if w.created then some st.next else none, false, w.srcPort, w.destPort,
        w.tickCount + 60000⟩)
    next := st.next + 1
    created := st.created ++ if w.created then [st.next] else [] }

/-- `write_udp` from `sendto` on. -/
def send (w : UdpPacket) (oldSocketFound : Bool) (id : Nat) (st : UdpState) : UdpState :=
  if w.sent && st.isOpen id then
    let (pleaseKeep, st) := if oldSocketFound then (true, st) else st.bRecfrom id w.received
    let st := st.touch id w.tickCount
    if pleaseKeep then st else st.deleteSocket id
  else st.deleteSocket id

def writeUdp (w : UdpPacket) (st : UdpState) : UdpState :=
  -- Too small, dropped; both sides are unsigned.
  if w.len < sizeofUdp then st
  else
    match st.findSocket w.srcPort w.destPort with
    | (some id, st) => st.send w true id
    | (none, st) =>
      let id := st.next
      let st := st.newSocket w
      if w.created then (st.addSocket id).send w false id else st.delete id

/-- `udp_read_completion`. What it does to a deleted object is not followed. -/
def readCompletion (id : Nat) (received isRouterShuttingDown : Bool) (tickCount : BitVec 32)
    (st : UdpState) : UdpState :=
  let st := { st with pending := st.pending.erase id }
  match st.objects id with
  | none => { st with handledDeleted := st.handledDeleted ++ [id] }
  | some cmpl =>
    if !isRouterShuttingDown && cmpl.s.isSome then
      match st.bRecfrom id received with
      | (true, st) => st.touch id tickCount
      | (false, st) => st.deleteSocket id
    else st.deleteSocket id

/-- The turn of a scan at entry `i`. -/
def closeAt (test : SocketT → Bool) (i : Nat) (st : UdpState) : UdpState :=
  match (st.allSockets[i]?).bind st.objects with
  | none => st
  | some cmpl =>
    if test cmpl then
      match cmpl.s with
      | none => st.deleteAt i
      -- The read completion will deallocate; the object keeps the socket.
      | some s => st.closesocket s
    else st

def expired (now : BitVec 32) (cmpl : SocketT) : Bool := !cmpl.permanent && now ≥ cmpl.socketTtl

/-- From the last entry down. -/
def closeOldLoop (now : BitVec 32) : Nat → UdpState → UdpState
  | 0, st => st
  | i + 1, st => closeOldLoop now i (st.closeAt (expired now) i)

def closeOldSockets (now : BitVec 32) (st : UdpState) : UdpState :=
  closeOldLoop now st.allSockets.length st

/-- From the first entry up, as long as there are any; `n` turns are enough. -/
def closeAllLoop : Nat → Nat → UdpState → UdpState
  | 0, _, st => st
  | n + 1, i, st =>
    if i < st.allSockets.length then closeAllLoop n (i + 1) (st.closeAt (fun _ => true) i) else st

def closeAllSockets (st : UdpState) : UdpState := closeAllLoop st.allSockets.length 0 st

end UdpState

inductive UdpEvent
  | write (w : UdpPacket)
  | completion (id : Nat) (received isRouterShuttingDown : Bool) (tickCount : BitVec 32)
  | expire (now : BitVec 32)
  | closeAll

/-- A read completes when it is outstanding. -/
def udpStep (st : UdpState) : UdpEvent → Option UdpState
  | .write w => some (st.writeUdp w)
  | .completion id received isRouterShuttingDown tickCount =>
    if id ∈ st.pending then some (st.readCompletion id received isRouterShuttingDown tickCount)
    else none
  | .expire now => some (st.closeOldSockets now)
  | .closeAll => some st.closeAllSockets

end BasiliskII.Router
