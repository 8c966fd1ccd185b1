import Mathlib.Data.List.Basic

/-!
# TCP slots

The slot of a connection in tcp.cpp of the Windows router, and the routines that
answer the Mac, start reads and writes and free the slot. A slot that is worked
on carries along what has been done outside of it. What Windows answers is a
parameter. Memory for a packet is taken to be there, and the event objects of
the slots are left out.
-/
namespace BasiliskII.Router

inductive TcpState
  | closed | listen | synSent | synRcvd | established | closeWait | lastAck
  | finwait1 | finwait2 | closing | timeWait
  deriving DecidableEq, Repr

def tcpFlagsAck : BitVec 8 := 0x10
def tcpFlagsPsh : BitVec 8 := 0x08
def tcpFlagsRst : BitVec 8 := 0x04
def tcpFlagsSyn : BitVec 8 := 0x02
def tcpFlagsFin : BitVec 8 := 0x01

/-- `ISSET` -/
def isSet (f x : BitVec 8) : Bool := f &&& x ≠ 0

def maxSegmentSize : Nat := 1460
def resendTimeout : BitVec 32 := 750
def synFloodProtectionTimeout : BitVec 32 := 5000

/-- A system socket; `INVALID_SOCKET` is `none`. -/
abbrev Socket := Nat

/-- A TCP packet. `mss` is what `process_options` finds in its options, 0 when it finds nothing. -/
structure TcpPacket where
  ttl : BitVec 8
  ipSrc : BitVec 32
  ipDest : BitVec 32
  srcPort : BitVec 16
  destPort : BitVec 16
  seq : BitVec 32
  ack : BitVec 32
  flags : BitVec 8
  window : BitVec 16
  mss : BitVec 32
  data : List (BitVec 8)
  deriving DecidableEq, Repr

/-- `tcp_socket_t`. `fromAddr` and `fromPort` are the address in `from`; a buffer is its contents
and the length in its `WSABUF`. -/
structure TcpSocket where
  s : Option Socket
  state : TcpState
  ipSrc : BitVec 32
  ipDest : BitVec 32
  srcPort : BitVec 16
  destPort : BitVec 16
  fromAddr : BitVec 32
  fromPort : BitVec 16
  readBuf : List (BitVec 8)
  readLen : BitVec 32
  bytesReceived : BitVec 32
  writeBuf : List (BitVec 8)
  writeLen : BitVec 32
  bytesWritten : BitVec 32
  remoteClosed : Bool
  acceptMoreDataFromMac : Bool
  seqIn : BitVec 32
  seqOut : BitVec 32
  macAck : BitVec 32
  bytesToSend : BitVec 32
  bytesRemainingToSend : BitVec 32
  macWindow : BitVec 16
  ourWindow : BitVec 16
  macMss : BitVec 16
  lastSeqOut : BitVec 32
  resendTimeout : BitVec 32
  streamToMacStalledUntil : BitVec 32
  timeWait : BitVec 32
  msl : BitVec 32
  child : Option Nat
  inUse : Bool
  deriving DecidableEq, Repr

/-- A slot as `init_tcp` leaves it. -/
def initSocket : TcpSocket where
  s := none
  state := .closed
  ipSrc := 0
  ipDest := 0
  srcPort := 0
  destPort := 0
  fromAddr := 0
  fromPort := 0
  readBuf := []
  readLen := 0
  bytesReceived := 0
  writeBuf := []
  writeLen := 0
  bytesWritten := 0
  remoteClosed := false
  acceptMoreDataFromMac := false
  seqIn := 0
  seqOut := 0
  macAck := 0
  bytesToSend := 0
  bytesRemainingToSend := 0
  macWindow := 0
  ourWindow := 0
  macMss := 0
  lastSeqOut := 0
  resendTimeout := 0
  streamToMacStalledUntil := 0
  timeWait := 0
  msl := 0
  child := none
  inUse := false

/-- What is done outside of the slot. A read or write is told when Windows has taken it. A listening
socket is closed with its slot, or dropped after a failing write. -/
inductive Effect
  | enqueuePacket (p : TcpPacket)
  | closesocket (s : Option Socket)
  | shutdown (s : Option Socket) (both : Bool)
  | wsaConnect (s : Option Socket) (addr : BitVec 32) (port : BitVec 16)
  | wsaRecv (s : Option Socket) (length : BitVec 32)
  | wsaSend (s : Option Socket) (bytes : List (BitVec 8))
  | setTtl (s : Option Socket) (ttl : BitVec 8)
  | allocListening (port : BitVec 16) (ip : BitVec 32)
  | closeListening (lst : Nat)
  | dropListening (lst : Nat)
  deriving DecidableEq, Repr

/-- How `WSARecv` or `WSASend` begins: done at once with a byte count, i/o pending, or an error. -/
inductive Started
  | completed (bytes : BitVec 32)
  | pending
  | failed
  deriving DecidableEq, Repr

/-- What the code finds during an event. The tick count may be read twice. `ftpDataPort`,
`ftpBuffer` and `listenSlot` are what comes of the FTP patch. -/
structure Env where
  tickCount : BitVec 32
  laterTickCount : BitVec 32
  isRouterShuttingDown : Bool
  recv : Started
  send : Started
  ftpDataPort : BitVec 16
  ftpBuffer : List (BitVec 8)
  listenSlot : Option Nat

/-- The router runs, all i/o is pending, and there is no FTP. -/
def quietEnv : Env where
  tickCount := 1000
  laterTickCount := 1000
  isRouterShuttingDown := false
  recv := .pending
  send := .pending
  ftpDataPort := 0
  ftpBuffer := []
  listenSlot := none

/-- A slot in the middle of an event. -/
structure Turn extends TcpSocket where
  effects : List Effect

def TcpSocket.begin (x : TcpSocket) : Turn := ⟨x, []⟩

def Turn.emit (x : Turn) (e : Effect) : Turn := { x with effects := x.effects ++ [e] }

/-- Bytes copied to the front of a buffer. -/
def overwrite (buf bytes : List (BitVec 8)) : List (BitVec 8) := bytes ++ buf.drop bytes.length

def freeSocket (x : Turn) : Turn :=
  let x := if x.s.isSome then { x.emit (.closesocket x.s) with s := none } else x
  let x := { x with
    state := .closed, streamToMacStalledUntil := 0, inUse := false, timeWait := 0 }
  let x := match x.child with
    | some lst => x.emit (.closeListening lst)
    | none => x
  { x with child := none }

/-- What `alloc_socket` makes of the slot it gives out. -/
def allocSocket (x : TcpSocket) : TcpSocket :=
  { x with
    inUse := true, s := none, state := .closed, remoteClosed := false
    acceptMoreDataFromMac := false, ipSrc := 0, ipDest := 0
    bytesReceived := 0, bytesWritten := 0
    readLen := BitVec.ofNat 32 maxSegmentSize, writeLen := BitVec.ofNat 32 maxSegmentSize
    macWindow := BitVec.ofNat 16 maxSegmentSize, ourWindow := BitVec.ofNat 16 maxSegmentSize
    macMss := 0, timeWait := 0, msl := 5000, seqIn := 0, seqOut := 1, macAck := 0
    streamToMacStalledUntil := 0, resendTimeout := Router.resendTimeout, child := none }

/-- `alloc_new_socket`, on the slot that `alloc_socket` has returned: whether the slot is kept.
`created` is what `socket` returns, `bound` whether `bind` succeeds. -/
def allocNewSocket (created : Option Socket) (bound : Bool) (srcPort destPort : BitVec 16)
    (ipDest : BitVec 32) (x : Turn) : Turn × Bool :=
  let x := { x with s := created }
  if created = none then (freeSocket x, false)
  else
    let x := { x with
      srcPort := srcPort, destPort := destPort, fromPort := destPort, fromAddr := ipDest }
    if bound then (x, true) else (freeSocket x, false)

/-- What `find_socket` does to a slot with the Mac's port and another remote port. -/
def forceClose (x : Turn) : Turn :=
  if x.s = none then { x with inUse := false } else freeSocket x

def tcpReply (flags : BitVec 8) (x : Turn) : Turn :=
  x.emit (.enqueuePacket {
    ttl := 128, ipSrc := x.ipDest, ipDest := x.ipSrc
    srcPort := x.destPort, destPort := x.srcPort
    seq := x.seqOut, ack := x.seqIn, flags := flags, window := x.ourWindow, mss := 0, data := [] })

def hasMacReadSpace (x : TcpSocket) : Bool := x.seqOut - x.macAck = 0

def bRecfrom (env : Env) (x : Turn) : Turn × Bool :=
  if !hasMacReadSpace x.toTcpSocket then
    ({ x with streamToMacStalledUntil := env.laterTickCount + x.resendTimeout }, true)
  else
    match env.recv with
    | .completed bytes =>
      ({ x.emit (.wsaRecv x.s x.readLen) with bytesReceived := bytes }, true)
    | .pending => (x.emit (.wsaRecv x.s x.readLen), true)
    | .failed => (x, false)

def bSend (env : Env) (x : Turn) : Turn × Bool :=
  let bytes := x.writeBuf.take x.writeLen.toNat
  match env.send with
  | .completed written => ({ x.emit (.wsaSend x.s bytes) with bytesWritten := written }, true)
  | .pending => (x.emit (.wsaSend x.s bytes), true)
  | .failed => (x, false)

def sendBuffer (resending : Bool) (x : Turn) : Turn :=
  if resending && x.lastSeqOut = 0 then x
  else
    let x := if resending then { x with seqOut := x.lastSeqOut }
      else { x with lastSeqOut := x.seqOut }
    let flags :=
      if x.bytesReceived = BitVec.ofNat 32 maxSegmentSize then tcpFlagsAck
      else tcpFlagsAck ||| tcpFlagsPsh
    { x.emit (.enqueuePacket {
        ttl := 128, ipSrc := x.ipDest, ipDest := x.ipSrc
        srcPort := x.destPort, destPort := x.srcPort
        seq := x.seqOut, ack := x.seqIn, flags := flags, window := x.ourWindow, mss := 0
        data := x.readBuf.take x.bytesReceived.toNat })
      with seqOut := x.seqOut + x.bytesReceived }

end BasiliskII.Router
