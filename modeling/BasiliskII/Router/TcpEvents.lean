import BasiliskII.Router.TcpSocket

/-!
# What happens to a TCP slot

The completion routines, the callbacks, the slot's part of `write_tcp` and of
the thread that watches connects, closes and timeouts.
-/
namespace BasiliskII.Router

/-- The FIN to the Mac when the remote host has closed. -/
def replyFin (next : TcpState) (x : Turn) : Turn :=
  let x := tcpReply (tcpFlagsAck ||| tcpFlagsFin) x
  { x with seqOut := x.seqOut + 1, state := next }

/-- The switch of `tcp_read_completion`. -/
def readState (env : Env) (bytesRead : BitVec 32) (x : Turn) : Turn :=
  match x.state with
  | .synRcvd | .established => if bytesRead = 0 then replyFin .finwait1 x else x
  | .listen =>
    let x := tcpReply tcpFlagsSyn x
    { x with
      seqOut := x.seqOut + 1, state := .synSent
      timeWait := env.tickCount + synFloodProtectionTimeout }
  | .closeWait =>
    if bytesRead = 0 then
      let x := replyFin .lastAck x
      if x.remoteClosed then { x.emit (.closesocket x.s) with s := none } else x
    else x
  | _ => x

def tcpReadCompletion (env : Env) (error bytesRead : BitVec 32) (x : Turn) : Turn :=
  let x := { x with bytesReceived := bytesRead }
  if !x.inUse then x
  else if error ≠ 0 then freeSocket (tcpReply tcpFlagsRst x)
  else
    let x :=
      if bytesRead = 0 then { x.emit (.closesocket x.s) with s := none } else sendBuffer false x
    let x := readState env bytesRead x
    if !env.isRouterShuttingDown && x.s.isSome && x.state ≠ .listen then (bRecfrom env x).1 else x

def tcpWriteCompletion (env : Env) (bytesWritten : BitVec 32) (x : Turn) : Turn :=
  let x := { x with
    bytesWritten := bytesWritten, bytesRemainingToSend := x.bytesRemainingToSend - bytesWritten }
  if !x.inUse then x
  else if env.isRouterShuttingDown || x.s = none then x
  else if x.bytesRemainingToSend = 0 then
    let x := { x with
      seqIn := x.seqIn + x.bytesToSend, bytesToSend := 0, bytesRemainingToSend := 0 }
    { tcpReply tcpFlagsAck x with acceptMoreDataFromMac := true }
  else
    let rest := (x.writeBuf.drop bytesWritten.toNat).take x.bytesRemainingToSend.toNat
    (bSend env { x with
      writeLen := x.bytesRemainingToSend, writeBuf := overwrite x.writeBuf rest }).1

def tcpConnectCallback (x : Turn) : Turn :=
  match x.state with
  | .listen =>
    let x := tcpReply (tcpFlagsSyn ||| tcpFlagsAck) x
    { x with seqOut := x.seqOut + 1, state := .synRcvd }
  | _ => x

/-- `tcp_accept_callback`, on the slot of `alloc_new_socket`. -/
def tcpAcceptCallback (env : Env) (s : Socket) (macosIpAddress : BitVec 32)
    (srcPort destPort : BitVec 16) (ipDest : BitVec 32) (x : Turn) : Turn :=
  let x := { x with
    s := some s, state := .listen, srcPort := srcPort, destPort := destPort
    ipSrc := macosIpAddress, ipDest := ipDest, seqOut := 1, seqIn := 0, macAck := 1 }
  let x := tcpReply tcpFlagsSyn x
  { x with
    seqOut := x.seqOut + 1, state := .synSent
    timeWait := env.tickCount + synFloodProtectionTimeout }

/-- The FIN of the Mac when the remote host has closed already. -/
def takeFin (x : Turn) : Turn :=
  let x := tcpReply tcpFlagsAck { x with seqIn := x.seqIn + 1 }
  if x.remoteClosed then { x.emit (.closesocket x.s) with s := none }
  else x.emit (.shutdown x.s false)

def startTimeWait (env : Env) (x : Turn) : Turn :=
  { x with state := .timeWait, timeWait := env.tickCount + 2 * x.msl }

/-- The state machine of `write_tcp`, with the values it gives `handle_data` and
`initiate_read`. -/
def stateMachine (env : Env) (p : TcpPacket) (x : Turn) : Turn × Bool × Bool :=
  let ack := isSet p.flags tcpFlagsAck
  let syn := isSet p.flags tcpFlagsSyn
  let fin := isSet p.flags tcpFlagsFin
  match x.state with
  | .closed =>
    let x := { x with
      srcPort := p.srcPort, destPort := p.destPort, ipSrc := p.ipSrc, ipDest := p.ipDest }
    if syn then
      let x := { x with seqOut := 1, seqIn := p.seq + 1, state := .listen }
      (x.emit (.wsaConnect x.s x.fromAddr x.fromPort), false, false)
    else (freeSocket x, false, false)
  | .listen => (x, false, false)
  | .synSent =>
    if syn && ack then
      let x := tcpReply tcpFlagsAck { x with seqIn := p.seq + 1 }
      ({ x with state := .established, acceptMoreDataFromMac := true, timeWait := 0 }, false, true)
    else if syn then
      let x := tcpReply (tcpFlagsAck ||| tcpFlagsSyn) { x with seqIn := p.seq + 1 }
      ({ x with seqOut := x.seqOut + 1, state := .synRcvd, timeWait := 0 }, false, false)
    else if ack then ({ x with state := .finwait2, timeWait := 0 }, false, false)
    else (x, false, false)
  | .synRcvd =>
    if ack then ({ x with state := .established, acceptMoreDataFromMac := true }, true, true)
    else (x, false, false)
  | .established =>
    if fin then
      let x := tcpReply tcpFlagsAck { x with seqIn := x.seqIn + 1 }
      ({ x.emit (.shutdown x.s false) with state := .closeWait }, true, false)
    else (x, true, false)
  | .closeWait => (x, false, false)
  | .lastAck => (if ack then freeSocket x else x, false, false)
  | .finwait1 =>
    if fin && ack then (startTimeWait env (takeFin x), false, false)
    else if fin then ({ takeFin x with state := .closing }, false, false)
    else if ack then ({ x with state := .finwait2 }, false, false)
    else (x, false, false)
  | .finwait2 => (if fin then startTimeWait env (takeFin x) else x, false, false)
  | .closing => (if ack then startTimeWait env x else x, false, false)
  | .timeWait => (x, false, false)

/-- The FTP patch: the slot, and the listening socket that a failing write closes. -/
def ftpPatch (env : Env) (x : Turn) : Turn × Option Nat :=
  if env.ftpDataPort = 0 then (x, some 1)
  else
    let x := x.emit (.allocListening env.ftpDataPort x.ipDest)
    match env.listenSlot with
    | none => (x, none)
    | some lst =>
      let count := BitVec.ofNat 32 env.ftpBuffer.length
      -- `bytes_to_send` is left alone for the acknowledgement
      ({ x with
        child := some lst, writeBuf := overwrite x.writeBuf env.ftpBuffer
        writeLen := count, bytesRemainingToSend := count }, some lst)

/-- The data of a packet is put in the buffer for the remote host. -/
def bufferData (p : TcpPacket) (x : Turn) : Turn :=
  let data := p.data.take maxSegmentSize
  let dlen := BitVec.ofNat 32 data.length
  { x.emit (.setTtl x.s p.ttl) with
    acceptMoreDataFromMac := false, writeBuf := overwrite x.writeBuf data
    writeLen := dlen, bytesRemainingToSend := dlen, bytesToSend := dlen }

/-- What `write_tcp` does with the data of a packet. -/
def takeData (env : Env) (p : TcpPacket) (x : Turn) : Turn :=
  if x.seqIn ≠ p.seq then x
  else
    let (x, lst) := ftpPatch env (bufferData p x)
    let (x, sent) := bSend env x
    match sent, lst with
    | false, some lst => { x.emit (.dropListening lst) with child := none }
    | _, _ => x

/-- What `write_tcp` notes of a packet before the state machine. -/
def noteMac (p : TcpPacket) (x : Turn) : Turn :=
  let x := { x with macWindow := p.window }
  let x :=
    if isSet p.flags tcpFlagsSyn && p.mss ≠ 0 then
      { x with
        macMss := p.mss.setWidth 16, readLen := if p.mss < x.readLen then p.mss else x.readLen }
    else x
  -- The sequence number Mac expects to see next time.
  { x with macAck := p.ack }

/-- Whether the Mac has acknowledged what it was sent and the stalled read can go on. -/
def resumesRead (x : TcpSocket) : Bool :=
  x.streamToMacStalledUntil ≠ 0 && x.macAck = x.seqOut &&
    (x.state = .established || x.state = .closeWait) && hasMacReadSpace x

/-- `write_tcp` before its state machine, and whether a stalled read goes on. -/
def hearMac (p : TcpPacket) (x : Turn) : Turn × Bool :=
  let x := noteMac p x
  if resumesRead x.toTcpSocket then ({ x with streamToMacStalledUntil := 0 }, true) else (x, false)

/-- `write_tcp` behind its state machine. -/
def serveMac (env : Env) (p : TcpPacket) (handleData initiateRead : Bool) (x : Turn) : Turn :=
  let x :=
    if handleData && !p.data.isEmpty && x.acceptMoreDataFromMac then takeData env p x else x
  if initiateRead then (bRecfrom env x).1 else x

/-- `write_tcp`, on the slot that was found or allocated. -/
def writeTcp (env : Env) (p : TcpPacket) (x : Turn) : Turn :=
  if isSet p.flags tcpFlagsRst then
    freeSocket (if x.s.isSome then x.emit (.shutdown x.s true) else x)
  else
    let (x, resume) := hearMac p x
    let (x, handleData, initiateRead) := stateMachine env p x
    serveMac env p handleData (resume || initiateRead) x

/-- What `WSAEnumNetworkEvents` tells about a slot. -/
inductive NetworkEvents
  | connect (error : Bool)
  | close
  | nothing
  | failed (notSocket : Bool)
  deriving DecidableEq, Repr

/-- The event branch of `tcp_connect_close_thread`. -/
def networkEvent (what : NetworkEvents) (x : Turn) : Turn :=
  if x.inUse then
    match what with
    | .connect error => if error then x else tcpConnectCallback x
    | .close => { x with remoteClosed := true }
    | .nothing => x
    | .failed notSocket => if notSocket then x else freeSocket x
  else x

/-- The timeouts of `tcp_connect_close_thread`. -/
def checkTimeouts (env : Env) (x : Turn) : Turn :=
  if x.inUse then
    if x.timeWait ≠ 0 then
      if env.tickCount ≥ x.timeWait then freeSocket x else x
    else if x.streamToMacStalledUntil ≠ 0 then
      if x.state = .established then
        if env.tickCount ≥ x.streamToMacStalledUntil then
          sendBuffer true
            { x with streamToMacStalledUntil := env.laterTickCount + x.resendTimeout }
        else x
      else { x with streamToMacStalledUntil := 0 }
    else x
  else x

/-- What can happen to a slot. `alloc_socket` gives out a slot in use when there is no other, and
leaves it as it is. A read completes with the bytes that have arrived. -/
inductive SlotEvent
  | create (created : Option Socket) (bound : Bool) (srcPort destPort : BitVec 16)
    (ipDest : BitVec 32)
  | accept (s : Socket) (macosIpAddress : BitVec 32) (srcPort destPort : BitVec 16)
    (ipDest : BitVec 32)
  | packet (p : TcpPacket)
  | forceClose
  | read (error : BitVec 32) (data : List (BitVec 8))
  | write (bytesWritten : BitVec 32)
  | network (what : NetworkEvents)
  | timeout

def slotEvent (env : Env) (x : TcpSocket) : SlotEvent → Turn
  | .create created bound srcPort destPort ipDest =>
    let x := if x.inUse then x else allocSocket x
    (allocNewSocket created bound srcPort destPort ipDest x.begin).1
  | .accept s macosIpAddress srcPort destPort ipDest =>
    tcpAcceptCallback env s macosIpAddress srcPort destPort ipDest x.begin
  | .packet p => writeTcp env p x.begin
  | .forceClose => forceClose x.begin
  | .read error data =>
    tcpReadCompletion env error (BitVec.ofNat 32 data.length)
      { x with readBuf := overwrite x.readBuf data }.begin
  | .write bytesWritten => tcpWriteCompletion env bytesWritten x.begin
  | .network what => networkEvent what x.begin
  | .timeout => checkTimeouts env x.begin

end BasiliskII.Router
