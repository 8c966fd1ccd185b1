import BasiliskII.Router.ToMac

/-!
# The stream from the Mac

What the Mac sends waits in the one write buffer of its slot until Windows has
taken all of it; then it is acknowledged and the slot takes more. Beside the
slot we keep the stream of the Mac, the write that is under way and the bytes
that Windows has taken so far.
-/
namespace BasiliskII.Router

open StepSystem

/-- What the Mac sends on a connection: its initial sequence number and its bytes, behind which
comes the FIN. -/
structure MacStream where
  isn : BitVec 32
  bytes : List (BitVec 8)
  deriving DecidableEq

/-- `writing` has been posted and not been completed. `acked` bytes have been acknowledged; `known`
and `fin` tell that the SYN and the FIN of the Mac have been taken up. -/
structure FromMac where
  slot : TcpSocket
  stream : MacStream
  reads : Nat
  writing : Option (List (BitVec 8))
  handed : List (BitVec 8)
  acked : Nat
  known : Bool
  fin : Bool

/-- A slot after `init_tcp`. -/
def FromMac.init : FromMac := ⟨initSocket, ⟨0, []⟩, 0, none, [], 0, false, false⟩

/-- An event, with the place in the stream of the data of its packet, or with the stream of the
connection it creates. -/
structure MacEvent where
  env : Env
  event : SlotEvent
  off : Nat
  stream : MacStream

def sendPosted (effects : List Effect) : Option (List (BitVec 8)) :=
  effects.findSome? fun e =>
    match e with
    | .wsaSend _ bytes => some bytes
    | _ => none

/-- The acknowledgement numbers that are sent to the Mac. -/
def acksSent (effects : List Effect) : List (BitVec 32) :=
  effects.filterMap fun e =>
    match e with
    | .enqueuePacket p => if isSet p.flags tcpFlagsAck then some p.ack else none
    | _ => none

/-- The packet takes the place `off` in the stream. One without data, SYN and FIN takes none. -/
def MacStream.Carries (stream : MacStream) (p : TcpPacket) (off : Nat) : Prop :=
  p.data ≠ [] ∨ isSet p.flags tcpFlagsSyn = true ∨ isSet p.flags tcpFlagsFin = true →
    off + p.data.length ≤ stream.bytes.length ∧
    p.data = (stream.bytes.drop off).take p.data.length ∧
    (if isSet p.flags tcpFlagsSyn then off = 0 ∧ p.seq = stream.isn
      else p.seq = stream.isn + 1 + BitVec.ofNat 32 off) ∧
    (isSet p.flags tcpFlagsFin = true → off + p.data.length = stream.bytes.length)

instance (stream : MacStream) (p : TcpPacket) (off : Nat) : Decidable (stream.Carries p off) :=
  inferInstanceAs (Decidable (_ → _))

/-- Packets come to a slot in use, carry a part of the stream and hold no FTP command; accepted
connections come to a slot just allocated, completions for a read or a write under way. -/
def FromMac.enabled (x : FromMac) (label : MacEvent) : Bool :=
  match label.event with
  | .packet p => x.slot.inUse && label.env.ftpDataPort = 0 &&
      p.data.length ≤ maxSegmentSize && x.stream.Carries p label.off
  | .accept .. => x.slot.inUse && x.slot.state = .closed
  | .read _ data => x.reads ≠ 0 && data.length ≤ maxSegmentSize
  | .write bytesWritten => x.writing.any fun bytes => bytesWritten.toNat ≤ bytes.length
  | _ => true

/-- The SYN of the Mac is taken up. -/
def takesSyn (x : TcpSocket) (p : TcpPacket) : Bool :=
  !isSet p.flags tcpFlagsRst && isSet p.flags tcpFlagsSyn &&
    (x.state = .closed || x.state = .synSent)

/-- The FIN of the Mac is taken up. -/
def takesFin (x : TcpSocket) (p : TcpPacket) : Bool :=
  !isSet p.flags tcpFlagsRst && isSet p.flags tcpFlagsFin &&
    (x.state = .established || x.state = .finwait1 || x.state = .finwait2)

/-- The data of the packet is taken up. In ESTABLISHED a FIN has been counted before. -/
def takesData (x : TcpSocket) (p : TcpPacket) : Bool :=
  !isSet p.flags tcpFlagsRst && !p.data.isEmpty &&
    (x.state = .established && x.acceptMoreDataFromMac &&
        p.seq = (if isSet p.flags tcpFlagsFin then x.seqIn + 1 else x.seqIn) ||
      x.state = .synRcvd && isSet p.flags tcpFlagsAck && p.seq = x.seqIn)

def FromMac.after (x : FromMac) (label : MacEvent) : FromMac :=
  let turn := slotEvent label.env x.slot label.event
  let slot := turn.toTcpSocket
  let reads := x.reads + readsStarted turn.effects
  match label.event with
  | .create .. => ⟨slot, label.stream, reads, x.writing, [], 0, false, false⟩
  | .packet p =>
    { x with
      slot := slot, reads := reads, writing := (sendPosted turn.effects).or x.writing
      known := x.known || takesSyn x.slot p, fin := x.fin || takesFin x.slot p }
  | .read .. => { x with slot := slot, reads := x.reads - 1 + readsStarted turn.effects }
  | .write bytesWritten =>
    let handed := x.handed ++ (x.writing.getD []).take bytesWritten.toNat
    -- The slot takes more data when all that it has taken so far is acknowledged.
    { x with
      slot := slot, reads := reads, writing := sendPosted turn.effects, handed := handed
      acked := if slot.acceptMoreDataFromMac then handed.length else x.acked }
  | _ => { x with slot := slot, reads := reads }

def fromMacStep (x : FromMac) (label : MacEvent) : Option FromMac :=
  if x.enabled label then some (x.after label) else none

/-- All data before the FIN has been acknowledged, or part of the last of it has been handed over
and nothing is left behind that. -/
def FromMac.Finishes (x : FromMac) : Prop :=
  (x.acked = x.handed.length → x.acked = x.stream.bytes.length) ∧
  ∀ bytes ∈ x.writing, x.handed.length + bytes.length = x.stream.bytes.length

instance (x : FromMac) : Decidable x.Finishes :=
  inferInstanceAs (Decidable (_ ∧ ∀ bytes ∈ x.writing, _))

/-- What the event has to be like. A slot is given out free, with no i/o under way. A FIN is taken
up behind all of the data, and data where the stream goes on: not a whole number of turns of the
sequence numbers away. -/
def FromMac.Regular (x : FromMac) (label : MacEvent) : Prop :=
  match label.event with
  | .create .. => x.slot.inUse = false ∧ x.reads = 0 ∧ x.writing = none
  | .packet p =>
    (takesFin x.slot p = true → x.known = true ∧ x.Finishes) ∧
    (takesData x.slot p = true → label.off = x.acked)
  | _ => True

instance (x : FromMac) : (label : MacEvent) → Decidable (x.Regular label)
  | ⟨_, .create .., _, _⟩ => inferInstanceAs (Decidable (_ ∧ _ ∧ _))
  | ⟨_, .packet _, _, _⟩ => inferInstanceAs (Decidable (_ ∧ _))
  | ⟨_, .accept .., _, _⟩ | ⟨_, .forceClose, _, _⟩ | ⟨_, .read .., _, _⟩ | ⟨_, .write _, _, _⟩
  | ⟨_, .network _, _, _⟩ | ⟨_, .timeout, _, _⟩ => inferInstanceAs (Decidable True)

/-- The acknowledgement is for what has been handed over, up to a segment less, or for the FIN. -/
def FromMac.Covers (x : FromMac) (ack : BitVec 32) : Prop :=
  ∃ k, ack = x.stream.isn + 1 + BitVec.ofNat 32 k ∧ x.handed.length ≤ k + maxSegmentSize ∧
    (k ≤ x.handed.length ∨
      k = x.stream.bytes.length + 1 ∧ x.handed = x.stream.bytes ∧ x.fin = true)

-- The part of a slot that is about the stream from the Mac.

/-- Packets that are sent acknowledge what has been taken so far. -/
structure KeepsWrite (x y : Turn) : Prop where
  seqIn : y.seqIn = x.seqIn
  accepts : y.acceptMoreDataFromMac = x.acceptMoreDataFromMac
  bytesToSend : y.bytesToSend = x.bytesToSend
  bytesRemaining : y.bytesRemainingToSend = x.bytesRemainingToSend
  writeBuf : y.writeBuf = x.writeBuf
  posted : sendPosted y.effects = sendPosted x.effects
  acks : ∀ p, .enqueuePacket p ∈ y.effects → .enqueuePacket p ∈ x.effects ∨ p.ack = x.seqIn

theorem KeepsWrite.refl (x : Turn) : KeepsWrite x x :=
  ⟨rfl, rfl, rfl, rfl, rfl, rfl, fun _ => .inl⟩

theorem KeepsWrite.trans {x y z : Turn} (first : KeepsWrite x y) (second : KeepsWrite y z) :
    KeepsWrite x z where
  seqIn := second.seqIn.trans first.seqIn
  accepts := second.accepts.trans first.accepts
  bytesToSend := second.bytesToSend.trans first.bytesToSend
  bytesRemaining := second.bytesRemaining.trans first.bytesRemaining
  writeBuf := second.writeBuf.trans first.writeBuf
  posted := second.posted.trans first.posted
  acks := by
    intro p sent
    rcases second.acks p sent with before | ack
    · exact first.acks p before
    · exact .inr (ack.trans first.seqIn)

theorem sendPosted_emit (x : Turn) (e : Effect) :
    sendPosted (x.emit e).effects = (sendPosted x.effects).or (sendPosted [e]) :=
  List.findSome?_append

/-- Neither a send nor a packet with another acknowledgement. -/
def Effect.Plain (x : TcpSocket) : Effect → Prop
  | .wsaSend .. => False
  | .enqueuePacket p => p.ack = x.seqIn
  | _ => True

theorem keepsWrite_emit (x : Turn) {e : Effect} (plain : e.Plain x.toTcpSocket) :
    KeepsWrite x (x.emit e) := by
  refine ⟨rfl, rfl, rfl, rfl, rfl, ?_, fun p sent => ?_⟩
  · have none : sendPosted [e] = none := by
      cases e with
      | wsaSend => exact plain.elim
      | _ => rfl
    rw [sendPosted_emit, none, Option.or_none]
  · rcases List.mem_append.mp sent with before | now
    · exact .inl before
    · cases List.mem_singleton.mp now
      exact .inr plain

/-- What of a slot is about the stream from the Mac. -/
def Turn.writeSide (x : Turn) :=
  (x.seqIn, x.acceptMoreDataFromMac, x.bytesToSend, x.bytesRemainingToSend, x.writeBuf, x.effects)

theorem KeepsWrite.update {x y z : Turn} (kept : KeepsWrite x y)
    (same : z.writeSide = y.writeSide) : KeepsWrite x z := by
  simp only [Turn.writeSide, Prod.mk.injEq] at same
  obtain ⟨seqIn, accepts, bytesToSend, bytesRemaining, writeBuf, effects⟩ := same
  exact kept.trans ⟨seqIn, accepts, bytesToSend, bytesRemaining, writeBuf, by rw [effects],
    fun _ sent => .inl (effects ▸ sent)⟩

theorem tcpReply_keepsWrite (flags : BitVec 8) (x : Turn) : KeepsWrite x (tcpReply flags x) :=
  keepsWrite_emit x rfl

theorem bRecfrom_keepsWrite (env : Env) (x : Turn) : KeepsWrite x (bRecfrom env x).1 := by
  have reading := keepsWrite_emit x (e := .wsaRecv x.s x.readLen) trivial
  unfold bRecfrom
  split
  · exact (KeepsWrite.refl x).update rfl
  · split
    · exact reading.update rfl
    · exact reading
    · exact .refl x

theorem sendBuffer_keepsWrite (resending : Bool) (x : Turn) :
    KeepsWrite x (sendBuffer resending x) := by
  unfold sendBuffer
  split
  · exact .refl x
  · cases resending
    · refine KeepsWrite.update (keepsWrite_emit x ?_) rfl
      exact rfl
    · refine KeepsWrite.update (keepsWrite_emit x ?_) rfl
      exact rfl

theorem freeSocket_keepsWrite (x : Turn) : KeepsWrite x (freeSocket x) := by
  have closing : KeepsWrite x (if x.s.isSome then
      { x.emit (.closesocket x.s) with s := none } else x) := by
    split
    · exact (keepsWrite_emit x (e := .closesocket x.s) trivial).update rfl
    · exact .refl x
  unfold freeSocket
  dsimp only
  split
  next lst _ =>
    exact ((closing.update rfl).trans (keepsWrite_emit _ (e := .closeListening lst) trivial)).update rfl
  · exact closing.update rfl

theorem replyFin_keepsWrite (next : TcpState) (x : Turn) : KeepsWrite x (replyFin next x) :=
  (tcpReply_keepsWrite _ x).update rfl

theorem readState_keepsWrite (env : Env) (bytesRead : BitVec 32) (x : Turn) :
    KeepsWrite x (readState env bytesRead x) := by
  unfold readState
  split
  · split
    · exact replyFin_keepsWrite _ x
    · exact .refl x
  · split
    · exact replyFin_keepsWrite _ x
    · exact .refl x
  · exact (tcpReply_keepsWrite _ x).update rfl
  · split
    · have closing := (replyFin_keepsWrite .lastAck x).trans
        (keepsWrite_emit _ (e := .closesocket (replyFin .lastAck x).s) trivial)
      dsimp only
      split
      · exact closing.update rfl
      · exact replyFin_keepsWrite _ x
    · exact .refl x
  · exact .refl x

theorem tcpReadCompletion_keepsWrite (env : Env) (error bytesRead : BitVec 32) (x : Turn) :
    KeepsWrite x (tcpReadCompletion env error bytesRead x) := by
  have received : KeepsWrite x { x with bytesReceived := bytesRead } := (KeepsWrite.refl x).update rfl
  have switched : ∀ z : Turn, KeepsWrite x z → KeepsWrite x (readState env bytesRead z) :=
    fun z kept => kept.trans (readState_keepsWrite env bytesRead z)
  have taken : ∀ z : Turn, KeepsWrite x z → KeepsWrite x (bRecfrom env z).1 :=
    fun z kept => kept.trans (bRecfrom_keepsWrite env z)
  unfold tcpReadCompletion
  dsimp only
  split
  · exact received
  · split
    · exact received.trans ((tcpReply_keepsWrite _ _).trans (freeSocket_keepsWrite _))
    · by_cases closed : bytesRead = 0
      · have shut := received.trans (keepsWrite_emit _ (e := .closesocket x.s) trivial)
        rw [if_pos closed]
        split
        · exact taken _ (switched _ (shut.update rfl))
        · exact switched _ (shut.update rfl)
      · have sent := received.trans (sendBuffer_keepsWrite false _)
        rw [if_neg closed]
        split
        · exact taken _ (switched _ sent)
        · exact switched _ sent

theorem networkEvent_keepsWrite (what : NetworkEvents) (x : Turn) :
    KeepsWrite x (networkEvent what x) := by
  unfold networkEvent
  split
  · cases what with
    | connect error =>
      dsimp only
      split
      · exact .refl x
      · unfold tcpConnectCallback
        split
        · exact (tcpReply_keepsWrite _ x).update rfl
        · exact .refl x
    | close => exact (KeepsWrite.refl x).update rfl
    | nothing => exact .refl x
    | failed notSocket =>
      dsimp only
      split
      · exact .refl x
      · exact freeSocket_keepsWrite x
  · exact .refl x

theorem checkTimeouts_keepsWrite (env : Env) (x : Turn) : KeepsWrite x (checkTimeouts env x) := by
  have stalled : KeepsWrite x
      { x with streamToMacStalledUntil := env.laterTickCount + x.resendTimeout } :=
    (KeepsWrite.refl x).update rfl
  unfold checkTimeouts
  repeat' split
  · exact freeSocket_keepsWrite x
  · exact .refl x
  · exact stalled.trans (sendBuffer_keepsWrite true _)
  · exact .refl x
  · exact (KeepsWrite.refl x).update rfl
  · exact .refl x
  · exact .refl x

theorem forceClose_keepsWrite (x : Turn) : KeepsWrite x (forceClose x) := by
  unfold forceClose
  split
  · exact (KeepsWrite.refl x).update rfl
  · exact freeSocket_keepsWrite x

theorem hearMac_keepsWrite (p : TcpPacket) (x : Turn) : KeepsWrite x (hearMac p x).1 := by
  obtain ⟨mss, length, noted⟩ := noteMac_eq p x
  unfold hearMac
  rw [noted]
  dsimp only
  split
  · exact (KeepsWrite.refl x).update rfl
  · exact (KeepsWrite.refl x).update rfl

end BasiliskII.Router
