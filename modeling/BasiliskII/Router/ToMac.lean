import BasiliskII.Library.StepSystem
import BasiliskII.Router.TcpFrame

/-!
# The stream to the Mac

Data of the remote host waits in the one read buffer of its slot until the Mac
has acknowledged it. Beside the slot we keep how many reads are under way, what
data has been sent last, and whether the Mac has acknowledged it.
-/
namespace BasiliskII.Router

open StepSystem

structure ToMac where
  slot : TcpSocket
  reads : Nat
  sent : Option (BitVec 32 × List (BitVec 8))
  acked : Bool

/-- A slot after `init_tcp`. -/
def ToMac.init : ToMac := ⟨initSocket, 0, none, true⟩

def isRead : Effect → Bool
  | .wsaRecv .. => true
  | _ => false

/-- The number of reads that have been started. -/
def readsStarted (effects : List Effect) : Nat := effects.countP isRead

/-- Sequence number and data of the first packet with data. -/
def dataSent (effects : List Effect) : Option (BitVec 32 × List (BitVec 8)) :=
  effects.findSome? fun e =>
    match e with
    | .enqueuePacket p => if p.data.isEmpty then none else some (p.seq, p.data)
    | _ => none

/-- The packet acknowledges all of the data. -/
def acknowledges (p : TcpPacket) : Option (BitVec 32 × List (BitVec 8)) → Bool
  | some (seq, data) => isSet p.flags tcpFlagsAck && p.ack = seq + BitVec.ofNat 32 data.length
  | none => false

/-- Packets come to a slot in use, accepted connections to a slot just allocated, and completions
for a read under way with no more data than fits in the buffer. -/
def ToMac.enabled (x : ToMac) : SlotEvent → Bool
  | .packet _ => x.slot.inUse
  | .accept .. => x.slot.inUse && x.slot.state = .closed
  | .read _ data => x.reads ≠ 0 && data.length ≤ maxSegmentSize
  | _ => true

def ToMac.after (x : ToMac) (env : Env) (event : SlotEvent) : ToMac :=
  let turn := slotEvent env x.slot event
  let slot := turn.toTcpSocket
  let started := readsStarted turn.effects
  match event with
  | .create .. => ⟨slot, x.reads + started, none, true⟩
  | .read .. =>
    match dataSent turn.effects with
    | some data => ⟨slot, x.reads - 1 + started, some data, false⟩
    | none => ⟨slot, x.reads - 1 + started, x.sent, x.acked⟩
  | .packet p => ⟨slot, x.reads + started, x.sent, x.acked || acknowledges p x.sent⟩
  | _ => ⟨slot, x.reads + started, x.sent, x.acked⟩

def toMacStep (x : ToMac) (label : Env × SlotEvent) : Option ToMac :=
  if x.enabled label.2 then some (x.after label.1 label.2) else none

/-- The packet brings the slot to ESTABLISHED. -/
def entersEstablished (x : TcpSocket) (p : TcpPacket) : Bool :=
  isSet p.flags tcpFlagsAck &&
    (x.state = .synRcvd || x.state = .synSent && isSet p.flags tcpFlagsSyn)

/-- The states in which the remote host is read from. -/
def TcpState.Reading (state : TcpState) : Prop := state = .established ∨ state = .closeWait

instance (state : TcpState) : Decidable state.Reading := inferInstanceAs (Decidable (_ ∨ _))

/-- What the event has to be like. No read fails to start and no resend time is 0. A slot is given
out free, with no read under way. The Mac acknowledges with an ACK, not in advance, and takes the
SYN up unless nothing has ever been sent from the slot. The timer does not come upon a stalled read
in CLOSE_WAIT. -/
def ToMac.Regular (x : ToMac) (label : Env × SlotEvent) : Prop :=
  label.1.isRouterShuttingDown = false ∧ label.1.recv ≠ .failed ∧
  label.1.laterTickCount + x.slot.resendTimeout ≠ 0 ∧
  match label.2 with
  | .create .. => x.slot.inUse = false ∧ x.reads = 0
  | .packet p => isSet p.flags tcpFlagsRst = false →
    (x.slot.streamToMacStalledUntil ≠ 0 → p.ack = x.slot.seqOut →
      isSet p.flags tcpFlagsAck = true) ∧
    (entersEstablished x.slot p = true → p.ack = x.slot.seqOut ∨ x.slot.lastSeqOut = 0)
  | .read _ data =>
    data ≠ [] → x.slot.macAck ≠ x.slot.seqOut + BitVec.ofNat 32 data.length
  | .timeout => x.slot.inUse = true → x.slot.timeWait = 0 →
    x.slot.streamToMacStalledUntil ≠ 0 → x.slot.state ≠ .closeWait
  | _ => True

instance (x : ToMac) (label : Env × SlotEvent) : Decidable (x.Regular label) := by
  obtain ⟨env, event⟩ := label
  unfold ToMac.Regular
  cases event <;> infer_instance

-- The part of a slot that is about the stream to the Mac.

structure KeepsFlow (x y : Turn) : Prop where
  s : y.s = x.s
  inUse : y.inUse = x.inUse
  stalled : y.streamToMacStalledUntil = x.streamToMacStalledUntil
  lastSeqOut : y.lastSeqOut = x.lastSeqOut
  readBuf : y.readBuf = x.readBuf
  bytesReceived : y.bytesReceived = x.bytesReceived
  seqOut : y.seqOut = x.seqOut
  resendTimeout : y.resendTimeout = x.resendTimeout
  macAck : y.macAck = x.macAck
  started : readsStarted y.effects = readsStarted x.effects

theorem KeepsFlow.refl (x : Turn) : KeepsFlow x x := ⟨rfl, rfl, rfl, rfl, rfl, rfl, rfl, rfl, rfl, rfl⟩

theorem KeepsFlow.trans {x y z : Turn} (first : KeepsFlow x y) (second : KeepsFlow y z) :
    KeepsFlow x z where
  s := second.s.trans first.s
  inUse := second.inUse.trans first.inUse
  stalled := second.stalled.trans first.stalled
  lastSeqOut := second.lastSeqOut.trans first.lastSeqOut
  readBuf := second.readBuf.trans first.readBuf
  bytesReceived := second.bytesReceived.trans first.bytesReceived
  seqOut := second.seqOut.trans first.seqOut
  resendTimeout := second.resendTimeout.trans first.resendTimeout
  macAck := second.macAck.trans first.macAck
  started := second.started.trans first.started

theorem readsStarted_emit (x : Turn) {e : Effect} (other : isRead e = false) :
    readsStarted (x.emit e).effects = readsStarted x.effects := by
  unfold readsStarted Turn.emit
  rw [List.countP_append, List.countP_singleton, if_neg (by simp [other]), Nat.add_zero]

theorem keepsFlow_emit (x : Turn) {e : Effect} (other : isRead e = false) :
    KeepsFlow x (x.emit e) := ⟨rfl, rfl, rfl, rfl, rfl, rfl, rfl, rfl, rfl, readsStarted_emit x other⟩

theorem bSend_keepsFlow (env : Env) (x : Turn) : KeepsFlow x (bSend env x).1 := by
  have sent := keepsFlow_emit x (e := .wsaSend x.s (x.writeBuf.take x.writeLen.toNat)) rfl
  unfold bSend
  dsimp only
  split
  · exact sent.trans ⟨rfl, rfl, rfl, rfl, rfl, rfl, rfl, rfl, rfl, rfl⟩
  · exact sent
  · exact .refl x

theorem ftpPatch_keepsFlow (env : Env) (x : Turn) : KeepsFlow x (ftpPatch env x).1 := by
  unfold ftpPatch
  split
  · exact .refl x
  · have listening := keepsFlow_emit x (e := .allocListening env.ftpDataPort x.ipDest) rfl
    dsimp only
    split
    · exact listening
    · exact listening.trans ⟨rfl, rfl, rfl, rfl, rfl, rfl, rfl, rfl, rfl, rfl⟩

theorem takeData_keepsFlow (env : Env) (p : TcpPacket) (x : Turn) :
    KeepsFlow x (takeData env p x) := by
  unfold takeData
  split
  · exact .refl x
  · have buffered : KeepsFlow x (bufferData p x) :=
      (keepsFlow_emit x (e := .setTtl x.s p.ttl) rfl).trans
        ⟨rfl, rfl, rfl, rfl, rfl, rfl, rfl, rfl, rfl, rfl⟩
    have sent := (buffered.trans (ftpPatch_keepsFlow env _)).trans (bSend_keepsFlow env _)
    dsimp only
    split
    next lst _ _ =>
      exact (sent.trans (keepsFlow_emit _ (e := .dropListening lst) rfl)).trans
        ⟨rfl, rfl, rfl, rfl, rfl, rfl, rfl, rfl, rfl, rfl⟩
    · exact sent

theorem sub_eq_zero_iff (a b : BitVec 32) : a - b = 0 ↔ a = b := by
  constructor
  · intro difference
    bv_omega
  · rintro rfl
    exact BitVec.sub_self a

theorem bRecfrom_flow {env : Env} (x : Turn) (starts : env.recv ≠ .failed) :
    let y := (bRecfrom env x).1
    y.s = x.s ∧ y.inUse = x.inUse ∧ y.state = x.state ∧
    if x.seqOut = x.macAck then
      readsStarted y.effects = readsStarted x.effects + 1 ∧
        y.streamToMacStalledUntil = x.streamToMacStalledUntil
    else
      readsStarted y.effects = readsStarted x.effects ∧
        y.streamToMacStalledUntil = env.laterTickCount + x.resendTimeout ∧
        y.lastSeqOut = x.lastSeqOut ∧ y.seqOut = x.seqOut ∧ y.readBuf = x.readBuf ∧
        y.bytesReceived = x.bytesReceived := by
  have space : hasMacReadSpace x.toTcpSocket = true ↔ x.seqOut = x.macAck := by
    rw [hasMacReadSpace, decide_eq_true_iff]
    exact sub_eq_zero_iff x.seqOut x.macAck
  have posted : readsStarted (x.emit (.wsaRecv x.s x.readLen)).effects =
      readsStarted x.effects + 1 := List.countP_append ..
  dsimp only
  unfold bRecfrom
  by_cases room : x.seqOut = x.macAck
  · rw [if_pos room, if_neg (by simp [space.mpr room])]
    split
    · exact ⟨rfl, rfl, rfl, posted, rfl⟩
    · exact ⟨rfl, rfl, rfl, posted, rfl⟩
    next failed => exact absurd failed starts
  · have stalled : (!hasMacReadSpace x.toTcpSocket) = true := by
      rw [Bool.not_eq_true', Bool.eq_false_iff]
      exact fun full => room (space.mp full)
    rw [if_neg room, if_pos stalled]
    exact ⟨rfl, rfl, rfl, rfl, rfl, rfl, rfl, rfl, rfl⟩

theorem noteMac_eq (p : TcpPacket) (x : Turn) : ∃ mss length,
    noteMac p x =
      { x with macWindow := p.window, macMss := mss, readLen := length, macAck := p.ack } := by
  unfold noteMac
  dsimp only
  split
  · exact ⟨_, _, rfl⟩
  · exact ⟨x.macMss, x.readLen, rfl⟩

/-- What `write_tcp` notes of a packet. -/
structure Hears (p : TcpPacket) (x y : Turn) (resume : Bool) : Prop where
  s : y.s = x.s
  lastSeqOut : y.lastSeqOut = x.lastSeqOut
  readBuf : y.readBuf = x.readBuf
  bytesReceived : y.bytesReceived = x.bytesReceived
  seqOut : y.seqOut = x.seqOut
  resendTimeout : y.resendTimeout = x.resendTimeout
  macAck : y.macAck = p.ack
  effects : y.effects = x.effects
  resumes : resume = true ↔
    x.streamToMacStalledUntil ≠ 0 ∧ p.ack = x.seqOut ∧ x.state.Reading
  stalled : y.streamToMacStalledUntil = if resume then 0 else x.streamToMacStalledUntil

theorem hearMac_hears (p : TcpPacket) (x : Turn) : Hears p x (hearMac p x).1 (hearMac p x).2 := by
  obtain ⟨mss, length, noted⟩ := noteMac_eq p x
  have resumes : resumesRead (noteMac p x).toTcpSocket = true ↔
      x.streamToMacStalledUntil ≠ 0 ∧ p.ack = x.seqOut ∧ x.state.Reading := by
    rw [noted]
    simp only [resumesRead, hasMacReadSpace, TcpState.Reading, Bool.and_eq_true, Bool.or_eq_true,
      decide_eq_true_iff]
    constructor
    · rintro ⟨⟨⟨stalled, ack⟩, reading⟩, _⟩
      exact ⟨stalled, ack, reading⟩
    · rintro ⟨stalled, ack, reading⟩
      exact ⟨⟨⟨stalled, ack⟩, reading⟩, (sub_eq_zero_iff _ _).mpr ack.symm⟩
  unfold hearMac
  rw [noted] at resumes ⊢
  dsimp only
  split
  next resume =>
    exact ⟨rfl, rfl, rfl, rfl, rfl, rfl, rfl, rfl, iff_of_true rfl (resumes.mp resume), rfl⟩
  next stays =>
    exact ⟨rfl, rfl, rfl, rfl, rfl, rfl, rfl, rfl,
      iff_of_false Bool.false_ne_true (fun holds => stays (resumes.mpr holds)), rfl⟩

/-- The states before the connection is there. -/
def TcpState.Opening : TcpState → Prop
  | .closed | .listen | .synSent | .synRcvd => True
  | _ => False

theorem TcpState.Opening.unread {state : TcpState} (opening : state.Opening) :
    ¬state.Reading := by
  rintro (rfl | rfl) <;> exact opening

theorem TcpState.not_reading {state : TcpState} (established : state ≠ .established)
    (closeWait : state ≠ .closeWait) : ¬state.Reading :=
  fun reading => reading.elim established closeWait

theorem tcpReply_keepsFlow (flags : BitVec 8) (x : Turn) : KeepsFlow x (tcpReply flags x) :=
  keepsFlow_emit x rfl

theorem stateMachine_reading (env : Env) (p : TcpPacket) {x : Turn} (reading : x.state.Reading) :
    KeepsFlow x (stateMachine env p x).1 ∧ (stateMachine env p x).1.state.Reading ∧
      (stateMachine env p x).2.2 = false := by
  unfold stateMachine
  rcases reading with state | state <;> rw [state] <;> dsimp only
  · split
    · refine ⟨?_, .inr rfl, rfl⟩
      have replied := tcpReply_keepsFlow tcpFlagsAck { x with seqIn := x.seqIn + 1 }
      have closed := replied.trans (keepsFlow_emit _ (e := .shutdown x.s false) rfl)
      exact ⟨closed.s, closed.inUse, closed.stalled, closed.lastSeqOut, closed.readBuf,
        closed.bytesReceived, closed.seqOut, closed.resendTimeout, closed.macAck, closed.started⟩
    · exact ⟨.refl x, .inl state, rfl⟩
  · exact ⟨.refl x, .inr state, rfl⟩

theorem takeFin_flow (x : Turn) : (takeFin x).streamToMacStalledUntil = x.streamToMacStalledUntil ∧
    readsStarted (takeFin x).effects = readsStarted x.effects := by
  have replied := tcpReply_keepsFlow tcpFlagsAck { x with seqIn := x.seqIn + 1 }
  unfold takeFin
  dsimp only
  split
  · exact ⟨rfl, (keepsFlow_emit _ rfl).started.trans replied.started⟩
  · exact ⟨rfl, (keepsFlow_emit _ rfl).started.trans replied.started⟩

/-- Without anything to do with the stream. -/
structure StaysOff (x y : Turn) : Prop where
  off : ¬y.state.Reading
  stalled : y.streamToMacStalledUntil = x.streamToMacStalledUntil
  started : readsStarted y.effects = readsStarted x.effects
  opening : y.state.Opening → x.state.Opening ∧ y.s = x.s

/-- On the way down nothing is read, and nothing is opened any more. -/
theorem StaysOff.goesDown {x y : Turn} (off : ¬y.state.Reading) (down : ¬y.state.Opening)
    (stalled : y.streamToMacStalledUntil = x.streamToMacStalledUntil)
    (started : readsStarted y.effects = readsStarted x.effects) : StaysOff x y :=
  ⟨off, stalled, started, fun opening => absurd opening down⟩

/-- From a state that is not read in, a packet frees the slot, establishes the connection, or has
nothing to do with the stream. -/
theorem stateMachine_notReading (env : Env) (p : TcpPacket) {x : Turn} (off : ¬x.state.Reading) :
    (stateMachine env p x).1.inUse = false ∨
    (entersEstablished x.toTcpSocket p = true ∧ x.state.Opening ∧
      (stateMachine env p x).1.state = .established ∧ (stateMachine env p x).2.2 = true ∧
      KeepsFlow x (stateMachine env p x).1) ∨
    (StaysOff x (stateMachine env p x).1 ∧ (stateMachine env p x).2.2 = false) := by
  have same : StaysOff x x := ⟨off, rfl, rfl, fun opening => ⟨opening, rfl⟩⟩
  have fin := takeFin_flow x
  have replied := fun flags y => (tcpReply_keepsFlow flags y).started
  unfold entersEstablished stateMachine startTimeWait
  cases state : x.state <;> dsimp only
  case closed =>
    split
    · refine .inr (.inr ⟨⟨TcpState.not_reading nofun nofun, rfl, ?_, fun _ => ⟨?_, rfl⟩⟩, rfl⟩)
      · exact (keepsFlow_emit _ rfl).started
      · rw [state]
        trivial
    · exact .inl (freeSocket_inUse _)
  case synSent =>
    split
    next set =>
      obtain ⟨syn, ack⟩ := Bool.and_eq_true_iff.mp set
      refine .inr (.inl ⟨by simp [syn, ack], trivial, rfl, rfl, ?_⟩)
      exact ⟨rfl, rfl, rfl, rfl, rfl, rfl, rfl, rfl, rfl, replied _ _⟩
    · split
      · refine .inr (.inr ⟨⟨TcpState.not_reading nofun nofun, rfl, replied _ _, fun _ => ?_⟩, rfl⟩)
        rw [state]
        exact ⟨trivial, rfl⟩
      · split
        · exact .inr (.inr ⟨.goesDown (TcpState.not_reading nofun nofun) not_false rfl rfl, rfl⟩)
        · exact .inr (.inr ⟨same, rfl⟩)
  case synRcvd =>
    split
    next ack =>
      refine .inr (.inl ⟨by simp [ack], trivial, rfl, rfl, ?_⟩)
      exact ⟨rfl, rfl, rfl, rfl, rfl, rfl, rfl, rfl, rfl, rfl⟩
    · exact .inr (.inr ⟨same, rfl⟩)
  case established => exact absurd (.inl state) off
  case closeWait => exact absurd (.inr state) off
  case lastAck =>
    split
    · exact .inl (freeSocket_inUse _)
    · exact .inr (.inr ⟨same, rfl⟩)
  case finwait1 =>
    split
    · exact .inr (.inr ⟨.goesDown (TcpState.not_reading nofun nofun) not_false fin.1 fin.2, rfl⟩)
    · split
      · exact .inr (.inr ⟨.goesDown (TcpState.not_reading nofun nofun) not_false fin.1 fin.2, rfl⟩)
      · split
        · exact .inr (.inr ⟨.goesDown (TcpState.not_reading nofun nofun) not_false rfl rfl, rfl⟩)
        · exact .inr (.inr ⟨same, rfl⟩)
  case finwait2 =>
    refine .inr (.inr ⟨?_, rfl⟩)
    split
    · exact .goesDown (TcpState.not_reading nofun nofun) not_false fin.1 fin.2
    · exact same
  case closing =>
    refine .inr (.inr ⟨?_, rfl⟩)
    split
    · exact .goesDown (TcpState.not_reading nofun nofun) not_false rfl rfl
    · exact same
  case listen => exact .inr (.inr ⟨same, rfl⟩)
  case timeWait => exact .inr (.inr ⟨same, rfl⟩)

/-- Behind the state machine `write_tcp` changes nothing in the stream but to start a read. -/
theorem writeTcp_flow (env : Env) {p : TcpPacket} (x : Turn)
    (no_reset : ¬isSet p.flags tcpFlagsRst = true) :
    ∃ y, KeepsFlow (stateMachine env p (hearMac p x).1).1 y ∧
      y.state = (stateMachine env p (hearMac p x).1).1.state ∧
      writeTcp env p x =
        if ((hearMac p x).2 || (stateMachine env p (hearMac p x).1).2.2) = true then
          (bRecfrom env y).1
        else y := by
  unfold writeTcp serveMac
  rw [if_neg no_reset]
  dsimp only
  by_cases data : ((stateMachine env p (hearMac p x).1).2.1 && !p.data.isEmpty &&
      (stateMachine env p (hearMac p x).1).1.acceptMoreDataFromMac) = true
  · rw [if_pos data]
    exact ⟨_, takeData_keepsFlow env p _, (takeData_keepsState env p _).state, rfl⟩
  · rw [if_neg data]
    exact ⟨_, .refl _, rfl, rfl⟩

end BasiliskII.Router
