import BasiliskII.Router.FromMac

/-!
# What a packet does to the stream from the Mac

The SYN and the FIN move the sequence number that is expected, wherever their
packet lies in the stream; only then the data is compared with it.
-/
namespace BasiliskII.Router

/-- The sequence number that is expected after the state machine. -/
def nextSeqIn (x : TcpSocket) (p : TcpPacket) : BitVec 32 :=
  if takesSyn x p then p.seq + 1 else if takesFin x p then x.seqIn + 1 else x.seqIn

/-- What the state machine makes of a slot, as far as it is about the stream. -/
def takeFlags (p : TcpPacket) (x : Turn) : Turn :=
  { x with
    seqIn := nextSeqIn x.toTcpSocket p
    acceptMoreDataFromMac := x.acceptMoreDataFromMac || entersEstablished x.toTcpSocket p }

variable {p : TcpPacket}

theorem takeFlags_none {x : Turn} (no_syn : takesSyn x.toTcpSocket p = false)
    (no_fin : takesFin x.toTcpSocket p = false) (later : entersEstablished x.toTcpSocket p = false) :
    takeFlags p x = x := by
  simp [takeFlags, nextSeqIn, no_syn, no_fin, later]

theorem takeFlags_syn {x : Turn} (taken : takesSyn x.toTcpSocket p = true) :
    takeFlags p x = { x with
      seqIn := p.seq + 1
      acceptMoreDataFromMac := x.acceptMoreDataFromMac || entersEstablished x.toTcpSocket p } := by
  simp [takeFlags, nextSeqIn, taken]

theorem takeFlags_fin {x : Turn} (no_syn : takesSyn x.toTcpSocket p = false)
    (taken : takesFin x.toTcpSocket p = true) (later : entersEstablished x.toTcpSocket p = false) :
    takeFlags p x = { x with seqIn := x.seqIn + 1 } := by
  simp [takeFlags, nextSeqIn, no_syn, taken, later]

/-- From `synSent` only a SYN with its acknowledgement establishes. -/
theorem synSent_stays {x : TcpSocket} (state : x.state = .synSent)
    (not_both : ¬ (isSet p.flags tcpFlagsSyn && isSet p.flags tcpFlagsAck) = true) :
    entersEstablished x p = false := by
  refine Bool.eq_false_iff.mpr fun enters => not_both ?_
  simpa [entersEstablished, state, and_comm] using enters

theorem takes_congr {x y : TcpSocket} (p : TcpPacket) (state : y.state = x.state) :
    takesSyn y p = takesSyn x p ∧ takesFin y p = takesFin x p ∧
      entersEstablished y p = entersEstablished x p := by
  unfold takesSyn takesFin entersEstablished
  rw [state]
  exact ⟨rfl, rfl, rfl⟩

theorem takeFin_keepsWrite (x : Turn) : KeepsWrite { x with seqIn := x.seqIn + 1 } (takeFin x) := by
  have replied := tcpReply_keepsWrite tcpFlagsAck { x with seqIn := x.seqIn + 1 }
  unfold takeFin
  dsimp only
  split
  · exact (replied.trans (keepsWrite_emit _ (e := .closesocket x.s) trivial)).update rfl
  · exact replied.trans (keepsWrite_emit _ (e := .shutdown x.s false) trivial)

theorem stateMachine_write (env : Env) (x : Turn) (no_reset : isSet p.flags tcpFlagsRst = false) :
    KeepsWrite (takeFlags p x) (stateMachine env p x).1 := by
  have fin := takeFin_keepsWrite x
  have same := KeepsWrite.refl x
  unfold stateMachine startTimeWait
  cases state : x.state <;> dsimp only
  case closed =>
    have no_fin : takesFin x.toTcpSocket p = false := by simp [takesFin, state]
    have later : entersEstablished x.toTcpSocket p = false := by simp [entersEstablished, state]
    split
    next syn =>
      rw [takeFlags_syn (by simp [takesSyn, no_reset, state, syn]), later, Bool.or_false]
      have noted : KeepsWrite { x with seqIn := p.seq + 1 } { x with
          srcPort := p.srcPort, destPort := p.destPort, ipSrc := p.ipSrc, ipDest := p.ipDest
          seqOut := 1, seqIn := p.seq + 1, state := .listen } := (KeepsWrite.refl _).update rfl
      exact noted.trans (keepsWrite_emit _ (e := .wsaConnect x.s x.fromAddr x.fromPort) trivial)
    next no_syn =>
      rw [takeFlags_none (by simp [takesSyn, no_syn]) no_fin later]
      have noted : KeepsWrite x { x with
          srcPort := p.srcPort, destPort := p.destPort, ipSrc := p.ipSrc, ipDest := p.ipDest
          state := .closed } := same.update rfl
      exact noted.trans (freeSocket_keepsWrite _)
  case synSent =>
    have no_fin : takesFin x.toTcpSocket p = false := by simp [takesFin, state]
    split
    next set =>
      obtain ⟨syn, ack⟩ := Bool.and_eq_true_iff.mp set
      have enters : entersEstablished x.toTcpSocket p = true := by
        simp [entersEstablished, state, syn, ack]
      rw [takeFlags_syn (by simp [takesSyn, no_reset, state, syn]), enters, Bool.or_true]
      exact (tcpReply_keepsWrite tcpFlagsAck
        { x with seqIn := p.seq + 1, acceptMoreDataFromMac := true }).update rfl
    next not_both =>
      have later := synSent_stays state not_both
      split
      next syn =>
        rw [takeFlags_syn (by simp [takesSyn, no_reset, state, syn]), later, Bool.or_false]
        exact (tcpReply_keepsWrite (tcpFlagsAck ||| tcpFlagsSyn)
          { x with seqIn := p.seq + 1 }).update rfl
      next no_syn =>
        rw [takeFlags_none (by simp [takesSyn, no_syn]) no_fin later]
        split
        · exact same.update rfl
        · exact same
  -- the states that no SYN is taken up in
  all_goals
    have no_syn : takesSyn x.toTcpSocket p = false := by simp [takesSyn, state]
  case synRcvd =>
    have no_fin : takesFin x.toTcpSocket p = false := by simp [takesFin, state]
    split
    next ack =>
      have enters : entersEstablished x.toTcpSocket p = true := by
        simp [entersEstablished, state, ack]
      have opened : takeFlags p x = { x with acceptMoreDataFromMac := true } := by
        simp [takeFlags, nextSeqIn, no_syn, no_fin, enters]
      rw [opened]
      exact (KeepsWrite.refl _).update rfl
    next no_ack =>
      rw [takeFlags_none no_syn no_fin (by simp [entersEstablished, no_ack])]
      exact same
  -- the connection is there, or will not be any more
  all_goals
    have later : entersEstablished x.toTcpSocket p = false := by simp [entersEstablished, state]
  case established =>
    split
    next set =>
      rw [takeFlags_fin no_syn (by simp [takesFin, no_reset, state, set]) later]
      have replied := tcpReply_keepsWrite tcpFlagsAck { x with seqIn := x.seqIn + 1 }
      have shut := replied.trans (keepsWrite_emit _ (e := .shutdown x.s false) trivial)
      exact shut.update rfl
    next unset =>
      rw [takeFlags_none no_syn (by simp [takesFin, unset]) later]
      exact same
  case finwait1 =>
    split
    next both =>
      have set := (Bool.and_eq_true_iff.mp both).1
      rw [takeFlags_fin no_syn (by simp [takesFin, no_reset, state, set]) later]
      exact fin.update rfl
    · split
      next set =>
        rw [takeFlags_fin no_syn (by simp [takesFin, no_reset, state, set]) later]
        exact fin.update rfl
      next unset =>
        rw [takeFlags_none no_syn (by simp [takesFin, unset]) later]
        split
        · exact same.update rfl
        · exact same
  case finwait2 =>
    split
    next set =>
      rw [takeFlags_fin no_syn (by simp [takesFin, no_reset, state, set]) later]
      exact fin.update rfl
    next unset =>
      rw [takeFlags_none no_syn (by simp [takesFin, unset]) later]
      exact same
  all_goals
    have no_fin : takesFin x.toTcpSocket p = false := by simp [takesFin, state]
    rw [takeFlags_none no_syn no_fin later]
  case lastAck =>
    split
    · exact freeSocket_keepsWrite x
    · exact same
  case closing =>
    split
    · exact same.update rfl
    · exact same
  all_goals exact same

/-- Where a packet brings a slot that stays in use. -/
inductive Moves (x : TcpSocket) (p : TcpPacket) (next : TcpState) : Prop
  | opens (taken : takesSyn x p = true) (later : entersEstablished x p = false)
    (state : next = .listen ∨ next = .synRcvd)
  | establishes (enters : entersEstablished x p = true) (state : next = .established)
  | finishes (taken : takesFin x p = true)
    (state : next = .closeWait ∨ next = .closing ∨ next = .timeWait)
  | moves (no_syn : takesSyn x p = false) (no_fin : takesFin x p = false)
    (later : entersEstablished x p = false)
    (state : next = x.state ∧ x.state ≠ .closed ∨ x.state = .synSent ∧ next = .finwait2 ∨
      x.state = .finwait1 ∧ next = .finwait2 ∨ x.state = .closing ∧ next = .timeWait)

theorem stateMachine_moves (env : Env) (x : Turn) (no_reset : isSet p.flags tcpFlagsRst = false)
    (used : (stateMachine env p x).1.inUse = true) :
    Moves x.toTcpSocket p (stateMachine env p x).1.state := by
  have freed : ∀ y : Turn, (freeSocket y).inUse ≠ true := fun y => by
    rw [freeSocket_inUse]
    exact Bool.false_ne_true
  unfold stateMachine startTimeWait at used ⊢
  cases state : x.state <;> rw [state] at used <;> dsimp only at used ⊢
  case closed =>
    split at used
    next syn =>
      rw [if_pos syn]
      exact .opens (by simp [takesSyn, no_reset, state, syn]) (by simp [entersEstablished, state])
        (.inl rfl)
    · exact absurd used (freed _)
  case synSent =>
    have no_fin : takesFin x.toTcpSocket p = false := by simp [takesFin, state]
    split
    next set =>
      obtain ⟨syn, ack⟩ := Bool.and_eq_true_iff.mp set
      exact .establishes (by simp [entersEstablished, state, syn, ack]) rfl
    next not_both =>
      have later := synSent_stays state not_both
      split
      next syn =>
        exact .opens (by simp [takesSyn, no_reset, state, syn]) later (.inr rfl)
      next no_syn =>
        have none_taken : takesSyn x.toTcpSocket p = false := by simp [takesSyn, no_syn]
        split
        · exact .moves none_taken no_fin later (.inr (.inl ⟨state, rfl⟩))
        · exact .moves none_taken no_fin later (.inl ⟨rfl, by simp [state]⟩)
  case synRcvd =>
    split
    next ack => exact .establishes (by simp [entersEstablished, state, ack]) rfl
    next no_ack =>
      exact .moves (by simp [takesSyn, state]) (by simp [takesFin, state])
        (by simp [entersEstablished, no_ack]) (.inl ⟨rfl, by simp [state]⟩)
  all_goals
    have no_syn : takesSyn x.toTcpSocket p = false := by simp [takesSyn, state]
    have later : entersEstablished x.toTcpSocket p = false := by simp [entersEstablished, state]
    have same : ∀ next, next = x.state → takesFin x.toTcpSocket p = false →
        Moves x.toTcpSocket p next := fun next kept no_fin =>
      .moves no_syn no_fin later (.inl ⟨kept, by simp [state]⟩)
  case established =>
    split
    next set =>
      exact .finishes (by simp [takesFin, no_reset, state, set]) (.inl rfl)
    next unset => exact same _ rfl (by simp [takesFin, unset])
  case finwait1 =>
    split
    next both =>
      have set := (Bool.and_eq_true_iff.mp both).1
      exact .finishes (by simp [takesFin, no_reset, state, set]) (.inr (.inr rfl))
    · split
      next set =>
        exact .finishes (by simp [takesFin, no_reset, state, set]) (.inr (.inl rfl))
      next unset =>
        have no_fin : takesFin x.toTcpSocket p = false := by simp [takesFin, unset]
        split
        · exact .moves no_syn no_fin later (.inr (.inr (.inl ⟨state, rfl⟩)))
        · exact same _ rfl no_fin
  case finwait2 =>
    split
    next set => exact .finishes (by simp [takesFin, no_reset, state, set]) (.inr (.inr rfl))
    next unset => exact same _ rfl (by simp [takesFin, unset])
  all_goals
    have no_fin : takesFin x.toTcpSocket p = false := by simp [takesFin, state]
  case lastAck =>
    split at used
    · exact absurd used (freed _)
    next unset =>
      rw [if_neg unset]
      exact same _ rfl no_fin
  case closing =>
    split
    · exact .moves no_syn no_fin later (.inr (.inr (.inr ⟨state, rfl⟩)))
    · exact same _ rfl no_fin
  all_goals exact same _ rfl no_fin

theorem stateMachine_asks (env : Env) (p : TcpPacket) (x : Turn) :
    (stateMachine env p x).2 =
      (x.state = .established || x.state = .synRcvd && isSet p.flags tcpFlagsAck,
        entersEstablished x.toTcpSocket p) := by
  unfold stateMachine entersEstablished
  cases state : x.state <;> dsimp only <;> repeat' split
  all_goals simp_all

/-- A send of `bytes` has been posted, or has failed. -/
structure Posts (bytes : List (BitVec 8)) (x y : Turn) : Prop where
  seqIn : y.seqIn = x.seqIn
  accepts : y.acceptMoreDataFromMac = x.acceptMoreDataFromMac
  bytesToSend : y.bytesToSend = x.bytesToSend
  bytesRemaining : y.bytesRemainingToSend = x.bytesRemainingToSend
  writeBuf : y.writeBuf = x.writeBuf
  posted : sendPosted y.effects = (sendPosted x.effects).or (some bytes) ∨
    sendPosted y.effects = sendPosted x.effects
  acks : ∀ p, .enqueuePacket p ∈ y.effects → .enqueuePacket p ∈ x.effects ∨ p.ack = x.seqIn

theorem bSend_posts (env : Env) (x : Turn) :
    Posts (x.writeBuf.take x.writeLen.toNat) x (bSend env x).1 := by
  have packets : ∀ p, .enqueuePacket p ∈
      (x.emit (.wsaSend x.s (x.writeBuf.take x.writeLen.toNat))).effects →
      .enqueuePacket p ∈ x.effects ∨ p.ack = x.seqIn := by
    intro p sent
    rcases List.mem_append.mp sent with before | now
    · exact .inl before
    · cases List.mem_singleton.mp now
  unfold bSend
  dsimp only
  split
  · exact ⟨rfl, rfl, rfl, rfl, rfl, .inl (sendPosted_emit _ _), packets⟩
  · exact ⟨rfl, rfl, rfl, rfl, rfl, .inl (sendPosted_emit _ _), packets⟩
  · exact ⟨rfl, rfl, rfl, rfl, rfl, .inr rfl, fun _ => .inl⟩

theorem Posts.keepsWrite {bytes : List (BitVec 8)} {x y z : Turn} (posts : Posts bytes x y)
    (kept : KeepsWrite y z) : Posts bytes x z where
  seqIn := kept.seqIn.trans posts.seqIn
  accepts := kept.accepts.trans posts.accepts
  bytesToSend := kept.bytesToSend.trans posts.bytesToSend
  bytesRemaining := kept.bytesRemaining.trans posts.bytesRemaining
  writeBuf := kept.writeBuf.trans posts.writeBuf
  posted := kept.posted ▸ posts.posted
  acks := by
    intro p sent
    rcases kept.acks p sent with before | ack
    · exact posts.acks p before
    · exact .inr (ack.trans posts.seqIn)

theorem overwrite_take (buf bytes : List (BitVec 8)) :
    (overwrite buf bytes).take bytes.length = bytes := List.take_left' rfl

theorem takeData_posts {env : Env} {x : Turn} (no_ftp : env.ftpDataPort = 0)
    (fits : p.data.length ≤ maxSegmentSize) (next : x.seqIn = p.seq) :
    Posts p.data (bufferData p x) (takeData env p x) := by
  have small : p.data.length < 2 ^ 32 := Nat.lt_of_le_of_lt fits (by decide)
  have whole : (bufferData p x).writeBuf.take (bufferData p x).writeLen.toNat = p.data := by
    unfold bufferData
    dsimp only
    rw [List.take_of_length_le fits, BitVec.toNat_ofNat, Nat.mod_eq_of_lt small]
    exact overwrite_take _ _
  have posts := bSend_posts env (bufferData p x)
  rw [whole] at posts
  unfold takeData ftpPatch
  rw [if_neg (not_not.mpr next), if_pos no_ftp]
  dsimp only
  split
  next lst _ _ =>
    exact posts.keepsWrite
      ((keepsWrite_emit _ (e := .dropListening lst) trivial).update rfl)
  · exact posts

theorem serveMac_write {env : Env} (no_ftp : env.ftpDataPort = 0)
    (fits : p.data.length ≤ maxSegmentSize) (handleData initiateRead : Bool) (x : Turn) :
    if handleData && !p.data.isEmpty && x.acceptMoreDataFromMac && p.seq = x.seqIn then
      Posts p.data (bufferData p x) (serveMac env p handleData initiateRead x)
    else KeepsWrite x (serveMac env p handleData initiateRead x) := by
  have reading : ∀ y, KeepsWrite y (if initiateRead then (bRecfrom env y).1 else y) := by
    intro y
    split
    · exact bRecfrom_keepsWrite env y
    · exact .refl y
  unfold serveMac
  dsimp only
  by_cases asked : handleData && !p.data.isEmpty && x.acceptMoreDataFromMac
  · rw [if_pos asked, asked, Bool.true_and]
    split
    next next =>
      have taken := takeData_posts no_ftp fits (of_decide_eq_true next).symm
      exact taken.keepsWrite (reading _)
    next other =>
      have dropped : takeData env p x = x :=
        if_pos fun same => other (decide_eq_true same.symm)
      rw [dropped]
      exact reading x
  · rw [if_neg asked, if_neg (by simp [asked])]
    exact reading x

/-- The data is in the buffer, and on its way to the remote host unless the send has failed. -/
structure Takes (data : List (BitVec 8)) (x y : Turn) : Prop where
  seqIn : y.seqIn = x.seqIn
  accepts : y.acceptMoreDataFromMac = false
  bytesToSend : y.bytesToSend = BitVec.ofNat 32 data.length
  bytesRemaining : y.bytesRemainingToSend = BitVec.ofNat 32 data.length
  writeBuf : y.writeBuf.take data.length = data
  posted : sendPosted y.effects = (sendPosted x.effects).or (some data) ∨
    sendPosted y.effects = sendPosted x.effects
  acks : ∀ p, .enqueuePacket p ∈ y.effects → .enqueuePacket p ∈ x.effects ∨ p.ack = x.seqIn

theorem takes_of_posts {x y z : Turn} (fits : p.data.length ≤ maxSegmentSize)
    (kept : KeepsWrite x y) (posts : Posts p.data (bufferData p y) z) : Takes p.data x z := by
  have ttl := kept.trans (keepsWrite_emit y (e := .setTtl y.s p.ttl) trivial)
  have whole : p.data.take maxSegmentSize = p.data := List.take_of_length_le fits
  have length : BitVec.ofNat 32 (p.data.take maxSegmentSize).length =
      BitVec.ofNat 32 p.data.length := by rw [whole]
  refine ⟨posts.seqIn.trans kept.seqIn, posts.accepts, posts.bytesToSend.trans length,
    posts.bytesRemaining.trans length, ?_, ?_, ?_⟩
  · rw [posts.writeBuf]
    unfold bufferData
    dsimp only
    rw [whole]
    exact overwrite_take _ _
  · rw [← ttl.posted]
    exact posts.posted
  · intro q sent
    rcases posts.acks q sent with before | ack
    · exact ttl.acks q before
    · exact .inr (ack.trans kept.seqIn)

theorem takesData_eq (x : TcpSocket) (no_reset : isSet p.flags tcpFlagsRst = false) :
    ((x.state = .established || x.state = .synRcvd && isSet p.flags tcpFlagsAck) &&
      !p.data.isEmpty && (x.acceptMoreDataFromMac || entersEstablished x p) &&
      decide (p.seq = nextSeqIn x p)) = takesData x p := by
  unfold takesData nextSeqIn takesSyn takesFin entersEstablished
  cases state : x.state <;> simp [no_reset]
  case synRcvd =>
    cases isSet p.flags tcpFlagsAck with
    | true | false => simp
  case established => rw [Bool.and_assoc]

theorem writeTcp_write {env : Env} (x : Turn) (no_reset : isSet p.flags tcpFlagsRst = false)
    (no_ftp : env.ftpDataPort = 0) (fits : p.data.length ≤ maxSegmentSize) :
    if takesData x.toTcpSocket p then Takes p.data (takeFlags p x) (writeTcp env p x)
    else KeepsWrite (takeFlags p x) (writeTcp env p x) := by
  have heard := hearMac_keepsWrite p x
  have state := (hearMac_keepsState p x).state
  have effects := (hearMac_hears p x).effects
  have written : writeTcp env p x = serveMac env p (stateMachine env p (hearMac p x).1).2.1
      ((hearMac p x).2 || (stateMachine env p (hearMac p x).1).2.2)
      (stateMachine env p (hearMac p x).1).1 := by
    unfold writeTcp
    rw [if_neg (by simp [no_reset])]
  rw [written]
  set y := (hearMac p x).1
  obtain ⟨syn, fin, enters⟩ := takes_congr p state
  have next : nextSeqIn y.toTcpSocket p = nextSeqIn x.toTcpSocket p := by
    unfold nextSeqIn
    rw [syn, fin, heard.seqIn]
  have flags : KeepsWrite (takeFlags p x) (takeFlags p y) :=
    ⟨next, by simp only [takeFlags, enters, heard.accepts], heard.bytesToSend,
      heard.bytesRemaining, heard.writeBuf, heard.posted, fun _ sent => .inl (effects ▸ sent)⟩
  have moved := flags.trans (stateMachine_write env y no_reset)
  have asked : ((stateMachine env p y).2.1 && !p.data.isEmpty &&
      (stateMachine env p y).1.acceptMoreDataFromMac &&
      decide (p.seq = (stateMachine env p y).1.seqIn)) = takesData x.toTcpSocket p := by
    rw [moved.accepts, moved.seqIn, stateMachine_asks, state]
    exact takesData_eq x.toTcpSocket no_reset
  have served := serveMac_write no_ftp fits (stateMachine env p y).2.1
    ((hearMac p x).2 || (stateMachine env p y).2.2) (stateMachine env p y).1
  rw [asked] at served
  split
  next taken =>
    rw [if_pos taken] at served
    exact takes_of_posts fits moved served
  next other =>
    rw [if_neg other] at served
    exact moved.trans served

theorem writeTcp_moves (env : Env) (x : Turn) (no_reset : isSet p.flags tcpFlagsRst = false)
    (used : (writeTcp env p x).inUse = true) : Moves x.toTcpSocket p (writeTcp env p x).state := by
  have kept := writeTcp_keepsState env x (Bool.eq_false_iff.mp no_reset)
  have state := (hearMac_keepsState p x).state
  obtain ⟨syn, fin, enters⟩ := takes_congr p state
  rw [kept.inUse] at used
  rw [kept.state]
  cases stateMachine_moves env (hearMac p x).1 no_reset used with
  | opens taken later reaches => exact .opens (syn ▸ taken) (enters ▸ later) reaches
  | establishes entered reaches => exact .establishes (enters ▸ entered) reaches
  | finishes taken reaches => exact .finishes (fin ▸ taken) reaches
  | moves no_syn no_fin later reaches =>
    rw [state] at reaches
    exact .moves (syn ▸ no_syn) (fin ▸ no_fin) (enters ▸ later) reaches

/-- Before the connection is there a packet that does not establish it starts no read. -/
theorem writeTcp_started (env : Env) (x : Turn) (no_reset : isSet p.flags tcpFlagsRst = false)
    (used : (writeTcp env p x).inUse = true) (off : ¬x.state.Reading)
    (later : entersEstablished x.toTcpSocket p = false) :
    readsStarted (writeTcp env p x).effects = readsStarted x.effects := by
  have heard := hearMac_hears p x
  have state := (hearMac_keepsState p x).state
  have later' : entersEstablished (hearMac p x).1.toTcpSocket p = false :=
    (takes_congr p state).2.2.trans later
  have stalled : (hearMac p x).2 = false := by
    by_contra resume
    exact off (heard.resumes.mp ((Bool.not_eq_false _).mp resume)).2.2
  have asks : (stateMachine env p (hearMac p x).1).2.2 = false := by
    rw [stateMachine_asks]
    exact later'
  obtain ⟨y, flow, _, written⟩ := writeTcp_flow env x (Bool.eq_false_iff.mp no_reset)
  rw [stalled, asks, Bool.or_false, if_neg Bool.false_ne_true] at written
  rw [written] at used ⊢
  rw [flow.started, ← heard.effects]
  rcases stateMachine_notReading env p (state ▸ off) with freed | ⟨enters, _⟩ | ⟨stays, _⟩
  · exact absurd ((freed.symm.trans flow.inUse.symm).trans used) Bool.false_ne_true
  · exact absurd (later'.symm.trans enters) Bool.false_ne_true
  · exact stays.started

/-- As long as the SYN of the Mac is not known, a packet without it is not answered. -/
theorem writeTcp_quiet (env : Env) {q : TcpPacket} (x : Turn)
    (no_reset : isSet p.flags tcpFlagsRst = false)
    (unknown : x.state = .closed ∨ x.state = .synSent ∨ x.state = .finwait2)
    (no_syn : takesSyn x.toTcpSocket p = false) (no_fin : takesFin x.toTcpSocket p = false)
    (sent : .enqueuePacket q ∈ (writeTcp env p x).effects) : .enqueuePacket q ∈ x.effects := by
  have heard := hearMac_hears p x
  have same := (hearMac_keepsState p x).state
  have stalled : (hearMac p x).2 = false := by
    by_contra resume
    have reading := (heard.resumes.mp ((Bool.not_eq_false _).mp resume)).2.2
    rcases unknown with state | state | state
    all_goals simp [state, TcpState.Reading] at reading
  have machine : ∃ z, stateMachine env p (hearMac p x).1 = (z, false, false) ∧
      (.enqueuePacket q ∈ z.effects → .enqueuePacket q ∈ (hearMac p x).1.effects) := by
    unfold stateMachine
    rw [same]
    rcases unknown with state | state | state <;> rw [state] <;> dsimp only
    · have unset : ¬isSet p.flags tcpFlagsSyn = true := by
        simpa [takesSyn, no_reset, state] using no_syn
      rw [if_neg unset]
      exact ⟨_, rfl, freeSocket_packets _ q⟩
    · have unset : isSet p.flags tcpFlagsSyn = false := by
        simpa [takesSyn, no_reset, state] using no_syn
      rw [unset, Bool.false_and, if_neg Bool.false_ne_true, if_neg Bool.false_ne_true]
      split
      · exact ⟨_, rfl, id⟩
      · exact ⟨_, rfl, id⟩
    · have unset : ¬isSet p.flags tcpFlagsFin = true := by
        simpa [takesFin, no_reset, state] using no_fin
      rw [if_neg unset]
      exact ⟨_, rfl, id⟩
  obtain ⟨z, answer, quiet⟩ := machine
  unfold writeTcp at sent
  rw [if_neg (Bool.eq_false_iff.mp no_reset)] at sent
  dsimp only at sent
  rw [answer, stalled] at sent
  rw [← heard.effects]
  exact quiet sent

end BasiliskII.Router
