import BasiliskII.Router.ToMac

/-!
# Reads are never forgotten

While a slot is read in, one read is under way or the stream is stalled until the
Mac has acknowledged what it was sent, and what it was sent can be sent again.
-/
namespace BasiliskII.Router

open StepSystem

/-- What was sent is in the buffer, for the sequence number it was sent with. -/
def Resendable (x : TcpSocket) : Option (BitVec 32 × List (BitVec 8)) → Prop
  | none => x.lastSeqOut = 0
  | some (seq, data) =>
    x.lastSeqOut = seq ∧ x.seqOut = seq + BitVec.ofNat 32 data.length ∧
      x.bytesReceived = BitVec.ofNat 32 data.length ∧ x.readBuf.take data.length = data ∧
      data.length ≤ maxSegmentSize

/-- A read is under way and all is acknowledged, or what was sent can be sent again. -/
def Flows (x : TcpSocket) (reads : Nat) (sent : Option (BitVec 32 × List (BitVec 8)))
    (acked : Bool) : Prop :=
  (reads = 1 ∧ x.streamToMacStalledUntil = 0 ∧ acked = true) ∨
    (reads = 0 ∧ x.streamToMacStalledUntil ≠ 0 ∧ Resendable x sent)

structure ToMac.Invariant (x : ToMac) : Prop where
  opening : x.slot.inUse = true → x.slot.state.Opening → x.slot.s.isSome ∧ x.sent = none
  reading : x.slot.inUse = true → x.slot.state.Reading →
    x.slot.s.isSome ∧ Flows x.slot x.reads x.sent x.acked
  off : x.slot.inUse = true → ¬x.slot.state.Reading →
    x.reads = 0 ∧ x.slot.streamToMacStalledUntil = 0
  unsent : x.sent = none → x.acked = true

theorem ToMac.Invariant.of_free {x : ToMac} (free : x.slot.inUse = false)
    (unsent : x.sent = none → x.acked = true) : x.Invariant where
  opening used := absurd (free.symm.trans used) Bool.false_ne_true
  reading used := absurd (free.symm.trans used) Bool.false_ne_true
  off used := absurd (free.symm.trans used) Bool.false_ne_true
  unsent := unsent

theorem Resendable.congr {x y : TcpSocket} {sent : Option (BitVec 32 × List (BitVec 8))}
    (can : Resendable x sent) (lastSeqOut : y.lastSeqOut = x.lastSeqOut)
    (seqOut : y.seqOut = x.seqOut) (bytesReceived : y.bytesReceived = x.bytesReceived)
    (readBuf : y.readBuf = x.readBuf) : Resendable y sent := by
  cases sent with
  | none => exact lastSeqOut.trans can
  | some data =>
    unfold Resendable at can ⊢
    rw [lastSeqOut, seqOut, bytesReceived, readBuf]
    exact can

section Packet

variable {x : ToMac} {env : Env} {p : TcpPacket}

/-- A full acknowledgement of a stalled stream covers what was sent. -/
theorem acked_of_resume (inv : x.Invariant) (can : Resendable x.slot x.sent)
    (ack : isSet p.flags tcpFlagsAck = true) (all : p.ack = x.slot.seqOut) :
    (x.acked || acknowledges p x.sent) = true := by
  cases sent : x.sent with
  | none => rw [inv.unsent sent, Bool.true_or]
  | some data =>
    rw [sent] at can
    rw [Bool.or_eq_true]
    right
    rw [acknowledges, ack, Bool.true_and, decide_eq_true_iff, all]
    exact can.2.1

/-- A packet in a state that is read in: a stalled read goes on after a full acknowledgement. -/
theorem packet_reading (inv : x.Invariant) (used : x.slot.inUse = true)
    (reading : x.slot.state.Reading) (no_reset : ¬isSet p.flags tcpFlagsRst = true)
    (regular : x.Regular (env, .packet p)) :
    let w := writeTcp env p x.slot.begin
    w.state.Reading ∧ w.s.isSome ∧ (p.ack = x.slot.seqOut → w.streamToMacStalledUntil = 0) ∧
      Flows w.toTcpSocket (x.reads + readsStarted w.effects) x.sent
        (x.acked || acknowledges p x.sent) := by
  obtain ⟨running, starts, _, packet⟩ := regular
  obtain ⟨genuine, _⟩ := packet (by simpa using no_reset)
  obtain ⟨connected, flows⟩ := inv.reading used reading
  have heard := hearMac_hears p x.slot.begin
  have same := (hearMac_keepsState p x.slot.begin).state
  obtain ⟨kept, still, no_more⟩ := stateMachine_reading env p (same ▸ reading)
  obtain ⟨z, served, state, written⟩ := writeTcp_flow env x.slot.begin no_reset
  have flow := kept.trans served
  rw [no_more, Bool.or_false] at written
  have none_yet : readsStarted z.effects = 0 := by
    rw [flow.started, heard.effects]
    rfl
  have s_same : z.s = x.slot.s := flow.s.trans heard.s
  dsimp only
  rw [written]
  split
  next resume =>
    obtain ⟨stalled, all, _⟩ := heard.resumes.mp resume
    rcases flows with ⟨_, none_stalled, _⟩ | ⟨idle, _, can⟩
    · exact absurd none_stalled stalled
    · obtain ⟨s_kept, _, state_kept, space⟩ := bRecfrom_flow z starts
      have acknowledged : z.seqOut = z.macAck := by
        rw [flow.seqOut, heard.seqOut, flow.macAck, heard.macAck, all]
      rw [if_pos acknowledged] at space
      have cleared : (bRecfrom env z).1.streamToMacStalledUntil = 0 := by
        rw [space.2, flow.stalled, heard.stalled, if_pos resume]
      refine ⟨?_, ?_, fun _ => cleared,
        .inl ⟨?_, cleared, acked_of_resume inv can (genuine stalled all) all⟩⟩
      · rw [state_kept, state]
        exact still
      · rw [s_kept, s_same]
        exact connected
      · rw [space.1, none_yet, idle]
  next stays =>
    have stalled : z.streamToMacStalledUntil = x.slot.streamToMacStalledUntil := by
      rw [flow.stalled, heard.stalled, if_neg stays]
      rfl
    refine ⟨state ▸ still, s_same ▸ connected, fun all => ?_, ?_⟩
    · rw [stalled]
      by_contra waits
      exact stays (heard.resumes.mpr ⟨waits, all, reading⟩)
    rw [none_yet]
    rcases flows with ⟨one, going, acked⟩ | ⟨idle, waits, can⟩
    · exact .inl ⟨one, stalled.trans going, by rw [acked, Bool.true_or]⟩
    · exact .inr ⟨idle, stalled ▸ waits, can.congr (flow.lastSeqOut.trans heard.lastSeqOut)
        (flow.seqOut.trans heard.seqOut) (flow.bytesReceived.trans heard.bytesReceived)
        (flow.readBuf.trans heard.readBuf)⟩

/-- The first read is started, or it waits for the Mac with nothing to send again. -/
theorem bRecfrom_first {z : Turn} (starts : env.recv ≠ .failed)
    (none_yet : readsStarted z.effects = 0) (running : z.streamToMacStalledUntil = 0)
    (later : env.laterTickCount + z.resendTimeout ≠ 0)
    (known : z.seqOut = z.macAck ∨ z.lastSeqOut = 0) :
    Flows (bRecfrom env z).1.toTcpSocket (readsStarted (bRecfrom env z).1.effects) none true := by
  obtain ⟨_, _, _, space⟩ := bRecfrom_flow z starts
  split at space
  · obtain ⟨started, stalled⟩ := space
    exact .inl ⟨by rw [started, none_yet], stalled.trans running, rfl⟩
  next waits =>
    obtain ⟨no_read, stalled, last, _⟩ := space
    refine .inr ⟨no_read.trans none_yet, ?_, ?_⟩
    · rw [stalled]
      exact later
    · exact last.trans (known.resolve_left waits)

/-- A packet in a state that is not read in may establish the connection, and the first read is
started or waits for the Mac. -/
theorem packet_notReading (inv : x.Invariant) (used : x.slot.inUse = true)
    (off : ¬x.slot.state.Reading) (no_reset : ¬isSet p.flags tcpFlagsRst = true)
    (regular : x.Regular (env, .packet p)) :
    ToMac.Invariant ⟨(writeTcp env p x.slot.begin).toTcpSocket,
      x.reads + readsStarted (writeTcp env p x.slot.begin).effects, x.sent,
      x.acked || acknowledges p x.sent⟩ := by
  obtain ⟨_, starts, later, packet⟩ := regular
  obtain ⟨_, taken⟩ := packet (by simpa using no_reset)
  obtain ⟨idle, none_stalled⟩ := inv.off used off
  have unsent : x.sent = none → (x.acked || acknowledges p x.sent) = true := fun none =>
    by rw [inv.unsent none, Bool.true_or]
  have heard := hearMac_hears p x.slot.begin
  have same : (hearMac p x.slot.begin).1.state = x.slot.state :=
    (hearMac_keepsState p x.slot.begin).state
  have no_resume : (hearMac p x.slot.begin).2 = false := by
    rw [← Bool.not_eq_true, heard.resumes]
    exact fun holds => off holds.2.2
  have still : (hearMac p x.slot.begin).1.streamToMacStalledUntil = 0 := by
    rw [heard.stalled, if_neg (by rw [no_resume]; decide)]
    exact none_stalled
  obtain ⟨z, served, state, written⟩ := writeTcp_flow env x.slot.begin no_reset
  rw [no_resume, Bool.false_or] at written
  rcases stateMachine_notReading env p (same ▸ off : ¬(hearMac p x.slot.begin).1.state.Reading) with
    freed | ⟨enters, opening, established, first, kept⟩ | ⟨stays, no_more⟩
  · have free : (writeTcp env p x.slot.begin).inUse = false := by
      rw [(writeTcp_keepsState env x.slot.begin no_reset).inUse]
      exact freed
    exact .of_free free unsent
  · obtain ⟨connected, none_sent⟩ := inv.opening used (same ▸ opening)
    have flow := kept.trans served
    have none_yet : readsStarted z.effects = 0 := by
      rw [flow.started, heard.effects]
      rfl
    rw [if_pos first] at written
    obtain ⟨s_kept, _, state_kept, _⟩ := bRecfrom_flow z starts
    have reading : (bRecfrom env z).1.state = .established := by
      rw [state_kept, state, established]
    have s_there : (bRecfrom env z).1.s.isSome := by
      rw [s_kept, flow.s, heard.s]
      exact connected
    rw [written]
    refine ⟨fun _ open_state => ?_, fun _ _ => ⟨s_there, ?_⟩, fun _ stays => ?_, unsent⟩
    · rw [reading] at open_state
      exact open_state.elim
    · have entering : entersEstablished x.slot p = true := by
        unfold entersEstablished at enters ⊢
        rwa [same] at enters
      have known : z.seqOut = z.macAck ∨ z.lastSeqOut = 0 := by
        rw [flow.seqOut, heard.seqOut, flow.macAck, heard.macAck, flow.lastSeqOut,
          heard.lastSeqOut]
        exact (taken entering).imp_left Eq.symm
      have waits_then : env.laterTickCount + z.resendTimeout ≠ 0 := by
        rw [flow.resendTimeout, heard.resendTimeout]
        exact later
      have running : z.streamToMacStalledUntil = 0 := flow.stalled.trans still
      have first_flows := bRecfrom_first starts none_yet running waits_then known
      rw [idle, Nat.zero_add, unsent none_sent, none_sent]
      exact first_flows
    · exact absurd (.inl reading) stays
  · rw [if_neg (by rw [no_more]; decide)] at written
    have none_yet : readsStarted z.effects = 0 := by
      rw [served.started, stays.started, heard.effects]
      rfl
    rw [written]
    refine ⟨fun _ opening => ?_, fun _ reading => ?_, fun _ _ => ⟨?_, ?_⟩, unsent⟩
    · dsimp only at opening ⊢
      rw [state] at opening
      obtain ⟨before, s_same⟩ := stays.opening opening
      obtain ⟨connected, none_sent⟩ := inv.opening used (same ▸ before)
      rw [served.s, s_same, heard.s]
      exact ⟨connected, none_sent⟩
    · dsimp only at reading
      rw [state] at reading
      exact absurd reading stays.off
    · dsimp only
      rw [none_yet, idle]
    · dsimp only
      rw [served.stalled, stays.stalled, still]

theorem ToMac.Invariant.packet (inv : x.Invariant) (used : x.slot.inUse = true)
    (regular : x.Regular (env, .packet p)) : (x.after env (.packet p)).Invariant := by
  have unsent : x.sent = none → (x.acked || acknowledges p x.sent) = true := fun none =>
    by rw [inv.unsent none, Bool.true_or]
  by_cases reset : isSet p.flags tcpFlagsRst = true
  · have free : (writeTcp env p x.slot.begin).inUse = false := by
      rw [writeTcp, if_pos reset]
      exact freeSocket_inUse _
    exact .of_free free unsent
  · by_cases reading : x.slot.state.Reading
    · obtain ⟨still, connected, _, flows⟩ := packet_reading inv used reading reset regular
      exact ⟨fun _ opening => absurd still (TcpState.Opening.unread opening), fun _ _ => ⟨connected, flows⟩,
        fun _ off => absurd still off, unsent⟩
    · exact packet_notReading inv used reading reset regular

end Packet

/-- What is read is sent from the old `seq_out` on and kept for a resend. -/
theorem sendBuffer_first {x : Turn} {data : List (BitVec 8)} (fits : data.length ≤ maxSegmentSize)
    (some_data : data ≠ []) (received : x.bytesReceived = BitVec.ofNat 32 data.length)
    (buffered : x.readBuf.take data.length = data) (nothing : x.effects = []) :
    let y := sendBuffer false x
    y.s = x.s ∧ y.macAck = x.macAck ∧ y.resendTimeout = x.resendTimeout ∧
    y.streamToMacStalledUntil = x.streamToMacStalledUntil ∧
    Resendable y.toTcpSocket (some (x.seqOut, data)) ∧ readsStarted y.effects = 0 ∧
    dataSent y.effects = some (x.seqOut, data) := by
  have length : (BitVec.ofNat 32 data.length).toNat = data.length := by
    rw [BitVec.toNat_ofNat]
    unfold maxSegmentSize at fits
    omega
  have payload : x.readBuf.take x.bytesReceived.toNat = data := by
    rw [received, length]
    exact buffered
  unfold sendBuffer
  dsimp only
  refine ⟨rfl, rfl, rfl, rfl, ⟨rfl, ?_, received, buffered, fits⟩, ?_, ?_⟩
  · exact congrArg (x.seqOut + ·) received
  · simp [Turn.emit, nothing, readsStarted, isRead]
  · simp [Turn.emit, nothing, dataSent, payload, some_data]

theorem dataSent_bRecfrom (env : Env) (x : Turn) :
    dataSent (bRecfrom env x).1.effects = dataSent x.effects := by
  have posted : dataSent (x.emit (.wsaRecv x.s x.readLen)).effects = dataSent x.effects := by
    simp [Turn.emit, dataSent]
  unfold bRecfrom
  split
  · rfl
  · split
    · exact posted
    · exact posted
    · rfl

section Read

variable {x : ToMac} {env : Env} {error : BitVec 32} {data : List (BitVec 8)}

/-- The slot when the read completes. -/
def arrived (x : TcpSocket) (data : List (BitVec 8)) : Turn :=
  { x with readBuf := overwrite x.readBuf data }.begin

theorem read_free (inv : x.Invariant)
    (free : (slotEvent env x.slot (.read error data)).inUse = false) :
    (x.after env (.read error data)).Invariant := by
  unfold ToMac.after
  dsimp only
  split
  · exact .of_free free (fun none => nomatch none)
  · exact .of_free free inv.unsent

/-- The end of the stream takes the slot to a state that is not read in. -/
theorem read_end (env : Env) (reading : x.slot.state.Reading) (used : x.slot.inUse = true) :
    let w := tcpReadCompletion env 0 0 (arrived x.slot [])
    ¬w.state.Reading ∧ ¬w.state.Opening ∧
      w.streamToMacStalledUntil = x.slot.streamToMacStalledUntil ∧
      readsStarted w.effects = 0 ∧ dataSent w.effects = none := by
  have in_use : (arrived x.slot []).inUse = true := used
  have nothing : (arrived x.slot []).effects = [] := rfl
  dsimp only
  rcases reading with state | state
  · have established : (arrived x.slot []).state = .established := state
    simp [tcpReadCompletion, in_use, readState, established, replyFin, tcpReply, Turn.emit, nothing,
      readsStarted, dataSent, isRead, TcpState.Reading, TcpState.Opening]
    rfl
  · have wait : (arrived x.slot []).state = .closeWait := state
    cases closed : (arrived x.slot []).remoteClosed <;>
    simp [tcpReadCompletion, in_use, readState, wait, replyFin, tcpReply, Turn.emit, nothing, closed,
      readsStarted, dataSent, isRead, TcpState.Reading, TcpState.Opening] <;>
    rfl

/-- Data goes to the Mac, and the next read waits for it. -/
theorem read_data (inv : x.Invariant) (reading : x.slot.state.Reading)
    (used : x.slot.inUse = true) (one : x.reads = 1) (fits : data.length ≤ maxSegmentSize)
    (some_data : data ≠ []) (regular : x.Regular (env, .read 0 data)) :
    (x.after env (.read 0 data)).Invariant := by
  obtain ⟨running, starts, later, ahead⟩ := regular
  obtain ⟨connected, _⟩ := inv.reading used reading
  have not_ahead := ahead some_data
  have bytes : BitVec.ofNat 32 data.length ≠ 0 := by
    have some_bytes := List.length_pos_iff.mpr some_data
    unfold maxSegmentSize at fits
    intro zero
    have value := congrArg BitVec.toNat zero
    rw [BitVec.toNat_ofNat] at value
    change _ = 0 at value
    omega
  let t : Turn := { arrived x.slot data with bytesReceived := BitVec.ofNat 32 data.length }
  have buffered : t.readBuf.take data.length = data := List.take_left
  obtain ⟨s_same, ack_same, timeout_same, stalled_same, can, none_yet, sent⟩ :=
    sendBuffer_first fits some_data (x := t) rfl buffered rfl
  have state : (sendBuffer false t).state = x.slot.state := (sendBuffer_keepsState false t).state
  have switched : readState env (BitVec.ofNat 32 data.length) (sendBuffer false t) =
      sendBuffer false t := by
    unfold readState
    rcases reading with established | wait
    · rw [state, established]
      exact if_neg bytes
    · rw [state, wait]
      exact if_neg bytes
  have taken : slotEvent env x.slot (.read 0 data) = (bRecfrom env (sendBuffer false t)).1 := by
    have not_listen : (sendBuffer false t).state ≠ .listen := by
      rw [state]
      rcases reading with established | wait
      · rw [established]
        decide
      · rw [wait]
        decide
    have goes_on : (!env.isRouterShuttingDown && (sendBuffer false t).s.isSome &&
        (sendBuffer false t).state ≠ .listen) = true := by
      have valid : (sendBuffer false t).s.isSome = true := by
        rw [s_same]
        exact connected
      rw [show env.isRouterShuttingDown = false from running, valid]
      exact decide_eq_true not_listen
    have in_use : ¬(!t.inUse) = true := by
      simp [t, arrived, TcpSocket.begin, used]
    have unfolded : slotEvent env x.slot (.read 0 data) =
        if (!t.inUse) = true then t
        else
          let y := readState env (BitVec.ofNat 32 data.length)
            (if BitVec.ofNat 32 data.length = 0 then { t.emit (.closesocket t.s) with s := none }
              else sendBuffer false t)
          if !env.isRouterShuttingDown && y.s.isSome && y.state ≠ .listen then (bRecfrom env y).1
          else y := rfl
    rw [unfolded, if_neg in_use, if_neg bytes, switched]
    exact if_pos goes_on
  obtain ⟨s_kept, _, state_kept, space⟩ := bRecfrom_flow (sendBuffer false t) starts
  -- The new bytes are still to be acknowledged.
  have full : (sendBuffer false t).seqOut ≠ (sendBuffer false t).macAck := by
    rw [can.2.1, ack_same]
    exact fun all => not_ahead all.symm
  rw [if_neg full] at space
  obtain ⟨no_read, stalled, last, seqOut, readBuf, received⟩ := space
  have now : (bRecfrom env (sendBuffer false t)).1.state.Reading := by
    rw [state_kept, state]
    exact reading
  unfold ToMac.after
  dsimp only
  rw [taken, dataSent_bRecfrom, sent]
  refine ⟨fun _ opening => absurd now (TcpState.Opening.unread opening), fun _ _ => ⟨?_, .inr ⟨?_, ?_, ?_⟩⟩,
    fun _ off => absurd now off, fun none => nomatch none⟩
  · rw [s_kept, s_same]
    exact connected
  · rw [no_read, none_yet, one]
  · rw [stalled, timeout_same]
    exact later
  · exact can.congr last seqOut received readBuf

/-- A read that is done answers the Mac with its data and waits, or closes the stream. -/
theorem ToMac.Invariant.read (inv : x.Invariant) (under_way : x.reads ≠ 0)
    (fits : data.length ≤ maxSegmentSize) (regular : x.Regular (env, .read error data)) :
    (x.after env (.read error data)).Invariant := by
  cases used : x.slot.inUse with
  | false =>
    refine read_free inv ?_
    unfold slotEvent tcpReadCompletion
    dsimp only
    rw [if_pos (by simp [TcpSocket.begin, used])]
    exact used
  | true =>
    have in_use : ¬(!(arrived x.slot data).inUse) = true := by
      simp [arrived, TcpSocket.begin, used]
    by_cases failed : error = 0
    · subst failed
      have reading : x.slot.state.Reading := by
        by_contra off
        exact under_way (inv.off used off).1
      have flows := (inv.reading used reading).2
      rcases flows with ⟨one, going, _⟩ | ⟨idle, _⟩
      · by_cases some_data : data = []
        · subst some_data
          obtain ⟨off, opened, stalled, none_yet, nothing⟩ := read_end env reading used
          have taken : slotEvent env x.slot (.read 0 []) =
              tcpReadCompletion env 0 0 (arrived x.slot []) := rfl
          unfold ToMac.after
          dsimp only
          rw [taken, nothing]
          refine ⟨fun _ opening => absurd opening opened, fun _ now => absurd now off,
            fun _ _ => ⟨?_, ?_⟩, inv.unsent⟩
          · dsimp only
            rw [none_yet, one]
          · exact stalled.trans going
        · exact read_data inv reading used one fits some_data regular
      · exact absurd idle under_way
    · refine read_free inv ?_
      have freed : slotEvent env x.slot (.read error data) = freeSocket _ :=
        (if_neg in_use).trans (if_pos failed)
      rw [freed]
      exact freeSocket_inUse _

end Read

/-- Sending again what was sent leaves everything to be sent again. -/
theorem sendBuffer_again {x : Turn} {sent : Option (BitVec 32 × List (BitVec 8))}
    (can : Resendable x.toTcpSocket sent) :
    let y := sendBuffer true x
    y.s = x.s ∧ y.streamToMacStalledUntil = x.streamToMacStalledUntil ∧
    readsStarted y.effects = readsStarted x.effects ∧ Resendable y.toTcpSocket sent ∧
    ∀ p, .enqueuePacket p ∈ y.effects → .enqueuePacket p ∈ x.effects ∨ sent = some (p.seq, p.data)
    := by
  unfold sendBuffer
  dsimp only
  split
  · exact ⟨rfl, rfl, rfl, can, fun _ => .inl⟩
  next sends =>
    cases sent with
    | none =>
      have silent : (true && decide (x.lastSeqOut = 0)) = true := decide_eq_true can
      exact absurd silent sends
    | some sent =>
      obtain ⟨seq, data⟩ := sent
      obtain ⟨last, seqOut, received, buffered, fits⟩ := can
      have length : (BitVec.ofNat 32 data.length).toNat = data.length := by
        rw [BitVec.toNat_ofNat]
        unfold maxSegmentSize at fits
        omega
      refine ⟨rfl, rfl, readsStarted_emit _ rfl, ⟨last, ?_, received, buffered, fits⟩, ?_⟩
      · change x.lastSeqOut + x.bytesReceived = _
        rw [last, received]
      · intro p member
        rcases List.mem_append.mp member with before | now
        · exact .inl before
        · right
          cases List.mem_singleton.mp now
          change some (seq, data) = some (x.lastSeqOut, x.readBuf.take x.bytesReceived.toNat)
          rw [last, received, length, buffered]

section Timeout

variable {x : ToMac} {env : Env}

theorem checkTimeouts_cases (inv : x.Invariant) (regular : x.Regular (env, .timeout)) :
    let w := checkTimeouts env x.slot.begin
    w.inUse = false ∨ w = x.slot.begin ∨
      (x.slot.inUse = true ∧ x.slot.state = .established ∧ x.slot.streamToMacStalledUntil ≠ 0 ∧
        w = sendBuffer true { x.slot.begin with
          streamToMacStalledUntil := env.laterTickCount + x.slot.resendTimeout }) := by
  obtain ⟨_, _, _, no_wait⟩ := regular
  unfold checkTimeouts
  dsimp only
  split
  next used =>
    split
    · split
      · exact .inl (freeSocket_inUse _)
      · exact .inr (.inl rfl)
    next untimed =>
      split
      next stalled =>
        split
        next established =>
          split
          · exact .inr (.inr ⟨used, established, stalled, rfl⟩)
          · exact .inr (.inl rfl)
        next other =>
          -- Only the two states that are read in have a stalled read.
          have wait := no_wait used (Decidable.not_not.mp untimed) stalled
          have off : ¬x.slot.state.Reading := not_or.mpr ⟨other, wait⟩
          exact absurd (inv.off used off).2 stalled
      · exact .inr (.inl rfl)
  next free => exact .inl (by simpa using free)

theorem ToMac.Invariant.timeout (inv : x.Invariant) (regular : x.Regular (env, .timeout)) :
    (x.after env .timeout).Invariant := by
  rcases checkTimeouts_cases inv regular with freed | same | ⟨used, established, stalled, again⟩
  · exact .of_free freed inv.unsent
  · have after : x.after env .timeout = x := by
      unfold ToMac.after slotEvent
      dsimp only
      rw [same]
      rfl
    rw [after]
    exact inv
  · obtain ⟨connected, flows⟩ := inv.reading used (.inl established)
    rcases flows with ⟨_, going, _⟩ | ⟨idle, _, can⟩
    · exact absurd going stalled
    · obtain ⟨s_same, stalled_same, none_yet, still, _⟩ := sendBuffer_again
        (x := { x.slot.begin with
          streamToMacStalledUntil := env.laterTickCount + x.slot.resendTimeout }) can
      have state : (checkTimeouts env x.slot.begin).state = .established := by
        rw [again]
        exact (sendBuffer_keepsState true _).state.trans established
      refine ⟨fun _ opening => ?_, fun _ _ => ⟨?_, .inr ⟨?_, ?_, ?_⟩⟩, fun _ off => ?_, inv.unsent⟩
      · have opening' : (checkTimeouts env x.slot.begin).state.Opening := opening
        rw [state] at opening'
        exact opening'.elim
      · change (checkTimeouts env x.slot.begin).s.isSome
        rw [again, s_same]
        exact connected
      · change x.reads + readsStarted (checkTimeouts env x.slot.begin).effects = 0
        rw [again, none_yet, idle]
        rfl
      · change (checkTimeouts env x.slot.begin).streamToMacStalledUntil ≠ 0
        rw [again, stalled_same]
        exact regular.2.2.1
      · change Resendable (checkTimeouts env x.slot.begin).toTcpSocket x.sent
        rw [again]
        exact still
      · exact absurd (.inl state) off

end Timeout

-- The other events.

theorem tcpWriteCompletion_keepsFlow (env : Env) (bytesWritten : BitVec 32) (x : Turn) :
    KeepsFlow x (tcpWriteCompletion env bytesWritten x) := by
  unfold tcpWriteCompletion
  dsimp only
  split
  · exact ⟨rfl, rfl, rfl, rfl, rfl, rfl, rfl, rfl, rfl, rfl⟩
  · split
    · exact ⟨rfl, rfl, rfl, rfl, rfl, rfl, rfl, rfl, rfl, rfl⟩
    · split
      · exact ⟨rfl, rfl, rfl, rfl, rfl, rfl, rfl, rfl, rfl, readsStarted_emit _ rfl⟩
      · have sent := bSend_keepsFlow env { x with
          bytesWritten := bytesWritten
          bytesRemainingToSend := x.bytesRemainingToSend - bytesWritten
          writeLen := x.bytesRemainingToSend - bytesWritten
          writeBuf := overwrite x.writeBuf ((x.writeBuf.drop bytesWritten.toNat).take
            (x.bytesRemainingToSend - bytesWritten).toNat) }
        exact ⟨sent.s, sent.inUse, sent.stalled, sent.lastSeqOut, sent.readBuf, sent.bytesReceived,
          sent.seqOut, sent.resendTimeout, sent.macAck, sent.started⟩

theorem ToMac.Invariant.keepsFlow {x : ToMac} {w : Turn} (inv : x.Invariant)
    (flow : KeepsFlow x.slot.begin w) (state : w.state = x.slot.state) :
    ToMac.Invariant ⟨w.toTcpSocket, x.reads + readsStarted w.effects, x.sent, x.acked⟩ := by
  have used : w.inUse = x.slot.inUse := flow.inUse
  have none_yet : readsStarted w.effects = 0 := flow.started
  refine ⟨?_, ?_, ?_, inv.unsent⟩
  · dsimp only
    rw [used, state, flow.s]
    exact inv.opening
  · dsimp only
    rw [used, state, flow.s, none_yet]
    intro in_use reading
    obtain ⟨connected, flows⟩ := inv.reading in_use reading
    refine ⟨connected, ?_⟩
    rcases flows with ⟨one, going, acked⟩ | ⟨idle, waits, can⟩
    · exact .inl ⟨one, flow.stalled.trans going, acked⟩
    · refine .inr ⟨idle, ?_, can.congr flow.lastSeqOut flow.seqOut flow.bytesReceived flow.readBuf⟩
      rw [flow.stalled]
      exact waits
  · dsimp only
    rw [used, state, none_yet, flow.stalled]
    exact inv.off

theorem ToMac.Invariant.network {x : ToMac} {env : Env} (inv : x.Invariant)
    (what : NetworkEvents) : (x.after env (.network what)).Invariant := by
  have same := inv.keepsFlow (.refl x.slot.begin) rfl
  cases used : x.slot.inUse with
  | false =>
    refine .of_free ?_ inv.unsent
    by_contra free
    have in_use := networkEvent_inUse what x.slot.begin ((Bool.not_eq_false _).mp free)
    exact Bool.false_ne_true (used.symm.trans in_use)
  | true =>
    have taken : slotEvent env x.slot (.network what) = networkEvent what x.slot.begin := rfl
    unfold ToMac.after
    dsimp only
    rw [taken]
    unfold networkEvent
    rw [if_pos (by exact used)]
    cases what with
    | connect error =>
      dsimp only
      split
      · exact same
      · unfold tcpConnectCallback
        split
        next listen =>
          have before : x.slot.state = .listen := listen
          have off : ¬x.slot.state.Reading := TcpState.Opening.unread (before ▸ trivial)
          obtain ⟨idle, none_stalled⟩ := inv.off used off
          obtain ⟨connected, none_sent⟩ := inv.opening used (before ▸ trivial)
          refine ⟨fun _ _ => ⟨connected, none_sent⟩, ?_, fun _ _ => ⟨?_, none_stalled⟩, inv.unsent⟩
          · exact fun _ reading => absurd reading (TcpState.not_reading nofun nofun)
          · dsimp only
            rw [idle, (tcpReply_keepsFlow _ _).started]
            rfl
        · exact same
    | close => exact inv.keepsFlow ⟨rfl, rfl, rfl, rfl, rfl, rfl, rfl, rfl, rfl, rfl⟩ rfl
    | nothing => exact same
    | failed notSocket =>
      dsimp only
      split
      · exact same
      · exact .of_free (freeSocket_inUse _) inv.unsent

theorem ToMac.Invariant.create {x : ToMac} {env : Env} (free : x.slot.inUse = false)
    (idle : x.reads = 0) (created : Option Socket) (bound : Bool)
    (srcPort destPort : BitVec 16) (ipDest : BitVec 32) :
    (x.after env (.create created bound srcPort destPort ipDest)).Invariant := by
  have spec := create_spec env free created bound srcPort destPort ipDest
  dsimp only at spec
  split at spec
  next kept =>
    obtain ⟨there, bind⟩ := Bool.and_eq_true_iff.mp kept
    obtain ⟨s, rfl⟩ := Option.isSome_iff_exists.mp there
    subst bind
    unfold ToMac.after
    dsimp only
    rw [slotEvent_create env free]
    refine ⟨fun _ _ => ⟨rfl, rfl⟩, ?_, fun _ _ => ⟨?_, rfl⟩, fun _ => rfl⟩
    · exact fun _ reading => absurd reading (TcpState.not_reading nofun nofun)
    · dsimp only
      rw [idle]
      rfl
  · exact .of_free spec fun _ => rfl

theorem ToMac.Invariant.accept {x : ToMac} {env : Env} (inv : x.Invariant)
    (used : x.slot.inUse = true) (closed : x.slot.state = .closed) (s : Socket)
    (macosIpAddress : BitVec 32) (srcPort destPort : BitVec 16) (ipDest : BitVec 32) :
    (x.after env (.accept s macosIpAddress srcPort destPort ipDest)).Invariant := by
  have off : ¬x.slot.state.Reading := TcpState.Opening.unread (closed ▸ trivial)
  obtain ⟨idle, none_stalled⟩ := inv.off used off
  obtain ⟨_, none_sent⟩ := inv.opening used (closed ▸ trivial)
  refine ⟨fun _ _ => ⟨rfl, none_sent⟩, ?_, fun _ _ => ⟨?_, none_stalled⟩, inv.unsent⟩
  · exact fun _ reading => absurd reading (TcpState.not_reading nofun nofun)
  · exact idle

theorem toMacStep_invariant {x y : ToMac} {label : Env × SlotEvent} (inv : x.Invariant)
    (regular : x.Regular label) (step : toMacStep x label = some y) : y.Invariant := by
  unfold toMacStep at step
  split at step
  next enabled =>
    cases step
    obtain ⟨env, event⟩ := label
    cases event with
    | create created bound srcPort destPort ipDest =>
      exact .create regular.2.2.2.1 regular.2.2.2.2 created bound srcPort destPort ipDest
    | accept s macosIpAddress srcPort destPort ipDest =>
      obtain ⟨used, closed⟩ := Bool.and_eq_true_iff.mp enabled
      exact inv.accept used (of_decide_eq_true closed) s macosIpAddress srcPort destPort ipDest
    | packet p => exact inv.packet enabled regular
    | forceClose => exact .of_free (forceClose_inUse x.slot.begin) inv.unsent
    | read error data =>
      obtain ⟨under_way, fits⟩ := Bool.and_eq_true_iff.mp enabled
      exact inv.read (of_decide_eq_true under_way) (of_decide_eq_true fits) regular
    | write bytesWritten =>
      exact inv.keepsFlow (tcpWriteCompletion_keepsFlow env bytesWritten x.slot.begin)
        (tcpWriteCompletion_keepsState env bytesWritten x.slot.begin).state
    | network what => exact inv.network what
    | timeout => exact inv.timeout regular
  · cases step

theorem ToMac.Invariant.init : ToMac.init.Invariant := .of_free rfl fun _ => rfl

/-- As long as every event is regular, a slot that is read in has one read under way or is stalled,
and a full acknowledgement gets the read going; with a read under way everything sent has been
acknowledged; and what the timer sends is what was sent before, from the same sequence number. -/
theorem toMac_not_stranded {x : ToMac}
    (reached : Reachable toMacStep ToMac.Regular ToMac.init x) :
    (x.slot.inUse = true → x.slot.s.isSome → x.slot.state.Reading →
      (x.reads = 1 ∧ x.slot.streamToMacStalledUntil = 0) ∨
      (x.reads = 0 ∧ x.slot.streamToMacStalledUntil ≠ 0)) ∧
    (∀ env p, x.slot.inUse = true → x.slot.state.Reading → isSet p.flags tcpFlagsRst = false →
      p.ack = x.slot.seqOut → x.Regular (env, .packet p) →
        (x.after env (.packet p)).reads = 1) ∧
    (x.slot.inUse = true → x.reads ≠ 0 → x.acked = true) ∧
    ∀ env p, .enqueuePacket p ∈ (slotEvent env x.slot .timeout).effects →
      x.sent = some (p.seq, p.data) := by
  have inv : x.Invariant := reached.invariant .init fun _ _ _ inv regular step =>
    toMacStep_invariant inv regular step
  refine ⟨?_, ?_, ?_, ?_⟩
  · intro used _ reading
    rcases (inv.reading used reading).2 with ⟨one, going, _⟩ | ⟨idle, waits, _⟩
    · exact .inl ⟨one, going⟩
    · exact .inr ⟨idle, waits⟩
  · intro env p used reading no_reset all regular
    obtain ⟨_, _, cleared, flows⟩ :=
      packet_reading inv used reading (by rw [no_reset]; decide) regular
    rcases flows with ⟨one, _⟩ | ⟨_, waits, _⟩
    · exact one
    · exact absurd (cleared all) waits
  · intro used under_way
    by_cases reading : x.slot.state.Reading
    · rcases (inv.reading used reading).2 with ⟨_, _, acked⟩ | ⟨idle, _⟩
      · exact acked
      · exact absurd idle under_way
    · exact absurd (inv.off used reading).1 under_way
  · intro env p member
    obtain ⟨used, established, stalled, again⟩ := checkTimeouts_packets member
    rcases (inv.reading used (.inl established)).2 with ⟨_, going, _⟩ | ⟨_, _, can⟩
    · exact absurd going stalled
    · obtain ⟨_, _, _, _, packets⟩ := sendBuffer_again (x := { x.slot.begin with
        streamToMacStalledUntil := env.laterTickCount + x.slot.resendTimeout }) can
      exact (packets p again).resolve_left List.not_mem_nil

-- A remote host connects to port 80 of the Mac and sends a byte.

def macAnswer (flags : BitVec 8) (seq : BitVec 32) : TcpPacket where
  ttl := 64
  ipSrc := 0xC0A80002
  ipDest := 0x0A000001
  srcPort := 80
  destPort := 4000
  seq := seq
  ack := 2
  flags := flags
  window := 1460
  mss := 0
  data := []

def oneByteEvents : List (Env × SlotEvent) :=
  [.create (some 1) true 80 4000 0x0A000001, .accept 2 0xC0A80002 80 4000 0x0A000001,
    .packet (macAnswer (tcpFlagsSyn ||| tcpFlagsAck) 7), .read 0 [65]].map fun e => (quietEnv, e)

theorem toMac_not_stranded_oneByte :
    ∃ x, Reachable toMacStep ToMac.Regular ToMac.init x ∧ x.slot.state = .established ∧
      ((x.reads = 1 ∧ x.slot.streamToMacStalledUntil = 0) ∨
        (x.reads = 0 ∧ x.slot.streamToMacStalledUntil ≠ 0)) := by
  have facts : (exec (guarded toMacStep ToMac.Regular) ToMac.init oneByteEvents).map
      (fun x => (x.slot.inUse, x.slot.s, x.slot.state)) = some (true, some 2, .established) := by
    decide
  obtain ⟨x, executed, values⟩ := Option.map_eq_some_iff.mp facts
  simp only [Prod.mk.injEq] at values
  obtain ⟨used, there, established⟩ := values
  have reached : Reachable toMacStep ToMac.Regular ToMac.init x :=
    ⟨_, run_of_guarded_exec executed⟩
  exact ⟨x, reached, established, (toMac_not_stranded reached).1 used (by rw [there]; rfl)
    (.inl established)⟩

/-- The Mac closes its side, and the timer forgets that the read is stalled. -/
theorem timer_strands_closeWait :
    ∃ x, Reachable toMacStep Free ToMac.init x ∧
      ¬(x.slot.inUse = true → x.slot.s.isSome → x.slot.state.Reading →
        (x.reads = 1 ∧ x.slot.streamToMacStalledUntil = 0) ∨
        (x.reads = 0 ∧ x.slot.streamToMacStalledUntil ≠ 0)) := by
  have facts : (exec toMacStep ToMac.init (oneByteEvents ++
      [(quietEnv, .packet (macAnswer (tcpFlagsFin ||| tcpFlagsAck) 8)), (quietEnv, .timeout)])).map
        (fun x => (x.slot.inUse, x.slot.s, x.slot.state, x.reads, x.slot.streamToMacStalledUntil)) =
          some (true, some 2, .closeWait, 0, 0) := by decide
  obtain ⟨x, executed, values⟩ := Option.map_eq_some_iff.mp facts
  simp only [Prod.mk.injEq] at values
  obtain ⟨used, there, wait, no_read, cleared⟩ := values
  refine ⟨x, ⟨_, run_of_exec executed⟩, fun holds => ?_⟩
  rcases holds used (by rw [there]; rfl) (.inr wait) with ⟨one, _⟩ | ⟨_, stalled⟩
  · rw [no_read] at one
    cases one
  · exact stalled cleared

end BasiliskII.Router
