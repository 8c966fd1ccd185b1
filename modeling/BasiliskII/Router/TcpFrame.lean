import BasiliskII.Router.TcpEvents

/-!
# What events leave alone

Outside of the state machine the state of a slot, its use and its connection
stay as they are, and what has been sent remains sent. Only an allocation brings
a slot into use.
-/
namespace BasiliskII.Router

/-- What tells connections of the Mac apart. -/
structure ConnectionKey where
  macPort : BitVec 16
  remoteAddress : BitVec 32
  remotePort : BitVec 16
  deriving DecidableEq

def TcpSocket.key (x : TcpSocket) : ConnectionKey := ⟨x.srcPort, x.ipDest, x.destPort⟩

def TcpPacket.key (p : TcpPacket) : ConnectionKey := ⟨p.srcPort, p.ipDest, p.destPort⟩

-- What keeps the state and what has been sent.

structure KeepsState (x y : Turn) : Prop where
  state : y.state = x.state
  inUse : y.inUse = x.inUse
  key : y.toTcpSocket.key = x.toTcpSocket.key
  effects : ∀ e ∈ x.effects, e ∈ y.effects

theorem KeepsState.refl (x : Turn) : KeepsState x x := ⟨rfl, rfl, rfl, fun _ => id⟩

theorem KeepsState.trans {x y z : Turn} (first : KeepsState x y) (second : KeepsState y z) :
    KeepsState x z :=
  ⟨second.state.trans first.state, second.inUse.trans first.inUse,
    second.key.trans first.key, fun e member => second.effects e (first.effects e member)⟩

theorem keepsState_emit (x : Turn) (e : Effect) : KeepsState x (x.emit e) :=
  ⟨rfl, rfl, rfl, fun _ member => List.mem_append_left _ member⟩

theorem bRecfrom_keepsState (env : Env) (x : Turn) : KeepsState x (bRecfrom env x).1 := by
  have posted := (keepsState_emit x (.wsaRecv x.s x.readLen)).effects
  unfold bRecfrom
  split
  · exact ⟨rfl, rfl, rfl, fun _ => id⟩
  · split
    · exact ⟨rfl, rfl, rfl, posted⟩
    · exact ⟨rfl, rfl, rfl, posted⟩
    · exact .refl x

theorem bSend_keepsState (env : Env) (x : Turn) : KeepsState x (bSend env x).1 := by
  have posted := (keepsState_emit x (.wsaSend x.s (x.writeBuf.take x.writeLen.toNat))).effects
  unfold bSend
  dsimp only
  split
  · exact ⟨rfl, rfl, rfl, posted⟩
  · exact ⟨rfl, rfl, rfl, posted⟩
  · exact .refl x

theorem sendBuffer_keepsState (resending : Bool) (x : Turn) :
    KeepsState x (sendBuffer resending x) := by
  unfold sendBuffer
  split
  · exact .refl x
  · cases resending
    · exact ⟨rfl, rfl, rfl, fun _ member => List.mem_append_left _ member⟩
    · exact ⟨rfl, rfl, rfl, fun _ member => List.mem_append_left _ member⟩

theorem ftpPatch_keepsState (env : Env) (x : Turn) : KeepsState x (ftpPatch env x).1 := by
  unfold ftpPatch
  split
  · exact .refl x
  · have listening := keepsState_emit x (.allocListening env.ftpDataPort x.ipDest)
    dsimp only
    split
    · exact listening
    · exact listening.trans ⟨rfl, rfl, rfl, fun _ => id⟩

theorem takeData_keepsState (env : Env) (p : TcpPacket) (x : Turn) :
    KeepsState x (takeData env p x) := by
  unfold takeData
  split
  · exact .refl x
  · have buffered : KeepsState x (bufferData p x) :=
      ⟨rfl, rfl, rfl, (keepsState_emit x (.setTtl x.s p.ttl)).effects⟩
    have sent := (buffered.trans (ftpPatch_keepsState env _)).trans (bSend_keepsState env _)
    dsimp only
    split
    next lst _ _ =>
      have dropped := sent.trans (keepsState_emit _ (.dropListening lst))
      exact ⟨dropped.state, dropped.inUse, dropped.key, dropped.effects⟩
    · exact sent

theorem noteMac_keepsState (p : TcpPacket) (x : Turn) : KeepsState x (noteMac p x) := by
  unfold noteMac
  dsimp only
  split <;> exact ⟨rfl, rfl, rfl, fun _ => id⟩

theorem freeSocket_state (x : Turn) : (freeSocket x).state = .closed := by
  unfold freeSocket
  dsimp only
  split <;> rfl

theorem freeSocket_inUse (x : Turn) : (freeSocket x).inUse = false := by
  unfold freeSocket
  dsimp only
  split <;> rfl

theorem hearMac_keepsState (p : TcpPacket) (x : Turn) : KeepsState x (hearMac p x).1 := by
  have noted := noteMac_keepsState p x
  unfold hearMac
  dsimp only
  split
  · exact noted.trans ⟨rfl, rfl, rfl, fun _ => id⟩
  · exact noted

theorem serveMac_keepsState (env : Env) (p : TcpPacket) (handleData initiateRead : Bool)
    (x : Turn) : KeepsState x (serveMac env p handleData initiateRead x) := by
  unfold serveMac
  dsimp only
  split
  · split
    · exact (takeData_keepsState env p x).trans (bRecfrom_keepsState env _)
    · exact bRecfrom_keepsState env _
  · split
    · exact takeData_keepsState env p x
    · exact .refl x

/-- Around the state machine `write_tcp` changes no state. -/
theorem writeTcp_keepsState (env : Env) {p : TcpPacket} (x : Turn)
    (no_reset : ¬isSet p.flags tcpFlagsRst = true) :
    KeepsState (stateMachine env p (hearMac p x).1).1 (writeTcp env p x) := by
  unfold writeTcp
  rw [if_neg no_reset]
  exact serveMac_keepsState env p _ _ _

theorem tcpWriteCompletion_keepsState (env : Env) (bytesWritten : BitVec 32) (y : Turn) :
    KeepsState y (tcpWriteCompletion env bytesWritten y) := by
  unfold tcpWriteCompletion
  dsimp only
  split
  · exact ⟨rfl, rfl, rfl, fun _ => id⟩
  · split
    · exact ⟨rfl, rfl, rfl, fun _ => id⟩
    · split
      · exact ⟨rfl, rfl, rfl, fun _ => List.mem_append_left _⟩
      · have sent := bSend_keepsState env { y with
          bytesWritten := bytesWritten
          bytesRemainingToSend := y.bytesRemainingToSend - bytesWritten
          writeLen := y.bytesRemainingToSend - bytesWritten
          writeBuf := overwrite y.writeBuf ((y.writeBuf.drop bytesWritten.toNat).take
            (y.bytesRemainingToSend - bytesWritten).toNat) }
        exact ⟨sent.state, sent.inUse, sent.key, sent.effects⟩

theorem freeSocket_effects (x : Turn) : ∀ e ∈ x.effects, e ∈ (freeSocket x).effects := by
  have closing : ∀ e ∈ x.effects, e ∈ (if x.s.isSome then
      { x.emit (.closesocket x.s) with s := none } else x).effects := by
    intro e done
    split
    · exact List.mem_append_left _ done
    · exact done
  intro e done
  unfold freeSocket
  dsimp only
  split
  · exact List.mem_append_left _ (closing e done)
  · exact closing e done

-- No event but an allocation brings a slot into use.

theorem stateMachine_inUse (env : Env) (p : TcpPacket) (x : Turn) :
    (stateMachine env p x).1.inUse = true → x.inUse = true := by
  have fin : (takeFin x).inUse = x.inUse := by
    unfold takeFin
    dsimp only
    split <;> rfl
  have freed : ∀ y : Turn, (freeSocket y).inUse = true → x.inUse = true := fun y used =>
    absurd (freeSocket_inUse y ▸ used) Bool.false_ne_true
  unfold stateMachine startTimeWait
  cases x.state <;> dsimp only <;> repeat' split
  all_goals first
    | exact id
    | exact freed _
    | exact (fin ▸ ·)

theorem writeTcp_inUse (env : Env) (p : TcpPacket) (x : Turn)
    (used : (writeTcp env p x).inUse = true) : x.inUse = true := by
  by_cases reset : isSet p.flags tcpFlagsRst
  · rw [writeTcp, if_pos reset, freeSocket_inUse] at used
    cases used
  · rw [(writeTcp_keepsState env x reset).inUse] at used
    rw [← (hearMac_keepsState p x).inUse]
    exact stateMachine_inUse env p _ used

theorem tcpReadCompletion_inUse (env : Env) (error bytesRead : BitVec 32) (x : Turn)
    (used : (tcpReadCompletion env error bytesRead x).inUse = true) : x.inUse = true := by
  cases unused : x.inUse with
  | true => rfl
  | false =>
    rw [tcpReadCompletion, if_pos (by simp [unused])] at used
    exact unused ▸ used

theorem networkEvent_inUse (what : NetworkEvents) (x : Turn)
    (used : (networkEvent what x).inUse = true) : x.inUse = true := by
  cases unused : x.inUse with
  | true => rfl
  | false =>
    unfold networkEvent at used
    rw [if_neg (by simp [unused])] at used
    exact unused ▸ used

theorem checkTimeouts_inUse (env : Env) (x : Turn)
    (used : (checkTimeouts env x).inUse = true) : x.inUse = true := by
  cases unused : x.inUse with
  | true => rfl
  | false =>
    rw [checkTimeouts, if_neg (by simp [unused])] at used
    exact unused ▸ used

theorem forceClose_inUse (x : Turn) : (forceClose x).inUse = false := by
  unfold forceClose
  split
  · rfl
  · exact freeSocket_inUse x

/-- Whether the event is an allocation. -/
def SlotEvent.IsCreate : SlotEvent → Prop
  | .create .. => True
  | _ => False

theorem slotEvent_inUse {env : Env} {x : TcpSocket} {event : SlotEvent} (other : ¬event.IsCreate)
    (used : (slotEvent env x event).inUse = true) : x.inUse = true := by
  cases event with
  | create => exact absurd trivial other
  | accept => exact used
  | packet p => exact writeTcp_inUse env p _ used
  | forceClose => exact absurd ((forceClose_inUse x.begin).symm.trans used) Bool.false_ne_true
  | read error data => exact tcpReadCompletion_inUse env error _ _ used
  | write bytesWritten =>
    have kept := (tcpWriteCompletion_keepsState env bytesWritten x.begin).inUse
    exact kept.symm.trans used
  | network what => exact networkEvent_inUse what _ used
  | timeout => exact checkTimeouts_inUse env _ used

theorem slotEvent_create (env : Env) {x : TcpSocket} (free : x.inUse = false)
    (created : Option Socket) (bound : Bool) (srcPort destPort : BitVec 16) (ipDest : BitVec 32) :
    slotEvent env x (.create created bound srcPort destPort ipDest) =
      (allocNewSocket created bound srcPort destPort ipDest (allocSocket x).begin).1 := by
  rw [slotEvent, if_neg (by simp [free])]

/-- A free slot that is kept is closed, and one that is not kept is free again. -/
theorem create_spec (env : Env) {x : TcpSocket} (free : x.inUse = false) (created : Option Socket)
    (bound : Bool) (srcPort destPort : BitVec 16) (ipDest : BitVec 32) :
    let after := slotEvent env x (.create created bound srcPort destPort ipDest)
    if created.isSome && bound then after.state = .closed else after.inUse = false := by
  rw [slotEvent_create env free]
  unfold allocNewSocket
  cases created with
  | none => exact freeSocket_inUse _
  | some s =>
    cases bound with
    | false => exact freeSocket_inUse _
    | true => rfl

-- Packets of the slot that are sent without one of the Mac.

theorem freeSocket_packets (x : Turn) (p : TcpPacket) :
    .enqueuePacket p ∈ (freeSocket x).effects → .enqueuePacket p ∈ x.effects := by
  unfold freeSocket
  dsimp only
  split <;> split <;> simp [Turn.emit]

/-- The timer sends the buffer of a stalled stream, and nothing else. -/
theorem checkTimeouts_packets {env : Env} {x : TcpSocket} {p : TcpPacket}
    (sent : .enqueuePacket p ∈ (checkTimeouts env x.begin).effects) :
    x.inUse = true ∧ x.state = .established ∧ x.streamToMacStalledUntil ≠ 0 ∧
      .enqueuePacket p ∈ (sendBuffer true { x.begin with
        streamToMacStalledUntil := env.laterTickCount + x.resendTimeout }).effects := by
  have nothing : .enqueuePacket p ∉ x.begin.effects := List.not_mem_nil
  unfold checkTimeouts at sent
  split at sent
  next used =>
    split at sent
    · split at sent
      · exact absurd (freeSocket_packets _ p sent) nothing
      · exact absurd sent nothing
    · split at sent
      next stalled =>
        split at sent
        next established =>
          split at sent
          · exact ⟨used, established, stalled, sent⟩
          · exact absurd sent nothing
        · exact absurd sent nothing
      · exact absurd sent nothing
  · exact absurd sent nothing

end BasiliskII.Router
