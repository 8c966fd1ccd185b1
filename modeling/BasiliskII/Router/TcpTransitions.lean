import BasiliskII.Router.TcpFrame

/-!
# The transition table

The table at the head of tcp.cpp, and how the state changes of a slot compare
with it.
-/
namespace BasiliskII.Router

inductive Trigger
  | passiveOpen | activeOpen | sendData | close | timeout
  | segment (flags : BitVec 8)
  deriving DecidableEq

/-- The flags the segment is listed with. -/
def Trigger.flags : Trigger → Option (BitVec 8)
  | .segment flags => some flags
  | _ => none

structure Transition where
  source : TcpState
  target : TcpState
  trigger : Trigger
  sends : Option (BitVec 8)
  deriving DecidableEq

/-- All possible tcp state machine transitions. -/
def transitions : List Transition :=
  let ack := tcpFlagsAck
  let syn := tcpFlagsSyn
  let fin := tcpFlagsFin
  let rst := tcpFlagsRst
  [⟨.closed, .listen, .passiveOpen, none⟩,
    ⟨.closed, .synSent, .activeOpen, some syn⟩,
    ⟨.listen, .synSent, .sendData, some syn⟩,
    ⟨.listen, .synRcvd, .segment syn, some (syn ||| ack)⟩,
    ⟨.synSent, .synRcvd, .segment syn, some (syn ||| ack)⟩,
    ⟨.synSent, .established, .segment (syn ||| ack), some ack⟩,
    ⟨.synSent, .closed, .close, none⟩,
    ⟨.synSent, .closed, .timeout, none⟩,
    ⟨.synRcvd, .closed, .timeout, some rst⟩,
    ⟨.synRcvd, .listen, .segment rst, none⟩,
    ⟨.synRcvd, .established, .segment ack, none⟩,
    ⟨.synRcvd, .finwait1, .close, some fin⟩,
    ⟨.established, .finwait1, .close, some fin⟩,
    ⟨.established, .closeWait, .segment fin, some ack⟩,
    ⟨.closeWait, .lastAck, .close, some fin⟩,
    ⟨.lastAck, .closed, .segment ack, none⟩,
    ⟨.finwait1, .closing, .segment fin, some ack⟩,
    ⟨.finwait1, .finwait2, .segment ack, none⟩,
    ⟨.finwait1, .timeWait, .segment (fin ||| ack), some ack⟩,
    ⟨.finwait2, .timeWait, .segment fin, some ack⟩,
    ⟨.closing, .timeWait, .segment ack, none⟩,
    ⟨.timeWait, .closed, .timeout, none⟩]

/-- The segment has the listed flags, and no row of the state lists more of those it has. -/
def Lists (state : TcpState) (flags listed : BitVec 8) : Prop :=
  flags &&& listed = listed ∧
    ∀ t ∈ transitions, t.source = state → ∀ more ∈ t.trigger.flags,
      flags &&& more = more → more &&& listed = listed → more = listed

/-- The triggers an event is in a state. The SYN of the Mac is answered when the connect is
through. -/
def SlotEvent.Triggers (state : TcpState) : SlotEvent → Trigger → Prop
  | .packet p, .passiveOpen => isSet p.flags tcpFlagsSyn
  | .packet p, .segment flags => Lists state p.flags flags
  | .accept .., .activeOpen => True
  | .network (.connect false), .segment flags => flags = tcpFlagsSyn
  | .read _ data, .sendData => BitVec.ofNat 32 data.length ≠ 0
  | .read _ data, .close => BitVec.ofNat 32 data.length = 0
  | .timeout, .timeout => True
  | _, _ => False

/-- A segment with these flags, perhaps with an ACK, goes to the Mac. -/
def Sends (effects : List Effect) (flags : BitVec 8) : Prop :=
  ∃ p, .enqueuePacket p ∈ effects ∧ (p.flags = flags ∨ p.flags = flags ||| tcpFlagsAck)

/-- The event is the trigger of the row, and leads where the row does. -/
def Transition.Taken (t : Transition) (x : TcpSocket) (event : SlotEvent) (after : TcpSocket) :
    Prop :=
  t.source = x.state ∧ t.target = after.state ∧ event.Triggers t.source t.trigger

/-- The slot is freed, or a free slot is given out, where the table tells to send nothing. -/
def Reset (x : TcpSocket) (event : SlotEvent) (after : TcpSocket) : Prop :=
  after.state = .closed ∧ (after.inUse = false ∨ x.inUse = false) ∧
    ∀ t ∈ transitions, t.Taken x event after → t.sends = none

/-- A change of the state that is in the table, or a reset. -/
def Conforms (x : TcpSocket) (event : SlotEvent) (after : Turn) : Prop :=
  after.state = x.state ∨ Reset x event after.toTcpSocket ∨
    ∃ t ∈ transitions, t.Taken x event after.toTcpSocket ∧
      ∀ flags ∈ t.sends, Sends after.effects flags

/-- What the event has to be like for it. A Mac that has been sent a SYN does not answer with an ACK
alone, nothing closes a connect that is under way, an accepted connection gets a closed slot, and
no time runs out in SYN_RCVD. -/
def SlotEvent.Regular (env : Env) (x : TcpSocket) : SlotEvent → Prop
  | .packet p =>
    x.state = .synSent → isSet p.flags tcpFlagsAck →
      isSet p.flags tcpFlagsRst ∨ isSet p.flags tcpFlagsSyn
  | .read error data =>
    x.inUse → x.state = .listen → error = 0 → BitVec.ofNat 32 data.length ≠ 0
  | .accept .. => x.state = .closed ∨ x.state = .synSent
  | .timeout => x.inUse → x.timeWait ≠ 0 → env.tickCount ≥ x.timeWait → x.state ≠ .synRcvd
  | _ => True

-- How a change conforms.

section Conforms

variable {x : TcpSocket} {event : SlotEvent} {after : Turn}

theorem conforms_same (same : after.state = x.state) : Conforms x event after :=
  .inl same

/-- Only a time that runs out in SYN_RCVD has to be told. -/
theorem closed_silent (other : event ≠ .timeout ∨ x.state ≠ .synRcvd) {after : TcpSocket}
    (closed : after.state = .closed) :
    ∀ t ∈ transitions, t.Taken x event after → t.sends = none := by
  have rows : ∀ t ∈ transitions, t.target = .closed → t.sends ≠ none →
      t.source = .synRcvd ∧ t.trigger = .timeout := by decide
  intro t row ⟨source, target, triggered⟩
  by_contra told
  obtain ⟨received, timeout⟩ := rows t row (target.trans closed) told
  rw [timeout] at triggered
  rcases other with no_time | elsewhere
  · cases event with
    | timeout => exact no_time rfl
    | _ => simp [SlotEvent.Triggers] at triggered
  · exact elsewhere (source.symm.trans received)

theorem conforms_freeSocket (y : Turn) (other : event ≠ .timeout ∨ x.state ≠ .synRcvd) :
    Conforms x event (freeSocket y) :=
  .inr (.inl ⟨freeSocket_state y, .inl (freeSocket_inUse y),
    closed_silent other (freeSocket_state y)⟩)

theorem conforms_silent (source target : TcpState) (trigger : Trigger)
    (row : ⟨source, target, trigger, none⟩ ∈ transitions) (before : source = x.state)
    (becomes : target = after.state) (triggered : event.Triggers source trigger) :
    Conforms x event after :=
  .inr (.inr ⟨_, row, ⟨before, becomes, triggered⟩, by rintro _ ⟨⟩⟩)

theorem conforms_sends (source target : TcpState) (trigger : Trigger) (flags : BitVec 8)
    (row : ⟨source, target, trigger, some flags⟩ ∈ transitions) (before : source = x.state)
    (becomes : target = after.state) (triggered : event.Triggers source trigger)
    (sent : Sends after.effects flags) : Conforms x event after := by
  refine .inr (.inr ⟨_, row, ⟨before, becomes, triggered⟩, ?_⟩)
  rintro _ ⟨⟩
  exact sent

theorem Conforms.keepsState {y z : Turn} (conforms : Conforms x event y) (keeps : KeepsState y z) :
    Conforms x event z := by
  have taken : ∀ t : Transition, t.Taken x event z.toTcpSocket = t.Taken x event y.toTcpSocket := by
    intro t
    rw [Transition.Taken, Transition.Taken, keeps.state]
  rcases conforms with same | ⟨closed, free, silent⟩ | ⟨t, row, follows, sent⟩
  · exact .inl (keeps.state.trans same)
  · refine .inr (.inl ⟨keeps.state.trans closed, ?_, fun t row => ?_⟩)
    · rw [keeps.inUse]
      exact free
    · rw [taken]
      exact silent t row
  · refine .inr (.inr ⟨t, row, (taken t).mpr follows, ?_⟩)
    intro flags attached
    obtain ⟨p, enqueued, same⟩ := sent flags attached
    exact ⟨p, keeps.effects _ enqueued, same⟩

end Conforms

/-- One of the flags of the table. -/
def flagsListed : List (BitVec 8) := [tcpFlagsAck, tcpFlagsSyn, tcpFlagsFin]

theorem and_eq_self_iff : ∀ flag ∈ flagsListed, ∀ f : BitVec 8,
    f &&& flag = flag ↔ isSet f flag = true := by
  decide

variable {state : TcpState}

/-- The row of a flag that no other row of the state has. -/
theorem lists_only {f flag : BitVec 8} (flag_listed : flag ∈ flagsListed)
    (set : isSet f flag = true)
    (only : ∀ t ∈ transitions, t.source = state → ∀ more ∈ t.trigger.flags,
      more &&& flag = flag → more = flag) : Lists state f flag :=
  ⟨(and_eq_self_iff flag flag_listed f).mpr set,
    fun t row source more listed _ => only t row source more listed⟩

/-- The row of a flag that another one has beside a flag the segment lacks. -/
theorem lists_without {f flag lacks : BitVec 8} (flag_listed : flag ∈ flagsListed)
    (lacks_listed : lacks ∈ flagsListed) (set : isSet f flag = true) (unset : ¬isSet f lacks = true)
    (only : ∀ t ∈ transitions, t.source = state → ∀ more ∈ t.trigger.flags,
      more &&& flag = flag → more = flag ∨ more &&& lacks = lacks) : Lists state f flag := by
  refine ⟨(and_eq_self_iff flag flag_listed f).mpr set, ?_⟩
  intro t row source more listed has more_has
  refine (only t row source more listed more_has).resolve_right fun both => unset ?_
  rw [← and_eq_self_iff lacks lacks_listed, ← both, ← BitVec.and_assoc, has]

/-- The row of two flags. -/
theorem lists_both {f first second : BitVec 8} (first_listed : first ∈ flagsListed)
    (second_listed : second ∈ flagsListed) (set : (isSet f first && isSet f second) = true)
    (only : ∀ t ∈ transitions, t.source = state → ∀ more ∈ t.trigger.flags,
      more &&& (first ||| second) = first ||| second → more = first ||| second) :
    Lists state f (first ||| second) := by
  obtain ⟨one, other⟩ := Bool.and_eq_true_iff.mp set
  refine ⟨?_, fun t row source more listed _ => only t row source more listed⟩
  rw [BitVec.and_or_distrib_left, (and_eq_self_iff first first_listed f).mpr one,
    (and_eq_self_iff second second_listed f).mpr other]

theorem tcpReply_sends (flags : BitVec 8) (x : Turn) : Sends (tcpReply flags x).effects flags :=
  ⟨_, List.mem_append_right _ (List.mem_singleton_self _), .inl rfl⟩

theorem Sends.emit {x : Turn} {flags : BitVec 8} (sent : Sends x.effects flags) (e : Effect) :
    Sends (x.emit e).effects flags := by
  obtain ⟨p, enqueued, same⟩ := sent
  exact ⟨p, List.mem_append_left _ enqueued, same⟩

/-- The reply of `takeFin` is out. -/
theorem takeFin_sends (x : Turn) : Sends (takeFin x).effects tcpFlagsAck := by
  have replied := tcpReply_sends tcpFlagsAck { x with seqIn := x.seqIn + 1 }
  unfold takeFin
  dsimp only
  split
  · exact replied.emit _
  · exact replied.emit _

variable {y : Turn}

/-- The state machine conforms on a packet, except that a SYN must not be answered with an ACK
alone. -/
theorem stateMachine_conforms (env : Env) (p : TcpPacket) (x : TcpSocket) (same : y.state = x.state)
    (regular : x.state = .synSent → isSet p.flags tcpFlagsAck → isSet p.flags tcpFlagsSyn) :
    Conforms x (.packet p) (stateMachine env p y).1 := by
  unfold stateMachine
  cases state : y.state <;> rw [state] at same <;> dsimp only
  case closed =>
    split
    next syn => exact conforms_silent .closed .listen .passiveOpen (by decide) same rfl syn
    · exact conforms_freeSocket _ (.inl (by simp))
  case listen => exact conforms_same (state.trans same)
  case synSent =>
    split
    next set =>
      have lists : Lists .synSent _ _ := lists_both (by decide) (by decide) set (by decide)
      exact conforms_sends .synSent .established (.segment (tcpFlagsSyn ||| tcpFlagsAck))
        tcpFlagsAck (by decide) same rfl lists (tcpReply_sends _ _)
    next not_both =>
      split
      next syn =>
        have no_ack : ¬isSet p.flags tcpFlagsAck = true := fun ack =>
          not_both (by rw [syn, ack]; rfl)
        have lists : Lists .synSent _ _ :=
          lists_without (by decide) (by decide) syn no_ack (by decide)
        exact conforms_sends .synSent .synRcvd (.segment tcpFlagsSyn) (tcpFlagsSyn ||| tcpFlagsAck)
          (by decide) same rfl lists (tcpReply_sends _ _)
      next syn =>
        have no_ack : ¬isSet p.flags tcpFlagsAck = true := fun ack => syn (regular same.symm ack)
        rw [if_neg no_ack]
        exact conforms_same (state.trans same)
  case synRcvd =>
    split
    next ack =>
      exact conforms_silent .synRcvd .established (.segment tcpFlagsAck) (by decide) same rfl
        (lists_only (by decide) ack (by decide))
    · exact conforms_same (state.trans same)
  case established =>
    split
    next fin =>
      exact conforms_sends .established .closeWait (.segment tcpFlagsFin) tcpFlagsAck (by decide)
        same rfl (lists_only (by decide) fin (by decide)) ((tcpReply_sends _ _).emit _)
    · exact conforms_same (state.trans same)
  case closeWait => exact conforms_same (state.trans same)
  case lastAck =>
    split
    · exact conforms_freeSocket _ (.inl (by simp))
    · exact conforms_same (state.trans same)
  case finwait1 =>
    split
    next set =>
      have lists : Lists .finwait1 _ _ := lists_both (by decide) (by decide) set (by decide)
      exact conforms_sends .finwait1 .timeWait (.segment (tcpFlagsFin ||| tcpFlagsAck)) tcpFlagsAck
        (by decide) same rfl lists (takeFin_sends y)
    next not_both =>
      split
      next fin =>
        have no_ack : ¬isSet p.flags tcpFlagsAck = true := fun ack =>
          not_both (by rw [fin, ack]; rfl)
        have lists : Lists .finwait1 _ _ :=
          lists_without (by decide) (by decide) fin no_ack (by decide)
        exact conforms_sends .finwait1 .closing (.segment tcpFlagsFin) tcpFlagsAck (by decide) same
          rfl lists (takeFin_sends y)
      next no_fin =>
        split
        next ack =>
          have lists : Lists .finwait1 _ _ :=
            lists_without (by decide) (by decide) ack no_fin (by decide)
          exact conforms_silent .finwait1 .finwait2 (.segment tcpFlagsAck) (by decide) same rfl
            lists
        · exact conforms_same (state.trans same)
  case finwait2 =>
    split
    next fin =>
      exact conforms_sends .finwait2 .timeWait (.segment tcpFlagsFin) tcpFlagsAck (by decide) same
        rfl (lists_only (by decide) fin (by decide)) (takeFin_sends y)
    · exact conforms_same (state.trans same)
  case closing =>
    split
    next ack =>
      exact conforms_silent .closing .timeWait (.segment tcpFlagsAck) (by decide) same rfl
        (lists_only (by decide) ack (by decide))
    · exact conforms_same (state.trans same)
  case timeWait => exact conforms_same (state.trans same)

variable {data : List (BitVec 8)} {error : BitVec 32}

theorem readState_conforms (env : Env) {x : TcpSocket} (same : y.state = x.state)
    (regular : x.state = .listen → BitVec.ofNat 32 data.length ≠ 0) :
    Conforms x (.read error data) (readState env (BitVec.ofNat 32 data.length) y) := by
  have fin_sent : ∀ next, Sends (replyFin next y).effects tcpFlagsFin := fun next =>
    ⟨_, List.mem_append_right _ (List.mem_singleton_self _), .inr rfl⟩
  unfold readState
  cases state : y.state <;> rw [state] at same <;> dsimp only
  case listen =>
    exact conforms_sends .listen .synSent .sendData tcpFlagsSyn (by decide) same rfl
      (regular same.symm) (tcpReply_sends _ _)
  case synRcvd =>
    split
    next closed =>
      exact conforms_sends .synRcvd .finwait1 .close tcpFlagsFin (by decide) same rfl closed
        (fin_sent _)
    · exact conforms_same (state.trans same)
  case established =>
    split
    next closed =>
      exact conforms_sends .established .finwait1 .close tcpFlagsFin (by decide) same rfl closed
        (fin_sent _)
    · exact conforms_same (state.trans same)
  case closeWait =>
    split
    next closed =>
      have conforms : Conforms x (.read error data) (replyFin .lastAck y) :=
        conforms_sends .closeWait .lastAck .close tcpFlagsFin (by decide) same rfl closed
          (fin_sent _)
      split
      · exact conforms.keepsState ⟨rfl, rfl, rfl, fun _ => List.mem_append_left _⟩
      · exact conforms
    · exact conforms_same (state.trans same)
  all_goals exact conforms_same (state.trans same)

theorem tcpReadCompletion_conforms (env : Env) {x : TcpSocket} (same : y.state = x.state)
    (regular : y.inUse → x.state = .listen → error = 0 → BitVec.ofNat 32 data.length ≠ 0) :
    Conforms x (.read error data)
      (tcpReadCompletion env error (BitVec.ofNat 32 data.length) y) := by
  unfold tcpReadCompletion
  dsimp only
  split
  · exact conforms_same same
  next used =>
    have in_use : y.inUse = true := by simpa using used
    split
    · exact conforms_freeSocket _ (.inl (by simp))
    next success =>
      have switched : ∀ z : Turn, z.state = y.state → Conforms x (.read error data)
          (readState env (BitVec.ofNat 32 data.length) z) := fun z kept =>
        readState_conforms env (kept.trans same) fun listen =>
          regular in_use listen (Decidable.not_not.mp success)
      have taken : ∀ z : Turn, Conforms x (.read error data) z →
          Conforms x (.read error data) (bRecfrom env z).1 := fun z conforms =>
        conforms.keepsState (bRecfrom_keepsState env z)
      by_cases closed : BitVec.ofNat 32 data.length = 0
      · rw [if_pos closed]
        split
        · exact taken _ (switched _ rfl)
        · exact switched _ rfl
      · rw [if_neg closed]
        have kept := (sendBuffer_keepsState false
          { y with bytesReceived := BitVec.ofNat 32 data.length }).state
        split
        · exact taken _ (switched _ kept)
        · exact switched _ kept

theorem writeTcp_conforms (env : Env) {p : TcpPacket} {x : TcpSocket} (same : y.state = x.state)
    (regular : SlotEvent.Regular env x (.packet p)) :
    Conforms x (.packet p) (writeTcp env p y) := by
  by_cases reset : isSet p.flags tcpFlagsRst
  · rw [writeTcp, if_pos reset]
    exact conforms_freeSocket _ (.inl (by simp))
  · have heard := (hearMac_keepsState p y).state.trans same
    have conforms := stateMachine_conforms env p x heard fun sent ack =>
      (regular sent ack).resolve_left reset
    exact conforms.keepsState (writeTcp_keepsState env y reset)

theorem networkEvent_conforms {x : TcpSocket} {what : NetworkEvents} (same : y.state = x.state) :
    Conforms x (.network what) (networkEvent what y) := by
  unfold networkEvent
  split
  · cases what with
    | connect error =>
      cases error with
      | true => exact conforms_same same
      | false =>
        dsimp only
        rw [if_neg Bool.false_ne_true]
        unfold tcpConnectCallback
        split
        next listen =>
          -- The SYN that has brought the slot to LISTEN is answered now.
          exact conforms_sends .listen .synRcvd (.segment tcpFlagsSyn) (tcpFlagsSyn ||| tcpFlagsAck)
            (by decide) (listen.symm.trans same) rfl rfl (tcpReply_sends _ _)
        · exact conforms_same same
    | close | nothing => exact conforms_same same
    | failed notSocket =>
      dsimp only
      split
      · exact conforms_same same
      · exact conforms_freeSocket _ (.inl (by simp))
  · exact conforms_same same

theorem checkTimeouts_conforms {env : Env} {x : TcpSocket}
    (regular : SlotEvent.Regular env x .timeout) :
    Conforms x .timeout (checkTimeouts env x.begin) := by
  have same : x.begin.state = x.state := rfl
  unfold checkTimeouts
  split
  next used =>
    split
    next set =>
      split
      next late => exact conforms_freeSocket _ (.inr (regular used set late))
      · exact conforms_same same
    · split
      · split
        · split
          · exact conforms_same ((sendBuffer_keepsState true _).state.trans same)
          · exact conforms_same same
        · exact conforms_same same
      · exact conforms_same same
  · exact conforms_same same

theorem create_conforms (created : Option Socket) (bound : Bool) (srcPort destPort : BitVec 16)
    (ipDest : BitVec 32) (x : TcpSocket) {event : SlotEvent} (no_time : event ≠ .timeout) :
    Conforms x event (allocNewSocket created bound srcPort destPort ipDest
      (if x.inUse then x else allocSocket x).begin).1 := by
  have begun : Conforms x event (if x.inUse then x else allocSocket x).begin := by
    split
    · exact conforms_same rfl
    next free =>
      exact .inr (.inl ⟨rfl, .inr (by simpa using free), closed_silent (.inl no_time) rfl⟩)
  unfold allocNewSocket
  dsimp only
  split
  · exact conforms_freeSocket _ (.inl no_time)
  · split
    · exact begun
    · exact conforms_freeSocket _ (.inl no_time)

theorem forceClose_conforms {x : TcpSocket} {event : SlotEvent} (same : y.state = x.state)
    (no_time : event ≠ .timeout) : Conforms x event (forceClose y) := by
  unfold forceClose
  split
  · exact conforms_same same
  · exact conforms_freeSocket _ (.inl no_time)

theorem not_conforms {x : TcpSocket} {event : SlotEvent} {after : Turn}
    (differs : after.state ≠ x.state) (opened : after.state ≠ .closed)
    (unlisted : ∀ t ∈ transitions, t.source = x.state → t.target = after.state →
      ¬event.Triggers t.source t.trigger) : ¬Conforms x event after := by
  rintro (same | ⟨closed, _⟩ | ⟨t, row, ⟨source, target, triggered⟩, _⟩)
  · exact differs same
  · exact opened closed
  · exact unlisted t row source target triggered

theorem ackOnly_not_conforms (env : Env) {x : TcpSocket} {p : TcpPacket} (sent : x.state = .synSent)
    (ack : isSet p.flags tcpFlagsAck = true)
    (irregular : ¬(isSet p.flags tcpFlagsRst = true ∨ isSet p.flags tcpFlagsSyn = true)) :
    ¬Conforms x (.packet p) (slotEvent env x (.packet p)) := by
  obtain ⟨no_reset, no_syn⟩ := not_or.mp irregular
  have heard : (hearMac p x.begin).1.state = .synSent :=
    (hearMac_keepsState p x.begin).state.trans sent
  have machine : (stateMachine env p (hearMac p x.begin).1).1.state = .finwait2 := by
    unfold stateMachine
    simp [heard, no_syn, ack]
  have after : (slotEvent env x (.packet p)).state = .finwait2 :=
    (writeTcp_keepsState env x.begin no_reset).state.trans machine
  have rows : ∀ t ∈ transitions, t.source = .synSent → t.target ≠ .finwait2 := by decide
  refine not_conforms ?_ ?_ fun t row source target =>
    absurd (target.trans after) (rows t row (source.trans sent))
  · rw [after, sent]
    decide
  · rw [after]
    decide

/-- A close of the remote host during the connect leads to SYN_SENT. -/
theorem closedConnect_not_conforms (env : Env) {x : TcpSocket} (used : x.inUse = true)
    (listen : x.state = .listen) (success : error = 0) (closed : BitVec.ofNat 32 data.length = 0) :
    ¬Conforms x (.read error data) (slotEvent env x (.read error data)) := by
  have after : (slotEvent env x (.read error data)).state = .synSent := by
    simp [slotEvent, tcpReadCompletion, TcpSocket.begin, used, success, closed, readState, listen,
      tcpReply, Turn.emit]
  have rows : ∀ t ∈ transitions, t.source = .listen → t.target = .synSent →
      t.trigger = .sendData := by decide
  refine not_conforms ?_ ?_ fun t row source target triggered => ?_
  · rw [after, listen]
    decide
  · rw [after]
    decide
  · rw [rows t row (source.trans listen) (target.trans after)] at triggered
    exact triggered closed

theorem lateSynRcvd_not_conforms {env : Env} {x : TcpSocket} (used : x.inUse = true)
    (set : x.timeWait ≠ 0) (late : env.tickCount ≥ x.timeWait) (received : x.state = .synRcvd) :
    ¬Conforms x .timeout (slotEvent env x .timeout) := by
  have after : slotEvent env x .timeout = freeSocket x.begin := by
    change checkTimeouts env x.begin = _
    unfold checkTimeouts
    exact (if_pos used).trans ((if_pos set).trans (if_pos late))
  have closed := freeSocket_state x.begin
  rw [after]
  rintro (same | ⟨_, _, silent⟩ | ⟨t, row, ⟨source, target, _⟩, sent⟩)
  · rw [closed, received] at same
    cases same
  · have told := silent ⟨.synRcvd, .closed, .timeout, some tcpFlagsRst⟩ (by decide)
      ⟨received.symm, closed.symm, trivial⟩
    cases told
  · have rows : ∀ t ∈ transitions, t.source = .synRcvd → t.target = .closed →
        t.sends = some tcpFlagsRst := by decide
    obtain ⟨p, enqueued, _⟩ := sent _ (rows t row (source.trans received) (target.trans closed))
    have nothing : ∀ p, .enqueuePacket p ∉ (freeSocket x.begin).effects := by
      intro p
      unfold freeSocket
      dsimp only
      split <;> split <;> simp [TcpSocket.begin, Turn.emit]
    exact nothing p enqueued

/-- What happens to a slot is in the transition table, with the segments it tells to send, or a
reset, exactly as long as nobody answers a SYN with an ACK alone, no connect under way is closed, an
accepted connection gets a closed slot and no time runs out in SYN_RCVD. -/
theorem slotEvent_conforms_iff (env : Env) (x : TcpSocket) (event : SlotEvent) :
    Conforms x event (slotEvent env x event) ↔ event.Regular env x := by
  constructor
  · intro conforms
    cases event with
    | packet p =>
      intro sent ack
      by_contra irregular
      exact ackOnly_not_conforms env sent ack irregular conforms
    | read error data =>
      intro used listen success closed
      exact closedConnect_not_conforms env used listen success closed conforms
    | accept s macosIpAddress srcPort destPort ipDest =>
      by_contra irregular
      obtain ⟨opened, other⟩ := not_or.mp irregular
      have after : (slotEvent env x (.accept s macosIpAddress srcPort destPort ipDest)).state =
          .synSent := rfl
      refine not_conforms (Ne.symm other) (after ▸ by decide) ?_ conforms
      -- A row to SYN_SENT starts in CLOSED or is about data.
      have rows : ∀ t ∈ transitions, t.target = .synSent →
          t.source = .closed ∨ t.trigger = .sendData := by decide
      intro t row source target
      rcases rows t row target with closed | data
      · exact absurd (source.symm.trans closed) opened
      · rw [data]
        exact id
    | timeout =>
      intro used set late received
      exact lateSynRcvd_not_conforms used set late received conforms
    | _ => trivial
  · intro regular
    cases event with
    | create created bound srcPort destPort ipDest =>
      exact create_conforms created bound srcPort destPort ipDest x (by simp)
    | accept s macosIpAddress srcPort destPort ipDest =>
      rcases regular with closed | sent
      · exact conforms_sends .closed .synSent .activeOpen tcpFlagsSyn (by decide) closed.symm rfl
          trivial (tcpReply_sends _ _)
      · exact conforms_same sent.symm
    | packet p => exact writeTcp_conforms env rfl regular
    | forceClose => exact forceClose_conforms rfl (by simp)
    | read error data => exact tcpReadCompletion_conforms env rfl regular
    | write bytesWritten =>
      exact conforms_same (tcpWriteCompletion_keepsState env bytesWritten x.begin).state
    | network what => exact networkEvent_conforms rfl
    | timeout => exact checkTimeouts_conforms regular

-- A remote host connects to the Mac's port 80, and the Mac answers the SYN with an ACK.

def acceptedSocket : TcpSocket :=
  let created := slotEvent quietEnv initSocket (.create (some 1) true 80 4000 0x0A000001)
  (slotEvent quietEnv created.toTcpSocket (.accept 2 0xC0A80002 80 4000 0x0A000001)).toTcpSocket

def ackAlone : TcpPacket where
  ttl := 64
  ipSrc := 0xC0A80002
  ipDest := 0x0A000001
  srcPort := 80
  destPort := 4000
  seq := 7
  ack := 2
  flags := tcpFlagsAck
  window := 1460
  mss := 0
  data := []

theorem accepted_ackAlone_finwait2 :
    acceptedSocket.state = .synSent ∧
    (slotEvent quietEnv acceptedSocket (.packet ackAlone)).state = .finwait2 ∧
    ¬Conforms acceptedSocket (.packet ackAlone)
      (slotEvent quietEnv acceptedSocket (.packet ackAlone)) := by
  have sent : acceptedSocket.state = .synSent := rfl
  have irregular : ¬(isSet ackAlone.flags tcpFlagsRst = true ∨
      isSet ackAlone.flags tcpFlagsSyn = true) := by decide
  exact ⟨sent, rfl, ackOnly_not_conforms quietEnv sent rfl irregular⟩

end BasiliskII.Router
