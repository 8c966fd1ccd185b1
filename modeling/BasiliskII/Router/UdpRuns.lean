import BasiliskII.Router.UdpLifetimes

/-!
# Runs of UDP socket objects

The scans that close system sockets never delete: every object in the table has one. What a run may
do without an object deleted early or a socket closed twice, and that it may do nothing else.
-/
namespace BasiliskII.Router

open StepSystem

namespace UdpState

variable {st : UdpState} {id : Nat}

/-! ### The scans -/

/-- Every object in the table has its system socket. -/
def Held (st : UdpState) : Prop :=
  ∀ id ∈ st.allSockets, ∃ cmpl, st.objects id = some cmpl ∧ cmpl.s = some id

theorem Base.held (base : st.Base) : st.Held := fun _ => base.object

/-- An object of a scan. -/
def tested (test : SocketT → Bool) (st : UdpState) (id : Nat) : Bool := (st.objects id).any test

def withClosed (more : List Socket) (st : UdpState) : UdpState :=
  { st with closed := st.closed ++ more }

theorem withClosed_nil (st : UdpState) : st.withClosed [] = st := by
  unfold withClosed
  rw [List.append_nil]

theorem withClosed_withClosed (st : UdpState) (more still : List Socket) :
    (st.withClosed more).withClosed still = st.withClosed (more ++ still) := by
  unfold withClosed
  rw [List.append_assoc]

theorem Held.closeAt (held : st.Held) (test : SocketT → Bool) {i : Nat}
    (inside : i < st.allSockets.length) :
    st.closeAt test i = st.withClosed ([st.allSockets[i]].filter (st.tested test)) := by
  obtain ⟨cmpl, object, s⟩ := held _ (List.getElem_mem inside)
  have entry : (st.allSockets[i]?).bind st.objects = some cmpl := by
    rw [List.getElem?_eq_getElem inside]
    exact object
  have same : st.tested test st.allSockets[i] = test cmpl := by
    unfold tested
    rw [object]
    rfl
  unfold UdpState.closeAt
  rw [entry, List.filter_cons, same, List.filter_nil]
  dsimp only
  rw [s]
  split
  · rfl
  · exact (withClosed_nil st).symm

theorem Held.closeOldLoop (held : st.Held) (now : BitVec 32) {n : Nat}
    (inside : n ≤ st.allSockets.length) : closeOldLoop now n st =
      st.withClosed ((st.allSockets.take n).filter (st.tested (expired now))).reverse := by
  induction n generalizing st with
  | zero => exact (withClosed_nil st).symm
  | succ n ih =>
    have last : st.allSockets.take (n + 1) = st.allSockets.take n ++ [st.allSockets[n]] :=
      (List.take_append_getElem inside).symm
    -- What is closed changes neither objects nor table.
    have rest : ∀ more, closeOldLoop now n (st.withClosed more) = (st.withClosed more).withClosed
        ((st.allSockets.take n).filter (st.tested (expired now))).reverse :=
      fun more => @ih (st.withClosed more) held (Nat.le_of_succ_le inside)
    have alone : ([st.allSockets[n]].filter (st.tested (expired now))).reverse =
        [st.allSockets[n]].filter (st.tested (expired now)) := by
      rw [List.filter_cons]
      split <;> rfl
    unfold UdpState.closeOldLoop
    rw [held.closeAt (expired now) inside, rest, withClosed_withClosed, last, List.filter_append,
      List.reverse_append, alone]

theorem Held.closeOldSockets (held : st.Held) (now : BitVec 32) : st.closeOldSockets now =
    st.withClosed (st.allSockets.filter (st.tested (expired now))).reverse := by
  unfold UdpState.closeOldSockets
  rw [held.closeOldLoop now (Nat.le_refl _), List.take_length]

theorem Held.closeAllLoop (held : st.Held) {n i : Nat} (enough : n + i = st.allSockets.length) :
    closeAllLoop n i st = st.withClosed (st.allSockets.drop i) := by
  induction n generalizing st i with
  | zero =>
    rw [List.drop_eq_nil_of_le (by omega)]
    exact (withClosed_nil st).symm
  | succ n ih =>
    have inside : i < st.allSockets.length := by omega
    obtain ⟨cmpl, object, _⟩ := held _ (List.getElem_mem inside)
    have always : st.tested (fun _ => true) st.allSockets[i] = true := by
      unfold tested
      rw [object]
      rfl
    have rest : ∀ more, closeAllLoop n (i + 1) (st.withClosed more) =
        (st.withClosed more).withClosed (st.allSockets.drop (i + 1)) :=
      fun more => @ih (st.withClosed more) held (i + 1)
        (show n + (i + 1) = st.allSockets.length by omega)
    unfold UdpState.closeAllLoop
    rw [if_pos inside, held.closeAt _ inside, List.filter_cons, if_pos always, rest,
      withClosed_withClosed, List.drop_eq_getElem_cons inside]
    rfl

theorem Held.closeAllSockets (held : st.Held) :
    st.closeAllSockets = st.withClosed st.allSockets := by
  unfold UdpState.closeAllSockets
  rw [held.closeAllLoop (Nat.add_zero _), List.drop_zero]

theorem Ok.withClosed (ok : st.Ok) {more : List Socket} (once : more.Nodup)
    (inTable : ∀ s ∈ more, s ∈ st.allSockets) (fresh : ∀ s ∈ more, s ∉ st.closed) :
    (st.withClosed more).Ok :=
  { ok with
    closed_created := fun s shut => by
      rcases List.mem_append.mp shut with before | now
      · exact ok.closed_created s before
      · exact ok.has_socket s ((ok.live s).mp (inTable s now))
    closed_once := List.nodup_append.mpr ⟨ok.closed_once, once, by
      rintro a before b now rfl
      exact fresh a now before⟩
    closed_or_live := fun s made =>
      (ok.closed_or_live s made).imp_left fun before => List.mem_append_left _ before }

theorem fresh_of_nodup {more : List Socket} (once : (st.withClosed more).closed.Nodup) {s : Socket}
    (now : s ∈ more) : s ∉ st.closed :=
  fun before => (List.nodup_append.mp once).2.2 s before s now rfl

/-! ### Runs -/

/-- What is right about objects, table and system sockets. -/
structure Right (st : UdpState) : Prop where
  deleted_idle : st.deletedPending = []
  handled_live : st.handledDeleted = []
  closed_once : st.closed.Nodup
  closed_or_live : ∀ s ∈ st.created, s ∉ st.closed →
    ∃ id ∈ st.allSockets, ∃ cmpl, st.objects id = some cmpl ∧ cmpl.s = some s
  nodup : st.allSockets.Nodup
  live : ∀ id, id ∈ st.allSockets ↔ (st.objects id).isSome
  bound : st.allSockets.length ≤ maxOpenSockets
  close_all : ∀ id ∈ st.allSockets, st.closeAllSockets.objects id = none ∨
    ∃ cmpl s, st.closeAllSockets.objects id = some cmpl ∧ cmpl.s = some s ∧
      s ∈ st.closeAllSockets.closed

theorem Ok.right (ok : st.Ok) : st.Right where
  deleted_idle := ok.deleted_idle
  handled_live := ok.handled_live
  closed_once := ok.closed_once
  closed_or_live s made not_closed := by
    have member := (ok.live s).mpr ((ok.closed_or_live s made).resolve_left not_closed)
    exact ⟨s, member, ok.toBase.object member⟩
  nodup := ok.nodup
  live := ok.live
  bound := ok.bound
  close_all id member := by
    obtain ⟨cmpl, object, s⟩ := ok.toBase.object member
    rw [ok.toBase.held.closeAllSockets]
    exact .inr ⟨cmpl, id, object, s, List.mem_append_right _ member⟩

/-- Nothing deletes an object whose read is outstanding, and nothing closes a socket twice. -/
def Allows (st : UdpState) : UdpEvent → Prop
  | .write w => sizeofUdp ≤ w.len →
    match st.found w with
    | some id => w.sent = true ∧ id ∉ st.closed
    | none => st.samePort w = none ∧
      (w.created = true → st.allSockets.length < maxOpenSockets)
  | .completion id _ _ _ => id ∉ st.closed
  | .expire now => ∀ id ∈ st.allSockets, st.tested (expired now) id → id ∉ st.closed
  | .closeAll => ∀ id ∈ st.allSockets, id ∉ st.closed

theorem Ok.writeUdp (ok : st.Ok) {w : UdpPacket} (allowed : st.Allows (.write w)) :
    (st.writeUdp w).Ok := by
  rw [writeUdp_eq]
  split
  · exact ok
  next enough =>
    have allowed := allowed (BitVec.not_lt.mp enough)
    cases found : st.found w with
    | some id =>
      rw [found] at allowed
      exact ok.send (found_mem found) allowed.1 allowed.2
    | none =>
      rw [found] at allowed
      dsimp only at allowed ⊢
      rw [allowed.1]
      exact ok.openNew allowed.2

theorem Ok.writeUdp_forced (ok : st.Ok) {w : UdpPacket}
    (idle : (st.writeUdp w).deletedPending = []) : st.Allows (.write w) := by
  intro enough
  rw [writeUdp_eq, if_neg (BitVec.not_lt.mpr enough)] at idle
  cases found : st.found w with
  | some id =>
    rw [found] at idle
    by_contra failed
    exact ok.send_logged (found_mem found) failed idle
  | none =>
    rw [found] at idle
    dsimp only at idle ⊢
    -- `find_socket` deletes the object of the port; what follows only adds to the log.
    cases taken : st.samePort w with
    | some id =>
      rw [taken] at idle
      have lost := ok.deleteSocket_logged (samePort_mem taken)
      exact ((openNew_grows _ w).ne_nil lost idle).elim
    | none =>
      rw [taken] at idle
      refine ⟨rfl, fun created => ?_⟩
      by_contra full
      exact ok.openNew_logged created full idle

theorem Ok.step {st' : UdpState} {event : UdpEvent} (ok : st.Ok) (allowed : st.Allows event)
    (step : udpStep st event = some st') : st'.Ok := by
  cases event with
  | write w =>
    cases step
    exact ok.writeUdp allowed
  | completion id received isRouterShuttingDown tickCount =>
    unfold udpStep at step
    dsimp only at step
    split at step
    next reading =>
      cases step
      exact ok.readCompletion reading allowed received isRouterShuttingDown tickCount
    · cases step
  | expire now =>
    cases step
    rw [ok.toBase.held.closeOldSockets now]
    refine ok.withClosed (List.nodup_reverse.mpr (ok.nodup.filter _)) (fun s shut => ?_)
      (fun s shut => ?_)
    · exact (List.mem_filter.mp (List.mem_reverse.mp shut)).1
    -- Only expired objects are closed.
    · have shut := List.mem_filter.mp (List.mem_reverse.mp shut)
      exact allowed s shut.1 shut.2
  | closeAll =>
    cases step
    rw [ok.toBase.held.closeAllSockets]
    exact ok.withClosed ok.nodup (fun _ member => member) allowed

theorem Ok.forced {st' : UdpState} {event : UdpEvent} (ok : st.Ok)
    (step : udpStep st event = some st') (right : st'.Right) : st.Allows event := by
  cases event with
  | write w =>
    cases step
    exact ok.writeUdp_forced right.deleted_idle
  | completion id received isRouterShuttingDown tickCount =>
    unfold udpStep at step
    dsimp only at step
    split at step
    next reading =>
      cases step
      intro shut
      exact ok.toBase.readCompletion_closed ((ok.reading id).mp reading) shut received
        isRouterShuttingDown tickCount right.closed_once
    · cases step
  | expire now =>
    cases step
    intro id member old
    have once := right.closed_once
    rw [ok.toBase.held.closeOldSockets now] at once
    exact fresh_of_nodup once (List.mem_reverse.mpr (List.mem_filter.mpr ⟨member, old⟩))
  | closeAll =>
    cases step
    intro id member
    have once := right.closed_once
    rw [ok.toBase.held.closeAllSockets] at once
    exact fresh_of_nodup once member

/-- Every state of a run is right exactly when each of its steps finds the reads and system
sockets as it needs them. -/
theorem lifetimes_right_iff {events : List UdpEvent} {st : UdpState}
    (run : Run udpStep Free initUdp events st) :
    Run udpStep Allows initUdp events st ↔
      ∀ ms u, ms <+: events → Run udpStep Free initUdp ms u → u.Right :=
  run.guarded_iff (fun _ _ _ ok allowed step => ok.step allowed step) (fun _ ok => ok.right)
    (fun _ _ _ ok step right => ok.forced step right) initUdp_ok

/-- A packet from port 1000 of the Mac to port 53, sent and read for. -/
def query : UdpPacket where
  len := 60
  srcPort := 1000
  destPort := 53
  created := true
  sent := true
  received := true
  tickCount := 0

theorem query_answered_right :
    Run udpStep Allows initUdp [.write query, .completion 0 false false 100]
        ((initUdp.writeUdp query).readCompletion 0 false false 100) ∧
      ((initUdp.writeUdp query).readCompletion 0 false false 100).Right := by
  have pending : 0 ∈ (initUdp.writeUdp query).pending := by decide
  have reading : udpStep (initUdp.writeUdp query) (.completion 0 false false 100) =
      some ((initUdp.writeUdp query).readCompletion 0 false false 100) := by
    unfold udpStep
    exact if_pos pending
  have run : Run udpStep Free initUdp [.write query, .completion 0 false false 100]
      ((initUdp.writeUdp query).readCompletion 0 false false 100) :=
    .next trivial rfl (.next trivial reading (.done _))
  have new : initUdp.Allows (.write query) := fun _ => ⟨rfl, fun _ => by decide⟩
  have still_open : (initUdp.writeUdp query).Allows (.completion 0 false false 100) := by
    unfold Allows
    decide
  have allowed : Run udpStep Allows initUdp [.write query, .completion 0 false false 100]
      ((initUdp.writeUdp query).readCompletion 0 false false 100) :=
    .next new rfl (.next still_open reading (.done _))
  exact ⟨allowed, (lifetimes_right_iff run).mp allowed _ _ List.prefix_rfl run⟩

/-- The next packet from port 1000, to port 54, deletes the object that reads for port 53. -/
theorem port_reuse_deletes_reading :
    ¬∀ events st, Run udpStep Free initUdp events st → st.Right := by
  intro all
  have deleted : ((initUdp.writeUdp query).writeUdp { query with destPort := 54 }).deletedPending =
      [0] := by decide
  have right := all [.write query, .write { query with destPort := 54 }] _
    (.next trivial rfl (.next trivial rfl (.done _)))
  rw [right.deleted_idle] at deleted
  cases deleted

-- The completion of the read of an expired object closes its socket again.
example : (((initUdp.writeUdp query).closeOldSockets 60000).readCompletion 0 false false
    60000).closed = [0, 0] := by decide

end UdpState

end BasiliskII.Router
