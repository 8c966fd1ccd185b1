import BasiliskII.Router.FromMacPacket

/-!
# What is acknowledged has been handed over

The bytes that Windows has taken and the write under way are the beginning of
what the Mac sends, and the sequence number that is expected follows what is
acknowledged. Before the connection is there nothing of it is touched.
-/
namespace BasiliskII.Router

open StepSystem

/-- The write under way is in the buffer, and what it began with is counted for the
acknowledgement. -/
structure FromMac.Sends (x : FromMac) (bytes : List (BitVec 8)) : Prop where
  some_left : bytes ≠ []
  buffer : x.slot.writeBuf.take bytes.length = bytes
  remaining : x.slot.bytesRemainingToSend = BitVec.ofNat 32 bytes.length
  total : BitVec.ofNat 32 x.acked + x.slot.bytesToSend =
    BitVec.ofNat 32 (x.handed.length + bytes.length)

/-- The account of the bytes. -/
structure FromMac.Ledger (x : FromMac) : Prop where
  within : x.handed ++ x.writing.getD [] <+: x.stream.bytes
  acked_le : x.acked ≤ x.handed.length
  near : x.handed.length + (x.writing.getD []).length ≤ x.acked + maxSegmentSize
  seqIn : x.known = true →
    x.slot.seqIn = x.stream.isn + 1 + BitVec.ofNat 32 (x.acked + x.fin.toNat)
  accepts : x.slot.acceptMoreDataFromMac = true → x.writing = none ∧ x.acked = x.handed.length
  sends : ∀ bytes ∈ x.writing, x.Sends bytes
  finished : x.fin = true → x.known = true ∧ x.Finishes

/-- No byte has been asked for. -/
structure FromMac.Untouched (x : FromMac) : Prop where
  reads : x.reads = 0
  writing : x.writing = none
  accepts : x.slot.acceptMoreDataFromMac = false
  handed : x.handed = []

/-- The states in which the FIN of the Mac has been taken up. -/
def TcpState.Closing (state : TcpState) : Prop :=
  state = .closeWait ∨ state = .lastAck ∨ state = .closing ∨ state = .timeWait

/-- Where a slot in use can be. -/
structure FromMac.Phase (x : FromMac) : Prop where
  opening : x.slot.inUse = true → x.known = false ∨ x.slot.state.Opening → x.Untouched
  unknown : x.slot.inUse = true → x.known = false →
    x.slot.state = .closed ∨ x.slot.state = .synSent ∨ x.slot.state = .finwait2
  heard : x.slot.inUse = true → x.known = true → x.slot.state ≠ .closed ∧ x.slot.state ≠ .synSent
  closing : x.slot.inUse = true → x.fin = true → x.slot.state.Closing

structure FromMac.Invariant (x : FromMac) : Prop where
  ledger : x.Ledger
  phase : x.Phase

theorem FromMac.Phase.of_free {x : FromMac} (free : x.slot.inUse = false) : x.Phase where
  opening used := absurd (free.symm.trans used) Bool.false_ne_true
  unknown used := absurd (free.symm.trans used) Bool.false_ne_true
  heard used := absurd (free.symm.trans used) Bool.false_ne_true
  closing used := absurd (free.symm.trans used) Bool.false_ne_true

theorem FromMac.Phase.of_known {x : FromMac} (known : x.known = true)
    (opening : x.slot.state.Opening → x.Untouched)
    (heard : x.slot.state ≠ .closed ∧ x.slot.state ≠ .synSent)
    (closing : x.fin = true → x.slot.state.Closing) : x.Phase where
  opening _ early := opening (early.resolve_left fun unheard =>
    absurd (unheard.symm.trans known) Bool.false_ne_true)
  unknown _ unheard := absurd (unheard.symm.trans known) Bool.false_ne_true
  heard _ _ := heard
  closing _ := closing

theorem FromMac.Untouched.acked {x : FromMac} (untouched : x.Untouched) (ledger : x.Ledger) :
    x.acked = 0 := by
  have acked := ledger.acked_le
  rw [untouched.handed] at acked
  exact Nat.le_zero.mp acked

/-- The bytes are accounted for after an event that leaves the stream alone. -/
theorem FromMac.Ledger.keepsWrite {x : FromMac} (ledger : x.Ledger) {y z : Turn}
    (slot : y.toTcpSocket = x.slot) (kept : KeepsWrite y z) (reads : Nat) :
    FromMac.Ledger { x with slot := z.toTcpSocket, reads := reads } := by
  obtain ⟨seqIn, accepts, bytesToSend, remaining, writeBuf, _, _⟩ := kept
  rw [slot] at seqIn accepts bytesToSend remaining writeBuf
  refine ⟨ledger.within, ledger.acked_le, ledger.near, fun known => seqIn.trans (ledger.seqIn known),
    fun takes => ledger.accepts (accepts.symm.trans takes), fun bytes under_way => ?_,
    ledger.finished⟩
  have sends := ledger.sends bytes under_way
  refine ⟨sends.some_left, ?_, remaining.trans sends.remaining, ?_⟩
  · dsimp only
    rw [writeBuf]
    exact sends.buffer
  · dsimp only
    rw [bytesToSend]
    exact sends.total

-- Events other than packets and the completion of writes.

/-- How such an event moves a slot that stays in use. -/
def TcpState.Follows (before after : TcpState) : Prop :=
  after = before ∨ (before = .synRcvd ∨ before = .established) ∧ after = .finwait1 ∨
    before = .closeWait ∧ after = .lastAck ∨ before = .listen ∧ after = .synRcvd

theorem FromMac.Phase.follows {x : FromMac} {w : Turn} {reads : Nat} (phase : x.Phase)
    (kept : KeepsWrite x.slot.begin w) (used : w.inUse = true → x.slot.inUse = true)
    (state : w.inUse = true → x.slot.state.Follows w.state) (idle : x.reads = 0 → reads = 0) :
    FromMac.Phase { x with slot := w.toTcpSocket, reads := reads } where
  opening in_use early := by
    have before : x.known = false ∨ x.slot.state.Opening := by
      rcases early with unknown | opening
      · exact .inl unknown
      · right
        have opening' : w.state.Opening := opening
        rcases state in_use with same | ⟨_, closed⟩ | ⟨_, closed⟩ | ⟨listen, _⟩
        · exact same ▸ opening'
        · exact (closed ▸ opening').elim
        · exact (closed ▸ opening').elim
        · rw [listen]
          trivial
    have untouched := phase.opening (used in_use) before
    exact ⟨idle untouched.reads, untouched.writing, kept.accepts.trans untouched.accepts,
      untouched.handed⟩
  unknown in_use unknown := by
    have before := phase.unknown (used in_use) unknown
    dsimp only
    rcases state in_use with same | ⟨known | known, _⟩ | ⟨known, _⟩ | ⟨known, _⟩
    · rw [same]
      exact before
    all_goals simp [known] at before
  heard in_use known := by
    have before := phase.heard (used in_use) known
    dsimp only
    rcases state in_use with same | ⟨_, moved⟩ | ⟨_, moved⟩ | ⟨_, moved⟩
    · rw [same]
      exact before
    all_goals simp [moved]
  closing in_use fin := by
    have before := phase.closing (used in_use) fin
    dsimp only
    rcases state in_use with same | ⟨early | early, _⟩ | ⟨_, closed⟩ | ⟨early, _⟩
    · rw [same]
      exact before
    · simp [early, TcpState.Closing] at before
    · simp [early, TcpState.Closing] at before
    · exact .inr (.inl closed)
    · simp [early, TcpState.Closing] at before

theorem tcpReadCompletion_follows (env : Env) (error bytesRead : BitVec 32) (x : Turn)
    (connected : x.state ≠ .listen) (used : (tcpReadCompletion env error bytesRead x).inUse = true) :
    x.state.Follows (tcpReadCompletion env error bytesRead x).state := by
  have switched : ∀ z : Turn, z.state = x.state →
      x.state.Follows (readState env bytesRead z).state := by
    intro z same
    unfold readState
    rw [same]
    cases state : x.state <;> rw [state] at same connected <;> dsimp only
    case listen => exact absurd rfl connected
    case synRcvd =>
      split
      · exact .inr (.inl ⟨.inl rfl, rfl⟩)
      · exact .inl same
    case established =>
      split
      · exact .inr (.inl ⟨.inr rfl, rfl⟩)
      · exact .inl same
    case closeWait =>
      split
      · split
        · exact .inr (.inr (.inl ⟨rfl, rfl⟩))
        · exact .inr (.inr (.inl ⟨rfl, rfl⟩))
      · exact .inl same
    all_goals exact .inl same
  have taken : ∀ z : Turn, x.state.Follows z.state → x.state.Follows (bRecfrom env z).1.state :=
    fun z follows => (bRecfrom_keepsState env z).state ▸ follows
  unfold tcpReadCompletion at used ⊢
  dsimp only at used ⊢
  split at used
  next free =>
    rw [if_pos free]
    exact .inl rfl
  next in_use =>
    rw [if_neg in_use]
    split at used
    · rw [freeSocket_inUse] at used
      cases used
    next success =>
      rw [if_neg success]
      clear used
      by_cases closed : bytesRead = 0
      · rw [if_pos closed]
        split
        · exact taken _ (switched _ rfl)
        · exact switched _ rfl
      · have kept := (sendBuffer_keepsState false { x with bytesReceived := bytesRead }).state
        rw [if_neg closed]
        split
        · exact taken _ (switched _ kept)
        · exact switched _ kept

theorem networkEvent_follows (what : NetworkEvents) (x : Turn)
    (used : (networkEvent what x).inUse = true) : x.state.Follows (networkEvent what x).state := by
  have in_use := networkEvent_inUse what x used
  unfold networkEvent at used ⊢
  rw [if_pos in_use] at used ⊢
  cases what with
  | connect error =>
    dsimp only
    split
    · exact .inl rfl
    · unfold tcpConnectCallback
      split
      next listen => exact .inr (.inr (.inr ⟨listen, rfl⟩))
      · exact .inl rfl
  | close | nothing => exact .inl rfl
  | failed notSocket =>
    dsimp only at used ⊢
    split at used
    next none_there =>
      rw [if_pos none_there]
      exact .inl rfl
    · rw [freeSocket_inUse] at used
      cases used

theorem checkTimeouts_state (env : Env) (x : Turn) :
    (checkTimeouts env x).inUse = false ∨ (checkTimeouts env x).state = x.state := by
  unfold checkTimeouts
  repeat' split
  · exact .inl (freeSocket_inUse x)
  · exact .inr rfl
  · exact .inr (sendBuffer_keepsState true _).state
  all_goals exact .inr rfl

-- None of them but a read starts one.

theorem freeSocket_started (x : Turn) :
    readsStarted (freeSocket x).effects = readsStarted x.effects := by
  have closing : readsStarted (if x.s.isSome then
      { x.emit (.closesocket x.s) with s := none } else x).effects = readsStarted x.effects := by
    split
    · exact readsStarted_emit x rfl
    · rfl
  unfold freeSocket
  dsimp only
  split
  · exact (readsStarted_emit _ rfl).trans closing
  · exact closing

theorem networkEvent_started (what : NetworkEvents) (x : Turn) :
    readsStarted (networkEvent what x).effects = readsStarted x.effects := by
  unfold networkEvent
  split
  · cases what with
    | connect error =>
      dsimp only
      split
      · rfl
      · unfold tcpConnectCallback
        split
        · exact readsStarted_emit x rfl
        · rfl
    | close | nothing => rfl
    | failed notSocket =>
      dsimp only
      split
      · rfl
      · exact freeSocket_started x
  · rfl

theorem sendBuffer_started (resending : Bool) (x : Turn) :
    readsStarted (sendBuffer resending x).effects = readsStarted x.effects := by
  unfold sendBuffer
  split
  · rfl
  · cases resending
    · exact readsStarted_emit _ rfl
    · exact readsStarted_emit _ rfl

theorem checkTimeouts_started (env : Env) (x : Turn) :
    readsStarted (checkTimeouts env x).effects = readsStarted x.effects := by
  unfold checkTimeouts
  repeat' split
  · exact freeSocket_started x
  · rfl
  · exact sendBuffer_started true _
  all_goals rfl

section Step

variable {x : FromMac} {env : Env} {off : Nat} {stream : MacStream}

theorem FromMac.Invariant.follows {w : Turn} {reads : Nat} (inv : x.Invariant)
    (kept : KeepsWrite x.slot.begin w) (used : w.inUse = true → x.slot.inUse = true)
    (state : w.inUse = true → x.slot.state.Follows w.state) (idle : x.reads = 0 → reads = 0) :
    FromMac.Invariant { x with slot := w.toTcpSocket, reads := reads } :=
  ⟨inv.ledger.keepsWrite rfl kept reads, inv.phase.follows kept used state idle⟩

theorem FromMac.Invariant.read (inv : x.Invariant) (under_way : x.reads ≠ 0)
    (error : BitVec 32) (data : List (BitVec 8)) :
    (x.after ⟨env, .read error data, off, stream⟩).Invariant := by
  have arrived : KeepsWrite x.slot.begin
      ({ x.slot with readBuf := overwrite x.slot.readBuf data } : TcpSocket).begin :=
    (KeepsWrite.refl _).update rfl
  refine inv.follows (arrived.trans (tcpReadCompletion_keepsWrite env error _ _))
    (tcpReadCompletion_inUse env error _ _) (fun used => ?_) fun idle => absurd idle under_way
  refine tcpReadCompletion_follows env error _ _ (fun listen => ?_) used
  have in_use := tcpReadCompletion_inUse env error _ _ used
  have opening : x.slot.state.Opening := by
    have at_listen : x.slot.state = .listen := listen
    rw [at_listen]
    trivial
  exact under_way (inv.phase.opening in_use (.inr opening)).reads

theorem FromMac.Invariant.network (inv : x.Invariant) (what : NetworkEvents) :
    (x.after ⟨env, .network what, off, stream⟩).Invariant := by
  refine inv.follows (networkEvent_keepsWrite what _) (networkEvent_inUse what _)
    (networkEvent_follows what _) fun idle => ?_
  rw [idle]
  exact congrArg (0 + ·) (networkEvent_started what x.slot.begin)

theorem FromMac.Invariant.timeout (inv : x.Invariant) :
    (x.after ⟨env, .timeout, off, stream⟩).Invariant := by
  refine inv.follows (checkTimeouts_keepsWrite env _) (checkTimeouts_inUse env _) (fun used => ?_)
    fun idle => ?_
  · rcases checkTimeouts_state env x.slot.begin with freed | same
    · exact absurd (freed.symm.trans used) Bool.false_ne_true
    · exact .inl same
  · rw [idle]
    exact congrArg (0 + ·) (checkTimeouts_started env x.slot.begin)

theorem FromMac.Invariant.forceClose (inv : x.Invariant) :
    (x.after ⟨env, .forceClose, off, stream⟩).Invariant :=
  ⟨inv.ledger.keepsWrite rfl (forceClose_keepsWrite x.slot.begin) _,
    .of_free (forceClose_inUse x.slot.begin)⟩

theorem allocNewSocket_keepsWrite (created : Option Socket) (bound : Bool)
    (srcPort destPort : BitVec 16) (ipDest : BitVec 32) (y : Turn) :
    KeepsWrite y (allocNewSocket created bound srcPort destPort ipDest y).1 := by
  have given : KeepsWrite y { y with s := created } := (KeepsWrite.refl y).update rfl
  have addressed : KeepsWrite y { y with
      s := created, srcPort := srcPort, destPort := destPort, fromPort := destPort
      fromAddr := ipDest } := (KeepsWrite.refl y).update rfl
  unfold allocNewSocket
  dsimp only
  split
  · exact given.trans (freeSocket_keepsWrite _)
  · split
    · exact addressed
    · exact addressed.trans (freeSocket_keepsWrite _)

theorem FromMac.Invariant.create (free : x.slot.inUse = false) (idle : x.reads = 0)
    (silent : x.writing = none) (created : Option Socket) (bound : Bool)
    (srcPort destPort : BitVec 16) (ipDest : BitVec 32) :
    (x.after ⟨env, .create created bound srcPort destPort ipDest, off, stream⟩).Invariant := by
  have given := slotEvent_create env free created bound srcPort destPort ipDest
  have refuses : (slotEvent env x.slot
      (.create created bound srcPort destPort ipDest)).acceptMoreDataFromMac = false := by
    rw [given]
    exact (allocNewSocket_keepsWrite created bound srcPort destPort ipDest _).accepts
  have spec := create_spec env free created bound srcPort destPort ipDest
  unfold FromMac.after
  dsimp only at spec ⊢
  rw [silent, idle]
  refine ⟨⟨List.nil_prefix, Nat.le_refl 0, Nat.zero_le _, nofun, fun accepts => ?_, nofun, nofun⟩,
    ?_⟩
  · exact absurd (refuses.symm.trans accepts) Bool.false_ne_true
  · split at spec
    next kept =>
      obtain ⟨there, bind⟩ := Bool.and_eq_true_iff.mp kept
      obtain ⟨s, rfl⟩ := Option.isSome_iff_exists.mp there
      subst bind
      refine ⟨fun _ _ => ⟨?_, rfl, refuses, rfl⟩, fun _ _ => .inl spec, nofun, nofun⟩
      rw [given]
      rfl
    · exact .of_free spec

theorem FromMac.Invariant.accept (inv : x.Invariant) (used : x.slot.inUse = true)
    (closed : x.slot.state = .closed) (s : Socket)
    (macosIpAddress : BitVec 32) (srcPort destPort : BitVec 16) (ipDest : BitVec 32) :
    (x.after ⟨env, .accept s macosIpAddress srcPort destPort ipDest, off, stream⟩).Invariant := by
  have unknown : x.known = false := by
    by_contra known
    exact (inv.phase.heard used ((Bool.not_eq_false _).mp known)).1 closed
  have untouched := inv.phase.opening used (.inl unknown)
  have no_fin : x.fin = false := by
    by_contra fin
    have known := (inv.ledger.finished ((Bool.not_eq_false _).mp fin)).1
    exact Bool.false_ne_true (unknown.symm.trans known)
  refine ⟨⟨inv.ledger.within, inv.ledger.acked_le, inv.ledger.near, fun known => ?_,
    inv.ledger.accepts, fun bytes under_way => ?_, inv.ledger.finished⟩,
    ⟨fun _ _ => ⟨untouched.reads, untouched.writing, untouched.accepts, untouched.handed⟩,
      fun _ _ => .inr (.inl rfl), fun _ known => ?_, fun _ fin => ?_⟩⟩
  · exact absurd (unknown.symm.trans known) Bool.false_ne_true
  · have none_there : bytes ∈ x.writing := under_way
    rw [untouched.writing] at none_there
    cases none_there
  · exact absurd (unknown.symm.trans known) Bool.false_ne_true
  · exact absurd (no_fin.symm.trans fin) Bool.false_ne_true

-- The completion of a write.

variable {bytes : List (BitVec 8)}

/-- What becomes of the bytes under way when some of them have been taken. -/
theorem within_drop {handed stream : List (BitVec 8)} (n : Nat)
    (within : handed ++ bytes <+: stream) : handed ++ bytes.take n ++ bytes.drop n <+: stream := by
  rw [List.append_assoc, List.take_append_drop]
  exact within

theorem overwrite_rest {buf : List (BitVec 8)} (n : Nat) (buffer : buf.take bytes.length = bytes) :
    (overwrite buf ((buf.drop n).take (bytes.length - n))).take (bytes.length - n) =
      bytes.drop n := by
  have rest : (buf.drop n).take (bytes.length - n) = bytes.drop n := by
    rw [← List.drop_take, buffer]
  have length : (bytes.drop n).length = bytes.length - n := List.length_drop
  rw [rest, ← length]
  exact overwrite_take _ _

/-- The completion of a write is ignored, acknowledges what has been written, or goes on with the
rest. -/
theorem tcpWriteCompletion_cases (env : Env) (bytesWritten : BitVec 32) (x : Turn) :
    let left := x.bytesRemainingToSend - bytesWritten
    let buffer := overwrite x.writeBuf ((x.writeBuf.drop bytesWritten.toNat).take left.toNat)
    let y := tcpWriteCompletion env bytesWritten x
    KeepsWrite { x with bytesRemainingToSend := left } y ∨
    left = 0 ∧ KeepsWrite { x with
      seqIn := x.seqIn + x.bytesToSend, acceptMoreDataFromMac := true
      bytesToSend := 0, bytesRemainingToSend := 0 } y ∨
    left ≠ 0 ∧ Posts (buffer.take left.toNat)
      { x with bytesRemainingToSend := left, writeBuf := buffer } y := by
  unfold tcpWriteCompletion
  dsimp only
  split
  · exact .inl ((KeepsWrite.refl _).update rfl)
  · split
    · exact .inl ((KeepsWrite.refl _).update rfl)
    · split
      next done =>
        have acknowledged := tcpReply_keepsWrite tcpFlagsAck { x with
          seqIn := x.seqIn + x.bytesToSend, acceptMoreDataFromMac := true
          bytesToSend := 0, bytesRemainingToSend := 0 }
        exact .inr (.inl ⟨done, acknowledged.update rfl⟩)
      next more =>
        have posts := bSend_posts env { x with
          bytesWritten := bytesWritten
          bytesRemainingToSend := x.bytesRemainingToSend - bytesWritten
          writeLen := x.bytesRemainingToSend - bytesWritten
          writeBuf := overwrite x.writeBuf ((x.writeBuf.drop bytesWritten.toNat).take
            (x.bytesRemainingToSend - bytesWritten).toNat) }
        exact .inr (.inr ⟨more, posts.seqIn, posts.accepts, posts.bytesToSend,
          posts.bytesRemaining, posts.writeBuf, posts.posted, posts.acks⟩)

/-- `n` of the bytes under way have been taken, and the rest is given up. -/
theorem FromMac.Ledger.stops (ledger : x.Ledger) (under_way : x.writing = some bytes) (n : Nat)
    {w : TcpSocket} (reads : Nat) (seqIn : w.seqIn = x.slot.seqIn)
    (accepts : w.acceptMoreDataFromMac = false) :
    FromMac.Ledger { x with
      slot := w, reads := reads, writing := none, handed := x.handed ++ bytes.take n } := by
  have within := ledger.within
  have near := ledger.near
  have acked_le := ledger.acked_le
  have handed : (x.handed ++ bytes.take n).length = x.handed.length + min n bytes.length := by
    rw [List.length_append, List.length_take]
  rw [under_way] at within near
  dsimp only [Option.getD_some] at within near
  refine ⟨?_, ?_, ?_, fun known => seqIn.trans (ledger.seqIn known), ?_, nofun, ?_⟩
  · dsimp only [Option.getD_none]
    rw [List.append_nil]
    exact (List.prefix_append _ _).trans (within_drop n within)
  · dsimp only
    omega
  · dsimp only [Option.getD_none, List.length_nil]
    omega
  · intro takes
    exact absurd (accepts.symm.trans takes) Bool.false_ne_true
  · intro fin
    obtain ⟨known, all, last⟩ := ledger.finished fin
    refine ⟨known, fun same => all ?_, nofun⟩
    dsimp only at same
    omega

/-- `n` of the bytes under way have been taken, and the rest is under way. -/
theorem FromMac.Ledger.continues (ledger : x.Ledger) (under_way : x.writing = some bytes) {n : Nat}
    (more : n < bytes.length) {w : TcpSocket} (reads : Nat) (seqIn : w.seqIn = x.slot.seqIn)
    (accepts : w.acceptMoreDataFromMac = false) (bytesToSend : w.bytesToSend = x.slot.bytesToSend)
    (remaining : w.bytesRemainingToSend = BitVec.ofNat 32 (bytes.length - n))
    (buffer : w.writeBuf.take (bytes.length - n) = bytes.drop n) :
    FromMac.Ledger { x with
      slot := w, reads := reads, writing := some (bytes.drop n)
      handed := x.handed ++ bytes.take n } := by
  have within := ledger.within
  have near := ledger.near
  have acked_le := ledger.acked_le
  have sends := ledger.sends bytes under_way
  have handed : (x.handed ++ bytes.take n).length = x.handed.length + n := by
    rw [List.length_append, List.length_take_of_le (Nat.le_of_lt more)]
  have rest : (bytes.drop n).length = bytes.length - n := List.length_drop
  have whole : x.handed.length + n + (bytes.length - n) = x.handed.length + bytes.length := by omega
  rw [under_way] at within near
  dsimp only [Option.getD_some] at within near
  refine ⟨within_drop n within, ?_, ?_, fun known => seqIn.trans (ledger.seqIn known), ?_, ?_, ?_⟩
  · dsimp only
    omega
  · dsimp only [Option.getD_some]
    omega
  · intro takes
    exact absurd (accepts.symm.trans takes) Bool.false_ne_true
  · rintro _ ⟨⟩
    refine ⟨List.ne_nil_of_length_pos (by omega), ?_, ?_, ?_⟩
    · rw [rest]
      exact buffer
    · rw [rest]
      exact remaining
    · dsimp only
      rw [bytesToSend, rest, handed, whole]
      exact sends.total
  · intro fin
    obtain ⟨known, all, last⟩ := ledger.finished fin
    have last := last bytes under_way
    refine ⟨known, fun same => all ?_, ?_⟩
    · dsimp only at same
      omega
    · rintro _ ⟨⟩
      dsimp only
      omega

/-- All of the bytes under way have been taken, and are acknowledged. -/
theorem FromMac.Ledger.completes (ledger : x.Ledger) (under_way : x.writing = some bytes)
    {w : TcpSocket} (reads : Nat) (seqIn : w.seqIn = x.slot.seqIn + x.slot.bytesToSend) :
    FromMac.Ledger { x with
      slot := w, reads := reads, writing := none, handed := x.handed ++ bytes
      acked := (x.handed ++ bytes).length } := by
  have within := ledger.within
  have sends := ledger.sends bytes under_way
  have handed : (x.handed ++ bytes).length = x.handed.length + bytes.length := List.length_append
  rw [under_way] at within
  dsimp only [Option.getD_some] at within
  refine ⟨?_, Nat.le_refl _, ?_, ?_, fun _ => ⟨rfl, rfl⟩, nofun, ?_⟩
  · dsimp only [Option.getD_none]
    rw [List.append_nil]
    exact within
  · dsimp only [Option.getD_none, List.length_nil]
    omega
  · intro known
    have before := ledger.seqIn known
    have total := sends.total
    dsimp only
    rw [seqIn, before, handed, BitVec.ofNat_add, BitVec.ofNat_add (_ + _), ← total]
    ac_rfl
  · intro fin
    obtain ⟨known, all, last⟩ := ledger.finished fin
    have last := last bytes under_way
    refine ⟨known, fun _ => ?_, nofun⟩
    dsimp only
    omega

theorem FromMac.Ledger.write (ledger : x.Ledger) {bytesWritten : BitVec 32}
    (under_way : x.writing = some bytes) (le : bytesWritten.toNat ≤ bytes.length) :
    (x.after ⟨env, .write bytesWritten, off, stream⟩).Ledger := by
  have near := ledger.near
  have sends := ledger.sends bytes under_way
  rw [under_way] at near
  dsimp only [Option.getD_some] at near
  have refuses : x.slot.acceptMoreDataFromMac = false := by
    by_contra accepts
    have silent := (ledger.accepts ((Bool.not_eq_false _).mp accepts)).1
    exact Option.some_ne_none bytes (under_way.symm.trans silent)
  have small : bytes.length < 2 ^ 32 := by
    have acked_le := ledger.acked_le
    unfold maxSegmentSize at near
    omega
  have left : x.slot.bytesRemainingToSend - bytesWritten =
      BitVec.ofNat 32 (bytes.length - bytesWritten.toNat) := by
    have here := BitVec.ofNat_sub_ofNat_of_le (w := 32) bytes.length bytesWritten.toNat
      bytesWritten.isLt le
    rw [BitVec.ofNat_toNat, BitVec.setWidth_eq] at here
    rw [sends.remaining, here]
  have left_toNat : (x.slot.bytesRemainingToSend - bytesWritten).toNat =
      bytes.length - bytesWritten.toNat := by
    rw [left, BitVec.toNat_ofNat]
    exact Nat.mod_eq_of_lt (by omega)
  have cases := tcpWriteCompletion_cases env bytesWritten x.slot.begin
  have answer : slotEvent env x.slot (.write bytesWritten) =
      tcpWriteCompletion env bytesWritten x.slot.begin := rfl
  have nothing : sendPosted x.slot.begin.effects = none := rfl
  unfold FromMac.after
  dsimp only at cases ⊢
  rw [under_way, answer]
  dsimp only [Option.getD_some]
  rcases cases with ignored | ⟨done, acknowledged⟩ | ⟨more, posts⟩
  · have still := ignored.accepts.trans refuses
    rw [still, ignored.posted, nothing]
    exact ledger.stops under_way bytesWritten.toNat _ ignored.seqIn still
  · have all : bytes.take bytesWritten.toNat = bytes := by
      have none_left : bytes.length - bytesWritten.toNat = 0 := by
        rw [← left_toNat]
        exact congrArg BitVec.toNat done
      exact List.take_of_length_le (by omega)
    rw [acknowledged.accepts, acknowledged.posted, nothing, all]
    exact ledger.completes under_way _ acknowledged.seqIn
  · have still := posts.accepts.trans refuses
    rw [still]
    have some_left : bytesWritten.toNat < bytes.length := by
      by_contra none_left
      refine more (BitVec.eq_of_toNat_eq (left_toNat.trans ?_))
      exact Nat.sub_eq_zero_of_le (Nat.le_of_not_lt none_left)
    have rest : (overwrite x.slot.writeBuf ((x.slot.writeBuf.drop bytesWritten.toNat).take
        (x.slot.bytesRemainingToSend - bytesWritten).toNat)).take
          (x.slot.bytesRemainingToSend - bytesWritten).toNat = bytes.drop bytesWritten.toNat := by
      rw [left_toNat]
      exact overwrite_rest bytesWritten.toNat sends.buffer
    rcases posts.posted with posted | failed
    · rw [posted.trans (congrArg some rest)]
      refine ledger.continues under_way some_left _ posts.seqIn still posts.bytesToSend
        (posts.bytesRemaining.trans left) ?_
      rw [posts.writeBuf, ← left_toNat]
      exact rest
    · rw [failed, nothing]
      exact ledger.stops under_way bytesWritten.toNat _ posts.seqIn still

theorem FromMac.Invariant.write (inv : x.Invariant) {bytesWritten : BitVec 32}
    (under_way : x.writing = some bytes) (le : bytesWritten.toNat ≤ bytes.length) :
    (x.after ⟨env, .write bytesWritten, off, stream⟩).Invariant := by
  have kept := tcpWriteCompletion_keepsState env bytesWritten x.slot.begin
  have used : (tcpWriteCompletion env bytesWritten x.slot.begin).inUse = x.slot.inUse := kept.inUse
  have state : (tcpWriteCompletion env bytesWritten x.slot.begin).state = x.slot.state := kept.state
  have answer : slotEvent env x.slot (.write bytesWritten) =
      tcpWriteCompletion env bytesWritten x.slot.begin := rfl
  refine ⟨inv.ledger.write under_way le, ?_⟩
  unfold FromMac.after
  dsimp only
  rw [answer]
  refine ⟨fun in_use early => ?_, ?_, ?_, ?_⟩
  · dsimp only at in_use early
    rw [used] at in_use
    rw [state] at early
    have silent := (inv.phase.opening in_use early).writing
    exact absurd (under_way.symm.trans silent) (Option.some_ne_none bytes)
  · dsimp only
    rw [used, state]
    exact inv.phase.unknown
  · dsimp only
    rw [used, state]
    exact inv.phase.heard
  · dsimp only
    rw [used, state]
    exact inv.phase.closing

-- A packet.

variable {p : TcpPacket} {y : TcpSocket}

theorem takesSyn_state (syn : takesSyn y p = true) :
    (y.state = .closed ∨ y.state = .synSent) ∧ isSet p.flags tcpFlagsSyn = true := by
  simp only [takesSyn, Bool.and_eq_true, Bool.or_eq_true, decide_eq_true_iff] at syn
  exact ⟨syn.2, syn.1.2⟩

theorem takesFin_state (fin : takesFin y p = true) :
    y.state = .established ∨ y.state = .finwait1 ∨ y.state = .finwait2 := by
  simp only [takesFin, Bool.and_eq_true, Bool.or_eq_true, decide_eq_true_iff] at fin
  exact or_assoc.mp fin.2

theorem entersEstablished_opening (enters : entersEstablished y p = true) : y.state.Opening := by
  simp only [entersEstablished, Bool.and_eq_true, Bool.or_eq_true, decide_eq_true_iff] at enters
  rcases enters.2 with state | ⟨state, _⟩
  · rw [state]
    trivial
  · rw [state]
    trivial

theorem FromMac.Phase.unknown_of_syn (phase : x.Phase) (used : x.slot.inUse = true)
    (syn : takesSyn x.slot p = true) : x.known = false := by
  by_contra known
  obtain ⟨not_closed, not_sent⟩ := phase.heard used ((Bool.not_eq_false _).mp known)
  rcases (takesSyn_state syn).1 with closed | sent
  · exact not_closed closed
  · exact not_sent sent

theorem FromMac.Phase.no_fin_of_fin (phase : x.Phase) (used : x.slot.inUse = true)
    (fin : takesFin x.slot p = true) : x.fin = false := by
  by_contra before
  have closing := phase.closing used ((Bool.not_eq_false _).mp before)
  rcases takesFin_state fin with state | state | state
  all_goals simp [state, TcpState.Closing] at closing

theorem FromMac.Ledger.no_fin (ledger : x.Ledger) (unknown : x.known = false) : x.fin = false := by
  by_contra fin
  have known := (ledger.finished ((Bool.not_eq_false _).mp fin)).1
  exact Bool.false_ne_true (unknown.symm.trans known)

theorem FromMac.Invariant.flags (inv : x.Invariant) (used : x.slot.inUse = true)
    (carries : x.stream.Carries p off) (regular : x.Regular ⟨env, .packet p, off, stream⟩) :
    FromMac.Ledger { x with
      slot := (takeFlags p x.slot.begin).toTcpSocket
      known := x.known || takesSyn x.slot p, fin := x.fin || takesFin x.slot p } := by
  obtain ⟨ledger, phase⟩ := inv
  have sends : ∀ bytes ∈ x.writing, FromMac.Sends { x with
      slot := (takeFlags p x.slot.begin).toTcpSocket
      known := x.known || takesSyn x.slot p, fin := x.fin || takesFin x.slot p } bytes :=
    fun bytes under_way =>
      have sends := ledger.sends bytes under_way
      ⟨sends.some_left, sends.buffer, sends.remaining, sends.total⟩
  refine ⟨ledger.within, ledger.acked_le, ledger.near, fun known => ?_, fun accepts => ?_,
    sends, fun fin => ?_⟩
  · have next : (takeFlags p x.slot.begin).seqIn = nextSeqIn x.slot p := rfl
    dsimp only at known ⊢
    rw [next]
    unfold nextSeqIn
    cases syn : takesSyn x.slot p with
    | true =>
      have unknown := phase.unknown_of_syn used syn
      have untouched := phase.opening used (.inl unknown)
      obtain ⟨closed, set⟩ := takesSyn_state syn
      have no_fin : takesFin x.slot p = false := by
        rcases closed with state | state
        · simp [takesFin, state]
        · simp [takesFin, state]
      have seq := (carries (.inr (.inl set))).2.2.1
      rw [if_pos set] at seq
      rw [if_pos rfl, no_fin, ledger.no_fin unknown, untouched.acked ledger, seq.2]
      exact (BitVec.add_zero _).symm
    | false =>
      rw [syn, Bool.or_false] at known
      rw [if_neg Bool.false_ne_true, ledger.seqIn known]
      cases fin : takesFin x.slot p with
      | true =>
        rw [if_pos rfl, phase.no_fin_of_fin used fin, Bool.false_or]
        dsimp only [Bool.toNat_true, Bool.toNat_false]
        rw [Nat.add_zero, BitVec.ofNat_add, BitVec.add_assoc _ (BitVec.ofNat 32 x.acked)]
        rfl
      | false => rw [if_neg Bool.false_ne_true, Bool.or_false]
  · rcases Bool.or_eq_true_iff.mp accepts with before | enters
    · exact ledger.accepts before
    · have untouched := phase.opening used (.inr (entersEstablished_opening enters))
      refine ⟨untouched.writing, ?_⟩
      dsimp only
      rw [untouched.acked ledger, untouched.handed]
      rfl
  · dsimp only at fin ⊢
    rcases Bool.or_eq_true_iff.mp fin with before | now
    · obtain ⟨known, finishes⟩ := ledger.finished before
      exact ⟨by rw [known, Bool.true_or], finishes⟩
    · obtain ⟨known, finishes⟩ := regular.1 now
      exact ⟨by rw [known, Bool.true_or], finishes⟩

theorem within_take {handed stream : List (BitVec 8)} (n : Nat) (within : handed <+: stream) :
    handed ++ (stream.drop handed.length).take n <+: stream := by
  obtain ⟨rest, rfl⟩ := within
  rw [List.drop_left]
  exact (List.prefix_append_right_inj handed).mpr (List.take_prefix n rest)

/-- Data is taken where the stream goes on, when nothing is under way. -/
theorem FromMac.Ledger.takes (ledger : x.Ledger) (silent : x.writing = none)
    (all : x.acked = x.handed.length) (no_fin : x.fin = false) {data : List (BitVec 8)}
    (some_data : data ≠ []) (fits : data.length ≤ maxSegmentSize)
    (placed : data = (x.stream.bytes.drop x.acked).take data.length) {y w : Turn}
    (slot : y.toTcpSocket = x.slot) (none_posted : sendPosted y.effects = none)
    (takes : Takes data y w) (reads : Nat) :
    FromMac.Ledger { x with
      slot := w.toTcpSocket, reads := reads, writing := (sendPosted w.effects).or x.writing } := by
  have within := ledger.within
  have seqIn : w.seqIn = x.slot.seqIn := takes.seqIn.trans (congrArg TcpSocket.seqIn slot)
  have refuses : w.acceptMoreDataFromMac ≠ true := by
    rw [takes.accepts]
    exact Bool.false_ne_true
  have writing : (sendPosted w.effects).or x.writing = some data ∨
      (sendPosted w.effects).or x.writing = none := by
    rw [silent, Option.or_none]
    rcases takes.posted with posted | failed
    · rw [posted, none_posted]
      exact .inl rfl
    · rw [failed, none_posted]
      exact .inr rfl
  rw [silent] at within
  dsimp only [Option.getD_none] at within
  rw [List.append_nil] at within
  rcases writing with posted | failed
  · rw [posted]
    refine ⟨?_, ledger.acked_le, ?_, fun known => seqIn.trans (ledger.seqIn known),
      fun accepts => absurd accepts refuses, ?_, ?_⟩
    · dsimp only [Option.getD_some]
      rw [placed, all]
      exact within_take _ within
    · dsimp only [Option.getD_some]
      omega
    · rintro _ ⟨⟩
      refine ⟨some_data, takes.writeBuf, takes.bytesRemaining, ?_⟩
      dsimp only
      rw [takes.bytesToSend, all, BitVec.ofNat_add]
    · intro fin
      exact absurd (no_fin.symm.trans fin) Bool.false_ne_true
  · rw [failed]
    refine ⟨?_, ledger.acked_le, ?_, fun known => seqIn.trans (ledger.seqIn known),
      fun accepts => absurd accepts refuses, nofun, ?_⟩
    · dsimp only [Option.getD_none]
      rw [List.append_nil]
      exact within
    · dsimp only [Option.getD_none, List.length_nil]
      omega
    · intro fin
      exact absurd (no_fin.symm.trans fin) Bool.false_ne_true

theorem takesData_state (taken : takesData y p = true) :
    p.data ≠ [] ∧ (y.state = .established ∧ y.acceptMoreDataFromMac = true ∨
      y.state = .synRcvd ∧ isSet p.flags tcpFlagsAck = true) := by
  simp only [takesData, Bool.and_eq_true, Bool.or_eq_true, decide_eq_true_iff] at taken
  obtain ⟨⟨_, some_data⟩, asked⟩ := taken
  refine ⟨by simpa using some_data, ?_⟩
  rcases asked with ⟨established, _⟩ | ⟨received, _⟩
  · exact .inl established
  · exact .inr received

/-- Data is taken up when nothing is under way, and not behind the FIN. -/
theorem FromMac.Invariant.ready (inv : x.Invariant) (used : x.slot.inUse = true)
    (carries : x.stream.Carries p off) (regular : x.Regular ⟨env, .packet p, off, stream⟩)
    (taken : takesData x.slot p = true) :
    x.writing = none ∧ x.acked = x.handed.length ∧ x.fin = false ∧ takesFin x.slot p = false := by
  obtain ⟨some_data, asked⟩ := takesData_state taken
  have ready : x.writing = none ∧ x.acked = x.handed.length := by
    rcases asked with ⟨_, accepts⟩ | ⟨received, _⟩
    · exact inv.ledger.accepts accepts
    · have opening : x.slot.state.Opening := by
        rw [received]
        trivial
      have untouched := inv.phase.opening used (.inr opening)
      refine ⟨untouched.writing, ?_⟩
      rw [untouched.acked inv.ledger, untouched.handed]
      rfl
  refine ⟨ready.1, ready.2, ?_, ?_⟩
  · by_contra fin
    have closing := inv.phase.closing used ((Bool.not_eq_false _).mp fin)
    rcases asked with ⟨state, _⟩ | ⟨state, _⟩
    all_goals simp [state, TcpState.Closing] at closing
  · -- A FIN that is taken up has nothing left behind it.
    by_contra fin
    have all := (regular.1 ((Bool.not_eq_false _).mp fin)).2.1 ready.2
    have here : off = x.acked := regular.2 taken
    have room := (carries (.inl some_data)).1
    have some_length := List.length_pos_of_ne_nil some_data
    omega

theorem FromMac.Invariant.packet_ledger (inv : x.Invariant) (used : x.slot.inUse = true)
    (no_ftp : env.ftpDataPort = 0) (fits : p.data.length ≤ maxSegmentSize)
    (carries : x.stream.Carries p off) (regular : x.Regular ⟨env, .packet p, off, stream⟩) :
    (x.after ⟨env, .packet p, off, stream⟩).Ledger := by
  have answer : slotEvent env x.slot (.packet p) = writeTcp env p x.slot.begin := rfl
  have nothing : sendPosted x.slot.begin.effects = none := rfl
  unfold FromMac.after
  dsimp only
  rw [answer]
  cases reset : isSet p.flags tcpFlagsRst with
  | true =>
    have no_syn : takesSyn x.slot p = false := by simp [takesSyn, reset]
    have no_fin : takesFin x.slot p = false := by simp [takesFin, reset]
    have kept : KeepsWrite x.slot.begin (writeTcp env p x.slot.begin) := by
      unfold writeTcp
      rw [if_pos reset]
      split
      · exact (keepsWrite_emit _ (e := .shutdown x.slot.s true) trivial).trans
          (freeSocket_keepsWrite _)
      · exact freeSocket_keepsWrite _
    rw [no_syn, no_fin, Bool.or_false, Bool.or_false, kept.posted, nothing, Option.none_or]
    exact inv.ledger.keepsWrite rfl kept _
  | false =>
    have flags := inv.flags used carries regular
    have written := writeTcp_write x.slot.begin reset no_ftp fits
    split at written
    next taken =>
      obtain ⟨silent, all, no_fin, no_fin_now⟩ := inv.ready used carries regular taken
      obtain ⟨some_data, _⟩ := takesData_state taken
      have here : off = x.acked := regular.2 taken
      have placed := (carries (.inl some_data)).2.1
      rw [here] at placed
      exact flags.takes silent all (by rw [no_fin, no_fin_now]; rfl) some_data fits placed rfl rfl
        written _
    next other =>
      have posted : sendPosted (writeTcp env p x.slot.begin).effects = none := written.posted
      rw [posted, Option.none_or]
      exact flags.keepsWrite rfl written _

/-- A packet that does not establish the connection touches nothing. -/
theorem FromMac.Untouched.packet (untouched : x.Untouched) (no_ftp : env.ftpDataPort = 0)
    (fits : p.data.length ≤ maxSegmentSize) (no_reset : isSet p.flags tcpFlagsRst = false)
    (used : (writeTcp env p x.slot.begin).inUse = true) (unread : ¬x.slot.state.Reading)
    (later : entersEstablished x.slot p = false) :
    (x.after ⟨env, .packet p, off, stream⟩).Untouched := by
  have answer : slotEvent env x.slot (.packet p) = writeTcp env p x.slot.begin := rfl
  have not_taken : takesData x.slot p = false := by
    by_contra taken
    obtain ⟨_, asked⟩ := takesData_state ((Bool.not_eq_false _).mp taken)
    rcases asked with ⟨established, _⟩ | ⟨received, ack⟩
    · exact unread (.inl established)
    · simp [entersEstablished, received, ack] at later
  have written := writeTcp_write x.slot.begin no_reset no_ftp fits
  rw [if_neg (by exact Bool.eq_false_iff.mp not_taken)] at written
  have started : readsStarted (writeTcp env p x.slot.begin).effects = 0 :=
    writeTcp_started env x.slot.begin no_reset used unread later
  have posted : sendPosted (writeTcp env p x.slot.begin).effects = none := written.posted
  have accepts : (writeTcp env p x.slot.begin).acceptMoreDataFromMac =
      (x.slot.acceptMoreDataFromMac || entersEstablished x.slot p) := written.accepts
  unfold FromMac.after
  dsimp only
  rw [answer]
  refine ⟨?_, ?_, ?_, untouched.handed⟩
  · dsimp only
    rw [untouched.reads, started]
  · dsimp only
    rw [untouched.writing, posted]
    rfl
  · dsimp only
    rw [accepts, untouched.accepts, later]
    rfl

theorem FromMac.Phase.known_of_enters (phase : x.Phase) (used : x.slot.inUse = true)
    (no_reset : isSet p.flags tcpFlagsRst = false) (enters : entersEstablished x.slot p = true) :
    (x.known || takesSyn x.slot p) = true := by
  cases known : x.known with
  | true => rfl
  | false =>
    rcases phase.unknown used known with state | state | state
    · simp [entersEstablished, state] at enters
    · simp [entersEstablished, state] at enters
      simp [takesSyn, no_reset, state, enters.2]
    · simp [entersEstablished, state] at enters

/-- Before the connection is there the FIN has not been taken up, and is not. -/
theorem FromMac.Phase.no_fin (phase : x.Phase) (used : x.slot.inUse = true)
    (opening : x.slot.state.Opening) : (x.fin || takesFin x.slot p) = false := by
  rw [Bool.or_eq_false_iff]
  constructor
  · by_contra fin
    rcases phase.closing used ((Bool.not_eq_false _).mp fin) with state | state | state | state
    all_goals exact (state ▸ opening : TcpState.Opening _)
  · by_contra fin
    rcases takesFin_state ((Bool.not_eq_false _).mp fin) with state | state | state
    all_goals exact (state ▸ opening : TcpState.Opening _)

/-- A packet without SYN and FIN leaves the slot in its state or moves it on towards its end. -/
theorem FromMac.Phase.moves {y : FromMac} (phase : x.Phase) (used : x.slot.inUse = true)
    (known : y.known = x.known) (fin : y.fin = x.fin)
    (reaches : y.slot.state = x.slot.state ∧ x.slot.state ≠ .closed ∨
      x.slot.state = .synSent ∧ y.slot.state = .finwait2 ∨
      x.slot.state = .finwait1 ∧ y.slot.state = .finwait2 ∨
      x.slot.state = .closing ∧ y.slot.state = .timeWait)
    (untouched : x.Untouched → ¬x.slot.state.Reading → y.Untouched) : y.Phase where
  opening _ early := by
    have before : x.known = false ∨ x.slot.state.Opening := by
      rw [known] at early
      refine early.imp_right fun opening => ?_
      rcases reaches with ⟨same, _⟩ | ⟨_, state⟩ | ⟨_, state⟩ | ⟨_, state⟩
      · exact same ▸ opening
      all_goals
        rw [state] at opening
        exact False.elim opening
    have unread : ¬x.slot.state.Reading := by
      rcases before with unheard | opening
      · rcases phase.unknown used unheard with state | state | state
        all_goals simp [state, TcpState.Reading]
      · exact opening.unread
    exact untouched (phase.opening used before) unread
  unknown _ unheard := by
    have before := phase.unknown used (known ▸ unheard)
    rcases reaches with ⟨same, _⟩ | ⟨_, state⟩ | ⟨_, state⟩ | ⟨late, _⟩
    · rw [same]
      exact before
    · exact .inr (.inr state)
    · exact .inr (.inr state)
    · simp [late] at before
  heard _ heard := by
    have before := phase.heard used (known ▸ heard)
    rcases reaches with ⟨same, _⟩ | ⟨_, state⟩ | ⟨_, state⟩ | ⟨_, state⟩
    · rw [same]
      exact before
    all_goals simp [state]
  closing _ taken := by
    have before := phase.closing used (fin ▸ taken)
    rcases reaches with ⟨same, _⟩ | ⟨early, _⟩ | ⟨early, _⟩ | ⟨_, state⟩
    · rw [same]
      exact before
    · simp [early, TcpState.Closing] at before
    · simp [early, TcpState.Closing] at before
    · simp [state, TcpState.Closing]

theorem FromMac.Invariant.packet_phase (inv : x.Invariant) (used : x.slot.inUse = true)
    (no_ftp : env.ftpDataPort = 0) (fits : p.data.length ≤ maxSegmentSize)
    (regular : x.Regular ⟨env, .packet p, off, stream⟩) :
    (x.after ⟨env, .packet p, off, stream⟩).Phase := by
  have phase := inv.phase
  cases in_use : (writeTcp env p x.slot.begin).inUse with
  | false => exact .of_free in_use
  | true =>
    have no_reset : isSet p.flags tcpFlagsRst = false := by
      by_contra reset
      unfold writeTcp at in_use
      rw [if_pos ((Bool.not_eq_false _).mp reset), freeSocket_inUse] at in_use
      cases in_use
    have moves : Moves x.slot p (writeTcp env p x.slot.begin).state :=
      writeTcp_moves env x.slot.begin no_reset in_use
    have answer : slotEvent env x.slot (.packet p) = writeTcp env p x.slot.begin := rfl
    have untouched : x.Untouched → ¬x.slot.state.Reading → entersEstablished x.slot p = false →
        (x.after ⟨env, .packet p, off, stream⟩).Untouched := fun early unread later =>
      early.packet no_ftp fits no_reset in_use unread later
    unfold FromMac.after at untouched ⊢
    dsimp only at untouched ⊢
    rw [answer] at untouched ⊢
    cases moves with
    | opens taken later reaches =>
      have opening : x.slot.state.Opening := by
        rcases (takesSyn_state taken).1 with state | state
        all_goals
          rw [state]
          trivial
      have known : (x.known || takesSyn x.slot p) = true := by rw [taken, Bool.or_true]
      refine .of_known known
        (fun _ => untouched (phase.opening used (.inr opening)) opening.unread later) ?_ fun fin => ?_
      · rcases reaches with state | state
        all_goals simp [state]
      · exact absurd ((phase.no_fin used opening).symm.trans fin) Bool.false_ne_true
    | establishes enters reaches =>
      have known := phase.known_of_enters used no_reset enters
      have opening := entersEstablished_opening enters
      refine .of_known known (fun early => ?_) ?_ fun fin => ?_
      · dsimp only at early
        rw [reaches] at early
        exact early.elim
      · simp [reaches]
      · exact absurd ((phase.no_fin used opening).symm.trans fin) Bool.false_ne_true
    | finishes taken reaches =>
      have known : (x.known || takesSyn x.slot p) = true := by
        rw [(regular.1 taken).1, Bool.true_or]
      refine .of_known known (fun early => ?_) ?_ fun _ => ?_
      · dsimp only at early
        rcases reaches with state | state | state
        all_goals
          rw [state] at early
          exact early.elim
      · rcases reaches with state | state | state
        all_goals simp [state]
      · dsimp only
        rcases reaches with state | state | state
        all_goals simp [state, TcpState.Closing]
    | moves no_syn no_fin later reaches =>
      refine phase.moves used ?_ ?_ reaches fun early unread => untouched early unread later
      · dsimp only
        rw [no_syn, Bool.or_false]
      · dsimp only
        rw [no_fin, Bool.or_false]

theorem fromMacStep_invariant {y : FromMac} {label : MacEvent} (inv : x.Invariant)
    (regular : x.Regular label) (step : fromMacStep x label = some y) : y.Invariant := by
  unfold fromMacStep at step
  split at step
  next enabled =>
    cases step
    obtain ⟨env, event, off, stream⟩ := label
    cases event with
    | create created bound srcPort destPort ipDest =>
      obtain ⟨free, idle, silent⟩ := regular
      exact .create free idle silent created bound srcPort destPort ipDest
    | accept s macosIpAddress srcPort destPort ipDest =>
      obtain ⟨used, closed⟩ := Bool.and_eq_true_iff.mp enabled
      exact inv.accept used (of_decide_eq_true closed) s macosIpAddress srcPort destPort ipDest
    | packet p =>
      simp only [FromMac.enabled, Bool.and_eq_true, decide_eq_true_iff] at enabled
      obtain ⟨⟨⟨used, no_ftp⟩, fits⟩, carries⟩ := enabled
      exact ⟨inv.packet_ledger used no_ftp fits carries regular,
        inv.packet_phase used no_ftp fits regular⟩
    | forceClose => exact inv.forceClose
    | read error data =>
      obtain ⟨under_way, _⟩ := Bool.and_eq_true_iff.mp enabled
      exact inv.read (of_decide_eq_true under_way) error data
    | write bytesWritten =>
      cases under_way : x.writing with
      | none => simp [FromMac.enabled, under_way] at enabled
      | some bytes =>
        simp only [FromMac.enabled, under_way, Option.any_some, decide_eq_true_iff] at enabled
        exact inv.write under_way enabled
    | network what => exact inv.network what
    | timeout => exact inv.timeout
  · cases step

/-- The expected sequence number covers what has been handed over. -/
theorem FromMac.Ledger.covers (ledger : x.Ledger) (known : x.known = true) :
    x.Covers x.slot.seqIn := by
  have near := ledger.near
  have acked_le := ledger.acked_le
  refine ⟨x.acked + x.fin.toNat, ledger.seqIn known, by omega, ?_⟩
  cases fin : x.fin with
  | false => exact .inl acked_le
  | true =>
    have all := (ledger.finished fin).2.1
    rw [Bool.toNat_true]
    by_cases done : x.acked = x.handed.length
    · have whole := all done
      have handed : x.handed <+: x.stream.bytes := (List.prefix_append _ _).trans ledger.within
      exact .inr ⟨by rw [whole], handed.eq_of_length (done.symm.trans whole), rfl⟩
    · exact .inl (by omega)

theorem FromMac.Phase.known (phase : x.Phase) (used : x.slot.inUse = true)
    (touched : ¬x.Untouched) : x.known = true := by
  by_contra unknown
  exact touched (phase.opening used (.inl ((Bool.not_eq_true _).mp unknown)))

variable {q : TcpPacket}

theorem networkEvent_packets {what : NetworkEvents} {y : Turn}
    (sent : .enqueuePacket q ∈ (networkEvent what y).effects) :
    .enqueuePacket q ∈ y.effects ∨ y.inUse = true ∧ y.state = .listen := by
  unfold networkEvent at sent
  split at sent
  next used =>
    cases what with
    | connect error =>
      dsimp only at sent
      split at sent
      · exact .inl sent
      · unfold tcpConnectCallback at sent
        split at sent
        next listen => exact .inr ⟨used, listen⟩
        · exact .inl sent
    | close | nothing => exact .inl sent
    | failed notSocket =>
      dsimp only at sent
      split at sent
      · exact .inl sent
      · exact .inl (freeSocket_packets y q sent)
  · exact .inl sent

theorem allocNewSocket_packets {created : Option Socket} {bound : Bool}
    {srcPort destPort : BitVec 16} {ipDest : BitVec 32} {y : Turn}
    (sent : .enqueuePacket q ∈ (allocNewSocket created bound srcPort destPort ipDest y).1.effects) :
    .enqueuePacket q ∈ y.effects := by
  unfold allocNewSocket at sent
  dsimp only at sent
  split at sent
  · have before := freeSocket_packets _ q sent
    exact before
  · split at sent
    · exact sent
    · have before := freeSocket_packets _ q sent
      exact before

theorem forceClose_packets {y : Turn} (sent : .enqueuePacket q ∈ (forceClose y).effects) :
    .enqueuePacket q ∈ y.effects := by
  unfold forceClose at sent
  split at sent
  · exact sent
  · exact freeSocket_packets _ q sent

theorem writeTcp_reset (env : Env) {y : Turn} (reset : isSet p.flags tcpFlagsRst = true)
    (sent : .enqueuePacket q ∈ (writeTcp env p y).effects) : .enqueuePacket q ∈ y.effects := by
  unfold writeTcp at sent
  rw [if_pos reset] at sent
  have before := freeSocket_packets _ q sent
  split at before
  · exact (List.mem_append.mp before).resolve_right (by simp)
  · exact before

theorem completion_used (error : BitVec 32) {bytes : BitVec 32} {y : Turn}
    (none_sent : .enqueuePacket q ∉ y.effects)
    (sent : .enqueuePacket q ∈ (tcpReadCompletion env error bytes y).effects ∨
      .enqueuePacket q ∈ (tcpWriteCompletion env bytes y).effects) : y.inUse = true := by
  by_contra free
  have unused : (!y.inUse) = true := by simpa using free
  rcases sent with sent | sent
  · unfold tcpReadCompletion at sent
    rw [if_pos (by exact unused)] at sent
    exact none_sent sent
  · unfold tcpWriteCompletion at sent
    rw [if_pos (by exact unused)] at sent
    exact none_sent sent

/-- An acknowledgement is sent by a slot that knows the SYN of the Mac, and of what is expected
next. -/
theorem FromMac.Invariant.acks (inv : x.Invariant) {event : SlotEvent}
    (enabled : x.enabled ⟨env, event, off, stream⟩ = true)
    (regular : x.Regular ⟨env, event, off, stream⟩)
    (sent : .enqueuePacket q ∈ (slotEvent env x.slot event).effects)
    (ack : isSet q.flags tcpFlagsAck = true) :
    (x.after ⟨env, event, off, stream⟩).known = true ∧
      q.ack = (slotEvent env x.slot event).seqIn := by
  have phase := inv.phase
  have nothing : .enqueuePacket q ∉ x.slot.begin.effects := List.not_mem_nil
  have expected : ∀ {w : Turn}, KeepsWrite x.slot.begin w → .enqueuePacket q ∈ w.effects →
      q.ack = w.seqIn := fun kept sent =>
    ((kept.acks q sent).resolve_left nothing).trans kept.seqIn.symm
  cases event with
  | create created bound srcPort destPort ipDest =>
    exact absurd (allocNewSocket_packets sent) nothing
  | accept s macosIpAddress srcPort destPort ipDest =>
    have unset : isSet tcpFlagsSyn tcpFlagsAck = false := by decide
    cases List.mem_singleton.mp sent
    exact absurd (unset.symm.trans ack) Bool.false_ne_true
  | packet p =>
    cases reset : isSet p.flags tcpFlagsRst with
    | true => exact absurd (writeTcp_reset env reset sent) nothing
    | false =>
      simp only [FromMac.enabled, Bool.and_eq_true, decide_eq_true_iff] at enabled
      obtain ⟨⟨⟨used, no_ftp⟩, fits⟩, _⟩ := enabled
      have written := writeTcp_write x.slot.begin reset no_ftp fits
      refine ⟨?_, ?_⟩
      · by_contra unknown
        have unknown : (x.known || takesSyn x.slot p) = false := (Bool.not_eq_true _).mp unknown
        obtain ⟨unheard, no_syn⟩ := Bool.or_eq_false_iff.mp unknown
        have no_fin : takesFin x.slot p = false := by
          by_contra fin
          have known := (regular.1 ((Bool.not_eq_false _).mp fin)).1
          exact Bool.false_ne_true (unheard.symm.trans known)
        exact nothing (writeTcp_quiet env x.slot.begin reset (phase.unknown used unheard) no_syn
          no_fin sent)
      · split at written
        · exact ((written.acks q sent).resolve_left nothing).trans written.seqIn.symm
        · exact ((written.acks q sent).resolve_left nothing).trans written.seqIn.symm
  | forceClose => exact absurd (forceClose_packets sent) nothing
  | read error data =>
    have used := completion_used error (y := ({ x.slot with
      readBuf := overwrite x.slot.readBuf data } : TcpSocket).begin) nothing (.inl sent)
    obtain ⟨under_way, _⟩ := Bool.and_eq_true_iff.mp enabled
    have arrived : KeepsWrite x.slot.begin
        ({ x.slot with readBuf := overwrite x.slot.readBuf data } : TcpSocket).begin :=
      (KeepsWrite.refl _).update rfl
    refine ⟨phase.known used fun untouched => of_decide_eq_true under_way untouched.reads, ?_⟩
    exact expected (arrived.trans (tcpReadCompletion_keepsWrite env error _ _)) sent
  | write bytesWritten =>
    have used := completion_used 0 nothing (.inr sent)
    refine ⟨phase.known used fun untouched => ?_, ?_⟩
    · simp [FromMac.enabled, untouched.writing] at enabled
    · rcases tcpWriteCompletion_cases env bytesWritten x.slot.begin with
        ignored | ⟨_, acknowledged⟩ | ⟨_, posts⟩
      · exact ((ignored.acks q sent).resolve_left nothing).trans ignored.seqIn.symm
      · exact ((acknowledged.acks q sent).resolve_left nothing).trans acknowledged.seqIn.symm
      · exact ((posts.acks q sent).resolve_left nothing).trans posts.seqIn.symm
  | network what =>
    obtain ⟨used, listen⟩ := (networkEvent_packets sent).resolve_left nothing
    refine ⟨?_, expected (networkEvent_keepsWrite what _) sent⟩
    by_contra unknown
    have state := phase.unknown used ((Bool.not_eq_true _).mp unknown)
    have listen' : x.slot.state = .listen := listen
    simp [listen'] at state
  | timeout =>
    obtain ⟨used, established, _⟩ := checkTimeouts_packets sent
    refine ⟨?_, expected (checkTimeouts_keepsWrite env _) sent⟩
    by_contra unknown
    have state := phase.unknown used ((Bool.not_eq_true _).mp unknown)
    simp [established] at state

theorem FromMac.Invariant.init : FromMac.init.Invariant where
  ledger := ⟨List.nil_prefix, Nat.le_refl 0, Nat.zero_le _, nofun, nofun, nofun, nofun⟩
  phase := .of_free rfl

end Step

theorem mem_acksSent {effects : List Effect} {ack : BitVec 32} (sent : ack ∈ acksSent effects) :
    ∃ p, .enqueuePacket p ∈ effects ∧ isSet p.flags tcpFlagsAck = true ∧ p.ack = ack := by
  obtain ⟨e, member, acks⟩ := List.mem_filterMap.mp sent
  split at acks
  next p =>
    split at acks
    next set => exact ⟨p, member, set, Option.some.inj acks⟩
    · cases acks
  · cases acks

/-- As long as every event is regular, what has been handed over and what is being written are the
beginning of what the Mac sends, and no acknowledgement goes beyond what has been handed over. -/
theorem fromMac_in_order {x : FromMac}
    (reached : Reachable fromMacStep FromMac.Regular FromMac.init x) :
    x.handed ++ x.writing.getD [] <+: x.stream.bytes ∧
    ∀ label y, x.Regular label → fromMacStep x label = some y →
      ∀ ack ∈ acksSent (slotEvent label.env x.slot label.event).effects, y.Covers ack := by
  have inv : x.Invariant := reached.invariant .init fun _ _ _ inv regular step =>
    fromMacStep_invariant inv regular step
  refine ⟨inv.ledger.within, fun label y regular step ack sent => ?_⟩
  have next := fromMacStep_invariant inv regular step
  unfold fromMacStep at step
  split at step
  next enabled =>
    cases step
    obtain ⟨p, member, set, rfl⟩ := mem_acksSent sent
    obtain ⟨known, expected⟩ := inv.acks enabled regular member set
    have slot : (x.after label).slot = (slotEvent label.env x.slot label.event).toTcpSocket := by
      unfold FromMac.after
      cases label.event <;> rfl
    rw [expected, ← congrArg TcpSocket.seqIn slot]
    exact next.ledger.covers known
  · cases step

-- The Mac sends two bytes to a remote host that has connected to its port 80.

def macSends (flags : BitVec 8) (seq : BitVec 32) (data : List (BitVec 8)) : TcpPacket where
  ttl := 64
  ipSrc := 0xC0A80002
  ipDest := 0x0A000001
  srcPort := 80
  destPort := 4000
  seq := seq
  ack := 2
  flags := flags
  window := 1460
  mss := 0
  data := data

def twoBytes : MacStream := ⟨7, [65, 66]⟩

def MacEvent.of (event : SlotEvent) (off : Nat) : MacEvent := ⟨quietEnv, event, off, twoBytes⟩

def connectedEvents : List MacEvent :=
  [.of (.create (some 1) true 80 4000 0x0A000001) 0,
    .of (.accept 2 0xC0A80002 80 4000 0x0A000001) 0,
    .of (.packet (macSends (tcpFlagsSyn ||| tcpFlagsAck) 7 [])) 0]

/-- Windows takes the bytes one by one. -/
def twoBytesEvents : List MacEvent :=
  connectedEvents ++
    [.of (.packet (macSends tcpFlagsAck 8 [65, 66])) 0, .of (.write 1) 0, .of (.write 1) 0]

/-- The FIN behind the two bytes. -/
def macCloses : MacEvent := .of (.packet (macSends (tcpFlagsFin ||| tcpFlagsAck) 10 [])) 2

theorem fromMac_in_order_twoBytes :
    ∃ x y, Reachable fromMacStep FromMac.Regular FromMac.init x ∧ x.handed = [65, 66] ∧
      fromMacStep x macCloses = some y ∧
      x.handed ++ x.writing.getD [] <+: x.stream.bytes ∧ y.Covers 11 := by
  have facts : (exec (guarded fromMacStep FromMac.Regular) FromMac.init twoBytesEvents).map
      (fun x => (x.handed, decide (x.Regular macCloses), (fromMacStep x macCloses).isSome,
        acksSent (slotEvent quietEnv x.slot macCloses.event).effects)) =
          some ([65, 66], true, true, [11]) := by decide
  obtain ⟨x, executed, values⟩ := Option.map_eq_some_iff.mp facts
  simp only [Prod.mk.injEq, decide_eq_true_iff] at values
  obtain ⟨handed, regular, there, acks⟩ := values
  have reached : Reachable fromMacStep FromMac.Regular FromMac.init x :=
    ⟨_, run_of_guarded_exec executed⟩
  obtain ⟨y, step⟩ := Option.isSome_iff_exists.mp there
  obtain ⟨within, covers⟩ := fromMac_in_order reached
  have sent : 11 ∈ acksSent (slotEvent quietEnv x.slot macCloses.event).effects := by
    rw [acks]
    exact List.mem_singleton_self 11
  exact ⟨x, y, reached, handed, step, within, covers macCloses y regular step 11 sent⟩

/-- The FIN together with the two bytes. -/
def macClosesAtOnce : MacEvent :=
  .of (.packet (macSends (tcpFlagsFin ||| tcpFlagsAck) 8 [65, 66])) 0

/-- The FIN comes with the two bytes: it is acknowledged at the place of the first byte, and the
bytes are dropped as a duplicate. -/
theorem fin_drops_data :
    ∃ x label y, Reachable fromMacStep Free FromMac.init x ∧ fromMacStep x label = some y ∧
      y.writing = none ∧ y.handed = [] ∧ y.fin = true ∧
      ¬∀ ack ∈ acksSent (slotEvent label.env x.slot label.event).effects, y.Covers ack := by
  have acks : (exec fromMacStep FromMac.init connectedEvents).map
      (fun x => acksSent (slotEvent quietEnv x.slot macClosesAtOnce.event).effects) =
        some [9] := by decide
  have after : (exec fromMacStep FromMac.init connectedEvents).bind (fun x =>
      (fromMacStep x macClosesAtOnce).map fun y => (y.writing, y.handed, y.fin, y.stream)) =
        some (none, [], true, twoBytes) := by decide
  obtain ⟨x, executed, acks⟩ := Option.map_eq_some_iff.mp acks
  rw [executed, Option.bind_some] at after
  obtain ⟨y, step, left⟩ := Option.map_eq_some_iff.mp after
  simp only [Prod.mk.injEq] at left
  obtain ⟨silent, handed, fin, stream⟩ := left
  refine ⟨x, macClosesAtOnce, y, ⟨_, run_of_exec executed⟩, step, silent, handed, fin, fun covers => ?_⟩
  have sent : 9 ∈ acksSent (slotEvent quietEnv x.slot macClosesAtOnce.event).effects := by
    rw [acks]
    exact List.mem_singleton_self 9
  obtain ⟨k, ack, _, within⟩ := covers 9 sent
  rw [stream] at ack within
  rcases within with none_handed | ⟨behind, _⟩
  · rw [handed] at none_handed
    cases Nat.le_zero.mp none_handed
    exact absurd ack (by decide)
  · subst behind
    exact absurd ack (by decide)

end BasiliskII.Router
