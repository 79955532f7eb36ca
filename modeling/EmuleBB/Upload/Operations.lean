import EmuleBB.Upload.Upkeep

/-!
# Upload queue operations

The calls of the listener, the promote driver and the management interface. A call takes the queue
and returns the new one with its result, and every early return keeps what the call had done so
far. Instants are arguments, as they are in the source; `configure` reads the clock itself.
-/

namespace EmuleBB.Upload

open Peer

/-- What the score is computed from, for a peer and a file. -/
structure ScoreInputs where
  filePriorityScore : Int
  creditScorePermille : Int
  allTimeUploadRatioPermille : Int
  fileSize : Nat
  deriving DecidableEq

/-- `Ed2kUploadSessionHandle`, as far as the queue reads it. -/
structure SessionHandle where
  key : SessionKey
  connectionId : Nat
  deriving DecidableEq

/-- `Ed2kUploadCallbackPermit`; its peer and file hash are those of the key. -/
structure CallbackPermit where
  key : SessionKey
  generation : Nat
  expiresAt : Instant
  deriving DecidableEq

inductive PendingPromotion
  | directDial (handle : SessionHandle) (lease : Nat) (expiresAt : Instant)
  | callback (permit : CallbackPermit)
  deriving DecidableEq

def PendingPromotion.isDirectDial : PendingPromotion → Bool
  | .directDial .. => true
  | .callback _ => false

inductive CallbackClaim
  | granted (handle : SessionHandle) (lease : Nat) (expiresAt : Instant)
  | matchedButFull
  | notMatched
  deriving DecidableEq

inductive RangeAdmission
  | accepted
  | duplicateQueued
  | duplicateDone
  deriving DecidableEq

inductive WaitingReaskLookup
  | exact (key : SessionKey) (queueRank : Nat)
  | uniqueIpFallback (key : SessionKey) (queueRank : Nat)
  | ambiguous
  | missing
  deriving DecidableEq

/-! ## Changes to one session -/

namespace Session

def fresh (key : SessionKey) (lease : Nat) (phase : SessionPhase) (connectionId : Nat)
    (waitingSequence : Nat) (inputs : ScoreInputs) (now : Instant) : Session where
  key := key
  phase := phase
  connectionId := connectionId
  connected := true
  callbackPromotion := none
  callbackPromotionSuppressed := false
  promotionDeadline := none
  lease := lease
  inFlightWork := 0
  wireProgressBytes := 0
  queuedAt := now
  lastActivity := now
  lastRequestAt := none
  observedWireProgressBytes := 0
  accumulatedSlowUpload := 0
  accumulatedZeroUpload := 0
  lastSlowUploadSampleAt := some now
  waitingSequence := waitingSequence
  filePriorityScore := inputs.filePriorityScore
  creditScorePermille := inputs.creditScorePermille
  scoreModifiers := .fromPeer key.peer key.peer.hasLowId inputs.allTimeUploadRatioPermille
  fileSize := inputs.fileSize
  uploadedBytes := 0
  uploadStartedAt := none
  queuedRanges := []
  requestGeneration := 0
  servedRanges := []
  rateMeter := .new perSlotRateWindow

variable (session : Session)

def rescored (peer : PeerIdentity) (inputs : ScoreInputs) : Session :=
  { session with
    filePriorityScore := inputs.filePriorityScore
    creditScorePermille := inputs.creditScorePermille
    scoreModifiers := .fromPeer peer peer.hasLowId inputs.allTimeUploadRatioPermille
    fileSize := inputs.fileSize }

def withdrawCallback : Session :=
  match session.callbackPromotion with
  | none => session
  | some promotion =>
    { session with
      callbackPromotion :=
        some { promotion with cancelled := true, deadline := none, route := none }
      callbackPromotionSuppressed := true }

def forFile (fileHash : Md4Digest) : Session :=
  if session.key.fileHash = fileHash then session
  else { session with queuedRanges := [], requestGeneration := 0, servedRanges := [] }

/-- The disconnected sessions that a connection of the same client continues. -/
def isAttaching (existing : Session) (key : SessionKey) : Bool :=
  !existing.connected
    && ((existing.isWaiting && existing.callbackPromotion.isSome)
      || (existing.phase = .granted && existing.key.peer.ip = key.peer.ip
          && existing.key.peer.tcpPort = key.peer.tcpPort))

/-- A re-ask: the connection is bound again and the wait start kept, unless the entitlement is
    turned into a slot. -/
def reattached (existing : Session) (key : SessionKey) (connectionId : Nat) (consume : Bool)
    (inputs : ScoreInputs) (now : Instant) : Session :=
  let session :=
    { existing.forFile key.fileHash with connectionId := connectionId, connected := true }
  let session :=
    if existing.callbackPromotion.isNone then { session with callbackPromotionSuppressed := false }
    else if consume then session.granted now
    else session.withdrawCallback
  { session.rescored key.peer inputs with
    key := key, promotionDeadline := none, lastActivity := now }

def polled (now : Instant) : Session :=
  { session.withdrawCallback with
    connected := true, promotionDeadline := none, lastActivity := now }

def requestedParts (now : Instant) : Session :=
  if session.isActive then
    { session with
      lastActivity := now
      phase := .uploading
      requestGeneration := saturatingAdd session.requestGeneration 1 }
  else { session with lastActivity := now }

def working (now : Instant) : Session :=
  { session with
    phase := .uploading
    lastActivity := now
    lastRequestAt := some now
    inFlightWork := session.inFlightWork + 1 }

def retainQueuedRanges : Session :=
  { session with
    queuedRanges := session.queuedRanges.filter fun range =>
      session.requestGeneration - range.requestGeneration ≤ 1 }

def servedRange (start finish : Nat) (now : Instant) : Session :=
  let session := { session with lastActivity := now }
  if start < finish && !session.servedRanges.contains ⟨start, finish⟩ then
    let kept :=
      if session.servedRanges.length = uploadSessionServedRangeHistory then
        session.servedRanges.tail
      else session.servedRanges
    { session with servedRanges := kept ++ [⟨start, finish⟩] }
  else session

def uploaded (byteCount : Nat) (now : Instant) : Session :=
  { session with
    lastActivity := now
    uploadStartedAt :=
      if byteCount ≠ 0 then some (session.uploadStartedAt.getD now) else session.uploadStartedAt
    uploadedBytes := saturatingAdd session.uploadedBytes byteCount
    rateMeter := session.rateMeter.record byteCount now }

def issueDeadline (expiresAt : Instant) : Session :=
  { session with
    callbackPromotion := session.callbackPromotion.map fun promotion =>
      { promotion with deadline := some expiresAt } }

def armRoute (route : CallbackRoute) : Session :=
  { session with
    callbackPromotion := session.callbackPromotion.map fun promotion =>
      { promotion with route := some route } }

end Session

namespace Queue

variable (q : Queue) (handle : SessionHandle) (key : SessionKey)

def owned : Option Session :=
  (q.get handle.key).filter fun session => session.connectionId = handle.connectionId

variable (peer : PeerIdentity)

def sessionForPeer : Option Session :=
  q.sessions.find? fun session => sameUploadClient session.key.peer peer

def configure (config : QueueConfig) (now : Instant) : Queue :=
  let q := { q with config := config }.reapExpiredSessions now
  (q.trimWaitingQueue now).promoteWaiters now

def capacitySnapshot (now : Instant) : Queue :=
  (q.reapExpiredSessions now).refreshElasticUnderfill now

/-! ## Beginning a session -/

/-- A free slot goes to a newcomer only when nobody who waits could take it. -/
def inlineGrant (now : Instant) : Bool :=
  q.activeSessionCount < q.effectiveActiveSlotLimit now
    && !q.cooldown.isCooled key.peer.ip key.peer.friendSlot now
    && q.slotOpenPaced now
    && (q.bestAdmissibleWaiter now false).isNone

def insertFresh (phase : SessionPhase) (connectionId : Nat) (inputs : ScoreInputs) (now : Instant) :
    Queue :=
  let (waitingSequence, q) := q.takeWaitingSequence
  { q with nextLease := q.nextLease + 1 }.insert
    (.fresh key q.nextLease phase connectionId waitingSequence inputs now)

def insertGranted (connectionId : Nat) (inputs : ScoreInputs) (now : Instant) : Queue :=
  let opened : SlotOpen :=
    ⟨q.nextLease, q.activeSessionCount, q.effectiveActiveSlotLimit now, false, none⟩
  let q := q.insertFresh key .granted connectionId inputs now
  { q with lastSlotOpen := some now, slotOpens := opened :: q.slotOpens }

def insertWaiting (connectionId : Nat) (inputs : ScoreInputs) (now : Instant) : Queue :=
  { q with waitingOrder := q.waitingOrder ++ [key] }.insertFresh key .waiting
    connectionId inputs now

def admitSession (connectionId : Nat) (inputs : ScoreInputs) (liveSameIpConnections : Nat)
    (now : Instant) : Queue × SessionStatus :=
  if q.rejectPerIpSessionAdmission key liveSameIpConnections then (q, .rejected)
  else
    let q := q.refreshElasticUnderfill now
    if q.inlineGrant key now then
      let q := (q.insertGranted key connectionId inputs now).trimWaitingQueue now
      (q, q.statusForKey key now)
    else if q.rejectFirewalledCallbackAdmission key
        || q.rejectQueueAdmission key inputs.filePriorityScore inputs.creditScorePermille then
      (q, .rejected)
    else
      let q :=
        ((q.insertWaiting key connectionId inputs now).trimWaitingQueue now).promoteWaiters now
      (q, q.statusForKey key now)

/-- Whether a re-ask turns the session's entitlement into a slot: one above the limit is
    allowed. -/
def consumesEntitlement (existing : Session) (now : Instant) : Bool :=
  existing.callbackPromotion.isSome
    && (q.remove existing.key).activeSessionCount
      < (q.remove existing.key).effectiveActiveSlotLimit now + 1

def reattach (existing : Session) (key : SessionKey) (connectionId : Nat) (inputs : ScoreInputs)
    (now : Instant) : Queue :=
  let consume := q.consumesEntitlement existing now
  let q := q.remove existing.key
  let q := if consume then q.stampSlotOpen existing true now else q
  let q :=
    if !existing.isWaiting then q
    else if consume then q.leaveOrder existing.key
    else q.replaceWaitingKey existing.key key
  q.insert (existing.reattached key connectionId consume inputs now)

def beginSessionWithLiveConnections (connectionId : Nat) (inputs : ScoreInputs)
    (liveSameIpConnections : Nat) (now : Instant) : Queue × SessionStatus :=
  let q := q.reapExpiredSessions now
  if key.peer.banned then (q, .rejected)
  else
    match q.sessionForPeer key.peer with
    | none => q.admitSession key connectionId inputs liveSameIpConnections now
    | some existing =>
      if existing.connectionId ≠ connectionId && !existing.isAttaching key then
        -- the same client on another connection is a collision, not a reconnect
        if existing.key.peer.identVerified then (q, .rejected)
        else if !key.peer.identVerified then
          ((q.retireSessionKey existing.key).promoteWaiters now, .rejected)
        else
          (q.retireSessionKey existing.key).admitSession key connectionId inputs
            liveSameIpConnections now
      else
        let q := q.reattach existing key connectionId inputs now
        (q, q.statusForKey key now)

/-! ## A connection's own session -/

def beginUploadWork (now : Instant) : Queue × Option Nat :=
  match q.owned handle with
  | none => (q, none)
  | some session =>
    if q.cancelledLeases.contains session.lease || !session.isActive then (q, none)
    else
      (q.update handle.key (·.working now), some session.lease)

def pollSession (now : Instant) (refreshActivity : Bool) : Queue × SessionStatus :=
  let q := q.reapExpiredSessions now
  match q.owned handle with
  | none => (q, .stale)
  | some _ =>
    let q := if refreshActivity then q.update handle.key (·.polled now) else q
    (q, q.statusForKey handle.key now)

def collision : Option Session :=
  q.sessions.find? fun candidate =>
    !candidate.key.same handle.key && sameUploadClient candidate.key.peer peer

def rebind (current : Session) (handle : SessionHandle) (peer : PeerIdentity) (inputs : ScoreInputs)
    (now : Instant) : Queue :=
  let newKey : SessionKey := ⟨peer, handle.key.fileHash⟩
  let q := q.remove handle.key
  let q := if current.isWaiting then q.replaceWaitingKey handle.key newKey else q
  let q := { q with
    pendingPromotions := q.pendingPromotions.map fun (pending : SessionKey) =>
      if pending.same handle.key then newKey else pending }
  q.insert { current.rescored peer inputs with key := newKey, lastActivity := now }

def refreshSessionPeer (inputs : ScoreInputs) (now : Instant) : Queue × SessionStatus :=
  let q := q.reapExpiredSessions now
  match q.owned handle with
  | none => (q, .stale)
  | some current =>
    match q.collision handle peer with
    | none =>
      let q := q.rebind current handle peer inputs now
      (q, q.statusForKey ⟨peer, handle.key.fileHash⟩ now)
    | some other =>
      if other.key.peer.identVerified then
        ((q.retireSessionKey handle.key).promoteWaiters now, .rejected)
      else if peer.identVerified then
        let q := (q.retireSessionKey other.key).rebind current handle peer inputs now
        (q, q.statusForKey ⟨peer, handle.key.fileHash⟩ now)
      else
        (((q.retireSessionKey other.key).retireSessionKey handle.key).promoteWaiters now, .rejected)

def noteRequestParts (now : Instant) : Queue × SessionStatus :=
  let q := q.reapExpiredSessions now
  match q.owned handle with
  | none => (q, .stale)
  | some session =>
    let q := q.update handle.key (·.requestedParts now)
    (q, if session.isActive then .granted else q.statusForKey handle.key now)

def noteQueuedBlockRequest (now : Instant) : Queue × Bool :=
  if q.sessions.any fun session => session.isWaiting && sameUploadClient session.key.peer peer then
    let (cooldown, cleared) :=
      q.cooldown.clearRetryCooldownOnQueuedRequest peer.ip q.openBaseSlotUnderfill now
    let q := { q with cooldown := cooldown }
    (if cleared then q.promoteWaiters now else q, cleared)
  else (q, false)

def noteRequestedRange (start finish : Nat) (now : Instant) :
    Queue × SessionStatus × RangeAdmission :=
  let q := q.reapExpiredSessions now
  match q.owned handle with
  | none => (q, .stale, .accepted)
  | some session =>
    if !session.isActive then
      let q := q.update handle.key fun session => { session with lastActivity := now }
      (q, q.statusForKey handle.key now, .accepted)
    else
      let retained := session.retainQueuedRanges
      let matching (range : QueuedRange) : Bool := range.start = start && range.finish = finish
      let queued : List QueuedRange :=
        if retained.queuedRanges.any matching || session.servedRanges.contains
          ⟨start, finish⟩ then []
        else [⟨start, finish, session.requestGeneration⟩]
      let q := q.update handle.key fun session =>
        { session.retainQueuedRanges with
          lastActivity := now, queuedRanges := session.retainQueuedRanges.queuedRanges ++ queued }
      (q, .granted,
        if retained.queuedRanges.any matching then .duplicateQueued
        else if session.servedRanges.contains ⟨start, finish⟩ then .duplicateDone
        else .accepted)

def noteServedRange (start finish : Nat) (now : Instant) : Queue × SessionStatus :=
  let q := q.reapExpiredSessions now
  match q.owned handle with
  | none => (q, .stale)
  | some _ =>
    let q := q.update handle.key (·.servedRange start finish now)
    (q, q.statusForKey handle.key now)

def noteUploadedBytes (byteCount : Nat) (now : Instant) : Queue × SessionStatus :=
  let q := q.reapExpiredSessions now
  match q.owned handle with
  | none => (q, .stale)
  | some _ =>
    let q := q.update handle.key (·.uploaded byteCount now)
    let q := { q with aggregateRateMeter := q.aggregateRateMeter.record byteCount now }
    let q := (q.refreshElasticUnderfill now).promoteWaiters now
    (q, q.statusForKey handle.key now)

/-! ## Releasing -/

/-- Whether the end of an active session counts as churn. -/
def shortFailed (session : Session) (now : Instant) : Bool :=
  !handle.key.peer.friendSlot && now - session.queuedAt ≤ shortFailedUploadCooldownMaxAge
    && session.uploadedBytes ≤ shortFailedUploadCooldownMaxPayloadBytes

/-- A waiter loses only its connection; an active session is retired, and its address is cooled
    when it wasted a slot that somebody waits for. -/
def disconnect (session : Session) (now : Instant) : Queue :=
  if session.isWaiting then
    q.update handle.key fun session =>
      { session with connected := false, promotionDeadline := none }
  else
    let q := q.retireSessionKey handle.key
    let hasIpSibling := q.sessions.any fun other => other.key.peer.ip = handle.key.peer.ip
    if shortFailed handle session now && !hasIpSibling && 0 < q.waitingSessionCount then
      { q with
        cooldown := q.cooldown.setChurnCooldown handle.key.peer.ip false
          q.config.uploadLimitBytesPerSec now }
    else q

def releaseSession (now : Instant) : Queue :=
  match q.owned handle with
  | none => q
  | some session =>
    ((q.disconnect handle session now).reapExpiredSessions now).promoteWaiters now

def noteFailedPromotion (now : Instant) : Queue :=
  if peer.friendSlot then q
  else
    { q with
      cooldown := q.cooldown.setChurnCooldown peer.ip false q.config.uploadLimitBytesPerSec now }

def releaseClient (clientId : ClientSelector) (waitingQueue : Bool) (now : Instant) :
    Queue × Bool :=
  let q := q.reapExpiredSessions now
  match q.sessions.find? fun session =>
      session.isWaiting == waitingQueue && uploadClientIdMatches session.key.peer clientId with
  | none => (q, false)
  | some session =>
    let released := q.retireSessionKey session.key
    let released := if session.isWaiting then released.leaveOrder session.key else released
    ((released.reapExpiredSessions now).promoteWaiters now, true)

/-! ## Client-UDP reasks -/

def lookupWaitingReaskClient (ip : IpAddr) (udpPort : UInt16) (now : Instant) :
    Queue × WaitingReaskLookup :=
  let q := q.reapExpiredSessions now
  let sameIp := q.sessions.filter fun session => session.isWaiting && session.key.peer.ip = ip
  let exact := sameIp.filter fun session => session.key.peer.udpPort = some udpPort
  (q,
    match exact, sameIp with
    | [session], _ => .exact session.key (q.rankForKey session.key now)
    | _ :: _ :: _, _ => .ambiguous
    | [], [] => .missing
    | [], [session] => .uniqueIpFallback session.key (q.rankForKey session.key now)
    | [], _ :: _ :: _ => .ambiguous)

def refreshWaitingReaskState (now : Instant) : Queue × Bool :=
  match q.get key with
  | none => (q, false)
  | some session =>
    if session.isWaiting then
      (q.update key fun session => { session with lastActivity := now }, true)
    else (q, false)

/-! ## Promotions and callbacks -/

def takePending (now : Instant) (connectTimeout : Duration) (nextConnectionId : Nat → Nat)
    (state : Queue × List PendingPromotion) (key : SessionKey) : Queue × List PendingPromotion :=
  let (q, promotions) := state
  let expiresAt := now + connectTimeout
  match q.get key with
  | none => state
  | some session =>
    if session.isWaiting then
      match session.callbackPromotion with
      | none => state
      | some promotion =>
        if session.connected || promotion.deadline.isSome then state
        else
          (q.update key (·.issueDeadline expiresAt),
            promotions ++ [.callback ⟨key, promotion.generation, expiresAt⟩])
    else if session.phase ≠ .granted || session.connected then state
    else
      let connectionId := nextConnectionId (promotions.countP PendingPromotion.isDirectDial)
      (q.update key fun session =>
          { session with connectionId := connectionId, promotionDeadline := some expiresAt },
        promotions ++ [.directDial ⟨key, connectionId⟩ session.lease expiresAt])

def takePendingPromotions (now : Instant) (connectTimeout : Duration)
    (nextConnectionId : Nat → Nat) :
    Queue × List PendingPromotion :=
  q.pendingPromotions.foldl (takePending now connectTimeout nextConnectionId)
    ({ q with pendingPromotions := [] }, [])

def CallbackPermit.isCurrent (permit : CallbackPermit) (promotion : CallbackPromotion) : Bool :=
  promotion.generation = permit.generation && promotion.deadline = some permit.expiresAt
    && !promotion.cancelled

def beginCallbackDispatch (permit : CallbackPermit) (route : CallbackRoute) (now : Instant) :
    Queue × Bool :=
  let q := q.reapExpiredSessions now
  match (q.get permit.key).filter fun session =>
      callbackRouteIsValidForPeer route permit.key.peer && session.isWaiting && !session.connected
        && session.callbackPromotion.any fun promotion =>
          CallbackPermit.isCurrent permit promotion && promotion.route.isNone with
  | none => (q, false)
  | some _ => (q.update permit.key (·.armRoute route), true)

def cancelCallbackKnownNotSent (permit : CallbackPermit) (now : Instant) : Queue × Bool :=
  let q := q.reapExpiredSessions now
  match (q.get permit.key).filter fun session =>
      session.isWaiting && session.callbackPromotion.any (CallbackPermit.isCurrent permit) with
  | none => (q, false)
  | some _ => ((q.update permit.key (·.withdrawCallback)).promoteWaiters now, true)

def claimable (observedPeer : PeerIdentity) : Option Session :=
  q.sessions.find? fun session =>
    session.isWaiting
      && session.route.any fun route =>
        callbackRouteMatchesHello route session.key.peer observedPeer

def claimSlot (old : Session) (observedPeer : PeerIdentity) (connectionId : Nat) (now : Instant) :
    Queue :=
  let q := q.stampSlotOpen old true now
  let q := ((q.remove old.key).leaveOrder old.key).leavePending old.key
  q.insert { old.granted now with
    key := ⟨observedPeer, old.key.fileHash⟩, connectionId := connectionId, connected := true }

def claimCallbackPromotion (observedPeer : PeerIdentity) (connectionId : Nat) (now : Instant) :
    Queue × CallbackClaim :=
  let q := q.reapExpiredSessions now
  match q.claimable observedPeer with
  | none => (q, .notMatched)
  | some old =>
    if q.effectiveActiveSlotLimit now + 1 ≤ q.activeSessionCount then (q, .matchedButFull)
    else if (q.sessionForPeer observedPeer).any fun session => !session.key.same old.key then
      (q, .notMatched)
    else
      (q.claimSlot old observedPeer connectionId now,
        .granted ⟨⟨observedPeer, old.key.fileHash⟩, connectionId⟩ old.lease now)

/-! ## Management -/

def updateFilePriority (fileHash : Md4Digest) (filePriorityScore : Int) : Queue :=
  { q with
    sessions := q.sessions.map fun session =>
      if session.key.fileHash = fileHash then
        { session with filePriorityScore := filePriorityScore }
      else session }

def purgeWaitersForUnsharedFiles (sharedFileHashes : List Md4Digest) : Queue :=
  let stale := (q.waiters.map Prod.fst).filter fun key => !sharedFileHashes.contains key.fileHash
  let q := stale.foldl retireSessionKey q
  { q with
    waitingOrder := q.waitingOrder.filter fun key => !stale.any (·.same key) }

def maintain (sharedFileHashes : List Md4Digest) (now : Instant) : Queue :=
  ((q.purgeWaitersForUnsharedFiles sharedFileHashes).reapExpiredSessions now).promoteWaiters now

end Queue

end EmuleBB.Upload
