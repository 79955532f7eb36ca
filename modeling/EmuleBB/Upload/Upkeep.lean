import EmuleBB.Upload.Queue

/-!
# Upload queue maintenance

`reap_expired_sessions` runs at the start of almost every call: it withdraws callback attempts past
their deadline, purges waiters that were idle too long, recycles slots that waste bandwidth, trims
the waiting queue to its capacity and fills free slots. A recycled session goes **back to the
waiting queue** when it still passes the admission gates, and is retired otherwise.

The two loops of the source run until a condition fails. Here they take fuel, the length of the
waiting queue and a little more; `promoteWaiters_settled` and `trimWaitingQueue_fits` say that they
stop for the source's reason.
-/

namespace EmuleBB.Upload

open Peer

inductive RecycleReason
  | promotionTimeout
  | noRequestUnderfill
  | zeroUnderfill
  | slowUnderfill
  | sessionTransferLimit
  | sessionTimeLimit
  deriving DecidableEq

/-- The part of `Ed2kUploadRecycleDiagnostics` that decides something. -/
structure Recycle where
  reason : RecycleReason
  uploadedBytes : Nat
  deriving DecidableEq

def Session.uploadSpeedBytesPerSec (session : Session) (now : Instant) : Nat :=
  session.rateMeter.rateBytesPerSec now

def Session.resetSlowUpload (session : Session) (now : Instant) : Session :=
  { session with
    accumulatedSlowUpload := 0, accumulatedZeroUpload := 0, lastSlowUploadSampleAt := some now }

/-- A slot given back: the session waits again, at the back of the queue and with nothing of its
    upload stint. -/
def Session.demoted (session : Session) (waitingSequence : Nat) (now : Instant) : Session :=
  { session.resetSlowUpload now with
    phase := .waiting
    promotionDeadline := none
    queuedAt := now
    lastActivity := now
    lastRequestAt := none
    uploadStartedAt := none
    uploadedBytes := 0
    queuedRanges := []
    requestGeneration := 0
    servedRanges := []
    rateMeter := session.rateMeter.reset
    waitingSequence := waitingSequence }

/-- A session with a slot of its own and nothing served yet. -/
def Session.granted (session : Session) (now : Instant) : Session :=
  { session.resetSlowUpload now with
    phase := .granted
    callbackPromotion := none
    callbackPromotionSuppressed := false
    promotionDeadline := none
    queuedAt := now
    lastActivity := now
    lastRequestAt := none }

namespace Queue

/-! ## Bookkeeping on every session -/

variable (q : Queue)

def observeWireProgress (now : Instant) : Queue :=
  { q with
    sessions := q.sessions.map fun session =>
      if session.wireProgressBytes ≠ session.observedWireProgressBytes then
        { session with
          observedWireProgressBytes := session.wireProgressBytes, lastActivity := now }
      else session }

/-- One session of `update_slow_upload_tracking`. -/
def trackSlowUpload (shouldTrack : Bool) (threshold : Nat) (now : Instant) (session : Session) :
    Session :=
  if !session.isActive || !shouldTrack then session.resetSlowUpload now
  else
    let warmupEnds := session.queuedAt + slowUploadWarmup
    if now < warmupEnds then session.resetSlowUpload now
    else
      let elapsed := now - max (session.lastSlowUploadSampleAt.getD now) warmupEnds
      let sampled := { session with lastSlowUploadSampleAt := some now }
      let rate := session.uploadSpeedBytesPerSec now
      if elapsed = 0 then sampled
      else if rate = 0 then
        { sampled with
          accumulatedZeroUpload := session.accumulatedZeroUpload + elapsed
          accumulatedSlowUpload := session.accumulatedSlowUpload + elapsed }
      else if rate < threshold then
        { sampled with
          accumulatedSlowUpload := session.accumulatedSlowUpload + elapsed
          accumulatedZeroUpload := session.accumulatedZeroUpload - elapsed }
      else
        { sampled with
          accumulatedSlowUpload := session.accumulatedSlowUpload - elapsed
          accumulatedZeroUpload := session.accumulatedZeroUpload - elapsed }

def updateSlowUploadTracking (now : Instant) : Queue :=
  let shouldTrack := q.waitingSessionCount ≠ 0 && q.recycleUnderfillSignalReady now
    && q.effectiveActiveSlotLimit now ≤ q.activeSessionCount
  { q with
    sessions := q.sessions.map (trackSlowUpload shouldTrack q.slowUploadThresholdBytesPerSec now) }

def expireCallback (now : Instant) (session : Session) : Session :=
  match session.callbackPromotion with
  | none => session
  | some promotion =>
    if session.isWaiting && promotion.deadline.any (· ≤ now) then
      { session with
        callbackPromotion := some { promotion with cancelled := true, deadline := none }
        callbackPromotionSuppressed := true }
    else session

def expireCallbacks (now : Instant) : Queue :=
  { q with sessions := q.sessions.map (expireCallback now) }

/-! ## Recycling -/

def hasNoRequestReplacementPressure (now : Instant) : Bool :=
  q.waitingSessionCount ≠ 0
    && (q.rankedWaiters now).any fun waiter =>
      !q.cooldown.isCooled waiter.1.peer.ip waiter.1.peer.friendSlot now
        || q.cooldown.canProbe waiter.1.peer.ip now true

def underfilledActiveRecycle (session : Session) (now : Instant) : Option Recycle :=
  let age := now - session.queuedAt
  let requestIdleFor := now - session.lastRequestAt.getD session.queuedAt
  if !session.isActive || session.inFlightWork ≠ 0 || !session.connected
      || q.waitingSessionCount = 0 || !q.recycleUnderfillSignalReady now then none
  else if session.uploadSpeedBytesPerSec now ≤ q.slowUploadThresholdBytesPerSec
      ∧ q.config.grantedTimeout ≤ requestIdleFor ∧ q.config.grantedTimeout ≤ age then
    -- a drained slot: one that was productive is given the warm-up
    if q.productiveNoRequestPayloadBytes ≤ session.uploadedBytes ∧ age < slowUploadWarmup then none
    else if !q.hasNoRequestReplacementPressure now then none
    else some ⟨.noRequestUnderfill, session.uploadedBytes⟩
  else if age < slowUploadWarmup then none
  else if q.config.grantedTimeout ≤ session.accumulatedZeroUpload then
    some ⟨.zeroUnderfill, session.uploadedBytes⟩
  else if q.config.uploadTimeout ≤ session.accumulatedSlowUpload then
    some ⟨.slowUnderfill, session.uploadedBytes⟩
  else none

def sessionTransferLimitBytes (session : Session) : Option Nat :=
  let percent := min q.config.sessionTransferPercent 100
  if percent = 0 ∨ session.fileSize = 0 then none
  else some (saturatingAdd (min (session.fileSize * percent) u64Max) 99 / 100)

def sessionCapRotation (session : Session) (now : Instant) : Option Recycle :=
  let overTransfer := (q.sessionTransferLimitBytes session).any (· < session.uploadedBytes)
  let overTime := q.config.sessionTimeLimit ≠ 0
    && q.config.sessionTimeLimit < now - session.queuedAt
  if session.inFlightWork ≠ 0 || session.key.peer.friendSlot || (!overTransfer && !overTime)
      || (q.bestAdmissibleWaiter now false).isNone then none
  else if q.underfillSince.isSome
      && q.slowUploadThresholdBytesPerSec ≤ session.uploadSpeedBytesPerSec now then none
  else some
    ⟨if overTransfer then .sessionTransferLimit else .sessionTimeLimit, session.uploadedBytes⟩

/-- What the reap decides about a session: nothing, a purge from the waiting queue (`none`), or a
    recycle of its slot. -/
def expiry (now : Instant) (session : Session) : Option (Option Recycle) :=
  if session.isWaiting then
    if q.config.waitingTimeout < now - session.lastActivity then some none else none
  else if session.promotionDeadline.any (· ≤ now) then
    some (some ⟨.promotionTimeout, session.uploadedBytes⟩)
  else
    match q.underfilledActiveRecycle session now with
    | some recycle => some (some recycle)
    | none => (q.sessionCapRotation session now).map some

/-- The cooldown a recycle seeds, and whether the session is dropped whatever the gates say. -/
def seedCooldown (key : SessionKey) (recycle : Recycle) (now : Instant) : CooldownTracker × Bool :=
  let budget := q.config.uploadLimitBytesPerSec
  match recycle.reason with
  | .promotionTimeout =>
    (q.cooldown.setChurnCooldown key.peer.ip key.peer.friendSlot budget now, true)
  | .noRequestUnderfill =>
    let outcome := q.cooldown.registerNoRequestRecycle key.peer.ip key.peer.userHash
      key.peer.friendSlot budget now
      (q.productiveNoRequestPayloadBytes ≤ recycle.uploadedBytes)
    (outcome.1, outcome.2 ≠ .none)
  | .slowUnderfill | .zeroUnderfill =>
    (q.cooldown.setSlowCooldown key.peer.ip key.peer.friendSlot budget now, false)
  | .sessionTransferLimit | .sessionTimeLimit => (q.cooldown, false)

def demote (key : SessionKey) (now : Instant) : Queue :=
  let (waitingSequence, q) := q.takeWaitingSequence
  let q := q.update key (·.demoted waitingSequence now)
  { q with waitingOrder := q.waitingOrder ++ [key] }

def settleExpired (now : Instant) (q : Queue) (expired : SessionKey × Option Recycle) : Queue :=
  let key := expired.1
  match expired.2 with
  | none => q.retireSessionKey key
  | some recycle =>
    let (cooldown, forceDrop) := q.seedCooldown key recycle now
    let q := { q with cooldown := cooldown }
    let scores := ((q.get key).map fun session =>
      (session.filePriorityScore, session.creditScorePermille)).getD (0, 0)
    if forceDrop || key.peer.banned || q.rejectQueueAdmission key scores.1 scores.2
        || q.rejectFirewalledCallbackAdmission key then q.retireSessionKey key
    else q.demote key now

/-! ## Trimming and promoting -/

def trimLoop (now : Instant) : Nat → Queue → Queue
  | 0, q => q
  | fuel + 1, q =>
    if q.waitingOrder.length ≤ q.config.waitingCapacity then q
    else
      match q.worstWaiter now with
      | none => q
      | some evicted => trimLoop now fuel (q.retireSessionKey evicted.1)

def trimWaitingQueue (now : Instant) : Queue := trimLoop now q.waitingOrder.length q

/-- `wrapping_add(1).max(1)`. -/
def nextGeneration (generation : Nat) : Nat := max ((generation + 1) % 2 ^ 64) 1

/-- A detached LowID waiter is given a callback entitlement and keeps waiting. -/
def entitle (key : SessionKey) : Queue :=
  let generation := q.nextPromotionGeneration
  let q := { q with
    nextPromotionGeneration := nextGeneration generation
    entitlementsIssued := q.entitlementsIssued + 1 }
  (q.update key fun session =>
    { session with callbackPromotion := some ⟨generation, none, false, none⟩ }).joinPending key

def stampSlotOpen (session : Session) (viaCallback : Bool) (now : Instant) : Queue :=
  { q with
    lastSlotOpen := some now
    slotOpens := ⟨session.lease, q.activeSessionCount, q.effectiveActiveSlotLimit now, viaCallback,
      session.generation⟩ :: q.slotOpens }

def grant (key : SessionKey) (session : Session) (now : Instant) : Queue :=
  let granted := ((q.stampSlotOpen session false now).leaveOrder key).update key (·.granted now)
  { granted with
    pendingPromotions :=
      if session.connected then granted.pendingPromotions
      else (granted.joinPending key).pendingPromotions }

/-- One turn of the promote loop, with whether a callback was armed in this pass; `none` when the
    loop ends. -/
def promoteOne (now : Instant) (armedCallbackThisPass : Bool) : Option (Queue × Bool) :=
  if q.activeSessionCount < q.effectiveActiveSlotLimit now && q.slotOpenPaced now then
    match q.bestAdmissibleWaiter now !armedCallbackThisPass with
    | none => none
    | some (key, session) =>
      if !session.connected && key.peer.hasLowId then some (q.entitle key, true)
      else some (q.grant key session now, armedCallbackThisPass)
  else none

def promoteLoop (now : Instant) : Nat → Queue × Bool → Queue × Bool
  | 0, state => state
  | fuel + 1, state =>
    match state.1.promoteOne now state.2 with
    | none => state
    | some next => promoteLoop now fuel next

def promoteWaiters (now : Instant) : Queue :=
  let q := q.refreshElasticUnderfill now
  (promoteLoop now (q.waitingOrder.length + 1) (q, false)).1

def prepareReap (now : Instant) : Queue :=
  let q := ((q.observeWireProgress now).refreshElasticUnderfill now).updateSlowUploadTracking now
  { q with cooldown := q.cooldown.purgeExpired now }.expireCallbacks now

def expiredSessions (now : Instant) : List (SessionKey × Option Recycle) :=
  q.sessions.filterMap fun session => (q.expiry now session).map fun recycle =>
    (session.key, recycle)

def settleExpiredSessions (now : Instant) : Queue :=
  let q := q.prepareReap now
  (q.expiredSessions now).foldl (settleExpired now) q

def reapExpiredSessions (now : Instant) : Queue :=
  ((q.settleExpiredSessions now).trimWaitingQueue now).promoteWaiters now

end Queue

end EmuleBB.Upload
