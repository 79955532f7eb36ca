import Mathlib.Data.List.Sort
import EmuleBB.Lib.FirstMatch
import EmuleBB.Upload.Pacing
import EmuleBB.Upload.Peer

/-!
# The upload queue's state

One table of sessions, each **waiting**, **granted** or **uploading**, the order in which the
waiting ones were queued, and the sessions that need a connection before they can be served. A
LowID waiter whose connection is gone cannot be dialled: it keeps waiting and is given a **callback
entitlement**, a generation that a route may be armed under and that becomes a slot when the peer
comes back.

Three things are here that the source does not store. A session's cancellation token and activity
counters are shared with its handles and work guards; `lease` names the pair, `cancelledLeases`
lists the tokens that were cancelled, and the counters are kept in the one session that holds them.
`slotOpens` records, wherever the source makes a session active, what it compared at that moment.
`entitlementsIssued` counts the entitlements.
-/

namespace EmuleBB.Upload

open Peer FirstMatch

def minUpClientsAllowed : Nat := 2
def maxUpClientsAllowed : Nat := 128
def uploadSlotOpenMinInterval : Duration := seconds 1
def uploadSlotOpenBurstDatarateBytesPerSec : Nat := 102400
def slowRecycleUnderfillWindow : Duration := seconds 2
def slowUploadWarmup : Duration := seconds 30
def shortFailedUploadCooldownMaxAge : Duration := seconds 30
def shortFailedUploadCooldownMaxPayloadBytes : Nat := 1024 * 1024
def uploadSessionServedRangeHistory : Nat := 128

/-! ## Sessions -/

/-- The limits of the queue, from the settings. -/
structure QueueConfig where
  baseSlots : Nat
  elasticPercent : Nat
  uploadLimitBytesPerSec : Nat
  elasticUnderfillBytesPerSec : Nat
  elasticUnderfill : Duration
  waitingCapacity : Nat
  softQueueSize : Nat
  waitingTimeout : Duration
  grantedTimeout : Duration
  uploadTimeout : Duration
  sessionTransferPercent : Nat
  sessionTimeLimit : Duration
  deriving DecidableEq

/-- Where a session stands in the queue. -/
inductive SessionPhase
  | waiting
  | granted
  | uploading
  deriving DecidableEq

def SessionPhase.isActive : SessionPhase → Bool
  | .waiting => false
  | .granted => true
  | .uploading => true

/-- `Ed2kUploadCallbackPromotion`; `cancelled` is its token. -/
structure CallbackPromotion where
  generation : Nat
  deadline : Option Instant
  cancelled : Bool
  route : Option CallbackRoute
  deriving DecidableEq

structure QueuedRange where
  start : Nat
  finish : Nat
  requestGeneration : Nat
  deriving DecidableEq

structure ServedRange where
  start : Nat
  finish : Nat
  deriving DecidableEq

/-- `Ed2kUploadSessionEntry` with the key it is stored under. -/
structure Session where
  key : SessionKey
  phase : SessionPhase
  connectionId : Nat
  connected : Bool
  callbackPromotion : Option CallbackPromotion
  callbackPromotionSuppressed : Bool
  promotionDeadline : Option Instant
  lease : Nat
  inFlightWork : Nat
  wireProgressBytes : Nat
  queuedAt : Instant
  lastActivity : Instant
  lastRequestAt : Option Instant
  observedWireProgressBytes : Nat
  accumulatedSlowUpload : Duration
  accumulatedZeroUpload : Duration
  lastSlowUploadSampleAt : Option Instant
  waitingSequence : Nat
  filePriorityScore : Int
  creditScorePermille : Int
  scoreModifiers : ScoreModifiers
  fileSize : Nat
  uploadedBytes : Nat
  uploadStartedAt : Option Instant
  queuedRanges : List QueuedRange
  requestGeneration : Nat
  servedRanges : List ServedRange
  rateMeter : WindowedRateMeter
  deriving DecidableEq

def Session.ident (session : Session) : KeyIdent := session.key.ident

def Session.isWaiting (session : Session) : Bool := session.phase = .waiting

def Session.isActive (session : Session) : Bool := session.phase.isActive

def Session.route (session : Session) : Option CallbackRoute :=
  session.callbackPromotion.bind (·.route)

def Session.generation (session : Session) : Option Nat :=
  session.callbackPromotion.map (·.generation)

/-- A slot that was opened, noted with the counts and the limit of the moment. -/
structure SlotOpen where
  lease : Nat
  active : Nat
  limit : Nat
  /-- A claimed or consumed callback entitlement, not an ordinary grant. -/
  viaCallback : Bool
  /-- The entitlement that the session held. -/
  generation : Option Nat
  deriving DecidableEq

/-- The sessions, the order they wait in, and the slots. -/
structure Queue where
  config : QueueConfig
  sessions : List Session
  waitingOrder : List SessionKey
  pendingPromotions : List SessionKey
  nextWaitingSequence : Nat
  nextPromotionGeneration : Nat
  underfillSince : Option Instant
  lastSlotOpen : Option Instant
  cooldown : CooldownTracker
  aggregateRateMeter : WindowedRateMeter
  nextLease : Nat
  cancelledLeases : List Nat
  slotOpens : List SlotOpen
  entitlementsIssued : Nat
  deriving DecidableEq

inductive SessionStatus
  | waiting (rank : Nat)
  | granted
  | stale
  | rejected
  deriving DecidableEq

namespace Queue

def new (config : QueueConfig) : Queue where
  config := config
  sessions := []
  waitingOrder := []
  pendingPromotions := []
  nextWaitingSequence := 1
  nextPromotionGeneration := 1
  underfillSince := none
  lastSlotOpen := none
  cooldown := .new
  aggregateRateMeter := .new aggregateRateWindow
  nextLease := 0
  cancelledLeases := []
  slotOpens := []
  entitlementsIssued := 0

/-! ## The session table -/

variable (q : Queue) (key : SessionKey) (now : Instant)

def get : Option Session :=
  Table.lookup Session.ident key.ident q.sessions

def update (q : Queue) (key : SessionKey) (f : Session → Session) : Queue :=
  { q with sessions := Table.update Session.ident key.ident f q.sessions }

def remove (q : Queue) (key : SessionKey) : Queue :=
  { q with sessions := Table.remove Session.ident key.ident q.sessions }

def storedKey : SessionKey := ((q.get key).map (·.key)).getD key

def insert (session : Session) : Queue :=
  { q with
    sessions := Table.put Session.ident { session with key := q.storedKey session.key } q.sessions }

def leaveOrder : Queue :=
  { q with waitingOrder := q.waitingOrder.filter fun queued => queued.ident ≠ key.ident }

def leavePending : Queue :=
  { q with pendingPromotions := q.pendingPromotions.filter fun queued => queued.ident ≠ key.ident }

def joinPending : Queue :=
  { q with
    pendingPromotions :=
      if q.pendingPromotions.any (·.same key) then q.pendingPromotions
      else q.pendingPromotions ++ [key] }

def replaceWaitingKey (existingKey newKey : SessionKey) : Queue :=
  { q with waitingOrder := modifyFirst (·.same existingKey) (fun _ => newKey) q.waitingOrder }

def retireSessionKey : Queue :=
  let cancelled := ((q.get key).map (·.lease)).toList ++ q.cancelledLeases
  (({ q with cancelledLeases := cancelled }.remove key).leaveOrder key).leavePending key

def activeSessionCount : Nat := q.sessions.countP Session.isActive

def waitingSessionCount : Nat := q.sessions.countP Session.isWaiting

/-! ## Slot limits -/

def baseSlotLimit : Nat := min (max q.config.baseSlots 1) maxUpClientsAllowed

def elasticSlotAllowance : Nat :=
  min ((q.baseSlotLimit * min q.config.elasticPercent 100 + 99) / 100)
    (maxUpClientsAllowed - q.baseSlotLimit)

def sustainedUploadUnderfillReady : Bool :=
  q.config.uploadLimitBytesPerSec ≠ 0
    && q.underfillSince.any fun since => q.config.elasticUnderfill ≤ now - since

def elasticUnderfillReady : Bool :=
  q.elasticSlotAllowance ≠ 0 && q.sustainedUploadUnderfillReady now

def effectiveActiveSlotLimit : Nat :=
  if q.elasticUnderfillReady now then q.baseSlotLimit + q.elasticSlotAllowance
  else q.baseSlotLimit

def sustainedRecycleUnderfillReady : Bool :=
  q.config.uploadLimitBytesPerSec ≠ 0
    && q.underfillSince.any fun since => slowRecycleUnderfillWindow ≤ now - since

def recycleUnderfillSignalReady : Bool :=
  q.config.uploadLimitBytesPerSec = 0 || q.sustainedRecycleUnderfillReady now

def uploadRateBytesPerSec : Nat :=
  q.aggregateRateMeter.rateBytesPerSec now

def refreshElasticUnderfill : Queue :=
  { q with
    underfillSince :=
      if q.config.uploadLimitBytesPerSec = 0 then none
      else if q.config.elasticUnderfillBytesPerSec
          ≤ q.config.uploadLimitBytesPerSec - q.uploadRateBytesPerSec now then
        some (q.underfillSince.getD now)
      else none }

def openBaseSlotUnderfill : Bool :=
  q.activeSessionCount < q.baseSlotLimit
    && (q.config.uploadLimitBytesPerSec = 0 || q.underfillSince.isSome)

def slowUploadThresholdBytesPerSec : Nat :=
  if q.config.elasticUnderfillBytesPerSec = 0 then 3 * 1024
  else max (min (q.config.elasticUnderfillBytesPerSec * 3) u64Max / 4) 1024

def productiveNoRequestPayloadBytes : Nat :=
  max ed2kEmblockSize q.config.elasticUnderfillBytesPerSec

def slotOpenPaced : Bool :=
  q.activeSessionCount < minUpClientsAllowed
    || uploadSlotOpenBurstDatarateBytesPerSec ≤ q.uploadRateBytesPerSec now
    || q.lastSlotOpen.all fun last => uploadSlotOpenMinInterval ≤ now - last

/-! ## Ranking -/

def waitingScore (session : Session) (now : Instant) : Int :=
  scoreOf (((now - session.queuedAt) / 1000000000 : Nat) : Int)
    (key.peer.friendSlot && !key.peer.hasLowId) session.filePriorityScore
    session.creditScorePermille session.scoreModifiers

abbrev Waiter := SessionKey × Session

def ranksBefore (left right : Waiter) : Bool :=
  waitingScore right.1 right.2 now < waitingScore left.1 left.2 now
    || (waitingScore right.1 right.2 now = waitingScore left.1 left.2 now
        && left.2.waitingSequence ≤ right.2.waitingSequence)

def waiters : List Waiter :=
  q.waitingOrder.filterMap fun key =>
    ((q.get key).filter Session.isWaiting).map fun session => (key, session)

def rankedWaiters : List Waiter :=
  q.waiters.insertionSort fun left right => ranksBefore now left right

def rankForKey : Nat :=
  match (q.rankedWaiters now).findIdx? fun waiter => waiter.1.same key with
  | none => 0
  | some position => min (position + 1) 65535

def statusForKey : SessionStatus :=
  match q.get key with
  | none => .stale
  | some session => if session.isWaiting then .waiting (q.rankForKey key now) else .granted

def waiterIsSelectable (allowDetachedLowId : Bool) (waiter : Waiter) : Bool :=
  waiter.2.connected
    || (waiter.2.callbackPromotion.isNone && !waiter.2.callbackPromotionSuppressed
        && (allowDetachedLowId || !waiter.1.peer.hasLowId))

/-- The waiter with the least cooldown left among those that may be probed, the higher ranked on
    a tie. -/
def bestProbe (q : Queue) (now : Instant) (allowDetachedLowId : Bool) : List Waiter → Option Waiter
    → Option Waiter
  | [], best => best
  | waiter :: rest, best =>
    let remaining (w : Waiter) := (q.cooldown.cooldownRemaining w.1.peer.ip now).getD 0
    if waiterIsSelectable allowDetachedLowId waiter
        && q.cooldown.canProbe waiter.1.peer.ip now true
        && best.all (fun chosen => remaining waiter < remaining chosen) then
      q.bestProbe now allowDetachedLowId rest (some waiter)
    else q.bestProbe now allowDetachedLowId rest best

def bestAdmissibleWaiter (allowDetachedLowId : Bool) : Option Waiter :=
  let ranked := q.rankedWaiters now
  match ranked.find? fun waiter => waiterIsSelectable allowDetachedLowId waiter
      && !q.cooldown.isCooled waiter.1.peer.ip waiter.1.peer.friendSlot now with
  | some waiter => some waiter
  | none => if q.openBaseSlotUnderfill then q.bestProbe now allowDetachedLowId ranked none else none

def worstWaiter : Option Waiter := (q.rankedWaiters now).getLast?

/-! ## Admission -/

def rejectFirewalledCallbackAdmission : Bool :=
  rejectFirewalledCallback key.peer.firewallContext (key.peer.kadPort ≠ 0) false
    key.peer.friendSlot q.waitingSessionCount

/-- The average over the waiting sessions, in the order they are queued. -/
def averageCombinedWaitingScore : Int :=
  let scores := q.waiters.map fun waiter =>
    combinedFilePrioAndCredit waiter.2.filePriorityScore waiter.2.creditScorePermille
  if scores.isEmpty then 0
  else (scores.foldl (fun sum score => saturateI128 (sum + score)) 0).tdiv scores.length

def rejectQueueAdmission (filePriorityScore creditScorePermille : Int) : Bool :=
  rejectSoftQueueCandidate q.waitingSessionCount q.config.softQueueSize key.peer.friendSlot
    (combinedFilePrioAndCredit filePriorityScore creditScorePermille) q.averageCombinedWaitingScore

def rejectPerIpSessionAdmission (liveSameIpConnections : Nat) : Bool :=
  let others := q.sessions.filter fun session =>
    session.key.peer.ip = key.peer.ip && !session.key.same key
  rejectPerIpCap (max (liveSameIpConnections - 1) (others.countP (·.connected))
    + others.countP (!·.connected))

def takeWaitingSequence : Nat × Queue :=
  (q.nextWaitingSequence,
    { q with nextWaitingSequence := saturatingAdd q.nextWaitingSequence 1 })

end Queue

end EmuleBB.Upload
