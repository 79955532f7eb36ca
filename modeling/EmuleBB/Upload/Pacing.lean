import EmuleBB.Lib.Table
import EmuleBB.Wire

/-!
# Upload pacing

What the upload queue measures and remembers besides its sessions: **rate meters** over sliding
windows, read lazily against the time of the call, and the **cooldown tracker**, which keeps an
address that wasted a slot from being picked again for a while and counts the strikes that lead to
a ban.
-/

namespace EmuleBB.Upload

open Peer Table

/-! ## Rate meters -/

def perSlotRateWindow : Duration := seconds 10

def aggregateRateWindow : Duration := seconds 30

def sampleQuantum : Duration := millis 1

structure RateSample where
  time : Instant
  bytes : Nat
  deriving DecidableEq

structure WindowedRateMeter where
  window : Duration
  samples : List RateSample
  sumBytes : Nat
  deriving DecidableEq

namespace WindowedRateMeter

def new (window : Duration) : WindowedRateMeter := ⟨window, [], 0⟩

variable (meter : WindowedRateMeter)

def prune (now : Instant) : WindowedRateMeter :=
  let stale := meter.samples.takeWhile fun sample => meter.window ≤ now - sample.time
  { meter with
    samples := meter.samples.drop stale.length
    sumBytes := stale.foldl (fun sum sample => sum - sample.bytes) meter.sumBytes }

def record (bytes : Nat) (now : Instant) : WindowedRateMeter :=
  if bytes = 0 then meter
  else
    let meter := meter.prune now
    let sumBytes := saturatingAdd meter.sumBytes bytes
    let pushed := { meter with samples := meter.samples ++ [⟨now, bytes⟩], sumBytes := sumBytes }
    match meter.samples.getLast? with
    | none => pushed
    | some tail =>
      -- a send within the tick of the last sample is folded into it
      if now - tail.time < sampleQuantum then
        { meter with
          samples := meter.samples.dropLast ++ [⟨tail.time, saturatingAdd tail.bytes bytes⟩]
          sumBytes := sumBytes }
      else pushed

def rateBytesPerSec (now : Instant) : Nat :=
  let live := meter.samples.filter fun sample => now - sample.time < meter.window
  let sum := live.foldl (fun sum sample => saturatingAdd sum sample.bytes) 0
  match live.head? with
  | none => 0
  | some oldest =>
    if sum = 0 ∨ now ≤ oldest.time then 0
    else min (sum * 1000 / max ((now - oldest.time) / 1000000) 1) u64Max

def reset : WindowedRateMeter := ⟨meter.window, [], 0⟩

end WindowedRateMeter

/-! ## Cooldowns and strikes -/

def defaultSlowUploadCooldownSecs : Nat := 30
def broadbandUploadBudgetBytesPerSec : Nat := 4 * 1024 * 1024
def productiveNoRequestCooldownMaxSecs : Nat := 10
def broadbandProductiveNoRequestCooldownMaxSecs : Nat := 5
def repeatedNoRequestCooldownMaxSecs : Nat := 180
def broadbandRepeatedNoRequestCooldownMaxSecs : Nat := 45
def churnRetryCooldownMaxSecs : Nat := 120
def broadbandSlowUploadRetryCooldownMaxSecs : Nat := 90
def strikeWindow : Duration := seconds (4 * 60 * 60)
def banThresholdStandard : Nat := 8
def banThresholdBroadband : Nat := 16
def hashRotationBanThreshold : Nat := 3
def hashRotationStrikeThreshold : Nat := 5
def repeatCooldownMaxSecs : Nat := 60 * 60
def cleanupInterval : Duration := seconds 60

inductive CooldownBan
  | none
  | byHash
  | byIp
  | both
  deriving DecidableEq

structure RetryCooldownState where
  until_ : Instant
  trackUntil : Instant
  queuedRequestClearUsed : Bool
  deriving DecidableEq

structure NoRequestCooldownState where
  until_ : Instant
  trackUntil : Instant
  productive : Bool
  queuedRequestClearUsed : Bool
  deriving DecidableEq

structure StrikeState where
  strikes : Nat
  windowUntil : Instant
  deriving DecidableEq

structure IpHashRotationState where
  hashKeys : List UserHash
  totalStrikes : Nat
  windowUntil : Instant
  deriving DecidableEq

structure CooldownTracker where
  baseCooldownSecs : Nat
  retryByIp : List (IpAddr × RetryCooldownState)
  noRequestByIp : List (IpAddr × NoRequestCooldownState)
  strikesByHash : List (UserHash × StrikeState)
  strikesByIp : List (IpAddr × StrikeState)
  hashRotationByIp : List (IpAddr × IpHashRotationState)
  lastCleanup : Option Instant
  deriving DecidableEq

def valueOf {κ ν : Type} [DecidableEq κ] (k : κ) (map : List (κ × ν)) : Option ν :=
  (lookup Prod.fst k map).map Prod.snd

namespace CooldownTracker

def new : CooldownTracker := ⟨defaultSlowUploadCooldownSecs, [], [], [], [], [], none⟩

variable (tracker : CooldownTracker) (ip : IpAddr) (friend : Bool)

def cooldownUntil (now : Instant) : Option Instant :=
  if friend then none
  else
    let retry := ((valueOf ip tracker.retryByIp).map (·.until_)).filter (now < ·)
    let noRequest := ((valueOf ip tracker.noRequestByIp).map (·.until_)).filter (now < ·)
    match retry, noRequest with
    | some a, some b => some (max a b)
    | some a, none => some a
    | none, some b => some b
    | none, none => none

def isCooled (now : Instant) : Bool :=
  (tracker.cooldownUntil ip friend now).isSome

def cooldownRemaining (now : Instant) : Option Duration :=
  (tracker.cooldownUntil ip false now).map (· - now)

def canProbe (now : Instant) (openBaseSlotUnderfill : Bool) : Bool :=
  (tracker.cooldownUntil ip false now).isSome
    && ((valueOf ip tracker.noRequestByIp).any fun state => now < state.until_)
    && openBaseSlotUnderfill

/-- The no-request half of the clear: `none` when the call ends with `false` here, otherwise
    whether a cooldown was cleared. -/
def clearNoRequest (openBaseSlotUnderfill : Bool) (now : Instant) : CooldownTracker × Option Bool :=
  match valueOf ip tracker.noRequestByIp with
  | none => (tracker, some false)
  | some state =>
    if state.trackUntil ≤ now then
      ({ tracker with noRequestByIp := remove Prod.fst ip tracker.noRequestByIp }, some false)
    else if now < state.until_ then
      if state.queuedRequestClearUsed then (tracker, none)
      else if state.productive || openBaseSlotUnderfill then
        ({ tracker with
            noRequestByIp := put Prod.fst
              (ip, { state with queuedRequestClearUsed := true, until_ := now })
              tracker.noRequestByIp }, some true)
      else
        -- renewed demand is not proven: the one clear of this window is used up all the same
        ({ tracker with
            noRequestByIp := put Prod.fst (ip, { state with queuedRequestClearUsed := true })
              tracker.noRequestByIp }, none)
    else (tracker, some false)

def clearRetryCooldownOnQueuedRequest (openBaseSlotUnderfill : Bool) (now : Instant) :
    CooldownTracker × Bool :=
  match tracker.clearNoRequest ip openBaseSlotUnderfill now with
  | (tracker, none) => (tracker, false)
  | (tracker, some clearedNoRequest) =>
    match valueOf ip tracker.retryByIp with
    | none => (tracker, clearedNoRequest)
    | some state =>
      if state.trackUntil ≤ now then
        ({ tracker with retryByIp := remove Prod.fst ip tracker.retryByIp }, clearedNoRequest)
      else if now < state.until_ then
        if state.queuedRequestClearUsed then (tracker, false)
        else
          ({ tracker with
              retryByIp := put Prod.fst
                (ip, { state with queuedRequestClearUsed := true, until_ := now })
                tracker.retryByIp }, true)
      else (tracker, clearedNoRequest)

variable (budget : Nat)

def isBroadband : Bool := broadbandUploadBudgetBytesPerSec ≤ budget

def minBase (cap : Nat) : Nat := min tracker.baseCooldownSecs cap

def productiveNoRequestCap : Nat :=
  if isBroadband budget then broadbandProductiveNoRequestCooldownMaxSecs
  else productiveNoRequestCooldownMaxSecs

def repeatNoRequestCap : Nat :=
  if isBroadband budget then broadbandRepeatedNoRequestCooldownMaxSecs
  else repeatedNoRequestCooldownMaxSecs

def banThreshold : Nat :=
  if isBroadband budget then banThresholdBroadband else banThresholdStandard

def slowRetryCooldownSecs : Nat :=
  if isBroadband budget then min tracker.baseCooldownSecs broadbandSlowUploadRetryCooldownMaxSecs
  else tracker.baseCooldownSecs

def churnRetryCooldownSecs : Nat :=
  min (tracker.slowRetryCooldownSecs budget) churnRetryCooldownMaxSecs

/-- The doubling loop of `repeat_cooldown_secs`, for the strikes after the first. -/
def doubled (cap : Nat) : Nat → Nat → Nat
  | 0, secs => secs
  | strikes + 1, secs => if secs < cap then doubled cap strikes (secs * 2) else secs

def repeatCooldownSecs (strikes budget : Nat) : Nat :=
  let cap := min (repeatNoRequestCap budget) repeatCooldownMaxSecs
  if strikes = 0 ∨ tracker.baseCooldownSecs = 0 ∨ cap = 0 then 0
  else min (doubled cap (strikes - 1) tracker.baseCooldownSecs) cap

def applyRetryCooldown (secs : Nat) (now : Instant) : CooldownTracker :=
  if friend || secs = 0 then tracker
  else
    let deadline := now + seconds secs
    { tracker with
      retryByIp := put Prod.fst (ip, ⟨deadline, deadline, false⟩) tracker.retryByIp }

def applyNoRequestCooldown (secs : Nat) (now : Instant) (productive : Bool) : CooldownTracker :=
  if friend || secs = 0 then tracker
  else
    let deadline := now + seconds secs
    let trackUntil := now + seconds (secs + tracker.baseCooldownSecs)
    { tracker with
      retryByIp := put Prod.fst (ip, ⟨deadline, deadline, false⟩) tracker.retryByIp
      noRequestByIp := put Prod.fst (ip, ⟨deadline, trackUntil, productive, false⟩)
        tracker.noRequestByIp }

def setChurnCooldown (now : Instant) : CooldownTracker :=
  tracker.applyRetryCooldown ip friend (tracker.churnRetryCooldownSecs budget) now

def setSlowCooldown (now : Instant) : CooldownTracker :=
  tracker.applyRetryCooldown ip friend (tracker.slowRetryCooldownSecs budget) now

def struck (state : Option StrikeState) (windowUntil now : Instant) : StrikeState :=
  match state with
  | none => ⟨1, windowUntil⟩
  | some state => ⟨(if state.windowUntil ≤ now then 0 else state.strikes) + 1, windowUntil⟩

def rotated (state : Option IpHashRotationState) (hash : UserHash) (windowUntil now : Instant) :
    IpHashRotationState :=
  match state with
  | none => ⟨[hash], 1, windowUntil⟩
  | some state =>
    if state.windowUntil ≤ now then ⟨[hash], 1, windowUntil⟩
    else
      ⟨if hash ∈ state.hashKeys then state.hashKeys else state.hashKeys ++ [hash],
        state.totalStrikes + 1, windowUntil⟩

def registerNoRequestRecycle (hash : Option UserHash) (friend : Bool) (budget : Nat) (now : Instant)
    (productive : Bool) : CooldownTracker × CooldownBan :=
  if productive then
    (tracker.applyNoRequestCooldown ip friend (tracker.minBase (productiveNoRequestCap budget)) now
      true, .none)
  else
    let windowUntil := now + strikeWindow
    match hash.filter (fun hash => hash ≠ zeroUserHash) with
    | some hash =>
      let state := struck (valueOf hash tracker.strikesByHash) windowUntil now
      let rotation := rotated (valueOf ip tracker.hashRotationByIp) hash windowUntil now
      let tracker := { tracker with
        strikesByHash := put Prod.fst (hash, state) tracker.strikesByHash
        hashRotationByIp := put Prod.fst (ip, rotation) tracker.hashRotationByIp }
      if hashRotationBanThreshold ≤ rotation.hashKeys.length
          ∧ hashRotationStrikeThreshold ≤ rotation.totalStrikes then (tracker, .both)
      else if banThreshold budget ≤ state.strikes then (tracker, .byHash)
      else
        (tracker.applyNoRequestCooldown ip friend (tracker.repeatCooldownSecs state.strikes budget)
          now false, .none)
    | none =>
      let state := struck (valueOf ip tracker.strikesByIp) windowUntil now
      let tracker := { tracker with
        strikesByIp := put Prod.fst (ip, state) tracker.strikesByIp }
      if banThreshold budget ≤ state.strikes then (tracker, .byIp)
      else
        (tracker.applyNoRequestCooldown ip friend (tracker.repeatCooldownSecs state.strikes budget)
          now false, .none)

def purgeExpired (now : Instant) : CooldownTracker :=
  let tracker := { tracker with
    retryByIp := tracker.retryByIp.filter fun entry => now < entry.2.trackUntil
    noRequestByIp := tracker.noRequestByIp.filter fun entry => now < entry.2.trackUntil }
  if tracker.lastCleanup.any fun last => now < last + cleanupInterval then tracker
  else
    { tracker with
      lastCleanup := some now
      strikesByHash := tracker.strikesByHash.filter fun entry => now < entry.2.windowUntil
      strikesByIp := tracker.strikesByIp.filter fun entry => now < entry.2.windowUntil
      hashRotationByIp := tracker.hashRotationByIp.filter fun entry => now < entry.2.windowUntil }

end CooldownTracker

end EmuleBB.Upload
