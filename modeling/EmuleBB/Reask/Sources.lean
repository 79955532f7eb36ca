import EmuleBB.Lib.Map
import EmuleBB.Wire

/-!
# Detached reask sources

A queued source whose TCP session is closed keeps its place in the peer's queue by a periodic UDP
reask. Its state is one `ReaskSource`; the sources of one file are a `ReaskSourceSet`, keyed by
**the UDP endpoint** that replies come from, with the requests that still wait for a reply. The
lease that core holds for a source is keyed by **the TCP endpoint**, `lease_endpoint`.

The lemmas say what an operation on a set does in two respects. *Who is there*: `SameLeases`, the
sources and the leases of the set are the same. *When the next reask may be*: `Spaced`, a source
that was asked waits for its reply or is scheduled at least `MIN_REQUEST_TIME` later.
-/

namespace EmuleBB.Reask

open Peer

abbrev Endpoint := Ipv4Addr × UInt16

def fileReaskTime : Duration := seconds (29 * 60)

def minRequestTime : Duration := seconds (10 * 60)

def udpFailureMinAttempts : Nat := 3

/-! ## One source -/

/-- A source that is asked over UDP for its queue rank. -/
structure ReaskSource where
  endpoint : Endpoint
  leaseEndpoint : Endpoint
  fileHash : Md4Digest
  udpVersion : UInt8
  lastRank : Option UInt16
  nextReask : Instant
  udpTotal : Nat
  udpFailed : Nat
  fallbackTcpOnly : Bool
  noNeededParts : Bool
  remoteQueueFull : Bool
  userHash : Option UserHash
  shouldCrypt : Bool
  lowId : Bool
  buddyEndpoint : Option Endpoint
  buddyId : Option UserHash
  deriving DecidableEq

inductive ReaskReply
  | ack (rank : UInt16)
  | queueFull
  | fileNotFound
  | timeout
  deriving DecidableEq

inductive ReaskAction
  | updatedRank (rank : UInt16)
  | queueFull
  | dropSource
  | retryTcp
  | retryUdp
  deriving DecidableEq

def reaskInterval (noNeededParts : Bool) : Duration :=
  let base := if noNeededParts then fileReaskTime * 2 else fileReaskTime
  max base minRequestTime

/-- `total > 3 && failed / total > 0.3`. Below 2^32 the quotient in double precision is above the
    double next to 0.3 exactly when the fraction is above three tenths. -/
def shouldFallBackToTcp (udpTotal udpFailed : Nat) : Bool :=
  udpTotal > udpFailureMinAttempts && 10 * udpFailed > 3 * udpTotal

def saturatingSucc32 (n : Nat) : Nat := min (n + 1) u32Max

namespace ReaskSource

section

variable (source : ReaskSource)

def isDue (now : Instant) : Bool := now ≥ source.nextReask

def scheduleNext (now : Instant) : ReaskSource :=
  { source with nextReask := now + reaskInterval source.noNeededParts }

def recordSuccess (rank : UInt16) (now : Instant) : ReaskSource :=
  let udpTotal := saturatingSucc32 source.udpTotal
  scheduleNext
    { source with
      udpTotal
      lastRank := some rank
      remoteQueueFull := false
      fallbackTcpOnly := shouldFallBackToTcp udpTotal source.udpFailed } now

def recordFailure (now : Instant) : Bool × ReaskSource :=
  let udpTotal := saturatingSucc32 source.udpTotal
  let udpFailed := saturatingSucc32 source.udpFailed
  let fallbackTcpOnly := shouldFallBackToTcp udpTotal udpFailed
  (fallbackTcpOnly, scheduleNext { source with udpTotal, udpFailed, fallbackTcpOnly } now)

/-- A firewalled source is asked through its buddy, when both the buddy and its id are known. -/
def buddyReaskTarget : Option (Endpoint × UserHash) :=
  if !source.lowId then none
  else match source.buddyEndpoint, source.buddyId with
    | some endpoint, some id => some (endpoint, id)
    | _, _ => none

end

end ReaskSource

def applyReaskReply (source : ReaskSource) (reply : ReaskReply) (now : Instant) :
    ReaskAction × ReaskSource :=
  match reply with
  | .ack rank => (.updatedRank rank, source.recordSuccess rank now)
  | .queueFull =>
    (.queueFull,
      ReaskSource.scheduleNext
        { source with
          udpTotal := saturatingSucc32 source.udpTotal
          lastRank := some 0
          remoteQueueFull := true } now)
  | .fileNotFound => (.dropSource, source)
  | .timeout =>
    let failed := source.recordFailure now
    (if failed.1 then .retryTcp else .retryUdp, failed.2)

/-! ## The sources of one file -/

structure PendingReask where
  fileHash : Md4Digest
  sentAt : Instant
  requestPartStatus : Option (List Bool)
  deriving DecidableEq

/-- A request that is to be sent. -/
structure ReaskSend where
  sourceEndpoint : Endpoint
  destination : Endpoint
  requestPartStatus : Option (List Bool)
  deriving DecidableEq

/-- The sources of one file, and the requests that wait for an answer. -/
structure ReaskSourceSet where
  sources : Map Endpoint ReaskSource
  pending : Map Endpoint PendingReask

namespace ReaskSourceSet

def empty : ReaskSourceSet := ⟨∅, ∅⟩

def insert (set : ReaskSourceSet) (source : ReaskSource) : ReaskSourceSet :=
  { set with sources := set.sources.insert source.endpoint source }

section

variable (set : ReaskSourceSet) (endpoint : Endpoint)

def isPending : Bool :=
  (set.pending.lookup endpoint).isSome

def due (now : Instant) : List Endpoint :=
  set.sources.keysWhere fun endpoint source => source.isDue now && !set.isPending endpoint

def destination (source : ReaskSource) (endpoint : Endpoint) : Option Endpoint :=
  match source.buddyReaskTarget with
  | some (buddy, _) => some buddy
  | none => if source.lowId then none else some endpoint

def dueDatagrams (now : Instant) (ourPartStatus : Option (List Bool)) : List ReaskSend :=
  (set.due now).filterMap fun endpoint =>
    match set.sources.lookup endpoint with
    | none => none
    | some source =>
      if source.fallbackTcpOnly then none
      else (destination source endpoint).map fun target => ⟨endpoint, target, ourPartStatus⟩

def markReasked (requestPartStatus : Option (List Bool)) (now : Instant) : Bool × ReaskSourceSet :=
  if set.isPending endpoint then (false, set)
  else match set.sources.lookup endpoint with
    | none => (false, set)
    | some source =>
      (true,
        { set with
          pending := set.pending.insert endpoint ⟨source.fileHash, now, requestPartStatus⟩ })

def pendingRequestPartStatus : Option (Option (List Bool)) :=
  (set.pending.lookup endpoint).map PendingReask.requestPartStatus

/-- A reply that was asked for; `file_not_found` removes the source. -/
def applyReply (reply : ReaskReply) (now : Instant) : Option ReaskAction × ReaskSourceSet :=
  if !set.isPending endpoint then (none, set)
  else
    let taken := { set with pending := set.pending.erase endpoint }
    match taken.sources.lookup endpoint with
    | none => (none, taken)
    | some source =>
      let applied := applyReaskReply source reply now
      (some applied.1,
        { taken with
          sources :=
            if applied.1 = .dropSource then taken.sources.erase endpoint
            else taken.sources.insert endpoint applied.2 })

def timedOut (now : Instant) (timeout : Duration) : List Endpoint :=
  set.pending.keysWhere fun _ reask => now - reask.sentAt > timeout

def drainTimeouts (now : Instant) (timeout : Duration) :
    List (Endpoint × ReaskAction) × ReaskSourceSet :=
  let expired := set.timedOut now timeout
  (expired.filterMap fun endpoint =>
      (set.sources.lookup endpoint).map fun source =>
        (endpoint, (applyReaskReply source .timeout now).1),
    { sources := set.sources.modifyAll expired fun source => (applyReaskReply source .timeout now).2
      pending := set.pending.eraseAll expired })

def setNoNeededParts (noNeededParts : Bool) (now : Instant) : Bool × ReaskSourceSet :=
  ((set.sources.lookup endpoint).isSome,
    { set with
      sources := set.sources.modify endpoint fun source =>
        ReaskSource.scheduleNext { source with noNeededParts } now })

def remove : Option ReaskSource × ReaskSourceSet :=
  (set.sources.lookup endpoint,
    { sources := set.sources.erase endpoint, pending := set.pending.erase endpoint })

end

end ReaskSourceSet

/-! ## What a reply leaves of a source -/

section Source

variable {source : ReaskSource} {now : Instant}

theorem add_minRequestTime_le_scheduleNext :
    now + minRequestTime ≤ (source.scheduleNext now).nextReask :=
  Nat.add_le_add_left (Nat.le_max_right _ _) now

/-- Every answer, and the lack of one, schedules the next reask; only `file_not_found` does not. -/
theorem applyReaskReply_scheduled {reply : ReaskReply}
    (h : (applyReaskReply source reply now).1 ≠ .dropSource) :
    now + minRequestTime ≤ (applyReaskReply source reply now).2.nextReask := by
  cases reply with
  | ack | queueFull | timeout => exact add_minRequestTime_le_scheduleNext
  | fileNotFound => exact absurd rfl h

@[simp] theorem applyReaskReply_leaseEndpoint (reply : ReaskReply) :
    (applyReaskReply source reply now).2.leaseEndpoint = source.leaseEndpoint := by
  cases reply <;> rfl

theorem applyReaskReply_timeout_ne_drop :
    (applyReaskReply source .timeout now).1 ≠ .dropSource := by
  unfold applyReaskReply
  dsimp only
  split <;> simp

end Source

namespace ReaskSourceSet

variable {set set' : ReaskSourceSet} {endpoint : Endpoint} {sent now : Instant}

def lease (set : ReaskSourceSet) (endpoint : Endpoint) : Option Endpoint :=
  (set.sources.lookup endpoint).map ReaskSource.leaseEndpoint

def SameLeases (set set' : ReaskSourceSet) : Prop :=
  ∀ endpoint, set'.lease endpoint = set.lease endpoint

/-- A source that was asked at this time waits for its reply, or is not due before its spacing. -/
def Spaced (set : ReaskSourceSet) (sent : Instant) (endpoint : Endpoint) : Prop :=
  ∀ source, set.sources.lookup endpoint = some source →
    set.isPending endpoint = true ∨ sent + minRequestTime ≤ source.nextReask

/-- **A due source of a spaced set was asked long ago.** -/
theorem Spaced.of_due (h : Spaced set sent endpoint) (hdue : endpoint ∈ set.due now) :
    sent + minRequestTime ≤ now := by
  obtain ⟨source, hsource, hready⟩ := Map.mem_keysWhere.mp hdue
  rw [Bool.and_eq_true, Bool.not_eq_true'] at hready
  obtain ⟨hdue, hnot⟩ := hready
  have hnext : sent + minRequestTime ≤ source.nextReask := by
    rcases h source hsource with hpending | hnext
    · rw [hnot] at hpending
      cases hpending
    · exact hnext
  exact Nat.le_trans hnext (of_decide_eq_true hdue)

theorem mem_due_of_dueDatagrams {status : Option (List Bool)} {send : ReaskSend}
    (h : send ∈ set.dueDatagrams now status) : send.sourceEndpoint ∈ set.due now := by
  obtain ⟨endpoint, hdue, hsend⟩ := List.mem_filterMap.mp h
  cases hsource : set.sources.lookup endpoint with
  | none => simp [hsource] at hsend
  | some =>
    simp only [hsource] at hsend
    split at hsend
    · cases hsend
    · obtain ⟨target, -, rfl⟩ := Option.map_eq_some_iff.mp hsend
      exact hdue

/-! ### Marking a request as sent -/

theorem markReasked_cases (status : Option (List Bool)) :
    (set.markReasked endpoint status now).2 = set
        ∧ (set.isPending endpoint = true ∨ set.sources.lookup endpoint = none)
      ∨ ∃ reask, (set.markReasked endpoint status now).2
          = { set with pending := set.pending.insert endpoint reask } := by
  unfold markReasked
  split
  · rename_i hpending
    exact .inl ⟨rfl, .inl hpending⟩
  · split
    · rename_i hsource
      exact .inl ⟨rfl, .inr hsource⟩
    · exact .inr ⟨_, rfl⟩

theorem sameLeases_markReasked (status : Option (List Bool)) :
    SameLeases set (set.markReasked endpoint status now).2 := by
  rcases @markReasked_cases set endpoint now status with ⟨hsame, -⟩ | ⟨reask, hmarked⟩
  · rw [hsame]
    exact fun _ => rfl
  · rw [hmarked]
    exact fun _ => rfl

theorem spaced_markReasked (status : Option (List Bool)) :
    Spaced (set.markReasked endpoint status now).2 sent endpoint := by
  intro source hsource
  rcases @markReasked_cases set endpoint now status with
    ⟨hsame, hpending | hnone⟩ | ⟨reask, hmarked⟩
  · rw [hsame]
    exact .inl hpending
  · rw [hsame, hnone] at hsource
    cases hsource
  · rw [hmarked]
    left
    simp [isPending]

theorem Spaced.markReasked_ne {other : Endpoint} (h : Spaced set sent other)
    (hne : other ≠ endpoint)
    (status : Option (List Bool)) : Spaced (set.markReasked endpoint status now).2 sent other := by
  rcases @markReasked_cases set endpoint now status with ⟨hsame, -⟩ | ⟨reask, hmarked⟩
  · rw [hsame]
    exact h
  · rw [hmarked]
    intro source hsource
    simpa [isPending, Map.lookup_insert, hne] using h source hsource

/-! ### Timeouts -/

theorem lookup_drainTimeouts (timeout : Duration) :
    (set.drainTimeouts now timeout).2.sources.lookup endpoint =
      if endpoint ∈ set.timedOut now timeout then
        (set.sources.lookup endpoint).map fun source => (applyReaskReply source .timeout now).2
      else set.sources.lookup endpoint := by
  have hnodup : (set.timedOut now timeout).Nodup := Map.nodup_keysWhere
  show (set.sources.modifyAll (set.timedOut now timeout) _).lookup endpoint = _
  rw [Map.lookup_modifyAll _ hnodup]
  congr

theorem sameLeases_drainTimeouts (timeout : Duration) :
    SameLeases set (set.drainTimeouts now timeout).2 := by
  intro endpoint
  unfold lease
  rw [lookup_drainTimeouts]
  split
  · cases set.sources.lookup endpoint with
    | none => rfl
    | some => simp
  · rfl

theorem Spaced.drainTimeouts (h : Spaced set sent endpoint) (hsent : sent ≤ now)
    (timeout : Duration) : Spaced (set.drainTimeouts now timeout).2 sent endpoint := by
  intro source hsource
  rw [lookup_drainTimeouts] at hsource
  split at hsource
  · -- the request timed out: the source is scheduled from now on
    obtain ⟨before, -, rfl⟩ := Option.map_eq_some_iff.mp hsource
    right
    exact Nat.le_trans (Nat.add_le_add_right hsent _)
      (applyReaskReply_scheduled applyReaskReply_timeout_ne_drop)
  · rename_i hin
    have hpending : (set.drainTimeouts now timeout).2.isPending endpoint =
      set.isPending endpoint := by
      simp [isPending, ReaskSourceSet.drainTimeouts, Map.lookup_eraseAll, hin]
    rw [hpending]
    exact h source hsource

/-! ### No needed parts -/

theorem sameLeases_setNoNeededParts (noNeededParts : Bool) :
    SameLeases set (set.setNoNeededParts endpoint noNeededParts now).2 := by
  intro other
  simp only [lease, setNoNeededParts, Map.lookup_modify]
  split
  · cases set.sources.lookup other <;> rfl
  · rfl

theorem Spaced.setNoNeededParts {other : Endpoint} (h : Spaced set sent other) (hsent : sent ≤ now)
    (noNeededParts : Bool) :
    Spaced (set.setNoNeededParts endpoint noNeededParts now).2 sent other := by
  intro source hsource
  simp only [ReaskSourceSet.setNoNeededParts, Map.lookup_modify] at hsource
  split at hsource
  · obtain ⟨before, -, rfl⟩ := Option.map_eq_some_iff.mp hsource
    exact .inr (Nat.le_trans (Nat.add_le_add_right hsent _) add_minRequestTime_le_scheduleNext)
  · exact h source hsource

/-! ### Replies -/

/-- A reply that was not asked for does nothing, one without a source clears its request, and one
    with a source updates or drops the source. -/
theorem applyReply_cases (reply : ReaskReply) : set.applyReply endpoint reply now = (none, set)
      ∨ (set.sources.lookup endpoint = none
          ∧ set.applyReply endpoint reply now
              = (none, { set with pending := set.pending.erase endpoint }))
      ∨ ∃ source, set.sources.lookup endpoint = some source
          ∧ set.isPending endpoint = true
          ∧ set.applyReply endpoint reply now
              = (some (applyReaskReply source reply now).1,
                { sources :=
                    if (applyReaskReply source reply now).1 = .dropSource then
                      set.sources.erase endpoint
                    else set.sources.insert endpoint (applyReaskReply source reply now).2
                  pending := set.pending.erase endpoint }) := by
  unfold applyReply
  cases hpending : set.isPending endpoint with
  | false => exact .inl rfl
  | true =>
    right
    simp only [Bool.not_true, Bool.false_eq_true, if_false]
    cases hsource : set.sources.lookup endpoint with
    | none => exact .inl ⟨rfl, rfl⟩
    | some source => exact .inr ⟨source, rfl, trivial, rfl⟩

end ReaskSourceSet

end EmuleBB.Reask
