import EmuleBB.Reask.Service

/-!
# The reask loop and the leases it holds

Core leases a source under its TCP endpoint when it hands the source to the loop, and takes the
lease back on a `SourceReleased` event. A source leaves the loop by a removal command, by
`OP_FILENOTFOUND`, by the fallback to TCP, by a rank low enough to re-engage, or **because another
registration takes its place**. The last of these emits nothing: when a peer comes back under
another TCP port, the lease under the old port is never handed back (`replaced_lease_not_released`).

While leases are exclusive and a registration that replaces a source brings the source's own lease,
each step releases exactly the leases of the sources that leave in it (`leases_released_once`). The
argument is a balance that composes (`Balanced`).
-/

namespace EmuleBB.Reask

open Peer Run ReaskService

def reaskReplyTimeout : Duration := seconds 30

def reengageRankThreshold : UInt16 := 4

inductive ReaskEvent
  | sourceReleased (endpoint : Endpoint)
  | sourceReady (fileHash : Md4Digest)
  | sourceDead (fileHash : Md4Digest) (sourceTcpEndpoint : Endpoint)
      (sourceUserHash : Option UserHash)
  deriving DecidableEq

structure ReaskDetachArgs where
  fileHash : Md4Digest
  endpoint : Endpoint
  tcpPort : UInt16
  udpVersion : UInt8
  initialReaskDelay : Duration
  userHash : Option UserHash
  shouldCrypt : Bool
  lowId : Bool
  buddyEndpoint : Option Endpoint
  buddyId : Option UserHash

inductive ReaskCommand
  | register (args : ReaskDetachArgs)
  | remove (endpoint : Endpoint)
  | markNoNeededParts (endpoint : Endpoint)

def ReaskDetachArgs.leaseEndpoint (args : ReaskDetachArgs) : Endpoint :=
  (args.endpoint.1, args.tcpPort)

def ReaskDetachArgs.source (args : ReaskDetachArgs) (now : Instant) : ReaskSource where
  endpoint := args.endpoint
  leaseEndpoint := args.leaseEndpoint
  fileHash := args.fileHash
  udpVersion := args.udpVersion
  lastRank := none
  nextReask := now + args.initialReaskDelay
  udpTotal := 0
  udpFailed := 0
  fallbackTcpOnly := false
  noNeededParts := false
  remoteQueueFull := false
  userHash := args.userHash
  shouldCrypt := args.userHash.isSome && args.shouldCrypt
  lowId := args.lowId
  buddyEndpoint := args.buddyEndpoint
  buddyId := args.buddyId

/-! ## The steps of the loop -/

def releaseEvents (released : Option Endpoint) : List ReaskEvent :=
  released.toList.map .sourceReleased

def applyReaskCommand (service : ReaskService) (now : Instant) :
    ReaskCommand → List ReaskEvent × ReaskService
  | .register args => ([], service.registerSource args.fileHash (args.source now))
  | .remove endpoint =>
    let removed := service.removeSource endpoint
    (releaseEvents removed.1, removed.2)
  | .markNoNeededParts endpoint => ([], (service.markNoNeededParts endpoint now).2)

def reengages : ReaskAction → Bool
  | .updatedRank rank => rank ≤ reengageRankThreshold
  | _ => false

def routedReplyEvents (action : ReaskAction) (fileHash : Md4Digest) (leaseEndpoint : Endpoint)
    (sourceUserHash : Option UserHash) : List ReaskEvent :=
  if reengages action then [.sourceReleased leaseEndpoint, .sourceReady fileHash]
  else if action = .dropSource then
    [.sourceDead fileHash leaseEndpoint sourceUserHash, .sourceReleased leaseEndpoint]
  else []

def resolvedReaskAckBitmap (partStatus : ReaskAckPartStatus) (expectedPartCount : Option Nat) :
    Option (List Bool) :=
  match partStatus with
  | .notIncluded => none
  | .completeSource => expectedPartCount.map fun count => List.replicate count true
  | .bitmap parts => some parts

def reaskSourceHasNoNeededParts (ours source : List Bool) : Bool :=
  !(source.zip ours).any fun pair => pair.1 && !pair.2

def ackVerdict (routed : RoutedReply) : Option Bool :=
  match routed.action, routed.ackPartStatus with
  | .updatedRank _, some partStatus =>
    match resolvedReaskAckBitmap partStatus (routed.requestPartStatus.map List.length) with
    | some bitmap => routed.requestPartStatus.map fun ours =>
      reaskSourceHasNoNeededParts ours bitmap
    | none => none
  | _, _ => none

def applyRoutedReply (service : ReaskService) (routed : RoutedReply) (bitmapApplied : Bool)
    (now : Instant) : List ReaskEvent × ReaskService :=
  let service := match bitmapApplied, ackVerdict routed with
    | true, some verdict => (service.setNoNeededParts routed.endpoint verdict now).2
    | _, _ => service
  let service :=
    if reengages routed.action then (service.removeSource routed.endpoint).2 else service
  (routedReplyEvents routed.action routed.fileHash routed.leaseEndpoint routed.sourceUserHash,
    service)

/-- `handle_inbound_datagram` for a sender that is neither filtered nor banned. -/
def handleInboundDatagram (service : ReaskService)
    (parsed : Except InboundReaskParseError InboundReaskMessage) (sender : SocketAddr)
    (bitmapApplied : Bool) (now : Instant) : List ReaskEvent × ReaskService :=
  let handled := service.handleInbound parsed sender now
  match handled.1 with
  | .routedReply routed => applyRoutedReply handled.2 routed bitmapApplied now
  | _ => ([], handled.2)

def dispatchScheduled (sentAt : ReaskSend → Option Instant) (service : ReaskService)
    (sends : List ReaskSend) : ReaskService :=
  sends.foldl (fun service send =>
    match sentAt send with
    | some sent => (service.markReaskSent send.sourceEndpoint send.requestPartStatus sent).2
    | none => service) service

def fallBack : ReaskService → List (Endpoint × ReaskAction) → List ReaskEvent × ReaskService
  | service, [] => ([], service)
  | service, (endpoint, action) :: timedOut =>
    if action = .retryTcp then
      let removed := service.removeSource endpoint
      let rest := fallBack removed.2 timedOut
      (releaseEvents removed.1 ++ rest.1, rest.2)
    else fallBack service timedOut

def driveReaskTick (service : ReaskService) (now : Instant) (pacing : ReaskTickPacing)
    (firewalled : Bool) (sentAt : ReaskSend → Option Instant) : List ReaskEvent × ReaskService :=
  let out := service.tickPaced now reaskReplyTimeout pacing
  let sent := if firewalled then out.2 else dispatchScheduled sentAt out.2 out.1.send
  fallBack sent out.1.timedOut

/-! ## The loop as a machine -/

/-- What the loop waits for. -/
inductive LoopInput
  | elapse (duration : Duration)
  | command (command : ReaskCommand)
  | inbound (parsed : Except InboundReaskParseError InboundReaskMessage) (sender : SocketAddr)
      (bitmapApplied : Bool)
  | tick (pacing : ReaskTickPacing) (firewalled : Bool) (sentAt : ReaskSend → Option Instant)

structure ReaskLoop where
  service : ReaskService
  now : Instant

namespace ReaskLoop

def init : ReaskLoop := ⟨.new, 0⟩

def react (loop : ReaskLoop) : LoopInput → List ReaskEvent × ReaskService
  | .elapse _ => ([], loop.service)
  | .command command => applyReaskCommand loop.service loop.now command
  | .inbound parsed sender bitmapApplied =>
    handleInboundDatagram loop.service parsed sender bitmapApplied loop.now
  | .tick pacing firewalled sentAt => driveReaskTick loop.service loop.now pacing firewalled sentAt

def step (loop : ReaskLoop) (input : LoopInput) : ReaskLoop where
  service := (loop.react input).2
  now := match input with
    | .elapse duration => loop.now + duration
    | _ => loop.now

def released (events : List ReaskEvent) : List Endpoint :=
  events.filterMap fun event => match event with
    | .sourceReleased endpoint => some endpoint
    | _ => none

/-- **Each lease that leaves is handed back once, and no other is.** A source leaves when it is no
    longer there with its lease. -/
structure ReleasedOnce (before after : ReaskService) (leases : List Endpoint) : Prop where
  left : ∀ lease fileHash endpoint, before.lease fileHash endpoint = some lease →
    after.lease fileHash endpoint ≠ some lease → leases.count lease = 1
  stayed : ∀ lease fileHash endpoint, before.lease fileHash endpoint = some lease →
    after.lease fileHash endpoint = some lease → leases.count lease = 0
  strange : ∀ lease, (∀ fileHash endpoint, before.lease fileHash endpoint ≠ some lease) →
    leases.count lease = 0

/-- Each lease that ends with the input is handed back, and once. -/
def HandsBackOnce (loop : ReaskLoop) (input : LoopInput) : Prop :=
  ReleasedOnce loop.service (loop.step input).service (released (loop.react input).1)

/-- A registration brings a lease that no other source holds, and the one of the
    source it replaces. -/
def ExclusiveLease (loop : ReaskLoop) : LoopInput → Prop
  | .command (.register args) =>
    (∀ fileHash endpoint, loop.service.lease fileHash endpoint = some args.leaseEndpoint →
        fileHash = args.fileHash ∧ endpoint = args.endpoint)
      ∧ ∀ lease, loop.service.lease args.fileHash args.endpoint = some lease →
          lease = args.leaseEndpoint
  | _ => True

/-! ## The balance of a step -/

structure Exclusive (service : ReaskService) : Prop where
  routed : ∀ endpoint fileHash, service.endpointIndex.lookup endpoint = some fileHash →
    (service.lease fileHash endpoint).isSome
  unique : ∀ lease fileHash endpoint file other, service.lease fileHash endpoint = some lease →
    service.lease file other = some lease → file = fileHash ∧ other = endpoint

structure Balanced (before after : ReaskService) (leases : List Endpoint) : Prop where
  shrinks : ∀ fileHash endpoint lease, after.lease fileHash endpoint = some lease →
    before.lease fileHash endpoint = some lease
  gone : ∀ fileHash endpoint lease, before.lease fileHash endpoint = some lease →
    after.lease fileHash endpoint = none → leases.count lease = 1
  held : ∀ fileHash endpoint lease, after.lease fileHash endpoint = some lease →
    leases.count lease = 0
  strange : ∀ lease, (∀ fileHash endpoint, before.lease fileHash endpoint ≠ some lease) →
    leases.count lease = 0

variable {service service' : ReaskService} {fileHash : Md4Digest} {endpoint lease : Endpoint}
  {now : Instant} {sentAt : ReaskSend → Option Instant} {args : ReaskDetachArgs}

theorem balanced_same (h : service.SameRoutes service') : Balanced service service' [] where
  shrinks := fun file other lease hlease => (h.leases file other) ▸ hlease
  gone := by
    intro file other lease hbefore hafter
    rw [h.leases, hbefore] at hafter
    cases hafter
  held := fun _ _ _ _ => rfl
  strange := fun _ _ => rfl

theorem balanced_dropped (h : Exclusive service)
    (hlease : service.lease fileHash endpoint = some lease)
    (hdrop : service.Dropped service' fileHash endpoint) : Balanced service service' [lease] where
  shrinks := by
    intro file other lease' hafter
    rw [hdrop.leases] at hafter
    split at hafter
    · cases hafter
    · exact hafter
  gone := by
    intro file other lease' hbefore hafter
    rw [hdrop.leases] at hafter
    split at hafter
    · rename_i heq
      rw [heq.1, heq.2, hlease] at hbefore
      cases hbefore
      simp
    · rw [hbefore] at hafter
      cases hafter
  held := by
    intro file other lease' hafter
    rw [hdrop.leases] at hafter
    split at hafter
    · cases hafter
    · -- another source with this lease would be the one that left
      rename_i hne
      apply List.count_eq_zero_of_not_mem
      rw [List.mem_singleton]
      rintro rfl
      exact hne (h.unique lease' fileHash endpoint file other hlease hafter)
  strange := by
    intro lease' hnone
    apply List.count_eq_zero_of_not_mem
    rw [List.mem_singleton]
    rintro rfl
    exact hnone fileHash endpoint hlease

/-- **Balances compose.** -/
theorem Balanced.trans {a b c : ReaskService} {first second : List Endpoint} (h : Exclusive a)
    (hab : Balanced a b first) (hbc : Balanced b c second) : Balanced a c (first ++ second) where
  shrinks := fun file other lease hc =>
    hab.shrinks file other lease (hbc.shrinks file other lease hc)
  gone := by
    intro file other lease ha hc
    rw [List.count_append]
    cases hb : b.lease file other with
    | none =>
      -- it left in the first part, and no other source of `b` can hold its lease
      have hnot : ∀ file' other', b.lease file' other' ≠ some lease := by
        intro file' other' hb'
        obtain ⟨rfl, rfl⟩ := h.unique lease file other file' other' ha (hab.shrinks _ _ _ hb')
        rw [hb] at hb'
        cases hb'
      rw [hab.gone file other lease ha hb, hbc.strange lease hnot]
    | some lease' =>
      obtain rfl : lease' = lease := by
        have := hab.shrinks file other lease' hb
        rw [ha] at this
        exact (Option.some.inj this).symm
      rw [hab.held file other lease' hb, hbc.gone file other lease' hb hc]
  held := by
    intro file other lease hc
    rw [List.count_append, hbc.held file other lease hc,
      hab.held file other lease (hbc.shrinks file other lease hc)]
  strange := by
    intro lease hnone
    have hnoneb : ∀ file other, b.lease file other ≠ some lease := fun file other hb =>
      hnone file other (hab.shrinks file other lease hb)
    rw [List.count_append, hab.strange lease hnone, hbc.strange lease hnoneb]

theorem Balanced.releasedOnce {leases : List Endpoint} (h : Balanced service service' leases) :
    ReleasedOnce service service' leases where
  left := by
    intro lease file other hbefore hafter
    cases hnow : service'.lease file other with
    | none => exact h.gone file other lease hbefore hnow
    | some lease' =>
      have := h.shrinks file other lease' hnow
      rw [hbefore] at this
      rw [hnow, ← this] at hafter
      exact absurd rfl hafter
  stayed := fun lease file other _ hafter => h.held file other lease hafter
  strange := h.strange

/-! ## The operations keep leases exclusive -/

theorem exclusive_new : Exclusive .new where
  routed := fun _ _ h => by simp [new] at h
  unique := fun _ _ _ _ _ h => by simp [new, lease] at h

theorem Exclusive.of_same (h : Exclusive service) (hsame : service.SameRoutes service') :
    Exclusive service' where
  routed := by
    intro other file hindex
    rw [hsame.leases]
    rw [hsame.index] at hindex
    exact h.routed other file hindex
  unique := by
    intro lease file other file' other'
    rw [hsame.leases, hsame.leases]
    exact h.unique lease file other file' other'

theorem Exclusive.dropped (h : Exclusive service)
    (hdrop : service.Dropped service' fileHash endpoint) : Exclusive service' where
  routed := by
    intro other file hindex
    rw [hdrop.index] at hindex
    split at hindex
    · cases hindex
    · rename_i hne
      rw [hdrop.leases, if_neg fun heq => hne heq.2]
      exact h.routed other file hindex
  unique := by
    intro lease file other file' other' hlease hlease'
    rw [hdrop.leases] at hlease hlease'
    split at hlease
    · cases hlease
    · split at hlease'
      · cases hlease'
      · exact h.unique lease file other file' other' hlease hlease'

def Settles (before : ReaskService) (reaction : List ReaskEvent × ReaskService) : Prop :=
  Exclusive reaction.2 ∧ Balanced before reaction.2 (released reaction.1)

theorem Exclusive.settles_same (h : Exclusive service) (hsame : service.SameRoutes service') :
    Settles service ([], service') :=
  ⟨h.of_same hsame, balanced_same hsame⟩

/-- **A removal hands back the lease of the source it takes.** -/
theorem Exclusive.settles_remove (h : Exclusive service) (endpoint : Endpoint) : Settles service
      (releaseEvents (service.removeSource endpoint).1, (service.removeSource endpoint).2) := by
  rcases @removeSource_cases service endpoint with
    ⟨-, hsame⟩ | ⟨fileHash, hindex, hresult, hdrop⟩
  · rw [hsame]
    exact h.settles_same (.refl service)
  · -- the index leads to a source, so the fallback to the UDP endpoint is not taken
    obtain ⟨lease, hlease⟩ := Option.isSome_iff_exists.mp (h.routed endpoint fileHash hindex)
    rw [hlease] at hresult
    refine ⟨h.dropped hdrop, ?_⟩
    rw [hresult]
    exact balanced_dropped h hlease hdrop

theorem Settles.trans {a : ReaskService} {first second : List ReaskEvent × ReaskService}
    (ha : Exclusive a) (h : Settles a first) (h' : Settles first.2 second) :
    Settles a (first.1 ++ second.1, second.2) := by
  refine ⟨h'.1, ?_⟩
  simpa [released] using h.2.trans ha h'.2

theorem Exclusive.settles_fallBack (h : Exclusive service)
    (timedOut : List (Endpoint × ReaskAction)) :
    Settles service (fallBack service timedOut) := by
  induction timedOut generalizing service with
  | nil => exact h.settles_same (.refl service)
  | cons entry timedOut ih =>
    rw [fallBack]
    split
    · have hremoved := h.settles_remove entry.1
      exact Settles.trans h hremoved (ih hremoved.1)
    · exact ih h

theorem sameRoutes_dispatchScheduled {sends : List ReaskSend} :
    service.SameRoutes (dispatchScheduled sentAt service sends) := by
  unfold dispatchScheduled
  induction sends generalizing service with
  | nil => exact .refl service
  | cons send sends ih =>
    rw [List.foldl_cons]
    refine ReaskService.SameRoutes.trans ?_ ih
    split
    · exact sameRoutes_markReaskSent _
    · exact .refl service

section

variable (h : Exclusive service) {bitmapApplied : Bool} {routed : RoutedReply}

include h

theorem Exclusive.settles_tick {pacing : ReaskTickPacing} {firewalled : Bool} :
    Settles service (driveReaskTick service now pacing firewalled sentAt) := by
  have hticked : service.SameRoutes (service.tickPaced now reaskReplyTimeout pacing).2 :=
    sameRoutes_tickPaced _ _
  have hsent : service.SameRoutes (if firewalled then
      (service.tickPaced now reaskReplyTimeout pacing).2
    else dispatchScheduled sentAt (service.tickPaced now reaskReplyTimeout pacing).2
      (service.tickPaced now reaskReplyTimeout pacing).1.send) := by
    split
    · exact hticked
    · exact hticked.trans sameRoutes_dispatchScheduled
  have hsettled := h.settles_same hsent
  exact Settles.trans h hsettled (hsettled.1.settles_fallBack _)

/-! ## Replies -/

theorem Exclusive.settles_nothing (hsame : service.SameRoutes service')
    {events : List ReaskEvent} (hnone : released events = []) :
    Settles service (events, service') := by
  refine ⟨h.of_same hsame, ?_⟩
  rw [hnone]
  exact balanced_same hsame

theorem Exclusive.settles_dropped
    (hlease : service.lease routed.fileHash routed.endpoint = some routed.leaseEndpoint)
    (haction : routed.action = .dropSource)
    (hdrop : service.Dropped service' routed.fileHash routed.endpoint) :
    Settles service (applyRoutedReply service' routed bitmapApplied now) := by
  have hreact : applyRoutedReply service' routed bitmapApplied now =
      ([.sourceDead routed.fileHash routed.leaseEndpoint routed.sourceUserHash,
        .sourceReleased routed.leaseEndpoint], service') := by
    simp [applyRoutedReply, ackVerdict, reengages, routedReplyEvents, haction]
  rw [hreact]
  exact ⟨h.dropped hdrop, balanced_dropped h hlease hdrop⟩

/-- The reply kept the source: it goes back to TCP with its lease, or stays. -/
theorem Exclusive.settles_kept
    (hindex : service.endpointIndex.lookup routed.endpoint = some routed.fileHash)
    (hlease : service.lease routed.fileHash routed.endpoint = some routed.leaseEndpoint)
    (haction : routed.action ≠ .dropSource) (hsame : service.SameRoutes service') :
    Settles service (applyRoutedReply service' routed bitmapApplied now) := by
  unfold applyRoutedReply
  generalize hmarked : (match bitmapApplied, ackVerdict routed with
    | true, some verdict => (service'.setNoNeededParts routed.endpoint verdict now).2
    | _, _ => service') = marked
  have hroutes : service.SameRoutes marked := by
    rw [← hmarked]
    split
    · exact hsame.trans (sameRoutes_setNoNeededParts _)
    · exact hsame
  dsimp only
  by_cases hengage : reengages routed.action = true
  · -- the removal finds the source that the reply was routed to
    rw [if_pos hengage, routedReplyEvents, if_pos hengage]
    rcases @removeSource_cases marked routed.endpoint with
      ⟨hnone, -⟩ | ⟨file, hfile, -, hdrop⟩
    · rw [hroutes.index, hindex] at hnone
      cases hnone
    · rw [hroutes.index, hindex] at hfile
      cases hfile
      have hmarkedLease : marked.lease routed.fileHash routed.endpoint
          = some routed.leaseEndpoint := (hroutes.leases _ _).trans hlease
      have hexclusive := h.of_same hroutes
      refine ⟨hexclusive.dropped hdrop, ?_⟩
      exact (balanced_same hroutes).trans h (balanced_dropped hexclusive hmarkedLease hdrop)
  · rw [if_neg hengage]
    apply h.settles_nothing hroutes
    simp [routedReplyEvents, hengage, haction, released]

theorem Exclusive.settles_routeReply {reply : ReaskReply} {status : Option ReaskAckPartStatus} :
    Settles service
      (match (service.routeReply endpoint reply status now).1 with
        | .routedReply routed =>
          applyRoutedReply (service.routeReply endpoint reply status now).2 routed bitmapApplied now
        | _ => ([], (service.routeReply endpoint reply status now).2)) := by
  rcases @routeReply_cases service endpoint now reply status with
    ⟨⟨reason, hignored⟩, hsame⟩ | ⟨routed, hrouted, hindex, rfl, hlease, heffect⟩
  · rw [hignored]
    exact h.settles_same hsame
  · rw [hrouted]
    split at heffect
    · rename_i haction
      exact h.settles_dropped hlease haction heffect
    · rename_i haction
      exact h.settles_kept hindex hlease haction heffect

theorem Exclusive.settles_inbound
    {parsed : Except InboundReaskParseError InboundReaskMessage} {sender : SocketAddr} :
    Settles service (handleInboundDatagram service parsed sender bitmapApplied now) := by
  have hrefl : Settles service ([], service) := h.settles_same (.refl service)
  unfold handleInboundDatagram handleInbound
  cases sender.ip with
  | v6 => exact hrefl
  | v4 =>
    rcases parsed with error | message
    · exact hrefl
    · cases message with
      | ack | queueFull | fileNotFound => exact h.settles_routeReply
      | _ => exact hrefl

/-! ## Registrations, and the whole loop -/

theorem Exclusive.register
    (hfree : ∀ file other, service.lease file other = some args.leaseEndpoint →
      file = args.fileHash ∧ other = args.endpoint) :
    Exclusive (service.registerSource args.fileHash (args.source now)) where
  routed := by
    intro other file hindex
    rw [lease_registerSource]
    split
    · rfl
    · rename_i hne
      simp only [registerSource, Map.lookup_insert] at hindex
      split at hindex
      · rename_i hother
        cases hindex
        exact absurd ⟨rfl, hother⟩ hne
      · exact h.routed other file hindex
  unique := by
    intro lease file other file' other' hlease hlease'
    rw [lease_registerSource] at hlease hlease'
    split at hlease
    · rename_i heq
      obtain ⟨rfl, rfl⟩ := heq
      cases hlease
      split at hlease'
      · rename_i heq'
        exact heq'
      · exact hfree file' other' hlease'
    · split at hlease'
      · rename_i heq'
        obtain ⟨rfl, rfl⟩ := heq'
        cases hlease'
        obtain ⟨rfl, rfl⟩ := hfree file other hlease
        exact ⟨rfl, rfl⟩
      · exact h.unique lease file other file' other' hlease hlease'

end

theorem releasedOnce_register
    (hsame : ∀ lease, service.lease args.fileHash args.endpoint = some lease →
      lease = args.leaseEndpoint) :
    ReleasedOnce service (service.registerSource args.fileHash (args.source now)) [] where
  left := by
    intro lease file other hbefore hafter
    rw [lease_registerSource] at hafter
    split at hafter
    · rename_i heq
      obtain ⟨rfl, rfl⟩ := heq
      exact absurd (congrArg some (hsame lease hbefore).symm) hafter
    · exact absurd hbefore hafter
  stayed := fun _ _ _ _ _ => rfl
  strange := fun _ _ => rfl

/-- **Every step keeps leases exclusive and hands back exactly those that leave.** -/
theorem Exclusive.step {loop : ReaskLoop} (h : Exclusive loop.service) {input : LoopInput}
    (hguard : loop.ExclusiveLease input) :
    loop.HandsBackOnce input ∧ Exclusive (loop.step input).service := by
  have hsettles : Settles loop.service (loop.react input) →
      loop.HandsBackOnce input ∧ Exclusive (loop.step input).service := fun hsettles =>
    ⟨hsettles.2.releasedOnce, hsettles.1⟩
  cases input with
  | elapse => exact hsettles (h.settles_same (.refl _))
  | command command =>
    cases command with
    | register => exact ⟨releasedOnce_register hguard.2, h.register hguard.1⟩
    | remove endpoint => exact hsettles (h.settles_remove endpoint)
    | markNoNeededParts =>
      exact hsettles (h.settles_same (sameRoutes_setNoNeededParts true))
  | inbound => exact hsettles h.settles_inbound
  | tick => exact hsettles h.settles_tick

/-- **A detached source's lease is handed back exactly once**, in every run of commands, replies and
    ticks whose registrations bring exclusive leases: each step releases the lease of each source
    that leaves in it once, and no lease of a source that stays or was never registered. -/
theorem leases_released_once (inputs : List LoopInput)
    (h : Along step ExclusiveLease init inputs) : Along step HandsBackOnce init inputs :=
  @Along.along _ _ step ExclusiveLease HandsBackOnce init inputs
    (fun loop => Exclusive loop.service) (fun _ _ hexclusive hguard => hexclusive.step hguard) h
    exclusive_new

def detach (tcpPort : UInt16) : ReaskDetachArgs where
  fileHash := Vector.replicate 16 1
  endpoint := (⟨203, 0, 113, 7⟩, 4672)
  tcpPort
  udpVersion := 4
  initialReaskDelay := 0
  userHash := none
  shouldCrypt := false
  lowId := false
  buddyEndpoint := none
  buddyId := none

/-- A peer is detached, re-registered under the same lease, and removed. -/
theorem leases_released_once_removed :
    let inputs := [LoopInput.command (.register (detach 4662)), .command (.register (detach 4662)),
      .command (.remove (⟨203, 0, 113, 7⟩, 4672))]
    Along step ExclusiveLease init inputs ∧ Along step HandsBackOnce init inputs := by
  intro inputs
  have hguard : Along step ExclusiveLease init inputs := by
    refine ⟨⟨fun file other h => ?_, fun lease h => ?_⟩,
      ⟨fun file other h => ?_, fun lease h => ?_⟩,
      trivial, trivial⟩
    · simp [init, ReaskService.new, ReaskService.lease] at h
    · simp [init, ReaskService.new, ReaskService.lease] at h
    · have hone : (step init (.command (.register (detach 4662)))).service.lease file other =
          if file = (detach 4662).fileHash ∧ other = (detach 4662).endpoint then
            some (detach 4662).leaseEndpoint
          else ReaskService.new.lease file other := lease_registerSource _ file other
      rw [hone] at h
      split at h
      · rename_i heq
        exact heq
      · simp [ReaskService.new, ReaskService.lease] at h
    · exact (Option.some.inj h).symm
  exact ⟨hguard, leases_released_once inputs hguard⟩

/-- **A replaced lease is not handed back**: the peer comes back under another TCP port, and the
    registration takes the place of the source without a release. -/
theorem replaced_lease_not_released : ¬ Along step HandsBackOnce init
        [.command (.register (detach 4662)), .command (.register (detach 4663))] := by
  rintro ⟨-, hsecond, -⟩
  have hcount := hsecond.left (⟨203, 0, 113, 7⟩, 4662) (Vector.replicate 16 1)
    (⟨203, 0, 113, 7⟩, 4672) (by decide +kernel) (by decide +kernel)
  revert hcount
  decide +kernel

end ReaskLoop

end EmuleBB.Reask
