import Mathlib.Data.List.Sort
import EmuleBB.Lib.Run
import EmuleBB.Reask.Sources

/-!
# The reask service

The service holds one `ReaskSourceSet` per file and a global index from a UDP endpoint to the file
it is a source of, because a reply carries no file hash. Registration and ticking go by file;
sending, replies and removal go through the index. **The two are meant to be one relation**:
`InSync`, the index maps an endpoint to a file exactly when that file's set has a source there.

Registering a peer under a second file moves the index entry and leaves the first file's source.
That source is then asked in every tick, since the mark that it was asked goes to the other file's
set (`second_file_breaks_routing`). The index stays in sync, and every source is asked at least
`MIN_REQUEST_TIME` apart, **exactly when** no registration finds its endpoint indexed
for another file (`reask_in_sync_and_paced_iff`).
-/

namespace EmuleBB.Reask

open Peer Run ReaskSourceSet Map

/-! ## Messages and outcomes -/

inductive ReaskAckPartStatus
  | notIncluded
  | completeSource
  | bitmap (parts : List Bool)
  deriving DecidableEq

def ReaskAckPartStatus.wirePartCount : ReaskAckPartStatus → Option Nat
  | .notIncluded => none
  | .completeSource => some 0
  | .bitmap parts => some parts.length

inductive InboundReaskParseError
  | undecodable
  | malformed (opcode : Option UInt8) (detail : String)
  | unknownOpcode (opcode : UInt8)
  deriving DecidableEq

/-- A classified datagram. What the caller answers itself is handed back and
    carries nothing here. -/
inductive InboundReaskMessage
  | filePing
  | ack (queuePosition : UInt16) (partStatus : ReaskAckPartStatus)
  | queueFull
  | fileNotFound
  | callbackUdp
  | directCallbackReq
  | portTest
  deriving DecidableEq

inductive ReaskIgnoredReason
  | nonIpv4
  | parse (error : InboundReaskParseError)
  | unregisteredEndpoint
  | missingSourceSet
  | unsolicitedReply
  deriving DecidableEq

structure RoutedReply where
  fileHash : Md4Digest
  endpoint : Endpoint
  leaseEndpoint : Endpoint
  sourceUserHash : Option UserHash
  ackPartStatus : Option ReaskAckPartStatus
  requestPartStatus : Option (List Bool)
  action : ReaskAction
  deriving DecidableEq

inductive ReaskInboundOutcome
  | routedReply (reply : RoutedReply)
  | answerNeeded
  | buddyRelay
  | directCallbackReq
  | portTest
  | ignored (reason : ReaskIgnoredReason)
  deriving DecidableEq

def opReaskack : UInt8 := 0x91

def partCountError (ackPartStatus : Option ReaskAckPartStatus)
    (requestPartStatus : Option (List Bool)) : Option InboundReaskParseError :=
  match ackPartStatus.bind ReaskAckPartStatus.wirePartCount, requestPartStatus.map List.length with
  | some actual, some expected =>
    if actual ≠ 0 ∧ actual ≠ expected then
      some (.malformed (some opReaskack)
        ("OP_REASKACK part_count " ++ toString actual ++ " expected " ++ toString expected))
    else none
  | _, _ => none

/-! ## The service -/

structure ReaskService where
  endpointIndex : Map Endpoint Md4Digest
  perFile : Map Md4Digest ReaskSourceSet

structure ReaskTickOutput where
  send : List ReaskSend
  timedOut : List (Endpoint × ReaskAction)

/-- What the caller of a tick supplies: the start of the rotation, which files may emit, and our
    part status of each file. -/
structure ReaskTickPacing where
  rotateOffset : Nat
  admits : Md4Digest → Nat → Bool
  partStatus : Md4Digest → Option (List Bool)

namespace ReaskService

def new : ReaskService := ⟨∅, ∅⟩

section

variable (service : ReaskService)

def setFile (fileHash : Md4Digest) (set : ReaskSourceSet) : ReaskService :=
  { service with perFile := service.perFile.insert fileHash set }

def registerSource (fileHash : Md4Digest) (source : ReaskSource) : ReaskService :=
  let set := (service.perFile.lookup fileHash).getD .empty
  { endpointIndex := service.endpointIndex.insert source.endpoint fileHash
    perFile := service.perFile.insert fileHash (set.insert source) }

def removeSource (endpoint : Endpoint) : Option Endpoint × ReaskService :=
  match service.endpointIndex.lookup endpoint with
  | none => (none, service)
  | some fileHash =>
    let unindexed := { service with endpointIndex := service.endpointIndex.erase endpoint }
    match service.perFile.lookup fileHash with
    | none => (some endpoint, unindexed)
    | some set =>
      -- without a source the release falls back to the UDP endpoint
      (some ((set.remove endpoint).1.elim endpoint ReaskSource.leaseEndpoint),
        unindexed.setFile fileHash (set.remove endpoint).2)

def setNoNeededParts (service : ReaskService) (endpoint : Endpoint) (noNeededParts : Bool)
    (now : Instant) : Bool × ReaskService :=
  match service.endpointIndex.lookup endpoint with
  | none => (false, service)
  | some fileHash =>
    match service.perFile.lookup fileHash with
    | none => (false, service)
    | some set =>
      let applied := set.setNoNeededParts endpoint noNeededParts now
      (applied.1, service.setFile fileHash applied.2)

def markNoNeededParts (endpoint : Endpoint) (now : Instant) : Bool × ReaskService :=
  service.setNoNeededParts endpoint true now

def markReaskSent (sourceEndpoint : Endpoint) (requestPartStatus : Option (List Bool))
    (now : Instant) : Bool × ReaskService :=
  match service.endpointIndex.lookup sourceEndpoint with
  | none => (false, service)
  | some fileHash =>
    match service.perFile.lookup fileHash with
    | none => (false, service)
    | some set =>
      let marked := set.markReasked sourceEndpoint requestPartStatus now
      (marked.1, service.setFile fileHash marked.2)

def routeReply (endpoint : Endpoint) (reply : ReaskReply)
    (ackPartStatus : Option ReaskAckPartStatus) (now : Instant) :
    ReaskInboundOutcome × ReaskService :=
  match service.endpointIndex.lookup endpoint with
  | none => (.ignored .unregisteredEndpoint, service)
  | some fileHash =>
    match service.perFile.lookup fileHash with
    | none => (.ignored .missingSourceSet, service)
    | some set =>
      match set.pendingRequestPartStatus endpoint with
      | none => (.ignored .unsolicitedReply, service)
      | some requestPartStatus =>
        match partCountError ackPartStatus requestPartStatus with
        | some error => (.ignored (.parse error), service)
        | none =>
          let applied := set.applyReply endpoint reply now
          let routed := service.setFile fileHash applied.2
          match applied.1 with
          | none => (.ignored .unsolicitedReply, routed)
          | some action =>
            -- lease and identity are those of the source before the reply
            (.routedReply
              { fileHash
                endpoint
                leaseEndpoint :=
                  (set.sources.lookup endpoint).elim endpoint ReaskSource.leaseEndpoint
                sourceUserHash := (set.sources.lookup endpoint).bind ReaskSource.userHash
                ackPartStatus
                requestPartStatus
                action },
              if action = .dropSource then
                { routed with endpointIndex := routed.endpointIndex.erase endpoint }
              else routed)

def handleInbound (parsed : Except InboundReaskParseError InboundReaskMessage) (sender : SocketAddr)
    (now : Instant) : ReaskInboundOutcome × ReaskService :=
  match sender.ip with
  | .v6 _ => (.ignored .nonIpv4, service)
  | .v4 ip =>
    match parsed with
    | .error error => (.ignored (.parse error), service)
    | .ok .filePing => (.answerNeeded, service)
    | .ok .callbackUdp => (.buddyRelay, service)
    | .ok .directCallbackReq => (.directCallbackReq, service)
    | .ok .portTest => (.portTest, service)
    | .ok (.ack rank status) => service.routeReply (ip, sender.port) (.ack rank) (some status) now
    | .ok .queueFull => service.routeReply (ip, sender.port) .queueFull none now
    | .ok .fileNotFound => service.routeReply (ip, sender.port) .fileNotFound none now

def hashLe (a b : Md4Digest) : Prop :=
  ¬ List.lex b.toList a.toList (fun x y => decide (x < y)) = true

instance : DecidableRel hashLe := fun a b =>
  inferInstanceAs (Decidable (¬ List.lex b.toList a.toList (fun x y => decide (x < y)) = true))

/-- The files in the order a tick visits them: sorted, from an offset on, around the end. -/
def visitOrder (rotateOffset : Nat) : List Md4Digest :=
  let fileHashes := service.perFile.keys.insertionSort hashLe
  let len := fileHashes.length
  (List.range len).filterMap fun step => fileHashes[((rotateOffset + step) % 2 ^ 64) % len]?

def tickFile (now : Instant) (replyTimeout : Duration) (pacing : ReaskTickPacing)
    (ticked : ReaskTickOutput × ReaskService) (fileHash : Md4Digest) :
    ReaskTickOutput × ReaskService :=
  match ticked.2.perFile.lookup fileHash with
  | none => ticked
  | some set =>
    let drained := set.drainTimeouts now replyTimeout
    let send :=
      if pacing.admits fileHash drained.2.sources.keys.length then
        drained.2.dueDatagrams now (pacing.partStatus fileHash)
      else []
    (⟨ticked.1.send ++ send, ticked.1.timedOut ++ drained.1⟩, ticked.2.setFile fileHash drained.2)

def tickPaced (now : Instant) (replyTimeout : Duration) (pacing : ReaskTickPacing) :
    ReaskTickOutput × ReaskService :=
  (service.visitOrder pacing.rotateOffset).foldl (tickFile now replyTimeout pacing)
    (⟨[], []⟩, service)

/-! ## What an operation does to the routes -/

def lease (service : ReaskService) (fileHash : Md4Digest) (endpoint : Endpoint) : Option Endpoint :=
  (service.perFile.lookup fileHash).bind fun set => set.lease endpoint

/-- The index maps an endpoint to a file exactly when that file's set has a source there. -/
def InSync : Prop :=
  ∀ endpoint fileHash, service.endpointIndex.lookup endpoint = some fileHash
    ↔ (service.lease fileHash endpoint).isSome

end

structure SameRoutes (service service' : ReaskService) : Prop where
  index : ∀ endpoint, service'.endpointIndex.lookup endpoint = service.endpointIndex.lookup endpoint
  leases : ∀ fileHash endpoint, service'.lease fileHash endpoint = service.lease fileHash endpoint

structure Dropped (service service' : ReaskService) (fileHash : Md4Digest) (endpoint : Endpoint) :
    Prop where
  index : ∀ other, service'.endpointIndex.lookup other =
    if other = endpoint then none else service.endpointIndex.lookup other
  leases : ∀ file other, service'.lease file other =
    if file = fileHash ∧ other = endpoint then none else service.lease file other

variable {service service' : ReaskService} {fileHash : Md4Digest} {endpoint : Endpoint}
  {set set' : ReaskSourceSet} {now : Instant}

theorem SameRoutes.refl (service : ReaskService) : SameRoutes service service :=
  ⟨fun _ => rfl, fun _ _ => rfl⟩

theorem SameRoutes.trans {a b c : ReaskService} (hab : SameRoutes a b) (hbc : SameRoutes b c) :
    SameRoutes a c :=
  ⟨fun e => (hbc.index e).trans (hab.index e), fun f e => (hbc.leases f e).trans (hab.leases f e)⟩

theorem lease_of_lookup (hset : service.perFile.lookup fileHash = some set) (endpoint : Endpoint) :
    service.lease fileHash endpoint = set.lease endpoint := by
  rw [lease, hset]
  rfl

theorem lease_setFile (set : ReaskSourceSet) (file : Md4Digest) (endpoint : Endpoint) :
    (service.setFile fileHash set).lease file endpoint =
      if file = fileHash then set.lease endpoint else service.lease file endpoint := by
  simp only [lease, setFile, lookup_insert]
  split <;> rfl

theorem sameRoutes_setFile (hset : service.perFile.lookup fileHash = some set)
    (hsame : set.SameLeases set') : SameRoutes service (service.setFile fileHash set') := by
  refine ⟨fun _ => rfl, ?_⟩
  intro file endpoint
  rw [lease_setFile]
  split
  · rename_i hfile
    subst hfile
    rw [lease_of_lookup hset, hsame]
  · rfl

theorem sameRoutes_setNoNeededParts (noNeededParts : Bool) :
    SameRoutes service (service.setNoNeededParts endpoint noNeededParts now).2 := by
  unfold setNoNeededParts
  split
  · exact .refl service
  · split
    · exact .refl service
    · rename_i hset
      exact sameRoutes_setFile hset (sameLeases_setNoNeededParts _)

theorem sameRoutes_markReaskSent (status : Option (List Bool)) :
    SameRoutes service (service.markReaskSent endpoint status now).2 := by
  unfold markReaskSent
  split
  · exact .refl service
  · split
    · exact .refl service
    · rename_i hset
      exact sameRoutes_setFile hset (sameLeases_markReasked _)

theorem dropped_setFile (hset : service.perFile.lookup fileHash = some set)
    (hlease : ∀ other, set'.lease other = if other = endpoint then none else set.lease other)
    {index : Map Endpoint Md4Digest} (hindex : index = service.endpointIndex.erase endpoint) :
    Dropped service ⟨index, service.perFile.insert fileHash set'⟩ fileHash endpoint := by
  constructor
  · intro other
    rw [hindex]
    exact lookup_erase _ _ _
  · intro file other
    have hfile := @lease_setFile service fileHash set' file other
    rw [show (ReaskService.mk index (service.perFile.insert fileHash set')).lease file other
      = (service.setFile fileHash set').lease file other from rfl, hfile]
    by_cases hf : file = fileHash
    · subst hf
      rw [hlease, lease_of_lookup hset]
      simp
    · simp [hf]

theorem lease_erase (set : ReaskSourceSet) (pending : Map Endpoint PendingReask)
    (endpoint other : Endpoint) :
    (ReaskSourceSet.mk (set.sources.erase endpoint) pending).lease other
      = if other = endpoint then none else set.lease other := by
  simp only [ReaskSourceSet.lease, lookup_erase]
  split <;> rfl

theorem removeSource_cases : (service.endpointIndex.lookup endpoint = none
        ∧ service.removeSource endpoint = (none, service))
      ∨ ∃ fileHash, service.endpointIndex.lookup endpoint = some fileHash
          ∧ (service.removeSource endpoint).1
              = some ((service.lease fileHash endpoint).getD endpoint)
          ∧ Dropped service (service.removeSource endpoint).2 fileHash endpoint := by
  unfold removeSource
  cases hindex : service.endpointIndex.lookup endpoint with
  | none => exact .inl ⟨rfl, rfl⟩
  | some fileHash =>
    refine .inr ⟨fileHash, rfl, ?_⟩
    dsimp only
    cases hset : service.perFile.lookup fileHash with
    | none =>
      have hlease : ∀ other, service.lease fileHash other = none := fun other => by
        simp [lease, hset]
      refine ⟨by simp [hlease], fun other => lookup_erase _ _ _, ?_⟩
      intro file other
      show service.lease file other = _
      by_cases heq : file = fileHash ∧ other = endpoint
      · rw [if_pos heq, heq.1]
        exact hlease other
      · rw [if_neg heq]
    | some set =>
      refine ⟨?_, dropped_setFile hset (lease_erase set _ endpoint) rfl⟩
      rw [lease_of_lookup hset]
      show some (Option.elim (set.sources.lookup endpoint) _ _) =
        some (Option.getD (set.lease endpoint) _)
      unfold ReaskSourceSet.lease
      cases set.sources.lookup endpoint <;> rfl

theorem routeReply_cases (reply : ReaskReply) (status : Option ReaskAckPartStatus) :
    ((∃ reason, (service.routeReply endpoint reply status now).1 = .ignored reason)
        ∧ SameRoutes service (service.routeReply endpoint reply status now).2)
      ∨ ∃ routed, (service.routeReply endpoint reply status now).1 = .routedReply routed
          ∧ service.endpointIndex.lookup endpoint = some routed.fileHash
          ∧ routed.endpoint = endpoint
          ∧ service.lease routed.fileHash endpoint = some routed.leaseEndpoint
          ∧ if routed.action = .dropSource then
              Dropped service (service.routeReply endpoint reply status now).2
                routed.fileHash endpoint
            else SameRoutes service (service.routeReply endpoint reply status now).2 := by
  unfold routeReply
  cases hindex : service.endpointIndex.lookup endpoint with
  | none => exact .inl ⟨⟨_, rfl⟩, .refl service⟩
  | some fileHash =>
    dsimp only
    cases hset : service.perFile.lookup fileHash with
    | none => exact .inl ⟨⟨_, rfl⟩, .refl service⟩
    | some set =>
      dsimp only
      cases hpending : set.pendingRequestPartStatus endpoint with
      | none => exact .inl ⟨⟨_, rfl⟩, .refl service⟩
      | some requestPartStatus =>
        dsimp only
        cases partCountError status requestPartStatus with
        | some => exact .inl ⟨⟨_, rfl⟩, .refl service⟩
        | none =>
          rcases @applyReply_cases set endpoint now reply with
            happly | ⟨-, happly⟩ | ⟨source, hsource, -, happly⟩
          · rw [happly]
            exact .inl ⟨⟨_, rfl⟩, sameRoutes_setFile hset fun _ => rfl⟩
          · rw [happly]
            exact .inl ⟨⟨_, rfl⟩, sameRoutes_setFile hset fun _ => rfl⟩
          · right
            rw [happly]
            refine ⟨_, rfl, rfl, rfl, ?_, ?_⟩
            · rw [lease_of_lookup hset, ReaskSourceSet.lease, hsource]
              rfl
            · dsimp only
              by_cases hdrop : (applyReaskReply source reply now).1 = .dropSource
              · rw [if_pos hdrop, if_pos hdrop]
                refine dropped_setFile hset ?_ rfl
                intro other
                rw [if_pos hdrop]
                exact lease_erase set _ endpoint other
              · rw [if_neg hdrop, if_neg hdrop, if_neg hdrop]
                refine sameRoutes_setFile hset ?_
                intro other
                simp only [ReaskSourceSet.lease, lookup_insert]
                split
                · rename_i heq
                  rw [heq, hsource]
                  simp
                · rfl

/-! ## Ticks -/

theorem tickPaced_invariant {Inv : ReaskTickOutput × ReaskService → Prop} {replyTimeout : Duration}
    {pacing : ReaskTickPacing} (h0 : Inv (⟨[], []⟩, service))
    (hfile : ∀ ticked fileHash, Inv ticked →
      Inv (tickFile now replyTimeout pacing ticked fileHash)) :
    Inv (service.tickPaced now replyTimeout pacing) := by
  unfold tickPaced
  generalize service.visitOrder pacing.rotateOffset = files
  revert h0
  generalize ((⟨[], []⟩, service) : ReaskTickOutput × ReaskService) = ticked
  intro h0
  induction files generalizing ticked with
  | nil => exact h0
  | cons fileHash files ih => exact ih _ (hfile ticked fileHash h0)

theorem sameRoutes_tickPaced (replyTimeout : Duration) (pacing : ReaskTickPacing) :
    SameRoutes service (service.tickPaced now replyTimeout pacing).2 := by
  refine @tickPaced_invariant service now (fun ticked => SameRoutes service ticked.2) replyTimeout
    pacing (.refl service) ?_
  intro ticked fileHash h
  unfold tickFile
  split
  · exact h
  · rename_i hset
    exact h.trans (sameRoutes_setFile hset (sameLeases_drainTimeouts _))

/-! ## The index stays in sync -/

section

variable (h : InSync service)

include h

theorem InSync.of_same (hsame : SameRoutes service service') : InSync service' := by
  intro endpoint fileHash
  rw [hsame.index, hsame.leases]
  exact h endpoint fileHash

theorem InSync.dropped
    (hindex : service.endpointIndex.lookup endpoint = some fileHash)
    (hdrop : Dropped service service' fileHash endpoint) : InSync service' := by
  intro other file
  rw [hdrop.index, hdrop.leases]
  by_cases hother : other = endpoint
  · subst hother
    by_cases hfile : file = fileHash
    · simp [hfile]
    · -- the endpoint was a source of no other file
      have hnone : ¬ (service.lease file other).isSome := by
        rw [← h other file, hindex]
        exact fun heq => hfile (Option.some.inj heq).symm
      simp [hfile, hnone]
  · simp only [hother, if_false, and_false]
    exact h other file

theorem InSync.removeSource : InSync (service.removeSource endpoint).2 := by
  rcases @removeSource_cases service endpoint with ⟨-, hsame⟩ | ⟨fileHash, hindex, -, hdrop⟩
  · rw [hsame]
    exact h
  · exact h.dropped hindex hdrop

theorem InSync.routeReply (reply : ReaskReply)
    (status : Option ReaskAckPartStatus) :
    InSync (service.routeReply endpoint reply status now).2 := by
  rcases @routeReply_cases service endpoint now reply status with
    ⟨-, hsame⟩ | ⟨routed, -, hindex, -, -, heffect⟩
  · exact h.of_same hsame
  · split at heffect
    · exact h.dropped hindex heffect
    · exact h.of_same heffect

theorem InSync.handleInbound
    (parsed : Except InboundReaskParseError InboundReaskMessage) (sender : SocketAddr) :
    InSync (service.handleInbound parsed sender now).2 := by
  unfold ReaskService.handleInbound
  cases sender.ip with
  | v6 => exact h
  | v4 =>
    rcases parsed with error | message
    · exact h
    · cases message with
      | ack | queueFull | fileNotFound => exact h.routeReply _ _
      | _ => exact h

end

/-- What a registration changes of the leases. -/
theorem lease_registerSource (source : ReaskSource) (file : Md4Digest) (other : Endpoint) :
    (service.registerSource fileHash source).lease file other =
      if file = fileHash ∧ other = source.endpoint then some source.leaseEndpoint
      else service.lease file other := by
  simp only [lease, registerSource, lookup_insert]
  by_cases hfile : file = fileHash
  · subst hfile
    simp only [true_and, if_true, Option.bind_some, ReaskSourceSet.lease, ReaskSourceSet.insert,
      lookup_insert]
    split
    · rfl
    · cases service.perFile.lookup file with
      | none => simp [ReaskSourceSet.empty]
      | some => simp
  · simp [hfile]

/-- **A registration keeps the index in sync exactly when its endpoint is not indexed for another
    file.** -/
theorem InSync.registerSource_iff (h : InSync service) {source : ReaskSource} :
    InSync (service.registerSource fileHash source)
      ↔ ∀ file, service.endpointIndex.lookup source.endpoint = some file → file = fileHash := by
  have hindex : ∀ other, (service.registerSource fileHash source).endpointIndex.lookup other =
      if other = source.endpoint then some fileHash else service.endpointIndex.lookup other :=
    fun other => lookup_insert _ _ _ _
  constructor
  · intro hafter file hfile
    by_contra hne
    -- the old file's set still has the source, and the index says otherwise
    have hold : (service.lease file source.endpoint).isSome := (h source.endpoint file).mp hfile
    have hnew := (hafter source.endpoint file).mpr (by
      rw [lease_registerSource, if_neg fun heq => hne heq.1]
      exact hold)
    rw [hindex, if_pos rfl] at hnew
    exact hne (Option.some.inj hnew).symm
  · intro hfree other file
    rw [hindex, lease_registerSource]
    by_cases hother : other = source.endpoint
    · subst hother
      by_cases hfile : file = fileHash
      · simp [hfile]
      · have hnone : ¬ (service.lease file source.endpoint).isSome := by
          rw [← h source.endpoint file]
          exact fun hsome => hfile (hfree file hsome)
        simp [hfile, hnone, Ne.symm hfile]
    · simp only [hother, if_false, and_false]
      exact h other file

/-! ## Reasks are spaced -/

def Spacing (service : ReaskService) (sentAt : Endpoint → Option Instant) : Prop :=
  ∀ fileHash set, service.perFile.lookup fileHash = some set →
    ∀ endpoint sent, sentAt endpoint = some sent → set.Spaced sent endpoint

variable {sentAt : Endpoint → Option Instant}

theorem Spacing.setFile (h : Spacing service sentAt)
    (hset : ∀ endpoint sent, sentAt endpoint = some sent → set'.Spaced sent endpoint) :
    Spacing (service.setFile fileHash set') sentAt := by
  intro file set hfile endpoint sent hsent
  rw [ReaskService.setFile, lookup_insert] at hfile
  split at hfile
  · cases hfile
    exact hset endpoint sent hsent
  · exact h file set hfile endpoint sent hsent

theorem spaced_erase {sent : Instant} (h : set.Spaced sent endpoint) {gone : Endpoint} :
    (ReaskSourceSet.mk (set.sources.erase gone) (set.pending.erase gone)).Spaced sent endpoint := by
  intro source hsource
  rw [lookup_erase] at hsource
  split at hsource
  · cases hsource
  · rename_i hne
    simpa [isPending, lookup_erase, hne] using h source hsource

theorem Spacing.removeSource (h : Spacing service sentAt) :
    Spacing (service.removeSource endpoint).2 sentAt := by
  unfold ReaskService.removeSource
  split
  · exact h
  · split
    · exact h
    · rename_i set hset
      apply Spacing.setFile h
      intro other sent hsent
      exact spaced_erase (h _ set hset other sent hsent)

theorem Spacing.setNoNeededParts (h : Spacing service sentAt)
    (hpast : ∀ endpoint sent, sentAt endpoint = some sent → sent ≤ now) (noNeededParts : Bool) :
    Spacing (service.setNoNeededParts endpoint noNeededParts now).2 sentAt := by
  unfold ReaskService.setNoNeededParts
  split
  · exact h
  · split
    · exact h
    · rename_i set hset
      apply h.setFile
      intro other sent hsent
      exact (h _ set hset other sent hsent).setNoNeededParts (hpast other sent hsent) noNeededParts

theorem spaced_applyReply {sent : Instant} {other : Endpoint} (h : set.Spaced sent other)
    (hsent : sent ≤ now) {reply : ReaskReply} :
    (set.applyReply endpoint reply now).2.Spaced sent other := by
  rcases @applyReply_cases set endpoint now reply with
    happly | ⟨hnone, happly⟩ | ⟨source, -, -, happly⟩
  · rw [happly]
    exact h
  · -- a request without a source: nothing is there to be asked
    rw [happly]
    intro source hsource
    have hne : other ≠ endpoint := by
      rintro rfl
      rw [hnone] at hsource
      cases hsource
    simpa [isPending, lookup_erase, hne] using h source hsource
  · rw [happly]
    split
    · exact spaced_erase h
    · rename_i hkept
      intro after hafter
      rw [lookup_insert] at hafter
      split at hafter
      · cases hafter
        right
        exact Nat.le_trans (Nat.add_le_add_right hsent _) (applyReaskReply_scheduled hkept)
      · rename_i hne
        simpa [isPending, lookup_erase, hne] using h after hafter

section

variable (h : Spacing service sentAt)

include h

section

variable (hpast : ∀ endpoint sent, sentAt endpoint = some sent → sent ≤ now)

include hpast

theorem Spacing.routeReply (reply : ReaskReply) (status : Option ReaskAckPartStatus) :
    Spacing (service.routeReply endpoint reply status now).2 sentAt := by
  unfold ReaskService.routeReply
  split
  · exact h
  · split
    · exact h
    · rename_i fileHash _ _ set hset
      have hrouted :
        Spacing (service.setFile fileHash (set.applyReply endpoint reply now).2) sentAt := by
        apply h.setFile
        intro other sent hsent
        exact spaced_applyReply (h _ set hset other sent hsent) (hpast other sent hsent)
      split
      · exact h
      · split
        · exact h
        · dsimp only
          split
          · exact hrouted
          · dsimp only
            split
            · exact hrouted
            · exact hrouted

theorem Spacing.handleInbound
    (parsed : Except InboundReaskParseError InboundReaskMessage) (sender : SocketAddr) :
    Spacing (service.handleInbound parsed sender now).2 sentAt := by
  unfold ReaskService.handleInbound
  cases sender.ip with
  | v6 => exact h
  | v4 =>
    rcases parsed with error | message
    · exact h
    · cases message with
      | ack | queueFull | fileNotFound => exact h.routeReply hpast _ _
      | _ => exact h

end

/-- A fresh registration is asked anew: its own record is cleared. -/
theorem Spacing.registerSource (source : ReaskSource) :
    Spacing (service.registerSource fileHash source)
      (Function.update sentAt source.endpoint none) := by
  intro file set hfile endpoint sent hsent
  have hne : endpoint ≠ source.endpoint := by
    rintro rfl
    simp at hsent
  rw [Function.update_of_ne hne] at hsent
  simp only [ReaskService.registerSource, lookup_insert] at hfile
  split at hfile
  · cases hfile
    intro other hother
    cases hset : service.perFile.lookup fileHash with
    | none =>
      simp only [hset, Option.getD_none, ReaskSourceSet.insert, ReaskSourceSet.empty,
        lookup_insert, hne, if_false, AList.lookup_empty] at hother
      cases hother
    | some set =>
      simp only [hset, Option.getD_some, ReaskSourceSet.insert, lookup_insert, hne,
        if_false] at hother ⊢
      exact h fileHash set hset endpoint sent hsent other hother
  · exact h file set hfile endpoint sent hsent

/-- **A request that went out spaces its source**: the index leads to the one set that has it. -/
theorem Spacing.markReaskSent (hsync : InSync service) (status : Option (List Bool)) :
    Spacing (service.markReaskSent endpoint status now).2
      (Function.update sentAt endpoint (some now)) := by
  have hsource : ∀ file set, service.perFile.lookup file = some set →
      service.endpointIndex.lookup endpoint ≠ some file → set.sources.lookup endpoint = none := by
    intro file set hset hindex
    have hnone := mt (hsync endpoint file).mpr hindex
    rw [lease_of_lookup hset, ReaskSourceSet.lease] at hnone
    simpa using hnone
  -- at the endpoint itself a set has no source or has it waiting; elsewhere nothing changed
  intro file set hset other sent hsent
  unfold ReaskService.markReaskSent at hset
  by_cases hother : other = endpoint
  · subst hother
    cases hindex : service.endpointIndex.lookup other with
    | none =>
      simp only [hindex] at hset
      intro source hsome
      rw [hsource file set hset (by simp [hindex])] at hsome
      cases hsome
    | some fileHash =>
      simp only [hindex] at hset
      cases hfile : service.perFile.lookup fileHash with
      | none =>
        have hsome := (hsync other fileHash).mp hindex
        simp [lease, hfile] at hsome
      | some =>
        simp only [hfile, ReaskService.setFile, lookup_insert] at hset
        split at hset
        · cases hset
          exact spaced_markReasked status
        · rename_i hne
          intro source hsome
          rw [hsource file set hset (by
            rw [hindex]
            exact fun heq => hne (Option.some.inj heq).symm)] at hsome
          cases hsome
  · rw [Function.update_of_ne hother] at hsent
    split at hset
    · exact h file set hset other sent hsent
    · split at hset
      · exact h file set hset other sent hsent
      · rename_i marked hmarked
        simp only [ReaskService.setFile, lookup_insert] at hset
        split at hset
        · cases hset
          exact (h _ marked hmarked other sent hsent).markReasked_ne hother status
        · exact h file set hset other sent hsent

/-- **A tick keeps the spacing and asks only sources whose spacing has passed.** -/
theorem Spacing.tickPaced
    (hpast : ∀ endpoint sent, sentAt endpoint = some sent → sent ≤ now) (replyTimeout : Duration)
    (pacing : ReaskTickPacing) :
    Spacing (service.tickPaced now replyTimeout pacing).2 sentAt
      ∧ ∀ send ∈ (service.tickPaced now replyTimeout pacing).1.send,
          ∀ sent, sentAt send.sourceEndpoint = some sent → sent + minRequestTime ≤ now := by
  refine @tickPaced_invariant service now (fun ticked => Spacing ticked.2 sentAt
    ∧ ∀ send ∈ ticked.1.send, ∀ sent, sentAt send.sourceEndpoint = some sent →
        sent + minRequestTime ≤ now) replyTimeout pacing ⟨h, by simp⟩ ?_
  rintro ticked fileHash ⟨hspacing, hsends⟩
  unfold tickFile
  split
  · exact ⟨hspacing, hsends⟩
  · rename_i set hset
    have hdrained : ∀ endpoint sent, sentAt endpoint = some sent →
        (set.drainTimeouts now replyTimeout).2.Spaced sent endpoint := fun endpoint sent hsent =>
      (hspacing fileHash set hset endpoint sent hsent).drainTimeouts (hpast endpoint sent hsent) _
    refine ⟨hspacing.setFile hdrained, ?_⟩
    intro send hsend sent hsent
    rcases List.mem_append.mp hsend with hsend | hsend
    · exact hsends send hsend sent hsent
    · split at hsend
      · exact (hdrained _ sent hsent).of_due (mem_due_of_dueDatagrams hsend)
      · cases hsend

end

end ReaskService

/-! ## Histories -/

/-- The calls of the service. -/
inductive ReaskOp
  | elapse (duration : Duration)
  | register (fileHash : Md4Digest) (source : ReaskSource)
  | remove (endpoint : Endpoint)
  | markSent (endpoint : Endpoint) (requestPartStatus : Option (List Bool))
  | inbound (parsed : Except InboundReaskParseError InboundReaskMessage) (sender : SocketAddr)
  | setNoNeededParts (endpoint : Endpoint) (noNeededParts : Bool)
  | tick (replyTimeout : Duration) (pacing : ReaskTickPacing)

/-- The service, the time, and when each endpoint was last asked. -/
structure ReaskHistory where
  service : ReaskService
  now : Instant
  sentAt : Endpoint → Option Instant

namespace ReaskHistory

def init : ReaskHistory := ⟨.new, 0, fun _ => none⟩

def step (history : ReaskHistory) : ReaskOp → ReaskHistory
  | .elapse duration => { history with now := history.now + duration }
  | .register fileHash source =>
    { history with
      service := history.service.registerSource fileHash source
      sentAt := Function.update history.sentAt source.endpoint none }
  | .remove endpoint => { history with service := (history.service.removeSource endpoint).2 }
  | .markSent endpoint requestPartStatus =>
    -- called when the local socket has taken the datagram
    { history with
      service := (history.service.markReaskSent endpoint requestPartStatus history.now).2
      sentAt := Function.update history.sentAt endpoint (some history.now) }
  | .inbound parsed sender =>
    { history with service := (history.service.handleInbound parsed sender history.now).2 }
  | .setNoNeededParts endpoint noNeededParts =>
    { history with
      service := (history.service.setNoNeededParts endpoint noNeededParts history.now).2 }
  | .tick replyTimeout pacing =>
    { history with service := (history.service.tickPaced history.now replyTimeout pacing).2 }

def emitted (history : ReaskHistory) : ReaskOp → List ReaskSend
  | .tick replyTimeout pacing =>
    (history.service.tickPaced history.now replyTimeout pacing).1.send
  | _ => []

/-- Before and after the call the two tables agree, and no request comes early. -/
structure SyncedAndPaced (history : ReaskHistory) (op : ReaskOp) : Prop where
  before : history.service.InSync
  after : (history.step op).service.InSync
  paced : ∀ send ∈ history.emitted op, ∀ sent, history.sentAt send.sourceEndpoint = some sent →
    sent + minRequestTime ≤ history.now

/-- A registration does not find its endpoint indexed for another file. -/
def Unclaimed (history : ReaskHistory) : ReaskOp → Prop
  | .register fileHash source =>
    ∀ file, history.service.endpointIndex.lookup source.endpoint = some file → file = fileHash
  | _ => True

/-- The tables agree, and the next request of a source is its interval away from the last one. -/
structure Paced (history : ReaskHistory) : Prop where
  synced : history.service.InSync
  spacing : history.service.Spacing history.sentAt
  past : ∀ endpoint sent, history.sentAt endpoint = some sent → sent ≤ history.now

variable {history : ReaskHistory}

theorem paced_init : Paced init where
  synced := fun _ _ => by simp [init, ReaskService.new, ReaskService.lease]
  spacing := fun _ _ hset => by simp [init, ReaskService.new] at hset
  past := nofun

section

variable (h : Paced history) {op : ReaskOp}

include h

/-- **The index stays in sync exactly when the registrations do not collide.** -/
theorem Paced.inSync_step_iff : (history.step op).service.InSync ↔ history.Unclaimed op := by
  cases op with
  | register fileHash source => exact h.synced.registerSource_iff
  | elapse => exact iff_of_true h.synced trivial
  | remove => exact iff_of_true h.synced.removeSource trivial
  | markSent endpoint status =>
    exact iff_of_true (h.synced.of_same (ReaskService.sameRoutes_markReaskSent status)) trivial
  | inbound parsed sender => exact iff_of_true (h.synced.handleInbound parsed sender) trivial
  | setNoNeededParts =>
    exact iff_of_true (h.synced.of_same (ReaskService.sameRoutes_setNoNeededParts _)) trivial
  | tick =>
    exact iff_of_true (h.synced.of_same (ReaskService.sameRoutes_tickPaced _ _)) trivial

theorem Paced.spacing_step : (history.step op).service.Spacing (history.step op).sentAt := by
  cases op with
  | elapse => exact h.spacing
  | register fileHash source => exact h.spacing.registerSource source
  | remove => exact h.spacing.removeSource
  | markSent endpoint status => exact h.spacing.markReaskSent h.synced status
  | inbound parsed sender => exact h.spacing.handleInbound h.past parsed sender
  | setNoNeededParts => exact h.spacing.setNoNeededParts h.past _
  | tick replyTimeout pacing => exact (h.spacing.tickPaced h.past replyTimeout pacing).1

theorem Paced.past_step (op : ReaskOp) (endpoint : Endpoint) (sent : Instant)
    (hsent : (history.step op).sentAt endpoint = some sent) : sent ≤ (history.step op).now := by
  cases op with
  | elapse => exact Nat.le_trans (h.past endpoint sent hsent) (Nat.le_add_right _ _)
  | register fileHash source =>
    by_cases heq : endpoint = source.endpoint
    · simp [step, heq] at hsent
    · exact h.past endpoint sent (by simpa [step, heq] using hsent)
  | markSent marked =>
    by_cases heq : endpoint = marked
    · simp only [step, heq, Function.update_self, Option.some.injEq] at hsent
      exact hsent.ge
    · exact h.past endpoint sent (by simpa [step, heq] using hsent)
  | _ => exact h.past endpoint sent hsent

theorem Paced.step (hfree : history.Unclaimed op) : Paced (history.step op) :=
  ⟨h.inSync_step_iff.mpr hfree, h.spacing_step, h.past_step op⟩

/-- **No request is sent before its time.** -/
theorem Paced.emitted (op : ReaskOp) : ∀ send ∈ history.emitted op,
    ∀ sent, history.sentAt send.sourceEndpoint = some sent →
      sent + minRequestTime ≤ history.now := by
  cases op with
  | tick replyTimeout pacing => exact (h.spacing.tickPaced h.past replyTimeout pacing).2
  | _ => exact fun _ hsend => absurd hsend (by simp [ReaskHistory.emitted])

end

/-- **Routing stays in sync and reasks stay paced exactly when no endpoint is registered for a file
    while it is indexed for another.** Over every sequence of registrations, removals, sends,
    inbound datagrams, usefulness marks and ticks at non-decreasing times. -/
theorem reask_in_sync_and_paced_iff (ops : List ReaskOp) :
    Along step SyncedAndPaced init ops ↔ Along step Unclaimed init ops := by
  constructor
  · intro h
    refine h.along (fun history op hpaced hlaw => ?_) paced_init
    have hfree := hpaced.inSync_step_iff.mp hlaw.after
    exact ⟨hfree, hpaced.step hfree⟩
  · intro h
    refine h.along (fun history op hpaced hfree => ?_) paced_init
    exact ⟨⟨hpaced.synced, hpaced.inSync_step_iff.mpr hfree, hpaced.emitted op⟩,
      hpaced.step hfree⟩

def freshSource (fileHash : Md4Digest) (endpoint leaseEndpoint : Endpoint) : ReaskSource where
  endpoint
  leaseEndpoint
  fileHash
  udpVersion := 4
  lastRank := none
  nextReask := 0
  udpTotal := 0
  udpFailed := 0
  fallbackTcpOnly := false
  noNeededParts := false
  remoteQueueFull := false
  userHash := none
  shouldCrypt := false
  lowId := false
  buddyEndpoint := none
  buddyId := none

/-- One endpoint that is a source for two files. -/
def twoFiles : List ReaskOp :=
  let endpoint : Endpoint := (⟨203, 0, 113, 7⟩, 4672)
  let file (byte : UInt8) : Md4Digest := Vector.replicate 16 byte
  [.register (file 1) (freshSource (file 1) endpoint endpoint),
    .register (file 2) (freshSource (file 2) endpoint endpoint),
    .tick (seconds 30) ⟨0, fun _ _ => true, fun _ => none⟩, .markSent endpoint none]

/-- **A second file breaks the routing**: the first file's source stays without an index entry, and
    the next tick emits a reask to an endpoint that was asked in the same instant. -/
theorem second_file_breaks_routing : ¬ Along step SyncedAndPaced init twoFiles
      ∧ ∃ send ∈ (run step init twoFiles).emitted
            (.tick (seconds 30) ⟨0, fun _ _ => true, fun _ => none⟩),
          (run step init twoFiles).sentAt send.sourceEndpoint =
            some (run step init twoFiles).now := by
  constructor
  · rintro ⟨-, hsecond, -⟩
    -- the first file's set still has the source, and the index names the second file
    have hindex := (hsecond.after (⟨203, 0, 113, 7⟩, 4672) (Vector.replicate 16 1)).mpr
      (by decide +kernel)
    revert hindex
    decide +kernel
  · decide +kernel

end ReaskHistory

end EmuleBB.Reask
