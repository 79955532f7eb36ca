import Mathlib.Data.Finset.Card
import Mathlib.Data.List.Rotate
import EmuleBB.Lib.Run
import EmuleBB.Wire

/-!
# The offer-files pump

A client tells its server which files it shares, in packets of limited size and at limited speed.
The pump keeps the ranked catalog it is working through, a cursor into it, and two sets of hashes:
what of the catalog has been published in the form it has now, and **every hash the connection has
ever spent its budget on**. A request marks the catalog for a new ranking; the next batch that is
due ranks it, drops from the first set what changed, and sends what is left.

The pacing mode and the server's limits are fixed for one epoch. A ghost log keeps the batches, the
latest first: the ranking each was taken from, what it sent, when, and how many entries
it reported as pending.
-/

namespace EmuleBB.Server

/-! ## Limits -/

def offerFilesLocalBatchMax : Nat := 200

def offerFilesLocalRecordsPerSecond : Nat := 400

def offerFilesLegacyMinInterval : Duration := seconds 60

def maxOfferFilesPerAdvertisement : Nat := 200

structure OfferFilesPolicy where
  batchMax : Nat
  minIntervalMs : Nat
  softFiles : Nat
  hardFiles : Nat
  deriving DecidableEq

namespace OfferFilesPolicy

def packetMax (p : OfferFilesPolicy) : Nat :=
  min (min p.batchMax (p.hardFiles - 1)) offerFilesLocalBatchMax

def effectiveBatchMax (p : OfferFilesPolicy) (distinctPublished : Nat) : Nat :=
  min (p.softFiles - distinctPublished) p.packetMax

def nextBatchDelay (p : OfferFilesPolicy) (entriesSent : Nat) : Duration :=
  millis (max p.minIntervalMs (chunkCount (entriesSent * 1000) offerFilesLocalRecordsPerSecond))

end OfferFilesPolicy

def serverOfferFilePacketLimit (hardFiles : Nat) : Nat :=
  if hardFiles = 0 then 200 else min 200 (hardFiles - 1)

def serverOfferFileCandidateLimit (softFiles : Nat) : Nat :=
  if softFiles = 0 then serverOfferFilePacketLimit 0 else softFiles

/-- How fast the server lets files be offered. -/
inductive OfferFilesPacingMode where
  | awaitingCapability
  | legacy (reason : String)
  | negotiated (policy : OfferFilesPolicy)

/-- The least time between a packet of so many entries and the next one. -/
def OfferFilesPacingMode.delay : OfferFilesPacingMode → Nat → Duration
  | awaitingCapability, _ => 0
  | legacy _, _ => offerFilesLegacyMinInterval
  | negotiated policy, entriesSent => policy.nextBatchDelay entriesSent

/-! ## Files -/

structure Ed2kMediaMetadata where
  artist : String
  album : String
  title : String
  lengthSeconds : Nat
  bitrateKbps : Nat
  codec : String
  deriving DecidableEq

/-- A file that is offered. -/
structure OfferedFileEntry where
  fileHash : Md4Digest
  fileName : String
  fileSize : Nat
  fileType : UInt8
  verifiedComplete : Bool
  rating : UInt8
  media : Ed2kMediaMetadata
  deriving DecidableEq

/-- The last step of `ranked_offer_files`: of the candidates in the order of their ranks, the first
    with each hash. -/
def rankedOfferFiles (seen : Finset Md4Digest) : List OfferedFileEntry → List OfferedFileEntry
  | [] => []
  | entry :: candidates =>
    if entry.fileHash ∈ seen then rankedOfferFiles seen candidates
    else entry :: rankedOfferFiles (insert entry.fileHash seen) candidates

/-- The loop over the ranked files from the cursor on: what is selected, and how many files were
    looked at. -/
def scanOfferFiles (alreadyPublished distinctPublished : Finset Md4Digest)
    (maxOfferFiles maxNewCandidates : Nat) :
    List OfferedFileEntry → (entries : List OfferedFileEntry) → (newCandidates scanned : Nat) →
      List OfferedFileEntry × Nat
  | [], entries, _, scanned => (entries, scanned)
  | entry :: rest, entries, newCandidates, scanned =>
    if entries.length < maxOfferFiles then
      if entry.fileHash ∉ alreadyPublished ∧
          (entry.fileHash ∈ distinctPublished ∨ newCandidates < maxNewCandidates) then
        scanOfferFiles alreadyPublished distinctPublished maxOfferFiles maxNewCandidates rest
          (entries ++ [entry])
          (newCandidates + if entry.fileHash ∈ distinctPublished then 0 else 1) (scanned + 1)
      else
        scanOfferFiles alreadyPublished distinctPublished maxOfferFiles maxNewCandidates rest
          entries newCandidates (scanned + 1)
    else (entries, scanned)

structure OfferedFilesCatalog where
  entries : List OfferedFileEntry
  nextCursor : Nat
  totalEntries : Nat

/-- The files are visited in the order of the ranking from the cursor on, around its end. -/
def rankedOfferFilesAtCursorWithBudget (ranked : List OfferedFileEntry) (cursor : Nat)
    (alreadyPublished distinctPublished : Finset Md4Digest)
    (maxOfferFiles maxNewCandidates : Nat) : OfferedFilesCatalog :=
  if ranked.isEmpty ∨ maxOfferFiles = 0 then ⟨[], 0, ranked.length⟩
  else
    let start := cursor % ranked.length
    let scan := scanOfferFiles alreadyPublished distinctPublished
      (min maxOfferFiles maxOfferFilesPerAdvertisement) maxNewCandidates
        (ranked.rotate start) [] 0 0
    ⟨scan.1, (start + scan.2) % ranked.length, ranked.length⟩

/-- A map collected from a list keeps the last entry of a key. -/
def byHash (ranked : List OfferedFileEntry) (hash : Md4Digest) : Option OfferedFileEntry :=
  ranked.reverse.find? fun entry => entry.fileHash = hash

def sameOffer (previousRanked refreshedRanked : List OfferedFileEntry) (hash : Md4Digest) : Bool :=
  match byHash previousRanked hash, byHash refreshedRanked hash with
  | some previous, some refreshed => previous = refreshed
  | _, _ => false

def reconcileOfferFilesPublishedHashes (previousRanked refreshedRanked : List OfferedFileEntry)
    (publishedHashes : Finset Md4Digest) : Finset Md4Digest :=
  publishedHashes.filter fun hash => sameOffer previousRanked refreshedRanked hash

/-! ## The session -/

structure OfferFilesPublishStats where
  entriesSent : Nat
  totalEntries : Nat
  publishedEntries : Nat
  pendingEntries : Nat
  nextCursor : Nat
  wrapped : Bool
  skippedDuplicateBatch : Bool
  sessionPumpActive : Bool

/-- What went out, noted for the laws. -/
structure OfferBatch where
  ranked : List OfferedFileEntry
  entries : List OfferedFileEntry
  sentAt : Instant
  pending : Nat

/-- The session with one server, as far as it offers files. -/
structure OfferSession where
  pacing : OfferFilesPacingMode
  serverSoftFiles : Nat
  serverHardFiles : Nat
  loginAccepted : Bool
  sentAt : Option Instant
  catalogFingerprint : Option UInt64
  catalogCursor : Nat
  publishedHashes : Finset Md4Digest
  distinctPublishedHashes : Finset Md4Digest
  rankedCatalog : List OfferedFileEntry
  refreshCatalog : Bool
  nextPublishAt : Option Instant
  publishRequested : Bool
  lastBatchEntries : Nat
  now : Instant
  /-- Ghost: the batches so far, the latest first. -/
  log : List OfferBatch

namespace OfferSession

def pacingAllowsPublication (s : OfferSession) : Bool :=
  match s.pacing with
  | .awaitingCapability => false
  | .legacy _ | .negotiated _ => true

/-- `begin_offer_files_publishing` once the mode is known: the epoch's reset, and a first
    publication at once. -/
def begin (pacing : OfferFilesPacingMode) (serverSoftFiles serverHardFiles : Nat)
    (loginAccepted : Bool) (now : Instant) : OfferSession where
  pacing := pacing
  serverSoftFiles := serverSoftFiles
  serverHardFiles := serverHardFiles
  loginAccepted := loginAccepted
  sentAt := none
  catalogFingerprint := none
  catalogCursor := 0
  publishedHashes := ∅
  distinctPublishedHashes := ∅
  rankedCatalog := []
  refreshCatalog := true
  nextPublishAt :=
    match pacing with
    | .awaitingCapability => none
    | .legacy _ | .negotiated _ => some now
  publishRequested := true
  lastBatchEntries := 0
  now := now
  log := []

def offerFilesBatchLimit (s : OfferSession) : Nat :=
  match s.pacing with
  | .negotiated policy => policy.packetMax
  | .legacy _ => serverOfferFilePacketLimit s.serverHardFiles
  | .awaitingCapability => 0

def offerFilesNewCandidateLimit (s : OfferSession) : Nat :=
  match s.pacing with
  | .negotiated policy => policy.effectiveBatchMax s.distinctPublishedHashes.card
  | .legacy _ =>
    serverOfferFileCandidateLimit s.serverSoftFiles - s.distinctPublishedHashes.card
  | .awaitingCapability => 0

/-- `any` stops at the first file that can go out, so the slots are counted down only there. -/
def hasPublishableOfferFiles (s : OfferSession) : Bool :=
  s.rankedCatalog.any fun entry =>
    if entry.fileHash ∈ s.publishedHashes then false
    else if entry.fileHash ∈ s.distinctPublishedHashes then true
    else s.offerFilesNewCandidateLimit ≠ 0

def requestOfferFilesPublish (s : OfferSession) : OfferSession :=
  let s := { s with publishRequested := true, refreshCatalog := true }
  if !s.pacingAllowsPublication then s
  else
    let due :=
      match s.sentAt, s.pacing with
      | some sentAt, .legacy _ => sentAt + offerFilesLegacyMinInterval
      | some sentAt, .negotiated policy => sentAt + policy.nextBatchDelay (max s.lastBatchEntries 1)
      | _, _ => s.now
    { s with
      nextPublishAt := some (match s.nextPublishAt with
        | some current => max current due
        | none => due) }

def offerFilesPublishDue (s : OfferSession) : Bool :=
  s.loginAccepted && s.publishRequested && s.pacingAllowsPublication &&
    match s.nextPublishAt with
    | some due => due ≤ s.now
    | none => false

variable (fingerprint : List OfferedFileEntry → UInt64)

def refresh (ranked : List OfferedFileEntry) (s : OfferSession) : OfferSession :=
  let s :=
    if s.catalogFingerprint ≠ some (fingerprint ranked) then
      { s with
        catalogCursor := 0
        publishedHashes :=
          reconcileOfferFilesPublishedHashes s.rankedCatalog ranked s.publishedHashes }
    else s
  { s with
    catalogFingerprint := some (fingerprint ranked)
    rankedCatalog := ranked
    refreshCatalog := false }

def refreshed (candidates : List OfferedFileEntry) (s : OfferSession) : OfferSession :=
  if s.refreshCatalog then s.refresh fingerprint (rankedOfferFiles ∅ candidates) else s

def nextBatch (s : OfferSession) : OfferedFilesCatalog :=
  rankedOfferFilesAtCursorWithBudget s.rankedCatalog s.catalogCursor s.publishedHashes
    s.distinctPublishedHashes s.offerFilesBatchLimit s.offerFilesNewCandidateLimit

/-- `send_offer_files_advertisement` behind the refresh; `sendTime` passes until the packet is
    out. -/
def sendBatch (sendTime : Duration) (s : OfferSession) :
    OfferSession × OfferFilesPublishStats :=
  let offered := s.nextBatch
  let publishedBefore := min s.publishedHashes.card offered.totalEntries
  let sentNewEntries := (offered.entries.filter fun e => e.fileHash ∉ s.publishedHashes).length
  let publishedAfter := min (publishedBefore + sentNewEntries) offered.totalEntries
  let pendingAfter := offered.totalEntries - publishedAfter
  if offered.entries.isEmpty then
    (s, {
      entriesSent := 0
      totalEntries := offered.totalEntries
      publishedEntries := publishedBefore
      pendingEntries := offered.totalEntries - publishedBefore
      nextCursor := offered.nextCursor
      wrapped := true
      skippedDuplicateBatch := true
      sessionPumpActive := false })
  else
    ({ s with
        now := s.now + sendTime
        sentAt := some (s.now + sendTime)
        catalogCursor := offered.nextCursor
        publishedHashes :=
          s.publishedHashes ∪ (offered.entries.map OfferedFileEntry.fileHash).toFinset
        distinctPublishedHashes :=
          s.distinctPublishedHashes ∪ (offered.entries.map OfferedFileEntry.fileHash).toFinset }, {
      entriesSent := offered.entries.length
      totalEntries := offered.totalEntries
      publishedEntries := publishedAfter
      pendingEntries := pendingAfter
      nextCursor := offered.nextCursor
      wrapped := pendingAfter = 0
      skippedDuplicateBatch := false
      sessionPumpActive := false })

def continuePump (stats : OfferFilesPublishStats) (s : OfferSession) : Bool :=
  0 < stats.pendingEntries && s.hasPublishableOfferFiles && 0 < s.offerFilesBatchLimit &&
    !stats.skippedDuplicateBatch && 0 < stats.entriesSent

def finishOfferFilesBatch (stats : OfferFilesPublishStats) (s : OfferSession) : OfferSession :=
  let s :=
    if 0 < stats.entriesSent then { s with lastBatchEntries := stats.entriesSent } else s
  { s with
    publishRequested := s.continuePump stats
    nextPublishAt :=
      if s.continuePump stats && s.pacingAllowsPublication then
        match s.pacing with
        | .negotiated policy => some (s.now + policy.nextBatchDelay stats.entriesSent)
        | .legacy _ => some (s.now + offerFilesLegacyMinInterval)
        | .awaitingCapability => none
      else none }

def sendDueOfferFilesAdvertisement (candidates : List OfferedFileEntry)
    (sendTime finishTime : Duration) (s : OfferSession) :
    OfferSession × Option OfferFilesPublishStats :=
  if !s.offerFilesPublishDue then (s, none)
  else
    let s := s.refreshed fingerprint candidates
    let sent := s.sendBatch sendTime
    let finished :=
      { sent.1 with now := sent.1.now + finishTime }.finishOfferFilesBatch sent.2
    ({ finished with
        log := ⟨s.rankedCatalog, s.nextBatch.entries, sent.1.now, sent.2.pendingEntries⟩ :: s.log },
      some { sent.2 with sessionPumpActive := finished.publishRequested })

end OfferSession

/-- What happens to a session: each event a while after the one before. A batch comes with the files
    of the shared catalog as they are ranked at that time, and with the time it takes. -/
inductive OfferEvent where
  | request (after : Duration)
  | sendDue (after : Duration) (candidates : List OfferedFileEntry)
      (sendTime finishTime : Duration)

namespace OfferSession

def step (fingerprint : List OfferedFileEntry → UInt64) (s : OfferSession) : OfferEvent →
    OfferSession
  | .request after => { s with now := s.now + after }.requestOfferFilesPublish
  | .sendDue after candidates sendTime finishTime =>
    ({ s with now := s.now + after }.sendDueOfferFilesAdvertisement fingerprint candidates sendTime
      finishTime).1

end OfferSession

end EmuleBB.Server
