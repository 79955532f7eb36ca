import EmuleBB.Delivery.Model

/-!
# The calls

`materialize_completed_payload` first finishes or forgets what an earlier call left in the journal,
then delivers unless the recorded delivery still stands. `delete_transfer_files` takes the delivered
output away by way of a tombstone, then the transfer's own directory by way of another name, and
then forgets the transfer. A directory left behind without a row is taken away as it stands.
-/

namespace EmuleBB.Delivery

open Prog

/-! ## Delivery -/

def validateDeliveryAttemptPaths (attempt : DeliveryAttempt) : Async Unit := do
  ensure (attempt.targetPath.parent.absolute ∧ attempt.stagingPath.parent.absolute)
    s!"delivery attempt {attempt.attemptId.hyphenated} contains a non-absolute path"
  ensure (attempt.targetPath.parent = attempt.stagingPath.parent)
    s!"delivery attempt {attempt.attemptId.hyphenated} paths do not share one target parent"
  ensure (attempt.stagingPath.fileName = stagingName attempt.attemptId)
    s!"delivery attempt {attempt.attemptId.hyphenated} has an invalid staging name"

def installStagedPayload (stagingPath targetPath : NativePath) : Async NoReplaceMoveOutcome :=
  movePathNoReplace stagingPath targetPath fun _ w =>
    { w with produced := w.produced ++ [targetPath] }

structure InstalledDelivery where
  path : NativePath
  fingerprint : Stamp

variable (md4 : Md4) (job : DeliveryJob) (tombstone : DeletionTombstone)

def publish (attemptId : Uuid) (id : Nat) (targetPath : NativePath) : Async Stamp := do
  let fingerprint ← capturePublishedFingerprint md4 job id targetPath
  let marked ← markDeliveryAttemptPublished attemptId fingerprint
  ensure marked
    s!"delivery attempt {attemptId.hyphenated} disappeared before publication committed"
  return fingerprint

/-- The loop of `deliver_payload_file`, with `count` names left to try. -/
def deliverCandidates (md4 : Md4) (job : DeliveryJob) (destDir : Directory)
    (ids : Nat → Uuid) : (count index : Nat) → Async InstalledDelivery
  | 0, _ => fail s!"exhausted collision-free delivery names in {destDir.text}"
  | count + 1, index => do
    let targetPath := ⟨destDir, candidateName job.displayName index⟩
    let taken ← pathExists targetPath
    if taken then deliverCandidates md4 job destDir ids count (index + 1)
    else
      let attemptId := ids index
      let stagingPath := ⟨destDir, stagingName attemptId⟩
      let _ ← beginDeliveryAttempt job attemptId targetPath stagingPath
      stageDeliveryPayload job.payloadPath stagingPath
      let verified ← openVerifiedStagingFile md4 job stagingPath
      let marked ← markDeliveryAttemptStaged attemptId verified.fingerprint
      ensure marked
        s!"delivery attempt {attemptId.hyphenated} disappeared before staging committed"
      match ← installStagedPayload stagingPath targetPath with
      | .moved =>
        let fingerprint ← publish md4 job attemptId verified.id targetPath
        return ⟨targetPath, fingerprint⟩
      | .alreadyExists =>
        let _ ← removeFileIfFingerprintMatches stagingPath verified.fingerprint
        let cleared ← clearDeliveryAttempt attemptId
        ensure cleared
          s!"delivery attempt {attemptId.hyphenated} disappeared during collision cleanup"
        deliverCandidates md4 job destDir ids count (index + 1)

def candidateCount : Nat := 2 ^ 32

variable (tombstoneId : Uuid) (attempt : DeliveryAttempt) (destDir : Directory)

def deliverPayloadFile (ids : Nat → Uuid) : Async InstalledDelivery := do
  validateDeliverySource job.payloadPath job.fileSize
  deliverCandidates md4 job destDir ids candidateCount 0

def commitRecoveredDelivery (record : DeliveryRecord) : Async Unit :=
  transact fun w =>
    match w.transfer with
    | none => .error s!"missing ED2K transfer metadata for {job.hashText}"
    | some row =>
      if row.deleteRequested then .error s!"missing ED2K transfer metadata for {job.hashText}"
      else if row.delivery = .pending ∧ row.completed ∧ ¬row.finalRehashPending then
        .ok ((), { w with transfer := some (row.deliver record) })
      else
        .error (s!"transfer {job.hashText} changed while recovering delivery attempt " ++
          attempt.attemptId.hyphenated)

def recoverStaged (staging : Stamp) : Async Unit := do
  let verified ← openVerifiedStagingFile md4 job attempt.stagingPath
  ensure (verified.fingerprint = staging)
    s!"delivery staging identity changed for attempt {attempt.attemptId.hyphenated}"
  match ← installStagedPayload attempt.stagingPath attempt.targetPath with
  | .moved =>
    let fingerprint ← publish md4 job attempt.attemptId verified.id attempt.targetPath
    commitRecoveredDelivery job attempt (.owned attempt.targetPath fingerprint)
  | .alreadyExists =>
    let _ ← removeFileIfFingerprintMatches attempt.stagingPath staging
    let _ ← clearDeliveryAttempt attempt.attemptId
    return ()

def recoverInstalled : Async Unit := do
  match ← classifyDeliveredOutput md4 job attempt.targetPath none with
  | .matching (some current) =>
    commitRecoveredDelivery job attempt (.unowned attempt.targetPath (some current))
  | _ =>
    let _ ← clearDeliveryAttempt attempt.attemptId
    return ()

def recoverPending : Async Unit := do
  match attempt.phase with
  | .prepared =>
    -- `preserve_unproven_prepared_staging`: whatever stands there is left alone
    let _ ← symlinkMetadata attempt.stagingPath
    let _ ← clearDeliveryAttempt attempt.attemptId
    return ()
  | .published _ published =>
    match ← classifyAttemptArtifact md4 job attempt.targetPath published with
    | .owned => commitRecoveredDelivery job attempt (.owned attempt.targetPath published)
    | _ =>
      let _ ← clearDeliveryAttempt attempt.attemptId
      return ()
  | .staged staging =>
    match ← classifyAttemptArtifact md4 job attempt.stagingPath staging with
    | .owned => recoverStaged md4 job attempt staging
    | .missing => recoverInstalled md4 job attempt
    | .foreign =>
      let _ ← clearDeliveryAttempt attempt.attemptId
      return ()

def recoverDeliveryAttempt : Async Unit := do
  match ← deliveryAttempt with
  | none => return ()
  | some attempt =>
    validateDeliveryAttemptPaths attempt
    let manifest ← loadManifest job
    if manifest.delivery = .pending ∧ manifest.completed ∧ ¬manifest.finalRehashPending then
      recoverPending md4 job attempt
    else
      let _ ← clearDeliveryAttempt attempt.attemptId
      return ()

inductive Ed2kDeliveryOutcome where
  | notCompleted
  | alreadyDelivered (path : NativePath)
  | delivered (path : NativePath)
  deriving DecidableEq

def DeliveryRecord.recordedAt (record : DeliveryRecord) (recordedPath : NativePath) : Bool :=
  match record with
  | pending => false
  | owned path _ => decide (path = recordedPath)
  | unowned path _ => decide (path = recordedPath)

def resetDelivery (recordedPath : NativePath) : Async Unit :=
  transact fun w =>
    match w.transfer with
    | none => .error s!"missing ED2K transfer metadata for {job.hashText}"
    | some row =>
      if row.deleteRequested then .error s!"missing ED2K transfer metadata for {job.hashText}"
      else if row.delivery.recordedAt recordedPath then
        .ok ((), { w with transfer := some { row with delivery := .pending } })
      else .ok ((), w)

def deliverAndRecord (ids : Nat → Uuid) : Async Ed2kDeliveryOutcome := do
  let installed ← deliverPayloadFile md4 job destDir ids
  transact fun w =>
    match w.transfer with
    | none => .error s!"missing ED2K transfer metadata for {job.hashText}"
    | some row =>
      if row.deleteRequested then .error s!"missing ED2K transfer metadata for {job.hashText}"
      else
        .ok (.delivered installed.path,
          { w with
            transfer := some (row.deliver (.owned installed.path installed.fingerprint)) })

def redeliver (ids : Nat → Uuid) (recordedPath : NativePath) (recorded : Option Stamp)
    (unowned : Bool) : Async Ed2kDeliveryOutcome := do
  match ← (classifyDeliveredOutput md4 job recordedPath recorded).attempt with
  | .ok (.matching current) =>
    if unowned ∨ (recorded.isSome ∧ recorded = current) then
      return .alreadyDelivered recordedPath
    else
      resetDelivery job recordedPath
      deliverAndRecord md4 job destDir ids
  | _ =>
    resetDelivery job recordedPath
    deliverAndRecord md4 job destDir ids

def materializeCompletedPayload (ids : Nat → Uuid) : Async Ed2kDeliveryOutcome := do
  recoverDeliveryAttempt md4 job
  let manifest ← loadManifest job
  if ¬manifest.completed ∨ manifest.finalRehashPending then return .notCompleted
  else
    match manifest.delivery with
    | .pending => deliverAndRecord md4 job destDir ids
    | .owned path fingerprint =>
      redeliver md4 job destDir ids path (some fingerprint) false
    | .unowned path fingerprint => redeliver md4 job destDir ids path fingerprint true

/-! ## Deletion -/

structure OwnedDeliveryOutput where
  path : NativePath
  fingerprint : Stamp

inductive PreparedCleanupOutcome where
  | complete
  | retryWithNewTombstone

def deletionTombstone : Async (Option DeletionTombstone) :=
  read fun w => w.transfer.bind TransferRow.tombstone

def TransferRow.ownsOutput (row : TransferRow) (path : NativePath) (fingerprint : Stamp) : Bool :=
  row.deleteRequested &&
    (decide (row.delivery = .owned path fingerprint) ||
      match row.attempt with
      | some ⟨_, targetPath, _, .published _ published⟩ =>
        decide (targetPath = path ∧ published = fingerprint)
      | _ => false)

/-- The transaction of `begin_transfer_deletion_tombstone`. -/
def prepareTombstone (originalPath tombstonePath : NativePath)
    (sourceFingerprint : Stamp) (w : World)
    : Except String (DeletionTombstone × World) :=
  if ¬originalPath.parent.absolute then .error "deletion source path must be absolute"
  else if ¬tombstonePath.parent.absolute then .error "deletion tombstone path must be absolute"
  else if originalPath = tombstonePath then
    .error "deletion source and tombstone paths must differ"
  else if originalPath.parent ≠ tombstonePath.parent then
    .error "deletion source and tombstone paths must share one parent directory"
  else if tombstonePath.fileName ≠ tombstoneName tombstoneId then
    .error s!"deletion tombstone path does not match tombstone {tombstoneId.hyphenated}"
  else
    match w.transfer with
    | none =>
      .error (s!"transfer {job.hashText} has no owned delivered output eligible for " ++
        "tombstoning")
    | some row =>
      if row.ownsOutput originalPath sourceFingerprint then
        match row.tombstone with
        | some existing =>
          if existing.tombstoneId = tombstoneId ∧ existing.originalPath = originalPath ∧
              existing.tombstonePath = tombstonePath ∧
              existing.sourceFingerprint = sourceFingerprint then
            .ok (existing, w)
          else .error s!"transfer {job.hashText} already has a different deletion tombstone"
        | none =>
          let tombstone :=
            ⟨tombstoneId, originalPath, tombstonePath, sourceFingerprint, .prepared⟩
          .ok (tombstone, { w with transfer := some { row with tombstone := some tombstone } })
      else
        .error (s!"transfer {job.hashText} has no owned delivered output eligible for " ++
          "tombstoning")

def beginDeletionTombstone (originalPath tombstonePath : NativePath) (sourceFingerprint : Stamp) :
    Async DeletionTombstone :=
  transact (prepareTombstone job tombstoneId originalPath tombstonePath sourceFingerprint)

/-- An update or removal of the tombstone with the given identifier, where the phase allows it. -/
def updateTombstone (update : DeletionTombstone → Option (Option DeletionTombstone)) : Async Bool :=
  atomic fun w =>
    match w.transfer with
    | none => (false, w)
    | some row =>
      match row.tombstone with
      | none => (false, w)
      | some tombstone =>
        if row.deleteRequested ∧ tombstone.tombstoneId = tombstoneId then
          match update tombstone with
          | none => (false, w)
          | some tombstone =>
            (true, { w with transfer := some { row with tombstone := tombstone } })
        else (false, w)

def markDeletionTombstoneMoved (fingerprint : Stamp) : Async Bool :=
  updateTombstone tombstoneId fun tombstone =>
    match tombstone.phase with
    | .prepared => some (some { tombstone with phase := .moved fingerprint })
    | .moved moved => if moved = fingerprint then some (some tombstone) else none

def clearPreparedDeletionTombstone : Async Bool :=
  updateTombstone tombstoneId fun tombstone =>
    match tombstone.phase with
    | .prepared => some none
    | .moved _ => none

def validateTombstone : Async Unit := do
  ensure (tombstone.originalPath.parent.absolute ∧ tombstone.tombstonePath.parent.absolute)
    s!"deletion tombstone {tombstone.tombstoneId.hyphenated} contains a non-absolute path"
  ensure (tombstone.originalPath.parent = tombstone.tombstonePath.parent)
    s!"deletion tombstone {tombstone.tombstoneId.hyphenated} paths do not share one parent"
  ensure (tombstone.tombstonePath.fileName = tombstoneName tombstone.tombstoneId)
    s!"deletion tombstone {tombstone.tombstoneId.hyphenated} has an invalid path"

def reapMovedTombstone (moved : Stamp) : Async Unit := do
  match ← inspectFile tombstone.tombstonePath with
  | .missing => return ()
  | .regular _ fingerprint =>
    if fingerprint = moved then
      let removed ← removeFileIfFingerprintMatches tombstone.tombstonePath moved
      ensure removed
        (s!"deletion tombstone {tombstone.tombstoneId.hyphenated} changed before " ++
          "physical reclamation")
    else
      fail (s!"deletion tombstone {tombstone.tombstoneId.hyphenated} no longer identifies the " ++
        s!"moved output at {tombstone.tombstonePath.display}")
  | .foreign =>
    fail (s!"deletion tombstone {tombstone.tombstoneId.hyphenated} no longer identifies the " ++
      s!"moved output at {tombstone.tombstonePath.display}")

def markAndReap (moved : Stamp) : Async PreparedCleanupOutcome := do
  let marked ← markDeletionTombstoneMoved tombstone.tombstoneId moved
  ensure marked
    (s!"deletion tombstone {tombstone.tombstoneId.hyphenated} disappeared before move " ++
      "committed")
  reapMovedTombstone tombstone moved
  return .complete

def forgetPrepared (reason : String) (outcome : PreparedCleanupOutcome) :
    Async PreparedCleanupOutcome := do
  let cleared ← clearPreparedDeletionTombstone tombstone.tombstoneId
  ensure cleared
    s!"prepared deletion tombstone {tombstone.tombstoneId.hyphenated} disappeared {reason}"
  return outcome

/-- The original is gone: what stands at the tombstone was moved there by a call that was cut. -/
def processMoved : Async PreparedCleanupOutcome := do
  match ← inspectFile tombstone.tombstonePath with
  | .missing => return .complete
  | .regular id fingerprint =>
    if fingerprint.identity = tombstone.sourceFingerprint.identity ∧
        fingerprint.size = tombstone.sourceFingerprint.size then
      match ← verifyUncheckpointedMovedTombstone md4 id tombstone.tombstonePath
          tombstone.sourceFingerprint.size job.fileHash with
      | some verified => markAndReap tombstone verified
      | none =>
        fail (s!"deletion tombstone {tombstone.tombstoneId.hyphenated} does not contain the " ++
          "expected transferred bytes")
    else
      fail (s!"deletion tombstone {tombstone.tombstoneId.hyphenated} contains an unproven " ++
        s!"object at {tombstone.tombstonePath.display}")
  | .foreign =>
    fail (s!"deletion tombstone {tombstone.tombstoneId.hyphenated} contains an unproven " ++
      s!"object at {tombstone.tombstonePath.display}")

/-- Ghost: the output stands aside under the name of a tombstone. -/
def asideAt (path : NativePath) (id : Nat) (w : World) : World :=
  { w with renamed := w.renamed ++ [(id, path)] }

/-- Ghost: an object that is put back stands aside no more. -/
def putBack (id : Nat) (w : World) : World :=
  { w with renamed := w.renamed.filter fun entry => entry.1 ≠ id }

def moveAndReap (id : Nat) : Async PreparedCleanupOutcome := do
  match ← movePathNoReplace tombstone.originalPath tombstone.tombstonePath
      (asideAt tombstone.tombstonePath) with
  | .alreadyExists =>
    forgetPrepared tombstone "during collision recovery" .retryWithNewTombstone
  | .moved =>
    match ← captureMovedFingerprint id tombstone.tombstonePath with
    | some moved => markAndReap tombstone moved
    | none =>
      match ← movePathNoReplace tombstone.tombstonePath tombstone.originalPath putBack with
      | .moved => forgetPrepared tombstone "after restoration" .complete
      | .alreadyExists =>
        fail ("replacement raced into delivered-output deletion and could not be restored from " ++
          tombstone.tombstonePath.display)

def processPreparedTombstone : Async PreparedCleanupOutcome := do
  match ← inspectFile tombstone.originalPath with
  | .missing => processMoved md4 job tombstone
  | .regular id fingerprint =>
    if fingerprint = tombstone.sourceFingerprint then moveAndReap tombstone id
    else forgetPrepared tombstone "while preserving replacement" .complete
  | .foreign => forgetPrepared tombstone "while preserving replacement" .complete

def processTombstone : Async PreparedCleanupOutcome := do
  validateTombstone tombstone
  match tombstone.phase with
  | .prepared => processPreparedTombstone md4 job tombstone
  | .moved moved =>
    reapMovedTombstone tombstone moved
    return .complete

/-- Without a tombstone one is begun, if the output is there as it was recorded. -/
def chooseTombstone (authority : Option OwnedDeliveryOutput) (tombstoneId : Uuid) :
    Async (Option DeletionTombstone) := do
  match ← deletionTombstone with
  | some tombstone => return some tombstone
  | none =>
    match authority with
    | none => return none
    | some output =>
      match ← inspectFile output.path with
      | .regular _ fingerprint =>
        if fingerprint = output.fingerprint then
          let tombstone ← beginDeletionTombstone job tombstoneId output.path
            ⟨output.path.parent, tombstoneName tombstoneId⟩ output.fingerprint
          return some tombstone
        else return none
      | _ => return none

def cleanupDeliveryOutput (md4 : Md4) (job : DeliveryJob)
    (authority : Option OwnedDeliveryOutput) (ids : Nat → Uuid) : Nat → Async Unit
  | 0 => fail s!"failed to allocate a collision-free deletion tombstone for {job.hashText}"
  | turns + 1 => do
    match ← chooseTombstone job authority (ids turns) with
    | none => return ()
    | some tombstone =>
      match ← processTombstone md4 job tombstone with
      | .complete => return ()
      | .retryWithNewTombstone => cleanupDeliveryOutput md4 job authority ids turns

def cleanupDeliveryOutputForDeletion (authority : Option OwnedDeliveryOutput) (ids : Nat → Uuid) :
    Async Unit :=
  cleanupDeliveryOutput md4 job authority ids 4

def discardDeliveryAttemptForDeletion : Async (Option OwnedDeliveryOutput) := do
  match ← deliveryAttempt with
  | none => return none
  | some attempt =>
    validateDeliveryAttemptPaths attempt
    match attempt.phase with
    | .prepared =>
      let _ ← symlinkMetadata attempt.stagingPath
      let _ ← clearDeliveryAttempt attempt.attemptId
      return none
    | .staged staging =>
      discardStaging attempt staging
      let _ ← clearDeliveryAttempt attempt.attemptId
      return none
    | .published staging published =>
      discardStaging attempt staging
      return some ⟨attempt.targetPath, published⟩
where
  discardStaging (attempt : DeliveryAttempt) (staging : Stamp) : Async Unit := do
    match ← classifyAttemptArtifact md4 job attempt.stagingPath staging with
    | .owned =>
      let _ ← removeFileIfFingerprintMatches attempt.stagingPath staging
      return ()
    | _ => return ()

/-! ## The transfer directory -/

def nativeDirectoryIdentity (path : NativePath) : Async (Option Nat) :=
  read fun w =>
    (w.fs.find path).bind fun id =>
      if (w.fs.objects id).kind = .directory then some id else none

/-- `create_new`, together with the sixteen bytes. -/
def createMarker (markerPath : NativePath) (markerId : Uuid) : Async Unit :=
  transact fun w =>
    match w.fs.find markerPath with
    | some _ =>
      .error s!"failed to create transfer directory deletion marker {markerPath.display}"
    | none =>
      .ok ((), { w with fs := w.fs.create markerPath .regular markerId.toList })

def prepareTransferDirectoryDeletionAuthority (markerId : Uuid) :
    Async (Option TransferDirectoryDeletionAuthority) := do
  match ← symlinkMetadata job.transferPath with
  | some (.directory, _) =>
    createMarker (transferDirectoryAuthorityMarkerPath job.transferDir markerId) markerId
    match ← nativeDirectoryIdentity job.transferPath with
    | some identity => return some ⟨identity, markerId⟩
    | none =>
      fail ("ED2K transfer path is not a native directory with stable identity " ++
        job.transferPath.display)
  | _ => return none

def markerMatches (markerPath : NativePath) (markerId : Uuid) : Async Bool := do
  match ← openFile markerPath with
  | .missing => return false
  | .refused => fail "Too many levels of symbolic links"
  | .handle id => read fun w => decide ((w.fs.objects id).bytes = markerId.toList)

def validateTransferDirectoryAuthority (path : NativePath)
    (authority : TransferDirectoryDeletionAuthority) : Async Unit := do
  match ← nativeDirectoryIdentity path with
  | none =>
    fail ("ED2K transfer deletion path is not a native directory with stable identity " ++
      path.display)
  | some current =>
    ensure (current = authority.identity)
      s!"ED2K transfer directory deletion authority identity changed at {path.display}"
    let marked ← markerMatches
      (transferDirectoryAuthorityMarkerPath path.directory authority.markerId) authority.markerId
    ensure marked
      s!"ED2K transfer directory deletion authority marker changed at {path.display}"

def World.beneath (w : World) (directory : Directory) : List NativePath :=
  w.fs.entries.keysWhere fun path _ => path.beneath directory

/-- Ghost: objects that are renamed again stand aside no more. -/
def renamedAgain (ids : List Nat) (w : World) : World :=
  { w with renamed := w.renamed.filter fun entry => entry.1 ∉ ids }

/-- `move_path_no_replace` of a directory. What stands beneath it goes along, with its stamps; where
    no directory stands there is nothing beneath it either. -/
def moveDirectoryNoReplace (source destination : NativePath) : Async NoReplaceMoveOutcome :=
  transact fun w =>
    match w.fs.find source with
    | none => .error "No such file or directory"
    | some id =>
      match w.fs.find destination with
      | some _ => .ok (.alreadyExists, w)
      | none =>
        let inside := w.beneath source.directory
        let route := NativePath.reroute source.directory destination.directory
        if ∀ path ∈ inside, w.fs.find (route path) = none then
          .ok (.moved, renamedAgain (id :: inside.filterMap w.fs.find)
            { w with fs := (w.fs.relink inside route).rename source destination id })
        else .error "Directory not empty"

def unlinkAll : List NativePath → Async Unit
  | [] => return ()
  | path :: paths => do
    atomic fun w => ((), { w with fs := w.fs.remove path })
    unlinkAll paths

def removeDir (path : NativePath) : Async Unit :=
  transact fun w =>
    match w.fs.find path with
    | none => .error "No such file or directory"
    | some id =>
      if (w.fs.objects id).kind ≠ .directory then .error "Not a directory"
      else if w.beneath path.directory ≠ [] then .error "Directory not empty"
      else .ok ((), { w with fs := w.fs.remove path })

/-- What stands beneath the directory goes first, one path after the other. A link in its place is
    unlinked itself. -/
def removeDirAll (path : NativePath) : Async Unit := do
  match ← symlinkMetadata path with
  | none => fail "No such file or directory"
  | some (.regular, _) => fail "Not a directory"
  | some (.link _, _) => unlinkAll [path]
  | some (.directory, _) =>
    let inside ← read fun w => w.beneath path.directory
    unlinkAll inside
    removeDir path

def transferDirectoryDeletionAuthority : Async (Option TransferDirectoryDeletionAuthority) :=
  read fun w => w.transfer.bind fun row =>
    if row.deleteRequested then row.directoryAuthority else none

variable (authority : Option TransferDirectoryDeletionAuthority)

/-- The directory stands under its own name and is given the tombstone's. -/
def moveTransferDirectory (tombstoneExists : Bool) : Async Unit := do
  ensure (¬tombstoneExists)
    ("transfer directory tombstone already exists at " ++
      job.transferDirectoryTombstonePath.display)
  match authority with
  | none =>
    fail s!"ED2K deletion intent does not own the current transfer path {job.transferPath.display}"
  | some authority =>
    validateTransferDirectoryAuthority job.transferPath authority
    let outcome ← moveDirectoryNoReplace job.transferPath job.transferDirectoryTombstonePath
    ensure (outcome = .moved)
      ("transfer directory tombstone collision at " ++ job.transferDirectoryTombstonePath.display)

def reapTransferDirectory : Async Unit := do
  match authority with
  | none =>
    fail ("transfer directory tombstone has no durable authority at " ++
      job.transferDirectoryTombstonePath.display)
  | some authority =>
    validateTransferDirectoryAuthority job.transferDirectoryTombstonePath authority
    removeDirAll job.transferDirectoryTombstonePath

def cleanupTransferDirectoryWithAuthority : Async Unit := do
  let transferExists ← pathExists job.transferPath
  let tombstoneExists ← pathExists job.transferDirectoryTombstonePath
  (if transferExists then moveTransferDirectory job authority tombstoneExists else pure ())
  let remains ← pathExists job.transferDirectoryTombstonePath
  if remains then reapTransferDirectory job authority else return ()

def cleanupTransferDirectory : Async Unit := do
  let authority ← transferDirectoryDeletionAuthority
  cleanupTransferDirectoryWithAuthority job authority

/-! ## The deletion -/

def loadForDeletion : Async (Option TransferRow) := read World.transfer

/-- A request that is there already keeps its authority. -/
def requestTransferDeletion : Async Unit :=
  transact fun w =>
    match w.transfer with
    | none =>
      .error s!"ED2K transfer {job.hashText} disappeared before deletion intent was persisted"
    | some row =>
      .ok ((), { w with
        cleaned := false
        transfer := some { row with
          deleteRequested := true
          directoryAuthority := if row.deleteRequested then row.directoryAuthority
            else authority } })

def finalizeTransferDeletion : Async Unit :=
  transact fun w =>
    match w.transfer with
    | some row =>
      if row.deleteRequested then .ok ((), { w with transfer := none })
      else .error s!"ED2K transfer {job.hashText} lost its deletion intent before finalization"
    | none => .error s!"ED2K transfer {job.hashText} lost its deletion intent before finalization"

def completeTransferDeletion (manifest : TransferRow) (attempted : Option OwnedDeliveryOutput)
    (ids : Nat → Uuid) : Async Unit := do
  let output :=
    match attempted, manifest.delivery with
    | some output, _ => some output
    | none, .owned path fingerprint => some ⟨path, fingerprint⟩
    | none, _ => none
  cleanupDeliveryOutputForDeletion md4 job output ids
  atomic fun w => ((), { w with cleaned := true })
  cleanupTransferDirectory job
  finalizeTransferDeletion job

/-- The tombstones of the output take `ids 3` and down, the marker `ids 4`. -/
def deleteTransferFiles (ids : Nat → Uuid) : Async Bool := do
  match ← loadForDeletion with
  | none =>
    let present ← pathExists job.transferPath
    if present then
      removeDirAll job.transferPath
      return true
    else return false
  | some manifest =>
    if manifest.removed ∧ ¬manifest.deleteRequested then return false
    else
      let authority ←
        (if manifest.deleteRequested then pure none
        else prepareTransferDirectoryDeletionAuthority job (ids 4))
      requestTransferDeletion job authority
      let attempted ← discardDeliveryAttemptForDeletion md4 job
      completeTransferDeletion md4 job manifest attempted ids
      return true

/-! ## Others, and crashes -/

/-- What others do to the file system, between any two steps of a call. -/
inductive Action where
  /-- A new file where there is none. -/
  | create (path : NativePath) (kind : FileKind) (bytes : List UInt8)
  /-- Other bytes in the file at a path. -/
  | edit (path : NativePath) (bytes : List UInt8)
  /-- A new file in the place of another. -/
  | replace (path : NativePath) (kind : FileKind) (bytes : List UInt8)
  | remove (path : NativePath)

def act (action : Action) (w : World) : World :=
  match action with
  | .create path kind bytes =>
    match w.fs.find path with
    | none => { w with fs := w.fs.create path kind bytes }
    | some _ => w
  | .edit path bytes =>
    match w.fs.find path with
    | none => w
    | some id => { w with fs := w.fs.write id bytes }
  | .replace path kind bytes =>
    match w.fs.find path with
    | none => w
    | some _ => { w with fs := w.fs.create path kind bytes }
  | .remove path => { w with fs := w.fs.remove path }

def crashed (w : World) : World := { w with cleaned := false }

/-! ## The machine -/

/-- The calls of the lifecycle, with the identifiers they will draw. -/
inductive Call where
  | materialize (destDir : Directory) (ids : Nat → Uuid)
  /-- `recover_delivery_attempt_unlocked` alone. -/
  | recover
  | delete (ids : Nat → Uuid)

/-- What a call answers. -/
inductive Outcome where
  | delivery (outcome : Ed2kDeliveryOutcome)
  | recovered
  | deletion (deleted : Bool)

def Call.program : Call → Async Outcome
  | materialize destDir ids => do
    let outcome ← materializeCompletedPayload md4 job destDir ids
    return .delivery outcome
  | recover => do
    recoverDeliveryAttempt md4 job
    return .recovered
  | delete ids => do
    let deleted ← deleteTransferFiles md4 job ids
    return .deletion deleted

/-- The calls, the others and the crash on one world. -/
def machine : Machine World String Outcome Call Action where
  program := Call.program md4 job
  act := act
  crashed := crashed

def Interference (May : World → Action → Prop) (w w' : World) : Prop :=
  ∃ action, May w action ∧ w' = act action w

end EmuleBB.Delivery
