import EmuleBB.Transfer.Append

/-!
# Whole-file completion and re-verification

The operations that take a piece's `Verified` mark away again, and the one that turns a fully
verified transfer into a completed one. The final re-hash works in **two locked phases** with
the hashing between them: the first phase withdraws `completed` and raises the pending bit, the
second decides from what was hashed. A partial recheck hashes against a snapshot and gives up
when the manifest moved on in the meantime.
-/

namespace EmuleBB.Transfer

open Ed2kPieceState

/-- What hashing the whole payload found. `recovery` is the AICH master with its part roots. -/
structure FinalRehashComputation where
  recovery : Option (Sha1Digest × List Sha1Digest)
  actualLen : Nat
  fileHash : Option Md4Digest
  partHashes : List (Option Md4Digest)
  payloadFingerprint : Option NativeFileFingerprint

section

variable (md4 : Md4) (sha1 : Sha1)

variable (payload : ByteSeq) (expectedSize : Nat)

def partDigests : List (Option Md4Digest) :=
  (List.range (chunkCount expectedSize ed2kPartSize)).map fun part =>
    (payload.readExact (part * ed2kPartSize)
      (min (expectedSize - part * ed2kPartSize) ed2kPartSize)).map md4

def ed2kFileHash (parts : List Md4Digest) : Md4Digest :=
  if expectedSize = 0 then md4 []
  else if expectedSize < ed2kPartSize then parts.headD (md4 [])
  else
    md4 ((if expectedSize % ed2kPartSize = 0 then parts ++ [md4 []] else parts).flatMap
      Vector.toList)

def payloadFileHash : Option Md4Digest :=
  if (partDigests md4 payload expectedSize).all Option.isSome then
    some (ed2kFileHash md4 expectedSize ((partDigests md4 payload expectedSize).filterMap id))
  else none

def payloadRecovery : Option (Sha1Digest × List Sha1Digest) := do
  let leaves ← (List.range (chunkCount expectedSize ed2kPartSize)).mapM fun part =>
    (Aich.readBlockHashes sha1 payload (part * ed2kPartSize)
      (min (expectedSize - part * ed2kPartSize) ed2kPartSize)).toOption
  (Aich.recoveryRoots sha1 expectedSize (leaves.map Aich.packLeaves)).toOption

/-- `compute_final_rehash` over a payload that does not change while it is read. `fingerprint` is
    what the file system reported, when it was stable enough to be kept. -/
def computeFinalRehash (fingerprint : Option NativeFileFingerprint) : FinalRehashComputation where
  recovery :=
    if 0 < expectedSize ∧ payload.len = expectedSize ∧
        (partDigests md4 payload expectedSize).all Option.isSome then
      payloadRecovery sha1 payload expectedSize
    else none
  actualLen := payload.len
  fileHash := payloadFileHash md4 payload expectedSize
  partHashes := partDigests md4 payload expectedSize
  payloadFingerprint := fingerprint

def failedContentComputation (actualLen : Nat) : FinalRehashComputation where
  recovery := none
  actualLen := actualLen
  fileHash := none
  partHashes := List.replicate (chunkCount expectedSize ed2kPartSize) none
  payloadFingerprint := none

end

section

variable (m : Ed2kResumeManifest) (computation : FinalRehashComputation)

def isDamaged (index : Nat) : Bool :=
  (expectedPartHash m index).isNone ||
    (computation.partHashes[index]?).join ≠ expectedPartHash m index

def damagedPartIndexes : List Nat :=
  (m.pieces.map pieceIndex).filter (isDamaged m computation)

def damagedVerifiedPartIndexes : List Nat :=
  ((m.pieces.filter fun piece => piece.state = .verified).map pieceIndex).filter
    (isDamaged m computation)

end

def resetListed (damaged : List Nat) (ichCorrupted : Nat → Bool) (piece : Ed2kPieceState) :
    Ed2kPieceState :=
  if piece.pieceIndex ∈ damaged then piece.reset (ichCorrupted piece.pieceIndex) else piece

def resetPieces (m : Ed2kResumeManifest) (damaged : List Nat) (ichCorrupted : Nat → Bool) :
    Ed2kResumeManifest :=
  { m with pieces := m.pieces.map (resetListed damaged ichCorrupted) }

/-! ## The final re-hash -/

def demoteManifestAfterPayloadReset (m : Ed2kResumeManifest) : Ed2kResumeManifest :=
  rebuildVerifiedRanges
    { m with
      pieces := m.pieces.map (·.reset false)
      completed := false
      finalRehashPending := false
      payloadFingerprint := none }

structure RehashStart where
  manifest : Ed2kResumeManifest
  payload : Option ByteSeq
  hashing : Bool

def finalRehashBegin (force : Bool) (payload : Option ByteSeq) (m : Ed2kResumeManifest) :
    RehashStart :=
  if !force && !m.finalRehashPending then ⟨m, payload, false⟩
  else if force && !(m.completed || m.isFullyVerified) then ⟨m, payload, false⟩
  else
    let pending :=
      { m with completed := false, finalRehashPending := true, payloadFingerprint := none }
    match payload with
    | none => ⟨demoteManifestAfterPayloadReset pending, some .empty, false⟩
    | some file => ⟨pending, some file, true⟩

/-- The manifest of a transfer whose whole-file hash matched. A local AICH set fills a missing
    root or hashset. -/
def completeManifest (m : Ed2kResumeManifest) (computation : FinalRehashComputation) :
    Ed2kResumeManifest :=
  let done :=
    { m with
      completed := true
      finalRehashPending := false
      payloadFingerprint := computation.payloadFingerprint }
  match computation.recovery with
  | some (root, partRoots) =>
    if m.aichRoot.isNone || !m.aichHashsetAcquired then
      { done with
        aichRoot := some root
        aichHashset := if partRoots.length = 1 then [] else partRoots
        aichHashsetAcquired := true }
    else done
  | none => done

def finalRehashFinish (computation : FinalRehashComputation) (payload : Option ByteSeq)
    (m : Ed2kResumeManifest) : Option ByteSeq × Ed2kResumeManifest :=
  if !m.finalRehashPending then (payload, m)
  else if computation.actualLen = m.fileSize ∧ computation.fileHash = some m.fileHash then
    (payload, completeManifest m computation)
  else
    -- an oversized payload is moved aside and recreated empty
    let oversized := decide (m.fileSize < computation.actualLen)
    let payloadReset := oversized || (computation.actualLen = 0 && 0 < m.fileSize)
    let found := if oversized then [] else damagedPartIndexes m computation
    let damaged := if found.isEmpty then m.pieces.map pieceIndex else found
    (if oversized then some .empty else payload,
      rebuildVerifiedRanges
        { resetPieces m damaged (fun _ => !payloadReset) with
          completed := false
          finalRehashPending := false
          payloadFingerprint := none })

/-! ## Partial recheck -/

def recheckApplies (m : Ed2kResumeManifest) : Bool :=
  !(m.completed || m.isFullyVerified) && m.pieces.any fun piece => piece.state = .verified

def recheckFinish (snapshot : Ed2kResumeManifest) (computation : FinalRehashComputation)
    (m : Ed2kResumeManifest) : Except TransferError Ed2kResumeManifest :=
  if m.fileSize = snapshot.fileSize ∧ m.pieceSize = snapshot.pieceSize ∧
      m.md4HashsetAcquired = snapshot.md4HashsetAcquired ∧
      m.md4Hashset = snapshot.md4Hashset ∧ m.pieces = snapshot.pieces ∧ !m.completed ∧
      !m.isFullyVerified then
    let damaged := damagedVerifiedPartIndexes snapshot computation
    .ok (rebuildVerifiedRanges
      (resetPieces m damaged fun index => ((computation.partHashes[index]?).join).isSome))
  else .error .recheckChanged

/-! ## Upload-time failures -/

def incompletePartHashes (m : Ed2kResumeManifest) : List Md4Digest :=
  if m.md4Hashset.isEmpty then [m.fileHash] else m.md4Hashset

def currentIncompletePartMatches (md4 : Md4) (payload : Option ByteSeq)
    (m : Ed2kResumeManifest) (pieceIndex : Nat) : Except TransferError Bool :=
  if !m.md4HashsetAcquired then .error .payloadWithoutHashset
  else
    match (incompletePartHashes m)[pieceIndex]? with
    | none => .error (.missingMd4HashsetEntry pieceIndex)
    | some expected =>
      match payload.bind (·.readExact (m.pieceStart pieceIndex) (m.pieceLen pieceIndex)) with
      | none => .ok false
      | some bytes => .ok (md4 bytes = expected)

/-- The verified parts an upload-time failure puts in doubt: the one reported, or all of them. -/
def reconcileSuspects (m : Ed2kResumeManifest) : Option Nat → List Nat
  | some index =>
    match m.findPiece index with
    | some piece => if piece.state = .verified then [index] else []
    | none => []
  | none => (m.pieces.filter fun piece => piece.state = .verified).map pieceIndex

def reconcileIncompletePayloadFailure (md4 : Md4) (payload : Option ByteSeq)
    (m : Ed2kResumeManifest) (reported : Option Nat) : Except TransferError Ed2kResumeManifest :=
  if m.completed || m.finalRehashPending then .ok m
  else do
    let damaged ← (reconcileSuspects m reported).filterM fun index => do
      return !(← currentIncompletePartMatches md4 payload m index)
    if damaged.isEmpty then return m
    else return rebuildVerifiedRanges (resetPieces m damaged fun _ => reported.isSome)

/-- `withdraw_untrusted_verified_payload` for a completed transfer: a payload whose fingerprint is
    the one on record but which no longer reads back is handed to the final re-hash. -/
def withdrawUntrustedVerifiedPayload (m : Ed2kResumeManifest)
    (expected : Option NativeFileFingerprint) : Ed2kResumeManifest :=
  if !m.completed ∨ m.payloadFingerprint ≠ expected then m
  else { m with completed := false, finalRehashPending := true, payloadFingerprint := none }

end EmuleBB.Transfer
