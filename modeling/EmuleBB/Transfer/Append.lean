import EmuleBB.Transfer.Manifest

/-!
# Writing blocks into the piece store

The three ways a received block reaches a part, each run under the manifest lock: the contiguous
fast path of `append_piece_block_inner`, the exact-block path it falls back to, and the salvage
write. All three overlay the payload first and settle the piece afterwards, by hashing the part from
disk; last they try the ICH re-hash, which may promote a part from bytes that were never re-sent.

A `WriteStep` keeps the payload apart from the result: **an error after the write leaves the
manifest alone but not the file**. `StoreAction` says which persistence helper the path ends in.
-/

namespace EmuleBB.Transfer

open Ed2kPieceState

/-- How a finished write is handed to the store: not at all (a duplicate block), as a full
    manifest store, or as batched progress of one piece. -/
inductive StoreAction
  | unchanged
  | full
  | progress (pieceIndex : Nat)
  deriving DecidableEq, Repr

/-- What a write leaves behind when it succeeds. -/
structure WriteDone where
  manifest : Ed2kResumeManifest
  outcome : PieceWriteOutcome
  store : StoreAction

/-- The payload file after a write attempt (`none` while the file does not exist) and its result. -/
structure WriteStep where
  payload : Option ByteSeq
  result : Except TransferError WriteDone

def writePayload (payload : Option ByteSeq) (start : Nat) (data : ByteSeq) : ByteSeq :=
  (payload.getD .empty).write start data

section

variable (md4 : Md4) (ichEnabled : Bool)

def verifyOnDisk (payload : ByteSeq) (m : Ed2kResumeManifest) (pieceIndex : Nat) :
    Except TransferError Bool :=
  match payload.readExact (m.pieceStart pieceIndex) (m.pieceLen pieceIndex) with
  | none => .error .unexpectedEof
  | some bytes => verifyPieceAgainstManifest md4 m pieceIndex bytes

/-! ## The ICH re-hash -/

inductive IchRehashResult
  | notAttempted
  | failed
  | salvaged (salvagedBytes : Nat)
  deriving DecidableEq, Repr

def ichTryRehashPartUnlocked (payload : Option ByteSeq) (m : Ed2kResumeManifest)
    (pieceIndex : Nat) : Except TransferError (Ed2kResumeManifest × IchRehashResult) :=
  if !ichEnabled then .ok (m, .notAttempted)
  else
    match m.findPiece pieceIndex with
    | none => .ok (m, .notAttempted)
    | some piece =>
      if !piece.ichCorrupted ∨ piece.state = .verified ∨ m.pieceLen pieceIndex = 0 ∨
          !m.md4HashsetAcquired then
        .ok (m, .notAttempted)
      else
        match piece.resolveBlockBitmap (m.pieceLen pieceIndex) with
        | none => .error .invalidBlockBitmap
        | some bitmap =>
          let presentBytes := max bitmap.presentBytes piece.bytesWritten
          match payload.bind
              (·.readExact (m.pieceStart pieceIndex) (m.pieceLen pieceIndex)) with
          -- the retained bytes are gone, so the re-hash counts as a miss
          | none => .ok (m, .failed)
          | some bytes => do
            if ← verifyPieceAgainstManifest md4 m pieceIndex bytes then
              let promoted := m.modifyPiece pieceIndex (·.verifiedPiece (m.pieceLen pieceIndex))
              return (markFinalRehashPending (rebuildVerifiedRanges promoted),
                .salvaged (m.pieceLen pieceIndex - presentBytes))
            else return (m, .failed)

def ichAfterWrite (payload : Option ByteSeq) (m : Ed2kResumeManifest) (pieceIndex : Nat) :
    Except TransferError (Ed2kResumeManifest × PieceWriteOutcome) := do
  let (m, result) ← ichTryRehashPartUnlocked md4 ichEnabled payload m pieceIndex
  match result with
  | .salvaged salvagedBytes => return (m, .ichSalvaged pieceIndex salvagedBytes)
  | .failed => return (m, .ichRehashFailed pieceIndex)
  | .notAttempted => return (m, .incomplete)

/-! ## Exact blocks -/

def settleBlock (payload : ByteSeq) (m : Ed2kResumeManifest) (pieceIndex : Nat)
    (bitmap : PartBlockBitmap) : Except TransferError (Ed2kResumeManifest × PieceWriteOutcome) := do
  let verified ← if bitmap.allPresent then verifyOnDisk md4 payload m pieceIndex else pure false
  let (m, outcome) ←
    if verified then
      pure (m.modifyPiece pieceIndex (·.verifiedPiece (m.pieceLen pieceIndex)), .verified)
    else if bitmap.allPresent then
      -- the bytes stay on disk and the part is flagged for the ICH re-hash
      pure (m.modifyPiece pieceIndex (·.reset true), .verificationFailed pieceIndex)
    else
      let m := m.modifyPiece pieceIndex (·.missingWith bitmap)
      ichAfterWrite md4 ichEnabled (some payload) m pieceIndex
  return (markFinalRehashPending (rebuildVerifiedRanges m), outcome)

/-- The range checks of `append_requested_block_by_bitmap_unlocked`: the bitmap of the piece and
    the index of the block the range covers exactly. -/
def checkRequestedBlock (m : Ed2kResumeManifest) (pieceIndex start stop dataLen : Nat) :
    Except TransferError (PartBlockBitmap × Nat) :=
  let pieceStart := m.pieceStart pieceIndex
  let pieceEnd := pieceStart + m.pieceLen pieceIndex
  if stop ≠ start + dataLen then .error (.blockDataLen pieceIndex start stop dataLen)
  else if start < pieceStart ∨ pieceEnd < stop then
    .error (.blockOutsidePiece pieceIndex start stop pieceStart pieceEnd)
  else if (start - pieceStart) % ed2kEmblockSize ≠ 0 then
    .error (.blockNotAligned pieceIndex start stop)
  else
    let blockIdx := (start - pieceStart) / ed2kEmblockSize
    match m.findPiece pieceIndex with
    | none => .error (.missingPieceIndex pieceIndex)
    | some piece =>
      match piece.resolveBlockBitmap (m.pieceLen pieceIndex) with
      | none => .error .invalidBlockBitmap
      | some bitmap =>
        let range := bitmap.blockRange blockIdx
        if start - pieceStart ≠ range.1 ∨ stop - pieceStart ≠ range.2 then
          .error (.blockOutsideEmuleBlock pieceIndex start stop blockIdx
            (pieceStart + range.1) (pieceStart + range.2))
        else .ok (bitmap, blockIdx)

/-- Where an exact-block append is stored: plain progress is batched, any transition is not. -/
def requestedBlockStore (pieceIndex : Nat) : PieceWriteOutcome → StoreAction
  | .incomplete => .progress pieceIndex
  | .ichRehashFailed _ => .progress pieceIndex
  | _ => .full

def appendRequestedBlockByBitmapUnlocked (payload : Option ByteSeq) (m : Ed2kResumeManifest)
    (pieceIndex start stop : Nat) (data : ByteSeq) : WriteStep :=
  match checkRequestedBlock m pieceIndex start stop data.len with
  | .error e => ⟨payload, .error e⟩
  | .ok (bitmap, blockIdx) =>
    if bitmap.isPresent blockIdx then ⟨payload, .ok ⟨m, .incomplete, .unchanged⟩⟩
    else
      let written := writePayload payload start data
      ⟨some written, do
        let (m, outcome) ←
          settleBlock md4 ichEnabled written m pieceIndex (bitmap.setPresent blockIdx)
        return ⟨m, outcome, requestedBlockStore pieceIndex outcome⟩⟩

/-! ## The contiguous fast path -/

def completePiece (payload : ByteSeq) (m : Ed2kResumeManifest) (pieceIndex : Nat) :
    Except TransferError WriteDone := do
  let verified ← verifyOnDisk md4 payload m pieceIndex
  let (m, outcome) :=
    if verified then
      (m.modifyPiece pieceIndex fun p =>
        { p with
          bytesWritten := m.pieceLen pieceIndex, state := .verified, ichCorrupted := false },
        PieceWriteOutcome.verified)
    else
      (m.modifyPiece pieceIndex fun p =>
        { p with state := .missing, bytesWritten := 0, ichCorrupted := true },
        .verificationFailed pieceIndex)
  return ⟨markFinalRehashPending (rebuildVerifiedRanges m), outcome, .full⟩

/-- A block inside a contiguous piece has been written: advance the prefix, and try the ICH
    re-hash when the piece is flagged. -/
def advancePiece (payload : ByteSeq) (m : Ed2kResumeManifest) (pieceIndex : Nat)
    (piece : Ed2kPieceState) (nextBytesWritten : Nat) : Except TransferError WriteDone := do
  let m := m.modifyPiece pieceIndex (·.missingPrefix nextBytesWritten)
  let (m, outcome) ←
    if piece.ichCorrupted then ichAfterWrite md4 ichEnabled (some payload) m pieceIndex
    else pure (m, .incomplete)
  let store := match outcome with
    | .ichSalvaged _ _ => StoreAction.full
    | _ => .progress pieceIndex
  return ⟨m, outcome, store⟩

def appendPieceBlockInner (payload : Option ByteSeq) (m : Ed2kResumeManifest)
    (pieceIndex start stop : Nat) (data : ByteSeq) : WriteStep :=
  match m.findPiece pieceIndex with
  | none => ⟨payload, .error (.missingPieceIndex pieceIndex)⟩
  | some piece =>
    let expectedStart := m.pieceStart pieceIndex + piece.bytesWritten
    let pieceEnd := m.pieceStart pieceIndex + m.pieceLen pieceIndex
    if piece.hasBlockBitmap ∨ start ≠ expectedStart ∨ stop ≠ expectedStart + data.len ∨
        pieceEnd < stop then
      appendRequestedBlockByBitmapUnlocked md4 ichEnabled payload m pieceIndex start stop data
    else
      let written := writePayload payload start data
      let nextBytesWritten := piece.bytesWritten + data.len
      if nextBytesWritten = m.pieceLen pieceIndex then
        ⟨some written, completePiece md4 written m pieceIndex⟩
      else ⟨some written, advancePiece md4 ichEnabled written m pieceIndex piece nextBytesWritten⟩

/-! ## The salvage write -/

/-- The range checks of `write_salvage_block_unfinalized`, in its own order and words. Whether
    the block is already present, or the piece already verified, is not asked. -/
def checkSalvageBlock (m : Ed2kResumeManifest) (part start stop dataLen : Nat) :
    Except TransferError (PartBlockBitmap × Nat) :=
  let partStart := m.pieceStart part
  let partEnd := partStart + m.pieceLen part
  if stop ≠ start + dataLen then .error (.salvageDataLen part start stop dataLen)
  else if start < partStart ∨ partEnd < stop then
    .error (.salvageOutsidePart part start stop partStart partEnd)
  else if (start - partStart) % ed2kEmblockSize ≠ 0 then .error (.salvageNotAligned part start)
  else
    let blockIdx := (start - partStart) / ed2kEmblockSize
    match m.findPiece part with
    | none => .error (.missingPieceIndex part)
    | some piece =>
      match piece.resolveBlockBitmap (m.pieceLen part) with
      | none => .error .invalidBlockBitmap
      | some bitmap =>
        let range := bitmap.blockRange blockIdx
        if start - partStart ≠ range.1 ∨ stop - partStart ≠ range.2 then
          .error (.salvageNotBlock part start stop blockIdx
            (partStart + range.1) (partStart + range.2))
        else .ok (bitmap, blockIdx)

def writeSalvageBlockUnfinalized (payload : Option ByteSeq) (m : Ed2kResumeManifest)
    (part start stop : Nat) (data : ByteSeq) : WriteStep :=
  match checkSalvageBlock m part start stop data.len with
  | .error e => ⟨payload, .error e⟩
  | .ok (bitmap, blockIdx) =>
    let written := writePayload payload start data
    ⟨some written, do
      let (m, outcome) ← settleBlock md4 ichEnabled written m part (bitmap.setPresent blockIdx)
      return ⟨m, outcome, .full⟩⟩

end

/-! ## Starting a salvage -/

structure PartSalvageOutcome where
  recoveredRanges : List (Nat × Nat)
  neededRanges : List (Nat × Nat)

def salvageBitmap (partLen partStart : Nat) (recovered : List (Nat × Nat)) : PartBlockBitmap :=
  recovered.foldl
    (fun bitmap range => bitmap.setPresent ((range.1 - partStart) / ed2kEmblockSize))
    (.empty partLen)

def beginPartSalvage (sha1 : Sha1) (payload : Option ByteSeq)
    (m : Ed2kResumeManifest) (part : Nat) (masterHash : Sha1Digest) (recoveryBody : List UInt8) :
    Except TransferError (Option (Ed2kResumeManifest × PartSalvageOutcome)) :=
  if m.aichRoot ≠ some masterHash then .ok none
  else if m.pieceLen part = 0 then .ok none
  else
    match m.findPiece part with
    | none => .ok none
    | some piece =>
      if piece.state = .verified then .ok none
      else
        match payload with
        | none => .error .openPayload
        | some file =>
          match file.readExact (m.pieceStart part) (m.pieceLen part) with
          | none => .error .unexpectedEof
          | some partBytes =>
            match Aich.trustedPartBlockHashesFromRecovery sha1 m.fileSize masterHash part
                recoveryBody with
            | .error e => .error (.aich e)
            | .ok trusted =>
              match Aich.computePartRecovery sha1 m.fileSize part partBytes trusted with
              | .error e => .error (.aich e)
              | .ok recovery =>
                let bitmap := salvageBitmap (m.pieceLen part) (m.pieceStart part)
                  recovery.recoveredRanges
                .ok (some (m.modifyPiece part (·.missingWith bitmap),
                  ⟨recovery.recoveredRanges, recovery.corruptRanges⟩))

/-- The locked probe of `append_or_salvage_block_with_manifest`; an unknown piece
    is not salvaged. -/
def probeSalvage (m : Ed2kResumeManifest) (pieceIndex : Nat) : Bool :=
  match m.findPiece pieceIndex with
  | some piece => piece.hasBlockBitmap
  | none => false

end EmuleBB.Transfer
