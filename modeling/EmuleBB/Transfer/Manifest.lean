import EmuleBB.Aich.Recovery
import EmuleBB.Lib.FirstMatch
import EmuleBB.Lib.Table
import EmuleBB.Transfer.BlockBitmap

/-!
# The resume manifest

One transfer's durable state: its pieces, its verified ranges, its hashsets and its completion
flags. A piece records presence in one of **two forms**: a byte count that stands for a
contiguous prefix, or the hex text of a block bitmap. `resolveBlockBitmap` reads either form and
`applyBlockBitmap` writes the compact one whenever it can; that the two agree is
`resolveBlockBitmap_applyBlockBitmap`.

Hashes are held decoded. The file hash is the identity of the transfer.
-/

namespace EmuleBB.Transfer

open PartBlockBitmap FirstMatch

open Aich (AichError)

variable {md4 : Md4}

/-! ## Pieces -/

/-- The state of a piece. -/
inductive Ed2kTransferState
  | missing
  | verified
  deriving DecidableEq, Repr

/-- What a write comes to. -/
inductive PieceWriteOutcome
  | incomplete
  | verified
  | verificationFailed (partIndex : Nat)
  | ichSalvaged (partIndex salvagedBytes : Nat)
  | ichRehashFailed (partIndex : Nat)
  deriving DecidableEq, Repr

/-- Per-piece status. `blockBitmap` is the persisted hex text; `none` stands for the contiguous
    prefix of `bytesWritten` bytes. -/
structure Ed2kPieceState where
  pieceIndex : Nat
  state : Ed2kTransferState
  bytesWritten : Nat
  blockBitmap : Option (List Char)
  ichCorrupted : Bool
  deriving DecidableEq

namespace Ed2kPieceState

/-- The presence bitmap of a piece of `partLen` bytes. `none` is the panic on a persisted text
    that was not validated before use. -/
def resolveBlockBitmap (p : Ed2kPieceState) (partLen : Nat) : Option PartBlockBitmap :=
  match p.blockBitmap with
  | some hex => fromHex partLen hex
  | none => some (contiguousPrefix partLen p.bytesWritten)

def hasBlockBitmap (p : Ed2kPieceState) : Bool := p.blockBitmap.isSome

/-- Record a bitmap: the byte count is its contiguous prefix, and the text is kept only when the
    prefix does not say everything. -/
def applyBlockBitmap (p : Ed2kPieceState) (bitmap : PartBlockBitmap) : Ed2kPieceState :=
  { p with
    bytesWritten := bitmap.contiguousPrefixBytes
    blockBitmap :=
      if bitmap.presentBytes = bitmap.contiguousPrefixBytes then none else some bitmap.toHex }

def verifiedPiece (p : Ed2kPieceState) (partLen : Nat) : Ed2kPieceState :=
  { p with
    bytesWritten := partLen, blockBitmap := none, state := .verified, ichCorrupted := false }

def missingWith (p : Ed2kPieceState) (bitmap : PartBlockBitmap) : Ed2kPieceState :=
  { p.applyBlockBitmap bitmap with state := .missing }

def missingPrefix (p : Ed2kPieceState) (bytesWritten : Nat) : Ed2kPieceState :=
  { p with bytesWritten := bytesWritten, state := .missing }

def reset (p : Ed2kPieceState) (ichCorrupted : Bool) : Ed2kPieceState :=
  { p with
    bytesWritten := 0, blockBitmap := none, state := .missing, ichCorrupted := ichCorrupted }

theorem resolveBlockBitmap_of_none {p : Ed2kPieceState} (h : p.blockBitmap = none) (partLen : Nat) :
    p.resolveBlockBitmap partLen = some (.contiguousPrefix partLen p.bytesWritten) := by
  unfold resolveBlockBitmap
  rw [h]

theorem resolveBlockBitmap_of_some {p : Ed2kPieceState} {hex : List Char}
    (h : p.blockBitmap = some hex) (partLen : Nat) :
    p.resolveBlockBitmap partLen = fromHex partLen hex := by
  unfold resolveBlockBitmap
  rw [h]

@[simp] theorem bytesWritten_applyBlockBitmap {p : Ed2kPieceState} {bitmap : PartBlockBitmap} :
    (p.applyBlockBitmap bitmap).bytesWritten = bitmap.contiguousPrefixBytes := rfl

/-- **Writing a bitmap and reading it back loses nothing**, whichever form it is stored in. -/
theorem resolveBlockBitmap_applyBlockBitmap (p : Ed2kPieceState) (bitmap : PartBlockBitmap) :
    (p.applyBlockBitmap bitmap).resolveBlockBitmap bitmap.partLen = some bitmap := by
  have hform : (p.applyBlockBitmap bitmap).blockBitmap =
      if bitmap.presentBytes = bitmap.contiguousPrefixBytes then none else some bitmap.toHex := rfl
  by_cases hclean : bitmap.presentBytes = bitmap.contiguousPrefixBytes
  · rw [if_pos hclean] at hform
    rw [resolveBlockBitmap_of_none hform, bytesWritten_applyBlockBitmap,
      contiguousPrefix_of_clean hclean]
  · rw [if_neg hclean] at hform
    rw [resolveBlockBitmap_of_some hform]
    exact bitmap.fromHex_toHex

theorem resolveBlockBitmap_missingWith (p : Ed2kPieceState) (bitmap : PartBlockBitmap) :
    (p.missingWith bitmap).resolveBlockBitmap bitmap.partLen = some bitmap :=
  resolveBlockBitmap_applyBlockBitmap p bitmap

end Ed2kPieceState

/-! ## Manifests -/

/-- Bytes that may be served: `stop` is the first one after them. -/
structure Ed2kSharedRange where
  start : Nat
  stop : Nat
  deriving DecidableEq, Repr

/-- Identity, size and timestamps of a payload file, as the file system reports them. -/
structure NativeFileFingerprint where
  identity : Nat
  sizeBytes : Nat
  modified : Nat
  changed : Option Nat
  deriving DecidableEq

/-- What is known of a download. -/
structure Ed2kResumeManifest where
  fileHash : Md4Digest
  fileSize : Nat
  pieceSize : Nat
  completed : Bool
  finalRehashPending : Bool
  md4HashsetAcquired : Bool
  md4Hashset : List Md4Digest
  aichHashsetAcquired : Bool
  aichRoot : Option Sha1Digest
  aichHashset : List Sha1Digest
  verifiedRanges : List Ed2kSharedRange
  pieces : List Ed2kPieceState
  payloadFingerprint : Option NativeFileFingerprint
  deriving DecidableEq

/-- What a download starts from. -/
structure Ed2kTransferJob where
  fileHash : Md4Digest
  fileSize : Nat
  pieceSize : Nat

/-- On `u32`, and saturating there. -/
def pieceCount (fileSize pieceSize : Nat) : Nat :=
  if fileSize = 0 ∨ pieceSize = 0 then 0
  else if chunkCount fileSize pieceSize < 2 ^ 32 then chunkCount fileSize pieceSize
  else 2 ^ 32 - 1

def expectedPieceLength (fileSize pieceSize pieceIndex : Nat) : Nat :=
  min (pieceIndex * pieceSize + pieceSize) fileSize - pieceIndex * pieceSize

def Ed2kPieceState.empty (pieceIndex : Nat) : Ed2kPieceState :=
  ⟨pieceIndex, .missing, 0, none, false⟩

namespace Ed2kResumeManifest

def new (job : Ed2kTransferJob) : Ed2kResumeManifest where
  fileHash := job.fileHash
  fileSize := job.fileSize
  pieceSize := job.pieceSize
  completed := false
  finalRehashPending := false
  md4HashsetAcquired := false
  md4Hashset := []
  aichHashsetAcquired := false
  aichRoot := none
  aichHashset := []
  verifiedRanges := []
  pieces := (List.range (pieceCount job.fileSize job.pieceSize)).map Ed2kPieceState.empty
  payloadFingerprint := none

variable (m : Ed2kResumeManifest)

def isFullyVerified : Bool :=
  m.pieces.all fun piece => piece.state = .verified

def manifestProgressBytes : Nat :=
  (m.pieces.map Ed2kPieceState.bytesWritten).sum

def pieceStart (pieceIndex : Nat) : Nat := pieceIndex * m.pieceSize

def pieceLen (pieceIndex : Nat) : Nat :=
  expectedPieceLength m.fileSize m.pieceSize pieceIndex

def findPiece (pieceIndex : Nat) : Option Ed2kPieceState :=
  m.pieces.find? fun piece => piece.pieceIndex = pieceIndex

end Ed2kResumeManifest

def modifyPieces (pieceIndex : Nat) (f : Ed2kPieceState → Ed2kPieceState) :
    List Ed2kPieceState → List Ed2kPieceState
  | [] => []
  | p :: ps => if p.pieceIndex = pieceIndex then f p :: ps else p :: modifyPieces pieceIndex f ps

def Ed2kResumeManifest.modifyPiece (m : Ed2kResumeManifest) (pieceIndex : Nat)
    (f : Ed2kPieceState → Ed2kPieceState) : Ed2kResumeManifest :=
  { m with pieces := modifyPieces pieceIndex f m.pieces }

/-- The loop of `rebuild_verified_ranges`: the ranges closed so far and the start of the open one.
    The product and the sum are `u64` ones, and wrap. -/
def rebuildRangesLoop (fileSize pieceSize : Nat) :
    List Ed2kPieceState → List Ed2kSharedRange → Option Nat → List Ed2kSharedRange
  | [], ranges, _ => ranges
  | piece :: pieces, ranges, activeStart =>
    let pieceStart := piece.pieceIndex * pieceSize % 2 ^ 64
    let pieceEnd := min ((pieceStart + pieceSize) % 2 ^ 64) fileSize
    if piece.state = .verified then
      let start := activeStart.getD pieceStart
      if pieceEnd = fileSize then
        rebuildRangesLoop fileSize pieceSize pieces (ranges ++ [⟨start, pieceEnd⟩]) none
      else rebuildRangesLoop fileSize pieceSize pieces ranges (some start)
    else
      match activeStart with
      | some start =>
        rebuildRangesLoop fileSize pieceSize pieces (ranges ++ [⟨start, pieceStart⟩]) none
      | none => rebuildRangesLoop fileSize pieceSize pieces ranges none

def rebuildVerifiedRanges (m : Ed2kResumeManifest) : Ed2kResumeManifest :=
  { m with verifiedRanges := rebuildRangesLoop m.fileSize m.pieceSize m.pieces [] none }

/-- Refresh the completion barrier after a piece-state transition. A completed manifest is never
    downgraded here. -/
def markFinalRehashPending (m : Ed2kResumeManifest) : Ed2kResumeManifest :=
  { m with finalRehashPending := if m.completed then false else m.isFullyVerified }

/-! ## Errors -/

/-- The failures of the manifest-locked operations, one per message. `unexpectedEof` is the
    short read of the payload file, `invalidBlockBitmap` the panic on an unvalidated bitmap. -/
inductive TransferError
  | missingPieceIndex (pieceIndex : Nat)
  | missingMd4HashsetEntry (part : Nat)
  | blockDataLen (pieceIndex start stop dataLen : Nat)
  | blockOutsidePiece (pieceIndex start stop pieceStart pieceEnd : Nat)
  | blockNotAligned (pieceIndex start stop : Nat)
  | blockOutsideEmuleBlock (pieceIndex start stop blockIdx blockStart blockEnd : Nat)
  | salvageDataLen (part start stop dataLen : Nat)
  | salvageOutsidePart (part start stop partStart partEnd : Nat)
  | salvageNotAligned (part start : Nat)
  | salvageNotBlock (part start stop blockIdx blockStart blockEnd : Nat)
  | salvagePartExceedsU16 (pieceIndex : Nat)
  | recheckChanged
  | payloadWithoutHashset
  | openPayload
  | unexpectedEof
  | invalidBlockBitmap
  | aich (error : AichError)
  deriving DecidableEq

/-! ## The MD4 authority -/

/-- The hash a part is checked with, where the hashset is known. -/
def expectedPartHash (m : Ed2kResumeManifest) (index : Nat) : Option Md4Digest :=
  if !m.md4HashsetAcquired then none
  else if m.md4Hashset.isEmpty then some m.fileHash
  else m.md4Hashset[index]?

def verifyPieceAgainstManifest (md4 : Md4) (m : Ed2kResumeManifest)
    (pieceIndex : Nat) (data : List UInt8) : Except TransferError Bool :=
  if m.md4HashsetAcquired then
    if m.md4Hashset.isEmpty then .ok (md4 data = m.fileHash)
    else
      match m.md4Hashset[pieceIndex]? with
      | none => .error (.missingMd4HashsetEntry pieceIndex)
      | some expected => .ok (md4 data = expected)
  else .ok false

/-- **A piece verifies exactly when its digest is the expected part hash.** -/
theorem verifyPieceAgainstManifest_eq_true
    {m : Ed2kResumeManifest} {pieceIndex : Nat} {data : List UInt8} :
    verifyPieceAgainstManifest md4 m pieceIndex data = .ok true ↔
      expectedPartHash m pieceIndex = some (md4 data) := by
  unfold verifyPieceAgainstManifest expectedPartHash
  cases hacq : m.md4HashsetAcquired with
  | false => simp
  | true =>
    cases hempty : m.md4Hashset.isEmpty with
    | true => simp [eq_comm]
    | false => cases hget : m.md4Hashset[pieceIndex]? <;> simp [eq_comm]

/-- The check of a part whose expected hash is known never fails with an error. -/
theorem verifyPieceAgainstManifest_of_expected
    {m : Ed2kResumeManifest} {pieceIndex : Nat} {digest : Md4Digest}
    (h : expectedPartHash m pieceIndex = some digest) (data : List UInt8) :
    verifyPieceAgainstManifest md4 m pieceIndex data = .ok (md4 data = digest) := by
  unfold expectedPartHash at h
  unfold verifyPieceAgainstManifest
  cases hacq : m.md4HashsetAcquired with
  | false => simp [hacq] at h
  | true =>
    cases hempty : m.md4Hashset.isEmpty with
    | true =>
      obtain rfl : m.fileHash = digest := by simpa [hacq, hempty] using h
      rfl
    | false =>
      have hget : m.md4Hashset[pieceIndex]? = some digest := by simpa [hacq, hempty] using h
      simp [hget]

/-! ## Updating one piece -/

section Pieces

variable {pieceIndex : Nat} {f : Ed2kPieceState → Ed2kPieceState} {pieces : List Ed2kPieceState}

theorem modifyPieces_eq : modifyPieces pieceIndex f pieces =
      modifyFirst (fun piece => piece.pieceIndex = pieceIndex) f pieces := by
  induction pieces with
  | nil => rfl
  | cons p ps ih => simp [modifyPieces, modifyFirst, ih]

theorem map_pieceIndex_modifyPieces (hf : ∀ p, (f p).pieceIndex = p.pieceIndex) :
    (modifyPieces pieceIndex f pieces).map Ed2kPieceState.pieceIndex =
      pieces.map Ed2kPieceState.pieceIndex := by
  rw [modifyPieces_eq]
  exact map_modifyFirst hf pieces

/-- **What an update can leave behind**: an untouched piece of another index, or the updated
    piece that the index finds. -/
theorem mem_modifyPieces (hnodup : (pieces.map Ed2kPieceState.pieceIndex).Nodup)
    {q : Ed2kPieceState} (hq : q ∈ modifyPieces pieceIndex f pieces) :
    (q ∈ pieces ∧ q.pieceIndex ≠ pieceIndex) ∨
      ∃ p, pieces.find? (fun piece => piece.pieceIndex = pieceIndex) = some p ∧ q = f p := by
  rw [modifyPieces_eq, modifyFirst_eq_map (k := pieceIndex) (by simp) hnodup] at hq
  obtain ⟨p, hp, rfl⟩ := List.mem_map.mp hq
  split
  · next hindex =>
    subst hindex
    exact .inr ⟨p, Table.lookup_of_mem hnodup hp, rfl⟩
  · next hindex => exact .inl ⟨hp, hindex⟩

end Pieces

theorem Ed2kResumeManifest.findPiece_eq_some {m : Ed2kResumeManifest} {pieceIndex : Nat}
    {p : Ed2kPieceState} (h : m.findPiece pieceIndex = some p) :
    p ∈ m.pieces ∧ p.pieceIndex = pieceIndex := by
  refine ⟨List.mem_of_find?_eq_some h, ?_⟩
  simpa using List.find?_some h

end EmuleBB.Transfer
