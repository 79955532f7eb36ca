import EmuleBB.Aich.Hashset

/-!
# The whole-file AICH recovery set

One file's recovery tree with its size, and the body of an OP_AICHANSWER for one part read into it
against a trusted master hash. `trustedPartBlockHashesFromRecovery` is the receiver's entry point,
and `computePartRecovery` is the verdict that drives salvage.
-/

namespace EmuleBB.Aich

open AichHashTree

/-- Size of one part. The product and the difference are `u64` ones, and wrap for a part that starts
    past the end of the file. -/
def partSize (fileSize part : Nat) : Nat :=
  min ((fileSize + (2 ^ 64 - part * ed2kPartSize % 2 ^ 64)) % 2 ^ 64) ed2kPartSize

theorem partSize_of_lt {fileSize part : Nat} (hpart : part * ed2kPartSize < fileSize)
    (hsize : fileSize < 2 ^ 64) :
    partSize fileSize part = min (fileSize - part * ed2kPartSize) ed2kPartSize := by
  rw [partSize]
  omega

structure AichRecoveryHashSet where
  root : AichHashTree
  fileSize : Nat

namespace AichRecoveryHashSet

def new (fileSize : Nat) : AichRecoveryHashSet :=
  ⟨AichHashTree.new fileSize true (baseFor fileSize), fileSize⟩

variable (set : AichRecoveryHashSet)

def setMasterHash (hash : Sha1Digest) : AichRecoveryHashSet :=
  match set.root with
  | absent => set
  | node n l r => { set with root := node { n with hash := hash, hashValid := true } l r }

/-! ## The recovery body of one part -/

/-- The hashes a body for the part has to hold: one beside each step down to the part, and one for
    each of its blocks. -/
def hashesForPart (part : Nat) : AichHashTree × Nat :=
  let res := findHashMut maxLevel set.root (part * ed2kPartSize) (partSize set.fileSize part)
  (res.tree, res.level - 1 + chunkCount (partSize set.fileSize part) ed2kEmblockSize)

def readHashes (wide : Bool) : Nat → AichHashTree → List UInt8 → Except AichError AichHashTree
  | 0, t, _ => .ok t
  | count + 1, t, body =>
    match takeLe (if wide then 4 else 2) body with
    | none => .error (if wide then .shortU32 else .shortU16)
    | some (ident, rest) =>
      match takeSha1 rest with
      | none => .error .shortHash
      | some (digest, rest) =>
        if wide then
          if ident = 1 ∨ 0x400000 < ident then .error .readInvalidIdent32
          else do readHashes wide count (← t.setHash digest ident false) rest
        else if ident = 1 then .error .readMasterOverwrite
        else do readHashes wide count (← t.setHash digest ident false) rest

def readCountedHashes (t : AichHashTree) (hashesToRead : Nat) (body : List UInt8) :
    Except AichError AichHashTree :=
  match takeLe 2 body with
  | none => .error .shortU16
  | some (available16, rest) =>
    if available16 ≠ 0 then
      if available16 ≠ hashesToRead then .error .readCountMismatch16
      else if rest.length < available16 * (20 + 2) then .error .readShortData16
      else readHashes false available16 t rest
    else
      match takeLe 2 rest with
      | none => .error .shortU16
      | some (available32, rest) =>
        if available32 ≠ hashesToRead then .error .readCountMismatch32
        else if rest.length < available32 * (20 + 4) then .error .readShortData32
        else readHashes true available32 t rest

section

variable (sha1 : Sha1)

def readRecoveryData (set : AichRecoveryHashSet) (part : Nat) (body : List UInt8) :
    Except AichError AichRecoveryHashSet :=
  if !set.root.hashValid then .error .readNoMasterHash
  else do
    let (tree, hashesToRead) := set.hashesForPart part
    let filled ← readCountedHashes tree hashesToRead body
    let result := verifyHashTree sha1 true filled
    if !result.2 then throw .readVerificationFailed
    -- all lowest-level block hashes of the part are there
    if (blockSpans (partSize set.fileSize part)).all fun (offset, len) =>
        (result.1.existing (part * ed2kPartSize + offset) len).isSome then
      return { set with root := result.1 }
    else throw .readMissingBlockHash

end

def partBlockHashes (part : Nat) : Except AichError (List Sha1Digest) :=
  (blockSpans (partSize set.fileSize part)).mapM fun (offset, len) =>
    match set.root.existing (part * ed2kPartSize + offset) len with
    | some n => .ok n.hash
    | none => .error .missingBlockHash

end AichRecoveryHashSet

section

variable (sha1 : Sha1)

def trustedPartBlockHashesFromRecovery (fileSize : Nat) (masterHash : Sha1Digest) (part : Nat)
    (recoveryBody : List UInt8) : Except AichError (List Sha1Digest) := do
  let set ← ((AichRecoveryHashSet.new fileSize).setMasterHash masterHash).readRecoveryData sha1
    part recoveryBody
  set.partBlockHashes part

/-- The good and the bad ranges of the file, block by block. -/
structure AichRecoveryOutcome where
  recoveredRanges : List (Nat × Nat)
  corruptRanges : List (Nat × Nat)

def compareBlocks (partData : List UInt8) (start : Nat) :
    List (Nat × Nat) → List Sha1Digest → Except AichError AichRecoveryOutcome
  | [], _ => .ok ⟨[], []⟩
  | _ :: _, [] => .error .recoveryMissingTrustedHash
  | (pos, len) :: spans, trusted :: hashes => do
    let rest ← compareBlocks partData start spans hashes
    let range := (start + pos, start + pos + len)
    if sha1 ((partData.drop pos).take len) = trusted then
      return { rest with recoveredRanges := range :: rest.recoveredRanges }
    else return { rest with corruptRanges := range :: rest.corruptRanges }

/-- The bytes of the part against its trusted block hashes. -/
def computePartRecovery (fileSize part : Nat) (partData : List UInt8)
    (trustedBlockHashes : List Sha1Digest) : Except AichError AichRecoveryOutcome :=
  if partData.length ≠ partSize fileSize part then
    .error (.recoveryDataLen partData.length (partSize fileSize part))
  else
    compareBlocks sha1 partData (part * ed2kPartSize) (blockSpans (partSize fileSize part))
      trustedBlockHashes

end

end EmuleBB.Aich
