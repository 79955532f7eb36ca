import EmuleBB.Aich.Tree

/-!
# AICH hashsets: part geometry and root reconstruction

The list-based half of the AICH code, which never builds a node tree: the part specs of a file,
the root of one part from its block hashes, the master from the part roots, and the roots from the
packed leaves of a payload. Each of these walks the same unbalanced split on its own recursion;
nothing here assumes that they agree with the node tree.
-/

namespace EmuleBB.Aich

/-- Offset and length of each block of `size` bytes: the turns of every
    `while pos < size` loop over blocks. -/
def blockSpans (size : Nat) : List (Nat × Nat) :=
  (List.range (chunkCount size ed2kEmblockSize)).map fun i =>
    (i * ed2kEmblockSize, min (size - i * ed2kEmblockSize) ed2kEmblockSize)

structure AichPartSpec where
  size : Nat
  isLeftBranch : Bool
  deriving DecidableEq

def collectAichPartSpecs (size : Nat) (isLeftBranch : Bool) : List AichPartSpec :=
  if _h : size ≤ ed2kPartSize then [⟨size, isLeftBranch⟩]
  else
    collectAichPartSpecs (childSizes size isLeftBranch ed2kPartSize).1 true ++
      collectAichPartSpecs (childSizes size isLeftBranch ed2kPartSize).2 false
  termination_by size
  decreasing_by
    all_goals
      have hb := childSizes_fst_bounds isLeftBranch ed2kPartSize_pos (Nat.lt_of_not_le _h)
      have hr := childSizes_snd size isLeftBranch ed2kPartSize
      omega

def aichPartSpecsForSize (fileSize : Nat) : List AichPartSpec := collectAichPartSpecs fileSize true

/-- `u16::try_from(count).unwrap_or(u16::MAX)`. -/
def saturateU16 (count : Nat) : Nat := if count < 2 ^ 16 then count else 2 ^ 16 - 1

def expectedAichHashCount (fileSize : Nat) : Nat :=
  if fileSize ≤ ed2kPartSize then 0 else saturateU16 (chunkCount fileSize ed2kPartSize)

section

variable (sha1 : Sha1)

def buildAichBlockTreeRoot (size : Nat) (isLeftBranch : Bool) (blockHashes : List Sha1Digest)
    (blockOffset : Nat) : Except AichError Sha1Digest :=
  if _h : size ≤ ed2kEmblockSize then
    match blockHashes[blockOffset]? with
    | some hash => .ok hash
    | none => .error (.missingBlockHashAt blockOffset)
  else do
    let left ← buildAichBlockTreeRoot (childSizes size isLeftBranch ed2kEmblockSize).1 true
      blockHashes blockOffset
    let right ← buildAichBlockTreeRoot (childSizes size isLeftBranch ed2kEmblockSize).2 false
      blockHashes
      (blockOffset + chunkCount (childSizes size isLeftBranch ed2kEmblockSize).1 ed2kEmblockSize)
    return AichHashTree.sha1Pair sha1 left right
  termination_by size
  decreasing_by
    all_goals
      have hb := childSizes_fst_bounds isLeftBranch ed2kEmblockSize_pos (Nat.lt_of_not_le _h)
      have hr := childSizes_snd size isLeftBranch ed2kEmblockSize
      omega

/-- The recursion of `reconstruct_aich_root_from_part_hashes`. -/
def buildPartRoot (start size : Nat) (isLeftBranch : Bool) (partHashes : List Sha1Digest) :
    Except AichError Sha1Digest :=
  if _h : size ≤ ed2kPartSize then
    match partHashes[start / ed2kPartSize]? with
    | some hash => .ok hash
    | none => .error (.missingPartHash (start / ed2kPartSize))
  else do
    let left ← buildPartRoot start (childSizes size isLeftBranch ed2kPartSize).1 true partHashes
    let right ← buildPartRoot (start + (childSizes size isLeftBranch ed2kPartSize).1)
      (childSizes size isLeftBranch ed2kPartSize).2 false partHashes
    return AichHashTree.sha1Pair sha1 left right
  termination_by size
  decreasing_by
    all_goals
      have hb := childSizes_fst_bounds isLeftBranch ed2kPartSize_pos (Nat.lt_of_not_le _h)
      have hr := childSizes_snd size isLeftBranch ed2kPartSize
      omega

def reconstructAichRootFromPartHashes (fileSize : Nat) (partHashes : List Sha1Digest) :
    Except AichError Sha1Digest :=
  buildPartRoot sha1 0 fileSize true partHashes

def validateAichPartHashes (fileSize : Nat) (master : Sha1Digest) (parts : List Sha1Digest) :
    Except AichError Unit :=
  if parts.length ≠ expectedAichHashCount fileSize then
    .error (.hashsetLength parts.length (expectedAichHashCount fileSize) fileSize)
  else if expectedAichHashCount fileSize = 0 then .ok ()
  else do
    let reconstructed ← reconstructAichRootFromPartHashes sha1 fileSize parts
    if reconstructed ≠ master then throw .hashsetMasterMismatch

/-! ## Hashing a payload -/

def readBlockHashes (payload : ByteSeq) (pos size : Nat) : Except AichError (List Sha1Digest) :=
  (blockSpans size).mapM fun (offset, len) =>
    match payload.readExact (pos + offset) len with
    | some bytes => .ok (sha1 bytes)
    | none => .error .payloadTooShort

def packLeaves (hashes : List Sha1Digest) : List UInt8 := hashes.flatMap Vector.toList

structure Ed2kAichHashset where
  masterHash : Sha1Digest
  partHashes : List Sha1Digest

/-! ## Recovery sets from packed leaves -/

/-- `as_chunks::<20>`: whole digests off the front, a remainder ignored. -/
def asChunks20 (packed : List UInt8) : List Sha1Digest :=
  go (packed.length / 20) packed
where
  go : Nat → List UInt8 → List Sha1Digest
    | 0, _ => []
    | count + 1, bytes =>
      match takeSha1 bytes with
      | some (hash, rest) => hash :: go count rest
      | none => []

def partRootsOfLeaves : List AichPartSpec → List (List UInt8) → Except AichError (List Sha1Digest)
  | spec :: specs, packed :: parts =>
    if packed.length ≠ chunkCount spec.size ed2kEmblockSize * 20 then
      .error .invalidRecoveryBlockCount
    else do
      let root ← buildAichBlockTreeRoot sha1 spec.size spec.isLeftBranch (asChunks20 packed) 0
      let rest ← partRootsOfLeaves specs parts
      return root :: rest
  | _, _ => .ok []

def maxRecoveryFileSize : Nat := 0x4000000000

def recoveryRoots (size : Nat) (parts : List (List UInt8)) :
    Except AichError (Sha1Digest × List Sha1Digest) :=
  if ¬(0 < size ∧ size ≤ maxRecoveryFileSize) then .error .invalidRecoveryFileSize
  else if parts.length ≠ (aichPartSpecsForSize size).length then .error .incompleteRecoverySet
  else do
    let roots ← partRootsOfLeaves sha1 (aichPartSpecsForSize size) parts
    let actual ←
      match roots with
      | [root] => pure root
      | _ => reconstructAichRootFromPartHashes sha1 size roots
    return (actual, roots)

end

end EmuleBB.Aich
