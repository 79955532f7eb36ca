import Mathlib.Tactic.SplitIfs
import EmuleBB.Wire

/-!
# The block-level AICH hash tree

A node covers `dataSize` bytes; its children split them at a multiple of its base size, the part
size above the part level and the block size below it, by the side of its parent the node is on.
Nodes are created lazily, by the search that looks for them or by the ident that addresses them, and
a node's hash counts only when it is marked valid.

`absent` is the source's `None`. Levels are counted down from the source's limit.
-/

namespace EmuleBB.Aich

/-- The errors, one for each message of the source. -/
inductive AichError
  | setHashInvalidIdent
  | setHashBelowBaseSize
  | readNoMasterHash
  | readCountMismatch16
  | readShortData16
  | readMasterOverwrite
  | readCountMismatch32
  | readShortData32
  | readInvalidIdent32
  | readVerificationFailed
  | readMissingBlockHash
  | missingBlockHash
  | shortU16
  | shortU32
  | shortHash
  | recoveryDataLen (dataLen partSize : Nat)
  | recoveryMissingTrustedHash
  | payloadTooShort
  | missingPartHash (index : Nat)
  | missingBlockHashAt (index : Nat)
  | hashsetLength (actual expected fileSize : Nat)
  | hashsetMasterMismatch
  | invalidRecoveryFileSize
  | incompleteRecoverySet
  | invalidRecoveryBlockCount
  deriving DecidableEq, Repr

/-! ## Nodes -/

structure AichNode where
  dataSize : Nat
  isLeftBranch : Bool
  baseSize : Nat
  hash : Sha1Digest
  hashValid : Bool
  deriving DecidableEq

inductive AichHashTree
  | absent
  | node (data : AichNode) (left right : AichHashTree)
  deriving DecidableEq

def baseFor (size : Nat) : Nat := if size ≤ ed2kPartSize then ed2kEmblockSize else ed2kPartSize

/-- A fresh node: no valid hash. The base size is normalised to one of the two legal values. -/
def AichNode.new (dataSize : Nat) (isLeftBranch : Bool) (baseSize : Nat) : AichNode where
  dataSize := dataSize
  isLeftBranch := isLeftBranch
  baseSize := if ed2kPartSize ≤ baseSize then ed2kPartSize else ed2kEmblockSize
  hash := Vector.replicate 20 0
  hashValid := false

def childSizes (size : Nat) (isLeftBranch : Bool) (base : Nat) : Nat × Nat :=
  let left := (chunkCount size base + isLeftBranch.toNat) / 2 * base
  (left, size - left)

theorem childSizes_fst_bounds {size base : Nat} (isLeftBranch : Bool) (hbase : 0 < base)
    (h : base < size) :
    0 < (childSizes size isLeftBranch base).1 ∧ (childSizes size isLeftBranch base).1 < size := by
  have htwo : 1 < chunkCount size base := (lt_chunkCount_iff hbase).mpr (by omega)
  have hlast : (chunkCount size base - 1) * base < size :=
    (lt_chunkCount_iff hbase).mp (by omega)
  have hb := isLeftBranch.toNat_lt
  have hone : 0 < (chunkCount size base + isLeftBranch.toNat) / 2 := by omega
  have hle : (chunkCount size base + isLeftBranch.toNat) / 2 ≤ chunkCount size base - 1 := by omega
  have hmul := Nat.mul_le_mul_right base hle
  exact ⟨Nat.mul_pos hone hbase, lt_of_le_of_lt hmul hlast⟩

theorem childSizes_snd (size : Nat) (isLeftBranch : Bool) (base : Nat) :
    (childSizes size isLeftBranch base).2 = size - (childSizes size isLeftBranch base).1 := rfl

def AichNode.childSizes (n : AichNode) : Nat × Nat :=
  Aich.childSizes n.dataSize n.isLeftBranch n.baseSize

def AichHashTree.new (dataSize : Nat) (isLeftBranch : Bool) (baseSize : Nat) : AichHashTree :=
  .node (.new dataSize isLeftBranch baseSize) .absent .absent

namespace AichHashTree

def isSome : AichHashTree → Bool
  | absent => false
  | node .. => true

def hashValid : AichHashTree → Bool
  | absent => false
  | node n _ _ => n.hashValid

def hash : AichHashTree → Sha1Digest
  | absent => Vector.replicate 20 0
  | node n _ _ => n.hash

variable (t : AichHashTree)

def orNew (size : Nat) (isLeftBranch : Bool) : AichHashTree :=
  match t with
  | absent => .new size isLeftBranch (baseFor size)
  | node .. => t

/-! ## Searching -/

/-- What a search leaves behind: the tree with the branches it created, the number of levels it
    entered, and the node it found. -/
structure FindResult where
  tree : AichHashTree
  level : Nat
  found : Option AichNode

/-- Find the node that covers exactly `[start, start + size)`, creating missing branches on the
    way. The first argument is the number of levels still allowed. -/
def findHashMut : Nat → AichHashTree → Nat → Nat → FindResult
  | 0, t, _, _ => ⟨t, 1, none⟩
  | _ + 1, absent, _, _ => ⟨absent, 1, none⟩
  | levels + 1, node n l r, start, size =>
    if n.dataSize < start + size ∨ n.dataSize < size then ⟨node n l r, 1, none⟩
    else if start = 0 ∧ size = n.dataSize then ⟨node n l r, 1, some n⟩
    else if n.dataSize ≤ n.baseSize then ⟨node n l r, 1, none⟩
    else if start < n.childSizes.1 then
      if n.childSizes.1 < start + size then ⟨node n l r, 1, none⟩
      else
        let res := findHashMut levels (l.orNew n.childSizes.1 true) start size
        ⟨node n res.tree r, res.level + 1, res.found⟩
    else if n.childSizes.2 < start - n.childSizes.1 + size then ⟨node n l r, 1, none⟩
    else
      let res := findHashMut levels (r.orNew n.childSizes.2 false) (start - n.childSizes.1) size
      ⟨node n l res.tree, res.level + 1, res.found⟩

def findExistingHash : Nat → AichHashTree → Nat → Nat → Option AichNode
  | 0, _, _, _ => none
  | _ + 1, absent, _, _ => none
  | levels + 1, node n l r, start, size =>
    if n.dataSize < start + size ∨ n.dataSize < size then none
    else if start = 0 ∧ size = n.dataSize then if n.hashValid then some n else none
    else if n.dataSize ≤ n.baseSize then none
    else if start < n.childSizes.1 then
      if n.childSizes.1 < start + size then none
      else if l.hashValid then findExistingHash levels l start size
      else none
    else if n.childSizes.2 < start - n.childSizes.1 + size then none
    else if r.hashValid then findExistingHash levels r (start - n.childSizes.1) size
    else none

def maxLevel : Nat := 22

def existing (start size : Nat) : Option AichNode :=
  findExistingHash maxLevel t start size

/-! ## Inner hashes -/

section

variable (sha1 : Sha1)

def sha1Pair (left right : Sha1Digest) : Sha1Digest := sha1 (left.toList ++ right.toList)

/-- Recompute inner hashes from children; with `dontReplace` a valid hash is kept. The flag says
    whether the whole subtree could be brought to a valid state. -/
def recalculateHash (dontReplace : Bool) : AichHashTree → AichHashTree × Bool
  | absent => (absent, true)
  | node n l r =>
    -- incomplete children: drop both, keep our hash
    if l.isSome ^^ r.isSome then (node n absent absent, false)
    else if l.isSome && r.isSome then
      let left := recalculateHash dontReplace l
      let right := recalculateHash dontReplace r
      if !left.2 || !right.2 then (node n left.1 right.1, false)
      else if dontReplace && n.hashValid then (node n left.1 right.1, true)
      else if left.1.hashValid && right.1.hashValid then
        (node { n with hash := sha1Pair sha1 left.1.hash right.1.hash, hashValid := true }
          left.1 right.1, true)
      else (node n left.1 right.1, n.hashValid)
    else (node n l r, true)

def height : AichHashTree → Nat
  | absent => 0
  | node _ l r => max l.height r.height + 1

def revalidate (t : AichHashTree) : AichHashTree :=
  if t.hashValid then t else (recalculateHash sha1 true t).1

theorem height_recalculateHash (dontReplace : Bool) (t : AichHashTree) :
    (recalculateHash sha1 dontReplace t).1.height ≤ t.height := by
  induction t with
  | absent => exact Nat.le_refl _
  | node =>
    simp only [recalculateHash]
    split_ifs <;> simp only [height] <;> omega

theorem height_revalidate (t : AichHashTree) : (revalidate sha1 t).height ≤ t.height := by
  unfold revalidate
  split
  · exact Nat.le_refl _
  · exact height_recalculateHash sha1 true t

def verifyHashTree (deleteBad : Bool) : AichHashTree → AichHashTree × Bool
  | absent => (absent, false)
  | node n l r =>
    let pruned := if deleteBad then node n absent absent else node n l r
    if !n.hashValid then (pruned, false)
    else if (revalidate sha1 l).hashValid ^^ (revalidate sha1 r).hashValid then
      (if deleteBad then node n absent absent
        else node n (revalidate sha1 l) (revalidate sha1 r), false)
    else if (revalidate sha1 l).hashValid && (revalidate sha1 r).hashValid then
      if n.hash ≠ sha1Pair sha1 (revalidate sha1 l).hash (revalidate sha1 r).hash then
        (if deleteBad then node n absent absent
          else node n (revalidate sha1 l) (revalidate sha1 r), false)
      else
        let left := verifyHashTree deleteBad (revalidate sha1 l)
        if left.2 then
          let right := verifyHashTree deleteBad (revalidate sha1 r)
          (node n left.1 right.1, right.2)
        else (node n left.1 (revalidate sha1 r), false)
    else
      -- last hash in the branch: neither child is valid
      (if deleteBad then node n absent absent
        else node n (revalidate sha1 l) (revalidate sha1 r), true)
  termination_by t => t.height
  decreasing_by
    · have := height_revalidate sha1 l
      simp only [height]
      omega
    · have := height_revalidate sha1 r
      simp only [height]
      omega

end

/-! ## Reading addressed hashes

A node's ident is the path to it: a leading one, then one bit per level, set for a left branch. -/

/-- Shift the ident up until its leading one is bit 31. The result is the level the ident
    addresses and the shifted ident; `none` when no bit is set. -/
def normalizeIdent : Nat → Nat → Option (Nat × Nat)
  | 0, _ => none
  | turns + 1, ident =>
    if ident.testBit 31 then some (turns, ident) else normalizeIdent turns (2 * ident % 2 ^ 32)

def setHashAt (data : Sha1Digest) (allowOverwrite : Bool) : Nat → AichHashTree → Nat →
    Except AichError AichHashTree
  | _, absent, _ => .ok absent
  | 0, node n l r, _ =>
    if n.hashValid && !allowOverwrite then .ok (node n l r)
    else .ok (node { n with hash := data, hashValid := true } l r)
  | level + 1, node n l r, ident =>
    if n.dataSize ≤ n.baseSize then .error .setHashBelowBaseSize
    else if (2 * ident % 2 ^ 32).testBit 31 then do
      let left ← setHashAt data allowOverwrite level (l.orNew n.childSizes.1 true)
        (2 * ident % 2 ^ 32)
      return node n left r
    else do
      let right ← setHashAt data allowOverwrite level (r.orNew n.childSizes.2 false)
        (2 * ident % 2 ^ 32)
      return node n l right

/-- `set_hash` with `level = -1`: insert a hash addressed by its ident. -/
def setHash (data : Sha1Digest) (ident : Nat) (allowOverwrite : Bool) :
    Except AichError AichHashTree :=
  match normalizeIdent 32 ident with
  | none => .error .setHashInvalidIdent
  | some (level, shifted) => setHashAt data allowOverwrite level t shifted

end AichHashTree

end EmuleBB.Aich
