import Mathlib.Algebra.Order.BigOperators.Group.List
import Mathlib.Algebra.Order.Ring.Nat
import Mathlib.Data.List.TakeWhile
import EmuleBB.Lib.PackedBits
import EmuleBB.Wire

/-!
# The per-part block presence bitmap

A part is split into `ceil(part_len / EMBLOCKSIZE)` blocks, the last possibly short, and the
bitmap holds one presence bit per block. The packed bytes **carry their own well-formedness**:
a `PartBlockBitmap` has exactly the bytes its block count needs and no bit set past its last
block, so `fromHex` has to establish both before it can build one, and a bitmap is determined
by which of its blocks are present (`PartBlockBitmap.ext_isPresent`).

The last section is the representation fact the manifest rests on: a bitmap whose present bytes
are exactly its leading present blocks *is* the contiguous prefix of that many bytes
(`contiguousPrefix_of_clean`), so nothing is lost when it is stored as a byte count.
-/

namespace EmuleBB.Transfer

open PackedBits List

def blockCountFor (partLen : Nat) : Nat := chunkCount partLen ed2kEmblockSize

structure PartBlockBitmap where
  partLen : Nat
  bits : List UInt8
  length_bits : bits.length = (blockCountFor partLen + 7) / 8
  tail_unset : ∀ i, blockCountFor partLen ≤ i → bit bits i = false

theorem lt_blockCountFor_iff {partLen i : Nat} :
    i < blockCountFor partLen ↔ i * ed2kEmblockSize < partLen :=
  lt_chunkCount_iff ed2kEmblockSize_pos

namespace PartBlockBitmap

section

variable (m : PartBlockBitmap)

def blockCount : Nat := blockCountFor m.partLen

def empty (partLen : Nat) : PartBlockBitmap where
  partLen := partLen
  bits := replicate ((blockCountFor partLen + 7) / 8) 0
  length_bits := by simp
  tail_unset := by simp

def blockRange (idx : Nat) : Nat × Nat :=
  (idx * ed2kEmblockSize, min (idx * ed2kEmblockSize + ed2kEmblockSize) m.partLen)

def isPresent (idx : Nat) : Bool :=
  if m.blockCount ≤ idx then false else bit m.bits idx

theorem byteIndex_lt {m : PartBlockBitmap} {idx : Nat} (h : idx < m.blockCount) :
    idx / 8 < m.bits.length := by
  rw [m.length_bits]
  unfold blockCount at h
  omega

def setPresent (idx : Nat) : PartBlockBitmap :=
  if h : m.blockCount ≤ idx then m
  else
    { partLen := m.partLen
      bits := setBit m.bits idx
      length_bits := by simp [m.length_bits]
      tail_unset := by
        intro i hi
        rw [bit_setBit (byteIndex_lt (Nat.lt_of_not_le h)), m.tail_unset i hi]
        unfold blockCount at h
        simp only [Bool.false_or, decide_eq_false_iff_not]
        omega }

/-- The `while` loop of `contiguous_prefix`. Each turn that does not break marks one block, so
    the block count bounds the number of turns. -/
def contiguousPrefixLoop (partLen present : Nat) : Nat → Nat → Nat → PartBlockBitmap →
    PartBlockBitmap
  | 0, _, _, map => map
  | turns + 1, pos, idx, map =>
    if pos < present then
      let block := min (partLen - pos) ed2kEmblockSize
      -- only whole, fully written blocks count as present
      if pos + block > present then map
      else contiguousPrefixLoop partLen present turns (pos + block) (idx + 1) (map.setPresent idx)
    else map

def contiguousPrefix (partLen bytesWritten : Nat) : PartBlockBitmap :=
  contiguousPrefixLoop partLen (min bytesWritten partLen) (blockCountFor partLen) 0 0
    (empty partLen)

def allPresent : Bool :=
  (range m.blockCount).all m.isPresent

def blockLen (idx : Nat) : Nat :=
  (m.blockRange idx).2 - (m.blockRange idx).1

def presentBytes : Nat :=
  (((range m.blockCount).filter m.isPresent).map m.blockLen).sum

def contiguousPrefixBytes : Nat :=
  (((range m.blockCount).takeWhile m.isPresent).map m.blockLen).sum

def toHex : List Char := hexEncode m.bits

end

def lastByteOk (blockCount : Nat) (bits : List UInt8) : Bool :=
  match bits.getLast? with
  | none => true
  | some last => blockCount % 8 == 0 || last.toNat >>> (blockCount % 8) == 0

theorem tail_unset_of_lastByteOk {blockCount : Nat} {bits : List UInt8}
    (hlen : bits.length = (blockCount + 7) / 8) (hok : lastByteOk blockCount bits = true)
    (i : Nat) (hi : blockCount ≤ i) : bit bits i = false := by
  by_cases hout : 8 * bits.length ≤ i
  · exact bit_eq_false_of_length_le hout
  · -- the bit lies in the last byte, at or above the block count
    have hlast : i / 8 = bits.length - 1 := by omega
    have hmod : blockCount % 8 ≠ 0 ∧ blockCount % 8 ≤ i % 8 := by omega
    have hlt : bits.length - 1 < bits.length := by omega
    have hget : bits.getLast? = some bits[bits.length - 1] := by
      rw [getLast?_eq_getElem?, getElem?_eq_getElem hlt]
    simp only [lastByteOk, hget, beq_iff_eq, Bool.false_or, beq_false_of_ne hmod.1] at hok
    have hbit : (bits[bits.length - 1].toNat >>> (blockCount % 8)).testBit
        (i % 8 - blockCount % 8) = false := by simp [hok]
    rw [Nat.testBit_shiftRight] at hbit
    have hsum : blockCount % 8 + (i % 8 - blockCount % 8) = i % 8 := by omega
    rw [hsum] at hbit
    simpa [bit, hlast, getD_eq_getElem?_getD, hlt] using hbit

/-- Decode a persisted hex bitmap; malformed and noncanonical text is refused. -/
def fromHex (partLen : Nat) (hex : List Char) : Option PartBlockBitmap :=
  match hexDecode hex with
  | none => none
  | some bits =>
    if hlen : bits.length = (blockCountFor partLen + 7) / 8 then
      if hexEncode bits = hex then
        if hok : lastByteOk (blockCountFor partLen) bits = true then
          some ⟨partLen, bits, hlen, tail_unset_of_lastByteOk hlen hok⟩
        else none
      else none
    else none

/-! ## Presence -/

variable {m : PartBlockBitmap} {idx : Nat}

theorem isPresent_lt (h : m.isPresent idx = true) : idx < m.blockCount := by
  unfold isPresent at h
  split at h
  · cases h
  · omega

@[simp] theorem isPresent_empty (partLen i : Nat) : (empty partLen).isPresent i = false := by
  simp [isPresent, empty]

@[simp] theorem partLen_setPresent : (m.setPresent idx).partLen = m.partLen := by
  unfold setPresent
  split <;> rfl

@[simp] theorem blockCount_setPresent : (m.setPresent idx).blockCount = m.blockCount := by
  simp [blockCount]

@[simp] theorem isPresent_setPresent (h : idx < m.blockCount) (i : Nat) :
    (m.setPresent idx).isPresent i = (m.isPresent i || decide (idx = i)) := by
  have hbit := bit_setBit (byteIndex_lt h) i
  have hnot : ¬ m.blockCount ≤ idx := by omega
  unfold isPresent
  rw [blockCount_setPresent]
  by_cases hi : m.blockCount ≤ i
  · have hne : idx ≠ i := by omega
    simp [hi, hne]
  · simpa [hi, setPresent, hnot] using hbit

/-- **A bitmap is determined by its length and its present blocks.** -/
theorem ext_isPresent {n : PartBlockBitmap} (hlen : m.partLen = n.partLen)
    (h : ∀ i < m.blockCount, m.isPresent i = n.isPresent i) : m = n := by
  obtain ⟨mLen, mBits, mLength, mTail⟩ := m
  obtain ⟨nLen, nBits, nLength, nTail⟩ := n
  subst hlen
  have hbits : mBits = nBits := by
    refine ext_bit (by rw [mLength, nLength]) fun i => ?_
    by_cases hi : blockCountFor mLen ≤ i
    · rw [mTail i hi, nTail i hi]
    · simpa [isPresent, blockCount, hi] using h i (Nat.lt_of_not_le hi)
  subst hbits
  rfl

theorem allPresent_iff : m.allPresent = true ↔ ∀ i < m.blockCount, m.isPresent i = true := by
  simp [allPresent, all_eq_true]

/-! ## Hex text of a bitmap -/

theorem lastByteOk_bits (m : PartBlockBitmap) : lastByteOk m.blockCount m.bits = true := by
  unfold lastByteOk
  cases hlast : m.bits.getLast? with
  | none => rfl
  | some last =>
    rw [List.getLast?_eq_getElem?] at hlast
    obtain ⟨hlt, hget⟩ := List.getElem?_eq_some_iff.mp hlast
    by_cases hmod : m.blockCount % 8 = 0
    · simp [hmod]
    · have hbc : m.bits.length - 1 = m.blockCount / 8 := by
        rw [m.length_bits]
        unfold blockCount at *
        omega
      -- every bit the shift keeps is a bit past the last block
      have hzero : last.toNat >>> (m.blockCount % 8) = 0 := by
        refine Nat.eq_of_testBit_eq fun k => ?_
        rw [Nat.testBit_shiftRight, Nat.zero_testBit]
        by_cases hk : m.blockCount % 8 + k < 8
        · have hbit := m.tail_unset (m.blockCount + k) (by unfold blockCount; omega)
          have hdiv : (m.blockCount + k) / 8 = m.bits.length - 1 := by omega
          have hrem : (m.blockCount + k) % 8 = m.blockCount % 8 + k := by omega
          simpa [bit, hdiv, hrem, List.getD_eq_getElem?_getD, hlt, hget] using hbit
        · exact Nat.testBit_lt_two_pow (lt_of_lt_of_le last.toNat_lt
            (Nat.pow_le_pow_right (n := 2) (i := 8) (by decide) (by omega)))
      simp [hzero]

/-- **Hex text is a faithful coding of a bitmap.** -/
theorem fromHex_toHex (m : PartBlockBitmap) : fromHex m.partLen m.toHex = some m := by
  have hok := m.lastByteOk_bits
  unfold blockCount at hok
  simp [fromHex, toHex, hexDecode_hexEncode, m.length_bits, hok]

theorem fromHex_eq_some {partLen : Nat} {hex : List Char} (h : fromHex partLen hex = some m) :
    m.partLen = partLen ∧ m.toHex = hex := by
  unfold fromHex at h
  split at h
  · cases h
  · split_ifs at h with hlen hcanon hok
    cases h
    exact ⟨rfl, hcanon⟩

/-! ## The contiguous prefix -/

theorem blockLen_eq : m.blockLen idx =
      min (idx * ed2kEmblockSize + ed2kEmblockSize) m.partLen - idx * ed2kEmblockSize := rfl

theorem blockLen_pos (h : idx < m.blockCount) : 0 < m.blockLen idx := by
  have hlt := lt_blockCountFor_iff.mp h
  have := ed2kEmblockSize_pos
  rw [blockLen_eq]
  omega

/-- The loop marks the blocks from `idx` on that end at or before `present`, and it has turns
    enough to reach the last of them. -/
theorem isPresent_contiguousPrefixLoop {partLen present : Nat} (hle : present ≤ partLen)
    (turns idx : Nat) (map : PartBlockBitmap) (hmap : map.partLen = partLen)
    (hturns : blockCountFor partLen ≤ idx + turns) (i : Nat) (hi : i < blockCountFor partLen) :
    (contiguousPrefixLoop partLen present turns (min (idx * ed2kEmblockSize) partLen) idx
        map).isPresent i = true ↔
      map.isPresent i = true ∨
        idx ≤ i ∧ min (i * ed2kEmblockSize + ed2kEmblockSize) partLen ≤ present := by
  have hpos := ed2kEmblockSize_pos
  have hi' := lt_blockCountFor_iff.mp hi
  induction turns generalizing idx map with
  | zero =>
    constructor
    · exact .inl
    · rintro (h | ⟨h, -⟩)
      · exact h
      · omega
  | succ turns ih =>
    simp only [contiguousPrefixLoop]
    -- a block at or after `idx` that ends by `present` makes the block at `idx` end by it too
    have hmono : idx ≤ i → idx * ed2kEmblockSize ≤ i * ed2kEmblockSize :=
      fun h => Nat.mul_le_mul_right _ h
    split
    · rename_i hlt
      have hidx : idx * ed2kEmblockSize < partLen :=
        lt_of_not_ge fun h => absurd hlt (by rw [Nat.min_eq_right h]; omega)
      split
      · constructor
        · exact .inl
        · rintro (h | ⟨h, hend⟩)
          · exact h
          · generalize ed2kEmblockSize = e at *
            omega
      · have hnext : min (idx * ed2kEmblockSize) partLen +
            min (partLen - min (idx * ed2kEmblockSize) partLen) ed2kEmblockSize =
            min ((idx + 1) * ed2kEmblockSize) partLen := by
          rw [Nat.add_one_mul]
          generalize ed2kEmblockSize = e at *
          omega
        have hcount : idx < map.blockCount := by
          rw [blockCount, hmap]
          exact lt_blockCountFor_iff.mpr hidx
        have hrest := ih (idx + 1) (map.setPresent idx) (by simpa using hmap) (by omega)
        rw [isPresent_setPresent hcount] at hrest
        rw [hnext]
        refine hrest.trans ?_
        simp only [Bool.or_eq_true, decide_eq_true_eq]
        constructor
        · rintro ((h | rfl) | ⟨h, hend⟩)
          · exact .inl h
          · refine .inr ⟨le_rfl, ?_⟩
            generalize ed2kEmblockSize = e at *
            omega
          · exact .inr ⟨by omega, hend⟩
        · rintro (h | ⟨h, hend⟩)
          · exact .inl (.inl h)
          · rcases Nat.lt_or_ge idx i with hlt' | hge
            · exact .inr ⟨hlt', hend⟩
            · exact .inl (.inr (by omega))
    · constructor
      · exact .inl
      · rintro (h | ⟨h, hend⟩)
        · exact h
        · generalize ed2kEmblockSize = e at *
          omega

theorem partLen_contiguousPrefixLoop {partLen present : Nat} (turns pos : Nat)
    (map : PartBlockBitmap) :
    (contiguousPrefixLoop partLen present turns pos idx map).partLen = map.partLen := by
  induction turns generalizing pos idx map with
  | zero => rfl
  | succ turns ih =>
    simp only [contiguousPrefixLoop]
    split
    · split
      · rfl
      · rw [ih, partLen_setPresent]
    · rfl

@[simp] theorem partLen_contiguousPrefix (partLen bytesWritten : Nat) :
    (contiguousPrefix partLen bytesWritten).partLen = partLen :=
  partLen_contiguousPrefixLoop ..

/-- **The prefix form marks exactly the blocks that end inside the written bytes.** -/
theorem isPresent_contiguousPrefix {partLen bytesWritten i : Nat} :
    (contiguousPrefix partLen bytesWritten).isPresent i = true ↔
      i < blockCountFor partLen ∧
        min (i * ed2kEmblockSize + ed2kEmblockSize) partLen ≤ bytesWritten := by
  by_cases hi : i < blockCountFor partLen
  · have hloop := isPresent_contiguousPrefixLoop (Nat.min_le_right bytesWritten partLen)
      (blockCountFor partLen) 0 (empty partLen) rfl (by omega) i hi
    simp only [Nat.zero_mul, Nat.zero_min, isPresent_empty] at hloop
    rw [contiguousPrefix, hloop]
    simp only [Bool.false_eq_true, false_or, Nat.zero_le, true_and, hi]
    omega
  · have hnot : ¬ (contiguousPrefix partLen bytesWritten).isPresent i = true := fun h =>
      hi (by simpa [blockCount] using isPresent_lt h)
    simp [hi, hnot]

/-! ## Byte counts

`leading m` is the number of leading present blocks; the prefix byte count is where they end. -/

def leading (m : PartBlockBitmap) : Nat := ((range m.blockCount).takeWhile m.isPresent).length

theorem takeWhile_range (p : Nat → Bool) (n : Nat) :
    (range n).takeWhile p = range ((range n).takeWhile p).length := by
  refine ext_getElem (by simp) fun i hi _ => ?_
  have hpre := List.takeWhile_prefix (l := range n) p
  rw [hpre.getElem hi]
  simp

theorem leading_le (m : PartBlockBitmap) : m.leading ≤ m.blockCount := by
  simpa [leading] using
    (List.takeWhile_prefix (l := range m.blockCount) m.isPresent).length_le

theorem isPresent_of_lt_leading (h : idx < m.leading) : m.isPresent idx = true := by
  have hmem : idx ∈ (range m.blockCount).takeWhile m.isPresent := by
    rw [takeWhile_range]
    exact mem_range.mpr h
  exact mem_takeWhile_imp hmem

theorem not_isPresent_leading : m.isPresent m.leading = false := by
  by_cases h : m.leading < m.blockCount
  · have hdrop := List.takeWhile_append_dropWhile (p := m.isPresent) (l := List.range m.blockCount)
    cases hd : (List.range m.blockCount).dropWhile m.isPresent with
    | nil =>
      have hlen := congrArg List.length hdrop
      rw [hd] at hlen
      simp only [List.append_nil, List.length_range] at hlen
      unfold leading at h
      omega
    | cons x =>
      have hx := List.head_dropWhile_not (l := List.range m.blockCount) m.isPresent
        (by simp [hd])
      have hget : (List.range m.blockCount)[m.leading]? = some x := by
        rw [← hdrop, hd]
        simp [leading]
      obtain ⟨_, hxe⟩ := List.getElem?_eq_some_iff.mp hget
      simp only [List.getElem_range] at hxe
      simpa [hd, hxe] using hx
  · unfold isPresent
    rw [if_pos (by omega)]

/-- The first `k` blocks of a part end at `k` block lengths, or at the end of the part. -/
theorem sum_blockLen_range (m : PartBlockBitmap) {k : Nat} (hk : k ≤ m.blockCount) :
    ((range k).map m.blockLen).sum = min (k * ed2kEmblockSize) m.partLen := by
  induction k with
  | zero => simp
  | succ k ih =>
    rw [sum_range_succ, Nat.add_one_mul, blockLen_eq]
    generalize ed2kEmblockSize = e at *
    omega

theorem contiguousPrefixBytes_eq :
    m.contiguousPrefixBytes = min (m.leading * ed2kEmblockSize) m.partLen := by
  unfold contiguousPrefixBytes
  rw [takeWhile_range]
  exact m.sum_blockLen_range m.leading_le

theorem presentBytes_split (m : PartBlockBitmap) : m.presentBytes = m.contiguousPrefixBytes +
      ((((range (m.blockCount - m.leading)).map (m.leading + ·)).filter m.isPresent).map
        m.blockLen).sum := by
  have hcount : m.blockCount = m.leading + (m.blockCount - m.leading) := by
    have := m.leading_le
    omega
  have hfront : (range m.leading).filter m.isPresent = range m.leading := by
    refine filter_eq_self.mpr fun i hi => ?_
    exact isPresent_of_lt_leading (mem_range.mp hi)
  have hlead : m.contiguousPrefixBytes = ((range m.leading).map m.blockLen).sum := by
    unfold contiguousPrefixBytes
    rw [takeWhile_range]
    rfl
  unfold presentBytes
  rw [hlead]
  conv_lhs => rw [hcount, range_add]
  rw [filter_append, hfront, map_append, sum_append]

theorem isPresent_iff_lt_leading (hclean : m.presentBytes = m.contiguousPrefixBytes) :
    m.isPresent idx = true ↔ idx < m.leading := by
  refine ⟨fun h => ?_, isPresent_of_lt_leading⟩
  by_contra hge
  have hlt := isPresent_lt h
  have hsplit := m.presentBytes_split
  -- a present block past the leading run contributes its positive length to the second sum
  have hmem : idx ∈ ((range (m.blockCount - m.leading)).map (m.leading + ·)).filter
      m.isPresent := by
    refine mem_filter.mpr ⟨mem_map.mpr ⟨idx - m.leading, ?_, by omega⟩, h⟩
    exact mem_range.mpr (by omega)
  have hpos := blockLen_pos hlt
  have hle := le_sum_of_mem (mem_map_of_mem (f := m.blockLen) hmem)
  omega

/-- **A clean bitmap is a contiguous prefix**, so its byte count alone represents it. -/
theorem contiguousPrefix_of_clean (hclean : m.presentBytes = m.contiguousPrefixBytes) :
    contiguousPrefix m.partLen m.contiguousPrefixBytes = m := by
  refine ext_isPresent (by simp) fun i hi => ?_
  rw [Bool.eq_iff_iff, isPresent_contiguousPrefix, isPresent_iff_lt_leading hclean,
    contiguousPrefixBytes_eq]
  simp only [blockCount, partLen_contiguousPrefix] at hi
  rw [chunkEnd_le_iff ed2kEmblockSize_pos (lt_blockCountFor_iff.mp hi)]
  exact and_iff_right hi

end PartBlockBitmap

end EmuleBB.Transfer
