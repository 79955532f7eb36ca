import EmuleBB.Aich.Recovery

/-!
# Which bytes of a part are salvaged

The blocks of a part do not overlap and leave nothing out, so the verdict on the blocks
(`computePartRecovery`) is a verdict on every byte of the part.
-/

namespace EmuleBB.Aich

variable {sha1 : Sha1} {start size : Nat} {data : List UInt8}
  {spans : List (Nat × Nat)} {hashes : List Sha1Digest}

/-- **The comparison keeps the order**: each block goes to the list its hash says. -/
theorem compareBlocks_eq (h : spans.length ≤ hashes.length) :
    let range (b : (Nat × Nat) × Sha1Digest) := (start + b.1.1, start + b.1.1 + b.1.2)
    let same (b : (Nat × Nat) × Sha1Digest) := decide (sha1 ((data.drop b.1.1).take b.1.2) = b.2)
    compareBlocks sha1 data start spans hashes = .ok ⟨((spans.zip hashes).filter same).map range,
      ((spans.zip hashes).filter (!same ·)).map range⟩ := by
  induction spans generalizing hashes with
  | nil => rfl
  | cons span spans ih =>
    obtain _ | ⟨trusted, hashes⟩ := hashes
    · cases h
    · rw [compareBlocks, ih (Nat.le_of_succ_le_succ h)]
      by_cases hsame : sha1 ((data.drop span.1).take span.2) = trusted <;> simp [hsame]

/-- The blocks do not overlap: byte `x` is in block `x / ed2kEmblockSize` alone. -/
theorem covered_iff {x : Nat} (hx : x < size) (p : (Nat × Nat) × Sha1Digest → Bool) :
    (∃ r ∈ (((blockSpans size).zip hashes).filter p).map fun b =>
        (start + b.1.1, start + b.1.1 + b.1.2), r.1 ≤ start + x ∧ start + x < r.2) ↔
      let first := x / ed2kEmblockSize * ed2kEmblockSize
      ∃ hash, hashes[x / ed2kEmblockSize]? = some hash ∧
        p ((first, min (size - first) ed2kEmblockSize), hash) := by
  simp only [List.mem_map, List.mem_filter]
  simp only [List.mem_iff_getElem?, List.getElem?_zip_eq_some]
  constructor
  · rintro ⟨_, ⟨b, ⟨⟨i, hspan, hhash⟩, hp⟩, rfl⟩, hlo, hhi⟩
    obtain ⟨_, hspan⟩ := List.getElem?_eq_some_iff.mp hspan
    simp only [blockSpans, List.getElem_map, List.getElem_range] at hspan
    simp only [← hspan] at hlo hhi
    obtain rfl : x / ed2kEmblockSize = i :=
      Nat.div_eq_of_lt_le (by omega) (by rw [Nat.add_one_mul]; omega)
    exact ⟨b.2, hhash, by rwa [hspan]⟩
  · rintro ⟨hash, hhash, hp⟩
    have hdiv := Nat.div_add_mod' x ed2kEmblockSize
    have hmod := Nat.mod_lt x ed2kEmblockSize_pos
    have hlt := (lt_chunkCount_iff ed2kEmblockSize_pos).mpr ((Nat.div_mul_le_self x _).trans_lt hx)
    refine ⟨_, ⟨_, ⟨⟨_, ?_, hhash⟩, hp⟩, rfl⟩, by simp; omega, by simp; omega⟩
    simp [blockSpans, hlt]

/-- **A part is salvaged byte by byte**: with a trusted hash for every block of the part, a byte is
    in a recovered range exactly when the block around it has its trusted hash, and in a corrupt one
    exactly when it has not. -/
theorem salvage_verdict_per_byte (sha1 : Sha1) (data : List UInt8)
    (fileSize part : Nat) (trusted : List Sha1Digest) (hpart : part * ed2kPartSize < fileSize)
    (hsize : fileSize < 2 ^ 64)
    (hdata : data.length = min (fileSize - part * ed2kPartSize) ed2kPartSize)
    (htrusted : chunkCount data.length ed2kEmblockSize ≤ trusted.length) :
    ∃ outcome, computePartRecovery sha1 fileSize part data trusted = .ok outcome ∧
      ∀ x < data.length,
        let block := x / ed2kEmblockSize
        let genuine := trusted[block]? =
          some (sha1 ((data.drop (block * ed2kEmblockSize)).take ed2kEmblockSize))
        let covers (ranges : List (Nat × Nat)) :=
          ∃ r ∈ ranges, r.1 ≤ part * ed2kPartSize + x ∧ part * ed2kPartSize + x < r.2
        (covers outcome.recoveredRanges ↔ genuine) ∧ (covers outcome.corruptRanges ↔ ¬genuine) := by
  have hlen : (blockSpans data.length).length ≤ trusted.length := by
    simpa [blockSpans] using htrusted
  rw [← partSize_of_lt hpart hsize] at hdata
  refine ⟨_,
    by rw [computePartRecovery, if_neg (not_not.mpr hdata), ← hdata, compareBlocks_eq hlen],
    fun x hx => ?_⟩
  have hblock : x / ed2kEmblockSize < trusted.length := lt_of_lt_of_le
    ((lt_chunkCount_iff ed2kEmblockSize_pos).mpr ((Nat.div_mul_le_self _ _).trans_lt hx)) htrusted
  have htake (n : Nat) : (data.drop n).take (min (data.length - n) ed2kEmblockSize) =
      (data.drop n).take ed2kEmblockSize := by simp [Nat.min_comm]
  simp only [covered_iff hx, htake, List.getElem?_eq_getElem hblock]
  simp [@eq_comm _ (sha1 _)]

/-- Two blocks of sevens, the second one where a nine is expected: the first is kept, and the last
    byte is not. -/
theorem salvage_verdict_of_two_blocks :
    let sha1 (bytes : List UInt8) : Sha1Digest := .replicate 20 (bytes.headD 0)
    ∃ outcome,
      computePartRecovery sha1 184321 0 (.replicate 184321 7) [sha1 [7], sha1 [9]] = .ok outcome ∧
        (∃ r ∈ outcome.recoveredRanges, r.1 ≤ 0 ∧ 0 < r.2) ∧
        (∃ r ∈ outcome.corruptRanges, r.1 ≤ 184320 ∧ 184320 < r.2) ∧
        ¬∃ r ∈ outcome.recoveredRanges, r.1 ≤ 184320 ∧ 184320 < r.2 := by
  intro sha1
  obtain ⟨outcome, hok, hbytes⟩ := salvage_verdict_per_byte sha1 (.replicate 184321 7) 184321 0
    [sha1 [7], sha1 [9]] (by decide) (by decide) (by rw [List.length_replicate]; rfl)
    (by rw [List.length_replicate]; decide)
  rw [List.length_replicate] at hbytes
  -- whatever is cut out of the data begins with a seven
  have hseven {n m : Nat} (hn : n < 184321) (hm : 0 < m) :
      sha1 (((List.replicate 184321 7).drop n).take m) = sha1 [7] := by
    have hne : min m (184321 - n) ≠ 0 := by omega
    simp only [sha1, List.drop_replicate, List.take_replicate, List.headD_eq_head?_getD,
      List.head?_replicate, if_neg hne, Option.getD_some, List.head?_cons]
  have hgood := hbytes 0 (by decide)
  have hbad := hbytes 184320 (by decide)
  simp only [hseven (show 0 / ed2kEmblockSize * ed2kEmblockSize < 184321 by decide)
    ed2kEmblockSize_pos] at hgood
  simp only [hseven (show 184320 / ed2kEmblockSize * ed2kEmblockSize < 184321 by decide)
    ed2kEmblockSize_pos] at hbad
  have hnine : ¬[sha1 [7], sha1 [9]][184320 / ed2kEmblockSize]? = some (sha1 [7]) := by decide
  exact ⟨outcome, hok, hgood.1.mpr rfl, hbad.2.mpr hnine, fun h => hnine (hbad.1.mp h)⟩

end EmuleBB.Aich
