import EmuleBB.Transfer.LeaseSafety

/-!
# Delivering a leased range

Whether the bytes of a live lease can still be written. The two write paths accept **an exact
continuation of the prefix or an exact block**, and a lease that was taken at a checkpointed prefix
is neither once another session has written out of order: the byte count has gone back to the
last block boundary and the piece has a bitmap. `leased_range_writable_iff` says exactly when the
delivery is accepted, in every reachable state.

Nothing else makes the write fail: stored bitmaps parse, and a block counted as present is covered
by the payload file (`Backed`), so a part that is complete can be read back.
-/

namespace EmuleBB.Transfer

open Ed2kPieceState PartBlockBitmap ByteSeq Ed2kResumeManifest

/-! ## Present blocks are covered by the payload -/

/-- The presence of piece `p` can be read, and the payload reaches the end of each present block. -/
def PieceBacked (payload : Option ByteSeq) (m : Ed2kResumeManifest) (p : Ed2kPieceState) : Prop :=
  ∃ bitmap, p.resolveBlockBitmap (m.pieceLen p.pieceIndex) = some bitmap ∧
    ∀ b, bitmap.isPresent b = true → ∃ file, payload = some file ∧
      m.pieceStart p.pieceIndex + (bitmap.blockRange b).2 ≤ file.len

def Backed (payload : Option ByteSeq) (m : Ed2kResumeManifest) : Prop :=
  ∀ p ∈ m.pieces, PieceBacked payload m p

section

variable {md4 : Md4} {payload payload' : Option ByteSeq}
  {m m' : Ed2kResumeManifest} {i start : Nat} {data : ByteSeq} {p q : Ed2kPieceState}
  {salvage : Bool} {s : TransferSystem}

theorem PieceBacked.grows (h : PieceBacked payload m p) (hgrows : Grows payload payload') :
    PieceBacked payload' m p := by
  obtain ⟨bitmap, hresolve, hpresent⟩ := h
  refine ⟨bitmap, hresolve, fun b hb => ?_⟩
  obtain ⟨file, hfile, hlen⟩ := hpresent b hb
  obtain ⟨file', hfile', hle⟩ := hgrows file hfile
  exact ⟨file', hfile', hlen.trans hle⟩

theorem PieceBacked.congr (h : PieceBacked payload m p) (hsame : SameFile m m') :
    PieceBacked payload m' p := by
  unfold PieceBacked
  rw [hsame.pieceLen, hsame.pieceStart]
  exact h

/-- A piece whose whole range is covered is backed, whatever it counts as present. -/
theorem pieceBacked_of_covered {bitmap : PartBlockBitmap} {file : ByteSeq}
    (hresolve : p.resolveBlockBitmap (m.pieceLen p.pieceIndex) = some bitmap)
    (hcovered : m.pieceStart p.pieceIndex + m.pieceLen p.pieceIndex ≤ file.len) :
    PieceBacked (some file) m p := by
  refine ⟨bitmap, hresolve, fun b _ => ⟨file, rfl, ?_⟩⟩
  have hlen := partLen_of_resolveBlockBitmap hresolve
  have hle : (bitmap.blockRange b).2 ≤ bitmap.partLen := Nat.min_le_right ..
  omega

theorem pieceBacked_reset (payload : Option ByteSeq) (m : Ed2kResumeManifest) (p : Ed2kPieceState)
    (ichCorrupted : Bool) : PieceBacked payload m (p.reset ichCorrupted) := by
  refine ⟨_, resolveBlockBitmap_of_none rfl _, fun b hb => ?_⟩
  obtain ⟨hlt, hend⟩ := isPresent_contiguousPrefix.mp hb
  have hpos := lt_blockCountFor_iff.mp hlt
  have hblock := ed2kEmblockSize_pos
  simp only [reset] at hend hpos
  generalize b * ed2kEmblockSize = lo at *
  generalize ed2kEmblockSize = e at *
  omega

/-- **A write leaves its piece backed**: what it marks as present it has just written. -/
theorem PieceEffect.backed {outcome : PieceWriteOutcome} (hindex : p.pieceIndex = i)
    (h : PieceEffect md4 salvage (writePayload payload start data) m i start data.len p q outcome)
    (hp : PieceBacked payload m p) : PieceBacked (some (writePayload payload start data)) m q := by
  have hgrown := hp.grows (grows_writePayload payload start data)
  have hcovered : verifyOnDisk md4 (writePayload payload start data) m i = .ok true →
      PieceBacked (some (writePayload payload start data)) m (p.verifiedPiece (m.pieceLen i)) := by
    intro hdisk
    obtain ⟨file, bytes, hfile, hread, -⟩ := OnDisk.of_verifyOnDisk hdisk
    cases hfile
    have hlen := (readExact_eq_some.mp hread).1
    rw [← hindex] at hlen
    exact pieceBacked_of_covered (resolveBlockBitmap_of_none rfl _) hlen
  cases h with
  | verified disk | salvaged bytes disk => exact hcovered disk
  | gapped => exact pieceBacked_reset ..
  | block bitmap idx outcome resolved startEq stopEq =>
    subst hindex
    obtain ⟨bitmap', hresolve, hpresent⟩ := hgrown
    cases resolved.symm.trans hresolve
    have hback := p.resolveBlockBitmap_missingWith (bitmap.setPresent idx)
    rw [partLen_setPresent, partLen_of_resolveBlockBitmap resolved] at hback
    refine ⟨_, hback, fun b hb => ?_⟩
    have hrange : ((bitmap.setPresent idx).blockRange b).2 = (bitmap.blockRange b).2 := by
      simp only [blockRange, partLen_setPresent]
    rw [hrange]
    by_cases hidx : idx < bitmap.blockCount
    · rw [isPresent_setPresent hidx] at hb
      by_cases hbi : b = idx
      · -- the block that was written
        subst hbi
        have hne := blockLen_pos hidx
        unfold blockLen at hne
        have hdata : data.len ≠ 0 := by omega
        refine ⟨_, rfl, ?_⟩
        have hend := end_le_len_write (payload.getD .empty) start hdata
        exact stopEq ▸ hend
      · exact hpresent b (by simpa [Ne.symm hbi] using hb)
    · rw [setPresent, dif_pos (Nat.le_of_not_lt hidx)] at hb
      exact hpresent b hb
  | advance outcome noBitmap startEq =>
    subst hindex
    obtain ⟨bitmap, hresolve, hpresent⟩ := hgrown
    rw [resolveBlockBitmap_of_none noBitmap] at hresolve
    cases hresolve
    have hnone : (p.missingPrefix (p.bytesWritten + data.len)).blockBitmap = none := noBitmap
    refine ⟨_, resolveBlockBitmap_of_none hnone _, fun b hb => ?_⟩
    obtain ⟨hlt, hend⟩ := isPresent_contiguousPrefix.mp hb
    by_cases hold : min (b * ed2kEmblockSize + ed2kEmblockSize) (m.pieceLen p.pieceIndex) ≤
        p.bytesWritten
    · have hb' : (contiguousPrefix (m.pieceLen p.pieceIndex)
          p.bytesWritten).isPresent b = true :=
        isPresent_contiguousPrefix.mpr ⟨hlt, hold⟩
      have hfile := hpresent b hb'
      simp only [blockRange, partLen_contiguousPrefix] at hfile ⊢
      exact hfile
    · -- the block ends inside the bytes just written
      have hdata : data.len ≠ 0 := by
        intro hzero
        rw [hzero] at hend
        exact hold hend
      have hwritten := end_le_len_write (payload.getD .empty) start hdata
      refine ⟨_, rfl, ?_⟩
      simp only [blockRange, partLen_contiguousPrefix]
      have hend' : min (b * ed2kEmblockSize + ed2kEmblockSize) (m.pieceLen p.pieceIndex) ≤
        p.bytesWritten + data.len := hend
      refine le_trans (Nat.add_le_add_left hend' _) ?_
      show m.pieceStart p.pieceIndex + (p.bytesWritten + data.len) ≤ _
      rw [← Nat.add_assoc, ← startEq]
      exact hwritten

theorem Backed.effect {e : Event} (h : Backed s.payload s.manifest)
    (hnodup : (s.manifest.pieces.map pieceIndex).Nodup) (he : StepEffect md4 s e payload' m') :
    Backed payload' m' := by
  intro q hq
  refine PieceBacked.congr ?_ he.samePlan.toSameFile
  cases he.piece hnodup hq with
  | kept mem grows => exact (h q mem).grows grows
  | reset p ich made =>
    rw [made]
    exact pieceBacked_reset ..
  | promoted p made onDisk =>
    obtain ⟨file, bytes, rfl, hread, -⟩ := onDisk
    rw [made]
    exact pieceBacked_of_covered (resolveBlockBitmap_of_none rfl _)
      (readExact_eq_some.mp hread).1
  | salvaging p bitmap made partLen covered =>
    obtain ⟨file, rfl, hlen⟩ := covered
    rw [made]
    exact pieceBacked_of_covered (partLen ▸ p.resolveBlockBitmap_missingWith bitmap) hlen
  | written salvage start data p outcome mem effect wrote =>
    rw [wrote]
    exact effect.backed rfl (h p mem)

end

/-! ## A checked write does not fail -/

def HashsetCovers (m : Ed2kResumeManifest) : Prop :=
  m.md4HashsetAcquired = true → m.md4Hashset = [] ∨
    ∀ i ∈ m.pieces.map pieceIndex, i < m.md4Hashset.length

section

variable {md4 : Md4} {ichEnabled : Bool} {payload : Option ByteSeq}
  {m : Ed2kResumeManifest} {i b : Nat} {data : ByteSeq} {p : Ed2kPieceState}
  {bitmap : PartBlockBitmap} {key : BlockKey} {start : Nat}

theorem HashsetCovers.verifyPiece (h : HashsetCovers m) (hi : i ∈ m.pieces.map pieceIndex)
    {bytes : List UInt8} : ∃ matched, verifyPieceAgainstManifest md4 m i bytes = .ok matched := by
  unfold verifyPieceAgainstManifest
  split
  · rename_i hacquired
    split
    · exact ⟨_, rfl⟩
    · rename_i hnonempty
      rcases h hacquired with hempty | hall
      · exact absurd (by rw [hempty]; rfl) hnonempty
      · rw [List.getElem?_eq_getElem (hall i hi)]
        exact ⟨_, rfl⟩
  · exact ⟨_, rfl⟩

theorem mem_indices_of_findPiece (hp : m.findPiece i = some p) : i ∈ m.pieces.map pieceIndex := by
  obtain ⟨hmem, hindex⟩ := findPiece_eq_some hp
  exact List.mem_map.mpr ⟨p, hmem, hindex⟩

theorem HashsetCovers.verifyOnDisk_ne_error (h : HashsetCovers m) (hp : m.findPiece i = some p)
    {file : ByteSeq} (hread : (file.readExact (m.pieceStart i) (m.pieceLen i)).isSome)
    (e : TransferError) : verifyOnDisk md4 file m i ≠ .error e := by
  obtain ⟨bytes, hbytes⟩ := Option.isSome_iff_exists.mp hread
  obtain ⟨matched, hmatched⟩ := h.verifyPiece (mem_indices_of_findPiece hp)
  unfold verifyOnDisk
  rw [hbytes]
  exact fun heq => by cases hmatched.symm.trans heq

theorem blockRange_last (hb : 0 < bitmap.blockCount) :
    (bitmap.blockRange (bitmap.blockCount - 1)).2 = bitmap.partLen := by
  have hnext : ¬(bitmap.blockCount - 1 + 1) * ed2kEmblockSize < bitmap.partLen := fun hlt =>
    absurd (lt_blockCountFor_iff.mpr hlt)
      (by rw [Nat.sub_add_cancel hb]; exact Nat.lt_irrefl _)
  rw [Nat.succ_mul] at hnext
  exact Nat.min_eq_right (Nat.le_of_not_lt hnext)

section

variable (hback : PieceBacked payload m p) (hblock : b < bitmap.blockCount)
  (hresolve : p.resolveBlockBitmap (m.pieceLen i) = some bitmap)
  (hstart : start = m.pieceStart i + (bitmap.blockRange b).1)
  (hstop : start + data.len = m.pieceStart i + (bitmap.blockRange b).2)

include hback hblock hresolve hstart hstop

/-- **A part whose blocks are all there can be read**: the payload reaches the end of the last
    block, whether it was written now or before. -/
theorem readable_of_allPresent (hindex : p.pieceIndex = i)
    (hall : (bitmap.setPresent b).allPresent = true) :
    ((writePayload payload start data).readExact (m.pieceStart i) (m.pieceLen i)).isSome := by
  subst hindex
  have hlen := partLen_of_resolveBlockBitmap hresolve
  have hlast := blockRange_last (Nat.zero_lt_of_lt hblock)
  rw [hlen] at hlast
  have hreach : m.pieceStart p.pieceIndex + m.pieceLen p.pieceIndex ≤
      (writePayload payload start data).len := by
    by_cases hlb : bitmap.blockCount - 1 = b
    · have hpos := blockLen_pos hblock
      unfold blockLen at hpos
      have hdata : data.len ≠ 0 := by omega
      have hend := end_le_len_write (payload.getD .empty) start hdata
      rw [hlb] at hlast
      rw [hstop, hlast] at hend
      exact hend
    · have hpresent := allPresent_iff.mp hall (bitmap.blockCount - 1)
        (by rw [blockCount_setPresent]; omega)
      rw [isPresent_setPresent hblock] at hpresent
      obtain ⟨bitmap', hresolve', hcovered⟩ := hback
      cases hresolve.symm.trans hresolve'
      obtain ⟨file, rfl, hfile⟩ :=
        hcovered (bitmap.blockCount - 1) (by simpa [Ne.symm hlb] using hpresent)
      rw [hlast] at hfile
      exact hfile.trans (len_le_len_write ..)
  rw [readExact_of_le hreach]
  rfl

theorem settleBlock_isOk (hcovers : HashsetCovers m) (hp : m.findPiece i = some p) :
    ∃ r, settleBlock md4 ichEnabled (writePayload payload start data) m i (bitmap.setPresent b) =
      .ok r := by
  have hindex := pieceIndex_of_findPiece hp
  have habsent : true = false → bitmap.isPresent b = false := fun h => absurd h (by simp)
  rcases settleBlock_cases md4 ichEnabled (writePayload payload start data) hp hresolve hstart hstop
      habsent with ⟨e, -, hdisk, hread⟩ | ⟨q, o, hsettle, -⟩
  · have hreadable : ((writePayload payload start data).readExact (m.pieceStart i)
        (m.pieceLen i)).isSome := by
      rcases hread with hall | hread
      · exact readable_of_allPresent hback hblock hresolve hstart hstop hindex hall
      · exact hread
    exact absurd hdisk (hcovers.verifyOnDisk_ne_error hp hreadable e)
  · exact ⟨_, hsettle⟩

end

/-! ## The range checks on a leased range -/

theorem BlockShaped.start_of_aligned (h : BlockShaped m key b)
    (haligned : (key.start - m.pieceStart key.pieceIndex) % ed2kEmblockSize = 0) :
    key.start - m.pieceStart key.pieceIndex = b * ed2kEmblockSize ∧
      (key.start - m.pieceStart key.pieceIndex) / ed2kEmblockSize = b := by
  obtain ⟨-, hlow, hroom, hstop⟩ := h
  have hhigh : key.start - m.pieceStart key.pieceIndex < (b + 1) * ed2kEmblockSize := by
    rw [Nat.succ_mul]
    generalize b * ed2kEmblockSize = lo at *
    generalize ed2kEmblockSize = e at *
    omega
  have hlow' : b * ed2kEmblockSize ≤ key.start - m.pieceStart key.pieceIndex := by
    generalize b * ed2kEmblockSize = lo at *
    omega
  have hdiv : (key.start - m.pieceStart key.pieceIndex) / ed2kEmblockSize = b :=
    Nat.div_eq_of_lt_le hlow' hhigh
  refine ⟨?_, hdiv⟩
  have hsplit := Nat.div_add_mod (key.start - m.pieceStart key.pieceIndex) ed2kEmblockSize
  rw [haligned, hdiv, Nat.add_zero, Nat.mul_comm] at hsplit
  exact hsplit.symm

theorem BlockShaped.checkRequestedBlock_eq (h : BlockShaped m key b)
    (hp : m.findPiece key.pieceIndex = some p)
    (hresolve : p.resolveBlockBitmap (m.pieceLen key.pieceIndex) = some bitmap)
    (hlen : data.len = key.stop - key.start) :
    checkRequestedBlock m key.pieceIndex key.start key.stop data.len =
      if (key.start - m.pieceStart key.pieceIndex) % ed2kEmblockSize ≠ 0 then
        .error (.blockNotAligned key.pieceIndex key.start key.stop)
      else .ok (bitmap, b) := by
  have hpart := partLen_of_resolveBlockBitmap hresolve
  have hstopLe := h.stop_le
  have hroom := h.2.2.1
  have hlow : m.pieceStart key.pieceIndex ≤ key.start := le_trans (Nat.le_add_right ..) h.2.1
  unfold checkRequestedBlock
  rw [if_neg (by omega), if_neg (by omega)]
  by_cases haligned : (key.start - m.pieceStart key.pieceIndex) % ed2kEmblockSize = 0
  · obtain ⟨hstart, hdiv⟩ := h.start_of_aligned haligned
    have hstop : key.stop - m.pieceStart key.pieceIndex = (bitmap.blockRange b).2 := by
      rw [h.2.2.2, Nat.add_sub_cancel_left, blockRange, hpart]
    rw [if_neg (not_not.mpr haligned), if_neg (not_not.mpr haligned), hp]
    simp only
    rw [hresolve]
    simp only
    rw [hdiv, if_neg]
    rintro (hne | hne)
    · exact hne hstart
    · exact hne hstop
  · rw [if_pos haligned, if_pos haligned]

/-! ## When a delivery is accepted -/

section

variable (h : BlockShaped m key b) (hcovers : HashsetCovers m) (hback : PieceBacked payload m p)
  (hp : m.findPiece key.pieceIndex = some p) (hlen : data.len = key.stop - key.start)

include h hback hp hlen

/-- A leased range that is not aligned is refused by the checks. -/
theorem BlockShaped.refused
    (hunaligned : ¬(key.start - m.pieceStart key.pieceIndex) % ed2kEmblockSize = 0) :
    checkRequestedBlock m key.pieceIndex key.start key.stop data.len =
      .error (.blockNotAligned key.pieceIndex key.start key.stop) := by
  obtain ⟨bitmap, hresolve, -⟩ := hback
  rw [pieceIndex_of_findPiece hp] at hresolve
  rw [h.checkRequestedBlock_eq hp hresolve hlen, if_pos hunaligned]

include hcovers

theorem BlockShaped.settles (md4 : Md4) (ichEnabled : Bool)
    (haligned : (key.start - m.pieceStart key.pieceIndex) % ed2kEmblockSize = 0) :
    ∃ bitmap, checkRequestedBlock m key.pieceIndex key.start key.stop data.len = .ok (bitmap, b) ∧
      ∃ r, settleBlock md4 ichEnabled (writePayload payload key.start data) m key.pieceIndex
        (bitmap.setPresent b) = .ok r := by
  have hindex := pieceIndex_of_findPiece hp
  obtain ⟨bitmap, hresolve, -⟩ := id hback
  rw [hindex] at hresolve
  have hcheck := h.checkRequestedBlock_eq hp hresolve hlen
  rw [if_neg (not_not.mpr haligned)] at hcheck
  obtain ⟨_, -, -, hstart, hstop, -⟩ := checkRequestedBlock_eq_ok hcheck
  have hblock : b < bitmap.blockCount := by
    have hlt := h.1
    rw [← partLen_of_resolveBlockBitmap hresolve] at hlt
    exact hlt
  exact ⟨bitmap, hcheck, settleBlock_isOk hback hblock hresolve hstart hstop hcovers hp⟩

/-- The exact-block append accepts a leased range, as a write or as a duplicate, exactly when it
    is aligned. -/
theorem BlockShaped.append_exact_iff :
    (∃ done, (appendRequestedBlockByBitmapUnlocked md4 ichEnabled payload m key.pieceIndex
        key.start key.stop data).result = .ok done) ↔
      (key.start - m.pieceStart key.pieceIndex) % ed2kEmblockSize = 0 := by
  unfold appendRequestedBlockByBitmapUnlocked
  by_cases haligned : (key.start - m.pieceStart key.pieceIndex) % ed2kEmblockSize = 0
  · obtain ⟨bitmap, hcheck, r, hr⟩ := h.settles hcovers hback hp hlen md4 ichEnabled haligned
    refine iff_of_true ?_ haligned
    rw [hcheck]
    simp only
    split
    · exact ⟨_, rfl⟩
    · rw [hr]
      exact ⟨_, rfl⟩
  · rw [h.refused hback hp hlen haligned]
    exact iff_of_false (fun ⟨_, hdone⟩ => by cases hdone) haligned

theorem BlockShaped.salvage_iff :
    (∃ done, (writeSalvageBlockUnfinalized md4 ichEnabled payload m key.pieceIndex
        key.start key.stop data).result = .ok done) ↔
      (key.start - m.pieceStart key.pieceIndex) % ed2kEmblockSize = 0 := by
  unfold writeSalvageBlockUnfinalized
  by_cases haligned : (key.start - m.pieceStart key.pieceIndex) % ed2kEmblockSize = 0
  · obtain ⟨bitmap, hcheck, r, hr⟩ := h.settles hcovers hback hp hlen md4 ichEnabled haligned
    refine iff_of_true ?_ haligned
    rw [checkSalvageBlock_eq_ok_iff.mpr hcheck]
    simp only
    rw [hr]
    exact ⟨_, rfl⟩
  · refine iff_of_false ?_ haligned
    rintro ⟨done, hdone⟩
    cases hsalvage : checkSalvageBlock m key.pieceIndex key.start key.stop data.len with
    | error =>
      rw [hsalvage] at hdone
      cases hdone
    | ok =>
      have hchecked := checkSalvageBlock_eq_ok_iff.mp hsalvage
      rw [h.refused hback hp hlen haligned] at hchecked
      cases hchecked

end

theorem append_continuation_isOk
    (hcovers : HashsetCovers m) (hp : m.findPiece i = some p) (hnone : p.blockBitmap = none)
    (hstart : start = m.pieceStart i + p.bytesWritten) (hdata : data.len ≠ 0)
    (hroom : start + data.len ≤ m.pieceStart i + m.pieceLen i) :
    ∃ done,
      (appendPieceBlockInner md4 ichEnabled payload m i start (start + data.len) data).result =
      .ok done := by
  unfold appendPieceBlockInner
  rw [hp]
  simp only
  rw [if_neg]
  swap
  · simp only [hasBlockBitmap, hnone, Option.isSome_none, Bool.false_eq_true, false_or, not_or,
      not_not]
    omega
  split
  · -- the piece is complete, and the payload reaches its end
    rename_i hcomplete
    have hend := end_le_len_write (payload.getD .empty) start hdata
    have hreach : m.pieceStart i + m.pieceLen i ≤ (writePayload payload start data).len := by
      rw [← hcomplete, ← Nat.add_assoc, ← hstart]
      exact hend
    have hread := Option.isSome_of_eq_some (readExact_of_le hreach)
    unfold completePiece
    cases hdisk : verifyOnDisk md4 (writePayload payload start data) m i with
    | error e => exact absurd hdisk (hcovers.verifyOnDisk_ne_error hp hread e)
    | ok => exact ⟨_, rfl⟩
  · unfold advancePiece
    rw [modifyPiece_eq_setPiece (f := (·.missingPrefix (p.bytesWritten + data.len))) hp]
    cases p.ichCorrupted with
    | false => exact ⟨_, rfl⟩
    | true =>
      have hindex := pieceIndex_of_findPiece hp
      have hfind := findPiece_setPiece_self (q := p.missingPrefix (p.bytesWritten + data.len)) hp
        hindex
      simp only [if_true]
      rcases ichAfterWrite_cases md4 ichEnabled (writePayload payload start data) hfind
          (Option.isSome_of_eq_some
            (resolveBlockBitmap_of_none (p := p.missingPrefix _) hnone _)) with
        ⟨e, -, hdisk, hread⟩ | ⟨o, hrehash, -⟩ | ⟨n, hrehash, -⟩
      · exact absurd hdisk (hcovers.verifyOnDisk_ne_error hp hread e)
      · rw [hrehash]
        exact ⟨_, rfl⟩
      · rw [hrehash]
        exact ⟨_, rfl⟩

/-- **When the delivery of a leased range is accepted**, on the path the probe chose. -/
theorem BlockShaped.deliver_iff {s : TransferSystem}
    (h : BlockShaped s.manifest key b) (hcovers : HashsetCovers s.manifest)
    (hback : PieceBacked s.payload s.manifest p) (hu16 : key.pieceIndex < 2 ^ 16)
    (hp : s.manifest.findPiece key.pieceIndex = some p) (salvage : Bool)
    (hlen : data.len = key.stop - key.start) :
    (∃ done, (deliverBlock md4 s ⟨salvage, key.pieceIndex, key.start, key.stop, data⟩).result =
        .ok done) ↔
      (key.start - s.manifest.pieceStart key.pieceIndex) % ed2kEmblockSize = 0 ∨
        salvage = false ∧ p.blockBitmap = none ∧
          key.start = s.manifest.pieceStart key.pieceIndex + p.bytesWritten := by
  unfold deliverBlock
  cases salvage with
  | true =>
    simp only [if_true]
    rw [if_pos hu16, h.salvage_iff hcovers hback hp hlen]
    simp
  | false =>
    simp only [Bool.false_eq_true, if_false, true_and]
    have hroom := h.2.2.1
    have hstopLe := h.stop_le
    by_cases hcontinues : p.blockBitmap = none ∧
        key.start = s.manifest.pieceStart key.pieceIndex + p.bytesWritten
    · refine iff_of_true ?_ (.inr hcontinues)
      have hstop : key.stop = key.start + data.len := by omega
      rw [hstop]
      exact append_continuation_isOk hcovers hp hcontinues.1 hcontinues.2
        (by omega) (by omega)
    · -- not a continuation of the prefix, so the append goes the exact-block way
      have hexact : appendPieceBlockInner md4 s.ichEnabled s.payload s.manifest key.pieceIndex
          key.start key.stop data =
          appendRequestedBlockByBitmapUnlocked md4 s.ichEnabled s.payload s.manifest
            key.pieceIndex key.start key.stop data := by
        unfold appendPieceBlockInner
        rw [hp]
        simp only
        rw [if_pos]
        by_cases hnone : p.blockBitmap = none
        · exact .inr (.inl fun hstart => hcontinues ⟨hnone, hstart⟩)
        · exact .inl (Option.isSome_iff_ne_none.mpr hnone)
      rw [hexact, h.append_exact_iff hcovers hback hp hlen]
      simp [hcontinues]

end

/-! ## Runs -/

def Leasable (m : Ed2kResumeManifest) (key : BlockKey) : Prop :=
  (∃ b, BlockShaped m key b) ∧ key.pieceIndex ∈ m.pieces.map pieceIndex

/-- Every lease is one of a block of the manifest. -/
structure LeaseInvariant (n : Nat) (s : LeaseSystem) : Prop where
  nodup : (s.transfer.manifest.pieces.map pieceIndex).Nodup
  bound : ∀ i ∈ s.transfer.manifest.pieces.map pieceIndex, i < n
  backed : Backed s.transfer.payload s.transfer.manifest
  covers : HashsetCovers s.transfer.manifest
  owners : ∀ key ∈ s.leases.owners, Leasable s.transfer.manifest key
  tokens : ∀ token ∈ s.tokens, Leasable s.transfer.manifest token.key

section

variable {md4 : Md4} {sha1 : Sha1}
  {m m' : Ed2kResumeManifest} {key : BlockKey} {i : Nat}

theorem Leasable.congr (h : Leasable m key) (hsame : SameFile m m')
    (hindices : m'.pieces.map pieceIndex = m.pieces.map pieceIndex) : Leasable m' key := by
  obtain ⟨⟨b, hb⟩, hindex⟩ := h
  exact ⟨⟨b, hb.congr hsame⟩, by rw [hindices]; exact hindex⟩

theorem HashsetCovers.congr (h : HashsetCovers m) (hsame : SameFile m m')
    (hindices : m'.pieces.map pieceIndex = m.pieces.map pieceIndex) : HashsetCovers m' := by
  unfold HashsetCovers
  rw [hsame.acquired, hsame.hashset, hindices]
  exact h

theorem LeaseOutcome.leasable {leases leases' : LeaseRegistry} {token : Option BlockLeaseToken}
    (hout : LeaseOutcome leases m token leases') (howners : ∀ key ∈ leases.owners, Leasable m key) :
    (∀ key ∈ leases'.owners, Leasable m key) ∧ ∀ t ∈ token, Leasable m t.key := by
  have hinsert : ∀ {key : BlockKey} {owner : BlockLeaseOwner}, Leasable m key →
      ∀ k ∈ leases.owners.insert key owner, Leasable m k := by
    intro key owner hkey k hk
    rcases AList.mem_insert leases.owners |>.mp hk with rfl | hk
    · exact hkey
    · exact howners k hk
  cases hout with
  | nothing leases' owners =>
    rw [owners]
    exact ⟨howners, fun t ht => absurd ht (by simp)⟩
  | fresh token leases' owner p bitmap b found missing resolved block free owners =>
    have hkey : Leasable m token.key := by
      refine ⟨⟨b, blockShaped_of_freeKey resolved block free⟩, ?_⟩
      obtain ⟨-, -, hkey, -⟩ := freeKey_eq_some free
      rw [hkey]
      exact mem_indices_of_findPiece found
    rw [owners]
    refine ⟨hinsert hkey, fun t ht => ?_⟩
    cases ht
    exact hkey
  | takeover token leases' owner held owners =>
    rw [owners]
    refine ⟨hinsert (howners _ held), fun t ht => ?_⟩
    cases ht
    exact howners _ held

theorem LeaseInvariant.step {n : Nat} {s : LeaseSystem} (h : LeaseInvariant n s)
    (e : LeaseEvent) : LeaseInvariant n (leaseStep md4 sha1 s e) := by
  cases e with
  | transfer event =>
    have heffect := step_effect md4 sha1 s.transfer event
    have hsame := heffect.samePlan.toSameFile
    have hindices := heffect.samePlan.indices
    exact
      { nodup := by
          show ((Transfer.step md4 sha1 s.transfer event).manifest.pieces.map pieceIndex).Nodup
          rw [hindices]
          exact h.nodup
        bound := by
          show ∀ i ∈ (Transfer.step md4 sha1 s.transfer event).manifest.pieces.map pieceIndex, i < n
          rw [hindices]
          exact h.bound
        backed := h.backed.effect h.nodup heffect
        covers := h.covers.congr hsame hindices
        owners := fun key hkey => (h.owners key hkey).congr hsame hindices
        tokens := fun token htoken => (h.tokens token htoken).congr hsame hindices }
  | lease =>
    simp only [leaseStep]
    split
    · rename_i token leases hcall
      have hout := (LeaseRegistry.leaseNextDownloadBlock_outcome hcall).leasable h.owners
      refine ⟨h.nodup, h.bound, h.backed, h.covers, hout.1, fun t ht => ?_⟩
      rcases List.mem_append.mp ht with ht | ht
      · exact hout.2 t (Option.mem_toList.mp ht)
      · exact h.tokens t ht
    · exact h
  | notePayload =>
    simp only [leaseStep]
    split
    · exact ⟨h.nodup, h.bound, h.backed, h.covers,
        fun key hkey => h.owners key (mem_of_mem_notePayload key hkey), h.tokens⟩
    · exact h
  | drop =>
    simp only [leaseStep]
    split
    · exact ⟨h.nodup, h.bound, h.backed, h.covers,
        fun key hkey => h.owners key (mem_of_mem_release key hkey),
        fun t ht => h.tokens t (List.mem_of_mem_eraseIdx ht)⟩
    · exact h

theorem mem_indices_start {job : Ed2kTransferJob} :
    i ∈ (new job).pieces.map pieceIndex ↔
      i < pieceCount job.fileSize job.pieceSize := by
  simp [new, Ed2kPieceState.empty]

theorem leaseInvariant_start (job : Ed2kTransferJob) (md4Hashset : Option (List Md4Digest))
    (aichRoot : Option Sha1Digest) (payload : Option ByteSeq) (ichEnabled : Bool)
    (hhashset : ∀ hashset, md4Hashset = some hashset →
      hashset = [] ∨ pieceCount job.fileSize job.pieceSize ≤ hashset.length) :
    LeaseInvariant (pieceCount job.fileSize job.pieceSize)
      (.start (.start job md4Hashset aichRoot payload ichEnabled)) where
  nodup := nodup_pieceIndex_new job
  bound _ hi := mem_indices_start.mp hi
  backed p hp := by
    obtain ⟨i, -, rfl⟩ := List.mem_map.mp hp
    exact pieceBacked_reset payload _ (Ed2kPieceState.empty i) false
  covers hacquired := by
    obtain ⟨hashset, rfl⟩ := Option.isSome_iff_exists.mp hacquired
    rcases hhashset hashset rfl with hempty | hcovers
    · exact .inl hempty
    · exact .inr fun i hi => lt_of_lt_of_le (mem_indices_start.mp hi) hcovers
  owners key hkey := absurd hkey (AList.notMem_empty key)
  tokens token htoken := absurd htoken (by simp [LeaseSystem.start])

theorem findPiece_of_mem_indices (h : i ∈ m.pieces.map pieceIndex) :
    ∃ p, m.findPiece i = some p := by
  obtain ⟨p, hp, hindex⟩ := List.mem_map.mp h
  cases hfind : m.findPiece i with
  | some q => exact ⟨q, rfl⟩
  | none => exact absurd (by simpa using hindex) (List.find?_eq_none.mp hfind p hp)

end

/-- **When a leased range can be written.** In every reachable state, the delivery of exactly the
    leased bytes through `append_or_salvage_block_with_manifest` succeeds if and only if the
    range starts on a block boundary of its piece, or the piece had no bitmap when it was probed,
    has none when it is written, and the range continues its prefix. The probe and the write may
    lie any number of steps apart. -/
theorem leased_range_writable_iff (md4 : Md4) (sha1 : Sha1)
    (job : Ed2kTransferJob) (md4Hashset : Option (List Md4Digest)) (aichRoot : Option Sha1Digest)
    (payload : Option ByteSeq) (ichEnabled : Bool)
    (hcount : pieceCount job.fileSize job.pieceSize ≤ 2 ^ 16)
    (hhashset : ∀ hashset, md4Hashset = some hashset →
      hashset = [] ∨ pieceCount job.fileSize job.pieceSize ≤ hashset.length)
    (before since : List LeaseEvent) (probed s : LeaseSystem)
    (hprobed : probed = (LeaseSystem.start (.start job md4Hashset aichRoot payload
      ichEnabled)).after md4 sha1 before)
    (hs : s = probed.after md4 sha1 since) (token : BlockLeaseToken) (htoken : token ∈ s.tokens)
    (data : ByteSeq) (hlen : data.len = token.key.stop - token.key.start) :
    (∃ done, (deliverBlock md4 s.transfer
        ⟨probeSalvage probed.transfer.manifest token.key.pieceIndex, token.key.pieceIndex,
          token.key.start, token.key.stop, data⟩).result = .ok done) ↔
      (token.key.start - s.transfer.manifest.pieceStart token.key.pieceIndex) %
          ed2kEmblockSize = 0 ∨
        probeSalvage probed.transfer.manifest token.key.pieceIndex = false ∧
          ∃ p, s.transfer.manifest.findPiece token.key.pieceIndex = some p ∧
            p.blockBitmap = none ∧
            token.key.start =
              s.transfer.manifest.pieceStart token.key.pieceIndex + p.bytesWritten := by
  have hstart := leaseInvariant_start job md4Hashset aichRoot payload ichEnabled hhashset
  have hinv : LeaseInvariant (pieceCount job.fileSize job.pieceSize) s := by
    rw [hs, hprobed]
    exact Run.invariant (fun s e h => h.step e) since
      (Run.invariant (fun s e h => h.step e) before hstart)
  obtain ⟨⟨b, hshaped⟩, hindex⟩ := hinv.tokens token htoken
  obtain ⟨p, hp⟩ := findPiece_of_mem_indices hindex
  have hback := hinv.backed p (findPiece_eq_some hp).1
  have hu16 : token.key.pieceIndex < 2 ^ 16 := lt_of_lt_of_le (hinv.bound _ hindex) hcount
  rw [hshaped.deliver_iff hinv.covers hback hu16 hp _ hlen]
  refine or_congr_right (and_congr_right fun _ => ⟨fun h => ⟨p, hp, h⟩, ?_⟩)
  rintro ⟨q, hq, h⟩
  cases hp.symm.trans hq
  exact h

/-- Three blocks. A prefix of 1000 bytes was checkpointed before two peers take leases: the first
    gets the rest of block 0, the second gets block 1. -/
def prefixLeases : List LeaseEvent :=
  [.transfer (.append 0 0 1000 ⟨1000, fun _ => 0⟩), .lease (plainCall 1), .lease (plainCall 2)]

def threeBlockStart : LeaseSystem :=
  .start (.start ⟨Vector.replicate 16 0, 368641, ed2kPartSize⟩ (some []) none none true)

def threeBlockAfter (events : List LeaseEvent) : LeaseSystem :=
  threeBlockStart.after firstByteMd4 (fun _ => Vector.replicate 20 0) events

/-- A lease that starts where the bytes written so far end. -/
theorem leased_range_writable_iff_prefix :
    (∃ done, (deliverBlock firstByteMd4 (threeBlockAfter prefixLeases).transfer
        ⟨probeSalvage (threeBlockAfter prefixLeases).transfer.manifest 0, 0, 1000, 184320,
          ⟨183320, fun _ => 0⟩⟩).result = .ok done) ↔
      (1000 - (threeBlockAfter prefixLeases).transfer.manifest.pieceStart 0) %
          ed2kEmblockSize = 0 ∨
        probeSalvage (threeBlockAfter prefixLeases).transfer.manifest 0 = false ∧
          ∃ p, (threeBlockAfter prefixLeases).transfer.manifest.findPiece 0 = some p ∧
            p.blockBitmap = none ∧
            1000 = (threeBlockAfter prefixLeases).transfer.manifest.pieceStart 0 +
              p.bytesWritten :=
  leased_range_writable_iff firstByteMd4 (fun _ => Vector.replicate 20 0)
    ⟨Vector.replicate 16 0, 368641, ed2kPartSize⟩ (some []) none none true (by decide)
    (fun _ h => .inl (Option.some.inj h).symm) prefixLeases []
    (threeBlockAfter prefixLeases) (threeBlockAfter prefixLeases) rfl rfl
    ⟨⟨0, 1000, 184320⟩, 1⟩ (by decide +kernel) ⟨183320, fun _ => 0⟩ rfl

/-- **An out-of-order block makes a live lease unwritable.** The second peer delivers block 1, so
    the piece gets a bitmap and its byte count goes back to 0; the first peer's lease is still
    live, and its bytes are refused as not block-aligned. -/
theorem out_of_order_block_strands_lease :
    (⟨⟨0, 1000, 184320⟩, 1⟩ : BlockLeaseToken) ∈ (threeBlockAfter (prefixLeases ++
        [.transfer (.append 0 184320 368640 ⟨184320, fun _ => 0⟩)])).tokens ∧
      (deliverBlock firstByteMd4 (threeBlockAfter (prefixLeases ++
          [.transfer (.append 0 184320 368640 ⟨184320, fun _ => 0⟩)])).transfer
        ⟨probeSalvage (threeBlockAfter (prefixLeases ++
            [.transfer (.append 0 184320 368640 ⟨184320, fun _ => 0⟩)])).transfer.manifest 0,
          0, 1000, 184320, ⟨183320, fun _ => 0⟩⟩).result =
        .error (.salvageNotAligned 0 1000) :=
  ⟨by decide +kernel, by rfl⟩

end EmuleBB.Transfer
