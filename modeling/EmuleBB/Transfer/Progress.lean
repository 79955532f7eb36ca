import EmuleBB.Transfer.CrashWindow

/-!
# The progress of a piece

An append that ends without a verdict on its part should add its range to the bytes the piece counts
as present, and take nothing away. The two forms of presence differ in grain: a prefix may end
**inside a block**, and a bitmap cannot say so. A block that leaves a gap after such a prefix turns
it into a bitmap, and the bytes past its last whole block are forgotten
(`gap_forgets_partial_block`). So they are by a salvage write, which may come to a piece that has
lost its bitmap since the probe, when it repeats a block of the prefix. Nothing else is ever lost by
either write (`append_accrues_iff`).
-/

namespace EmuleBB.Transfer

open Ed2kPieceState PartBlockBitmap

variable {md4 : Md4} {p q : Ed2kPieceState} {bitmap : PartBlockBitmap}
  {salvage : Bool} {partLen offset i start len : Nat} {m : Ed2kResumeManifest}
    {outcome : PieceWriteOutcome}
  {s : TransferSystem}

/-! ## What a row counts -/

/-- The byte count of a row with a bitmap is the prefix of its bitmap. -/
def Ed2kPieceState.Shaped (partLen : Nat) (p : Ed2kPieceState) : Prop :=
  p.blockBitmap = none ∨ ∃ bitmap, p.resolveBlockBitmap partLen = some bitmap ∧
    p.bytesWritten = bitmap.contiguousPrefixBytes

theorem isPresent_of_lt_bytes (h : offset < bitmap.contiguousPrefixBytes) :
    bitmap.isPresent (offset / ed2kEmblockSize) = true := by
  rw [contiguousPrefixBytes_eq] at h
  refine isPresent_of_lt_leading ((Nat.div_lt_iff_lt_mul ed2kEmblockSize_pos).mpr ?_)
  exact h.trans_le (Nat.min_le_left _ _)

theorem countsByte_iff (h : p.resolveBlockBitmap partLen = some bitmap) :
    p.countsByte partLen offset = true ↔
      offset < p.bytesWritten ∨ bitmap.isPresent (offset / ed2kEmblockSize) = true := by
  simp [countsByte, h]

theorem countsByte_leading (h : p.blockBitmap = none) (hoffset : offset < partLen) :
    p.countsByte partLen offset = true ↔ offset < p.bytesWritten := by
  refine ⟨fun hcounts => ?_, fun hlt => ?_⟩
  · exact (countsByte_of_none h hcounts).resolve_right (Nat.not_le_of_lt hoffset)
  · simp [countsByte, hlt]

theorem shaped_missingWith (h : bitmap.partLen = partLen) : (p.missingWith bitmap).Shaped partLen :=
  .inr ⟨bitmap, h ▸ p.resolveBlockBitmap_missingWith bitmap, rfl⟩

theorem countsByte_missingWith (h : bitmap.partLen = partLen) :
    (p.missingWith bitmap).countsByte partLen offset = true ↔
      bitmap.isPresent (offset / ed2kEmblockSize) = true := by
  rw [countsByte_iff (h ▸ p.resolveBlockBitmap_missingWith bitmap)]
  exact or_iff_right_of_imp isPresent_of_lt_bytes

/-! ## Every row of a run -/

theorem PieceEffect.shaped {file : ByteSeq} {salvage : Bool}
    (h : PieceEffect md4 salvage file m i start len p q outcome) : q.Shaped (m.pieceLen i) := by
  cases h with
  | verified | salvaged | gapped => exact .inl rfl
  | block bitmap idx outcome resolved =>
    exact shaped_missingWith (by rw [partLen_setPresent, partLen_of_resolveBlockBitmap resolved])
  | advance outcome noBitmap => exact .inl noBitmap

def Ed2kResumeManifest.Shaped (m : Ed2kResumeManifest) : Prop :=
  ∀ p ∈ m.pieces, p.Shaped (m.pieceLen p.pieceIndex)

theorem StepEffect.shaped {e : Event} {payload' : Option ByteSeq}
    {m' : Ed2kResumeManifest} (he : StepEffect md4 s e payload' m')
    (hnodup : (s.manifest.pieces.map pieceIndex).Nodup) (h : s.manifest.Shaped) : m'.Shaped := by
  intro q hq
  rw [he.samePlan.pieceLen]
  cases he.piece hnodup hq with
  | kept mem => exact h q mem
  | reset p ich made =>
    rw [made]
    exact .inl rfl
  | promoted p made =>
    rw [made]
    exact .inl rfl
  | salvaging p bitmap made partLen =>
    rw [made]
    exact shaped_missingWith partLen
  | written salvage start data p outcome mem effect =>
    rw [effect.pieceIndex_eq]
    exact effect.shaped

theorem shaped_after {sha1 : Sha1}
    (hnodup : (s.manifest.pieces.map pieceIndex).Nodup) (h : s.manifest.Shaped)
    {events : List Event} : (s.after md4 sha1 events).manifest.Shaped := by
  refine (@Run.invariant _ _ _ _ (fun s : TransferSystem =>
    (s.manifest.pieces.map pieceIndex).Nodup ∧ s.manifest.Shaped) ?_ events ⟨hnodup, h⟩).2
  intro s e h
  have heffect := step_effect md4 sha1 s e
  exact ⟨heffect.samePlan.indices ▸ h.1, heffect.shaped h.1 h.2⟩

theorem shaped_new {job : Ed2kTransferJob}
    (hp : p ∈ (Ed2kResumeManifest.new job).pieces) : p.Shaped partLen := by
  obtain ⟨i, -, rfl⟩ := List.mem_map.mp hp
  exact .inl rfl

/-! ## One append -/

/-- The bytes counted afterwards are those counted before and those of the range. -/
def Accrues (m : Ed2kResumeManifest) (i start len : Nat) (p q : Ed2kPieceState) : Prop :=
  ∀ offset < m.pieceLen i, q.countsByte (m.pieceLen i) offset = true ↔
    p.countsByte (m.pieceLen i) offset = true ∨
      start ≤ m.pieceStart i + offset ∧ m.pieceStart i + offset < start + len

/-- The range starts inside the prefix or right after it, and in a salvage write it also reaches the
    end of the prefix; or the prefix ends with a block. -/
def LeavesNoGap (salvage : Bool) (m : Ed2kResumeManifest) (i start len : Nat)
    (p : Ed2kPieceState) : Prop :=
  (start ≤ m.pieceStart i + p.bytesWritten ∧
      (salvage = true → m.pieceStart i + p.bytesWritten ≤ start + len)) ∨
    p.bytesWritten % ed2kEmblockSize = 0 ∨ m.pieceLen i ≤ p.bytesWritten

theorem isPresent_setPresent_of_lt {idx j : Nat} (h : j < bitmap.blockCount) :
    (bitmap.setPresent idx).isPresent j = true ↔ bitmap.isPresent j = true ∨ idx = j := by
  by_cases hidx : idx < bitmap.blockCount
  · rw [isPresent_setPresent hidx, Bool.or_eq_true, decide_eq_true_eq]
  · rw [setPresent, dif_pos (Nat.le_of_not_lt hidx)]
    exact (or_iff_left (by omega)).symm

/-- One more block beside a prefix: the prefix is kept if it ends in the block. -/
theorem prefix_kept_iff {e L written idx : Nat} (he : 0 < e) :
    (∀ offset < L, offset < written → min (offset / e * e + e) L ≤ written ∨ idx = offset / e) ↔
      (idx * e ≤ written ∧ written ≤ idx * e + e) ∨ written % e = 0 ∨ L ≤ written := by
  constructor
  · intro h
    by_contra hgap
    obtain ⟨hends, hpart, hopen⟩ : ¬(idx * e ≤ written ∧ written ≤ idx * e + e) ∧
        written % e ≠ 0 ∧ ¬L ≤ written := by
      simpa only [not_or] using hgap
    have hpos : written ≠ 0 := by
      rintro rfl
      exact hpart (Nat.zero_mod e)
    have hlast := h (written - 1) (by omega) (by omega)
    have hlow := Nat.div_mul_le_self (written - 1) e
    have hhigh := Nat.lt_div_mul_add he (a := written - 1)
    obtain hend | rfl := hlast
    · -- the last block of the prefix ends with it
      have hwhole : written = ((written - 1) / e + 1) * e := by
        rw [Nat.add_one_mul]
        omega
      have hmod := Nat.mul_mod_left ((written - 1) / e + 1) e
      rw [← hwhole] at hmod
      exact hpart hmod
    · omega
  · intro h offset hoffset hlt
    have hlow := Nat.div_mul_le_self offset e
    by_cases hend : offset / e * e + e ≤ written
    · exact .inl (by omega)
    · obtain hin | hwhole | hall := h
      · have hle : offset / e < idx + 1 :=
          Nat.lt_of_mul_lt_mul_right (a := e) (by rw [Nat.add_one_mul]; omega)
        have hge : idx < offset / e + 1 :=
          Nat.lt_of_mul_lt_mul_right (a := e) (by rw [Nat.add_one_mul]; omega)
        exact .inr (by omega)
      · have hblocks := Nat.div_mul_cancel (Nat.dvd_of_mod_eq_zero hwhole)
        have hfewer : offset / e < written / e :=
          Nat.lt_of_mul_lt_mul_right (a := e) (by omega)
        have := Nat.mul_le_mul_right e hfewer
        rw [Nat.succ_mul] at this
        omega
      · exact .inl (by omega)

theorem leavesNoGap_of_bitmap (hresolve : p.resolveBlockBitmap (m.pieceLen i) = some bitmap)
    (hbytes : p.bytesWritten = bitmap.contiguousPrefixBytes) :
    LeavesNoGap salvage m i start len p := by
  rw [LeavesNoGap, hbytes, contiguousPrefixBytes_eq, partLen_of_resolveBlockBitmap hresolve]
  rcases Nat.le_total (bitmap.leading * ed2kEmblockSize) (m.pieceLen i) with hle | hle
  · rw [Nat.min_eq_left hle]
    exact .inr (.inl (Nat.mul_mod_left _ _))
  · exact .inr (.inr (Nat.min_eq_right hle).ge)

section

variable {idx : Nat} (hresolve : p.resolveBlockBitmap (m.pieceLen i) = some bitmap)
  (hstart : start = m.pieceStart i + (bitmap.blockRange idx).1)
  (hstop : start + len = m.pieceStart i + (bitmap.blockRange idx).2)

include hresolve hstart hstop

theorem mem_block_iff (hoffset : offset < m.pieceLen i) :
    start ≤ m.pieceStart i + offset ∧ m.pieceStart i + offset < start + len ↔
      idx = offset / ed2kEmblockSize := by
  have hlow := Nat.le_div_iff_mul_le (x := idx) (y := offset) ed2kEmblockSize_pos
  have hhigh := Nat.div_lt_iff_lt_mul (x := offset) (y := idx + 1) ed2kEmblockSize_pos
  rw [Nat.add_one_mul] at hhigh
  simp only [blockRange, partLen_of_resolveBlockBitmap hresolve] at hstart hstop
  generalize offset / ed2kEmblockSize = k at *
  generalize ed2kEmblockSize = e at *
  generalize idx * e = lo at *
  omega

/-- **A block keeps the prefix where every block of the prefix is present, or the new one.** -/
theorem accrues_block_iff : Accrues m i start len p (p.missingWith (bitmap.setPresent idx)) ↔
    ∀ offset < m.pieceLen i, offset < p.bytesWritten →
      bitmap.isPresent (offset / ed2kEmblockSize) = true ∨ idx = offset / ed2kEmblockSize := by
  have hlen := partLen_of_resolveBlockBitmap hresolve
  refine forall₂_congr fun offset hoffset => ?_
  have hcount : offset / ed2kEmblockSize < bitmap.blockCount := by
    rw [blockCount, lt_blockCountFor_iff, hlen]
    exact (Nat.div_mul_le_self _ _).trans_lt hoffset
  rw [countsByte_missingWith (by rw [partLen_setPresent, hlen]), isPresent_setPresent_of_lt hcount,
    countsByte_iff hresolve, mem_block_iff hresolve hstart hstop hoffset]
  tauto

/-- A block that is there already is not written again, and it leaves no gap. -/
theorem accrues_duplicate_iff (hp : p.Shaped (m.pieceLen i))
    (hpresent : bitmap.isPresent idx = true) :
    Accrues m i start len p p ↔ LeavesNoGap false m i start len p := by
  refine iff_of_true (fun offset hoffset => (or_iff_left_of_imp fun hin => ?_).symm) ?_
  · rw [mem_block_iff hresolve hstart hstop hoffset] at hin
    exact (countsByte_iff hresolve).mpr (.inr (hin ▸ hpresent))
  · obtain hnone | ⟨bitmap', hresolve', hbytes⟩ := hp
    · rw [resolveBlockBitmap_of_none hnone] at hresolve
      cases hresolve
      obtain ⟨hlt, hend⟩ := isPresent_contiguousPrefix.mp hpresent
      rw [lt_blockCountFor_iff] at hlt
      have hstart : start = m.pieceStart i + idx * ed2kEmblockSize := hstart
      exact .inl ⟨by omega, nofun⟩
    · exact leavesNoGap_of_bitmap hresolve' hbytes

end

/-- **A write accrues just when it leaves no gap.** -/
theorem PieceEffect.accrues_iff {file : ByteSeq}
    (h : PieceEffect md4 salvage file m i start len p q outcome)
    (htold : outcome = .incomplete ∨ outcome = .ichRehashFailed i) (hp : p.Shaped (m.pieceLen i)) :
    Accrues m i start len p q ↔ LeavesNoGap salvage m i start len p := by
  cases h with
  | verified | salvaged | gapped => simp at htold
  | advance outcome noBitmap startEq open_ =>
    refine iff_of_true (fun offset hoffset => ?_) (.inl ⟨startEq.le, fun _ => by omega⟩)
    have hq : (p.missingPrefix (p.bytesWritten + len)).blockBitmap = none := noBitmap
    rw [countsByte_leading hq hoffset, countsByte_leading noBitmap hoffset]
    show offset < p.bytesWritten + len ↔ _
    omega
  | block bitmap idx outcome resolved startEq stopEq open_ absent =>
    rw [accrues_block_iff resolved startEq stopEq]
    obtain hnone | ⟨bitmap', hresolve, hbytes⟩ := hp
    · simp only [blockRange, partLen_of_resolveBlockBitmap resolved] at startEq stopEq
      rw [resolveBlockBitmap_of_none hnone] at resolved
      cases resolved
      -- the block is missing, so a prefix that it starts in ends before it
      have habsent : salvage = false → m.pieceLen i ≤ idx * ed2kEmblockSize ∨
          p.bytesWritten < min (idx * ed2kEmblockSize + ed2kEmblockSize) (m.pieceLen i) := by
        intro happend
        have hmissing := mt isPresent_contiguousPrefix.mpr (Bool.eq_false_iff.mp (absent happend))
        rw [lt_blockCountFor_iff] at hmissing
        omega
      have hends : LeavesNoGap salvage m i start len p ↔
          (idx * ed2kEmblockSize ≤ p.bytesWritten ∧
              p.bytesWritten ≤ idx * ed2kEmblockSize + ed2kEmblockSize) ∨
            p.bytesWritten % ed2kEmblockSize = 0 ∨ m.pieceLen i ≤ p.bytesWritten := by
        unfold LeavesNoGap
        cases salvage with
        | true => simp only [forall_const]; omega
        | false =>
          have := habsent rfl
          simp only [Bool.false_eq_true, IsEmpty.forall_iff, and_true]
          omega
      rw [hends, ← prefix_kept_iff ed2kEmblockSize_pos]
      refine forall₃_congr fun offset hoffset _ => or_congr_left ?_
      rw [isPresent_contiguousPrefix, lt_blockCountFor_iff]
      exact and_iff_right ((Nat.div_mul_le_self _ _).trans_lt hoffset)
    · cases resolved.symm.trans hresolve
      refine iff_of_true (fun offset _ hlt => .inl (isPresent_of_lt_bytes (hbytes ▸ hlt))) ?_
      exact leavesNoGap_of_bitmap hresolve hbytes

/-- The two writes that `append_or_salvage_block_with_manifest` chooses from, by what its probe
    found. -/
def appendBlock (md4 : Md4) (salvage ichEnabled : Bool)
    (payload : Option ByteSeq) (m : Ed2kResumeManifest) (i start stop : Nat) (data : ByteSeq) :
    WriteStep :=
  if salvage then writeSalvageBlockUnfinalized md4 ichEnabled payload m i start stop data
  else appendPieceBlockInner md4 ichEnabled payload m i start stop data

theorem appendBlock_effect (md4 : Md4) (salvage ichEnabled : Bool)
    (payload : Option ByteSeq) (m : Ed2kResumeManifest) (i start stop : Nat) (data : ByteSeq) :
    WriteEffect md4 salvage payload m i start data
      (appendBlock md4 salvage ichEnabled payload m i start stop data) := by
  cases salvage with
  | true => exact writeSalvageBlockUnfinalized_effect ..
  | false => exact appendPieceBlockInner_effect ..

/-- **An append accrues exactly where it leaves no gap after a partial block**: in every state a
    transfer can reach, a block that either write takes without a verdict adds its range to the
    bytes its piece counts as present and takes none away, unless the prefix of the piece ends
    inside a block and the range starts past it or, in a salvage write, ends before it. -/
theorem append_accrues_iff (md4 : Md4) (sha1 : Sha1)
    (job : Ed2kTransferJob) (md4Hashset : Option (List Md4Digest)) (aichRoot : Option Sha1Digest)
    (payload : Option ByteSeq) (ichEnabled : Bool) (events : List Event) (s : TransferSystem)
    (hs : s = (TransferSystem.start job md4Hashset aichRoot payload ichEnabled).after
      md4 sha1 events)
    (salvage : Bool) (i start stop : Nat) (data : ByteSeq) (done : WriteDone)
    (hok : (appendBlock md4 salvage s.ichEnabled s.payload s.manifest i start stop data).result =
      .ok done)
    (hverdict : done.outcome = .incomplete ∨ done.outcome = .ichRehashFailed i)
    (p : Ed2kPieceState) (hp : s.manifest.findPiece i = some p) :
    (∃ q, done.manifest.findPiece i = some q ∧ Accrues s.manifest i start data.len p q) ↔
      LeavesNoGap salvage s.manifest i start data.len p := by
  have hshaped : s.manifest.Shaped := by
    rw [hs]
    exact shaped_after (nodup_pieceIndex_new job) (fun p hp => shaped_new hp)
  obtain ⟨hmem, hindex⟩ := Ed2kResumeManifest.findPiece_eq_some hp
  have hpiece := hindex ▸ hshaped p hmem
  have heffect :=
    appendBlock_effect md4 salvage s.ichEnabled s.payload s.manifest i start stop data
  generalize appendBlock md4 salvage s.ichEnabled s.payload s.manifest i start stop data = w at *
  cases heffect with
  | refused | failed => cases hok
  | duplicate p' bitmap idx found resolved startEq stopEq present append =>
    cases hok
    cases append
    cases hp.symm.trans found
    rw [← accrues_duplicate_iff resolved startEq stopEq hpiece present]
    simp [hp]
  | settled p' q outcome m' found low high effect next =>
    cases hok
    cases hp.symm.trans found
    have hq : m'.findPiece i = some q := by
      have hself := findPiece_setPiece_self hp (effect.pieceIndex_eq.trans hindex)
      obtain rfl | ⟨rfl, -⟩ := next
      · exact hself
      · exact hself
    rw [← effect.accrues_iff hverdict hpiece]
    simp [hq]

/-! ## A part of three blocks -/

def oneByte : ByteSeq := ⟨1, fun _ => 0⟩

def noSha1 : Sha1 := fun _ => Vector.replicate 20 0

def threeBlocks : TransferSystem :=
  .start ⟨firstByteMd4 [], 3 * ed2kEmblockSize, ed2kPartSize⟩ none none none false

/-- The second byte follows the first. -/
theorem append_accrues_second_byte : ∃ s done p, s = threeBlocks.after firstByteMd4 noSha1
      [.append 0 0 1 oneByte] ∧
    (appendBlock firstByteMd4 false s.ichEnabled s.payload s.manifest 0 1 2 oneByte).result =
      .ok done ∧
    ((∃ q, done.manifest.findPiece 0 = some q ∧ Accrues s.manifest 0 1 1 p q) ↔
      LeavesNoGap false s.manifest 0 1 1 p) :=
  ⟨_, _, _, rfl, rfl, append_accrues_iff firstByteMd4 noSha1 _ _ _ _ _ _ _ rfl false 0 1 2 oneByte _
    rfl (.inl rfl) _ rfl⟩

/-- **After one byte, the second block makes the piece forget it.** -/
theorem gap_forgets_partial_block : ∃ s done p q, s = threeBlocks.after firstByteMd4 noSha1
      [.append 0 0 1 oneByte] ∧
    (appendBlock firstByteMd4 false s.ichEnabled s.payload s.manifest 0 ed2kEmblockSize
      (2 * ed2kEmblockSize) ⟨ed2kEmblockSize, fun _ => 0⟩).result = .ok done ∧
    done.outcome = .incomplete ∧ s.manifest.findPiece 0 = some p ∧
    done.manifest.findPiece 0 = some q ∧
      ¬Accrues s.manifest 0 ed2kEmblockSize ed2kEmblockSize p q :=
  ⟨_, _, _, _, rfl, rfl, rfl, rfl, rfl, fun h =>
    absurd ((h 0 (by decide)).mpr (.inl (by decide))) (by decide)⟩

end EmuleBB.Transfer
