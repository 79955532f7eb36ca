import EmuleBB.Transfer.Verified

/-!
# The completion authority

`completed` is set in one place, by a whole-file hash, and pieces and payload bytes are written in
several others. What keeps the flag honest is that **a transfer whose pieces are all verified is
settled**: an append to a verified piece is a duplicate or writes nothing, a salvage does not start
on one, and the rechecks leave a finished transfer to the final re-hash.

The salvage write is the exception. It tests neither the flags nor the piece, and
`mark_final_rehash_pending` never downgrades a completed manifest, so a block that was probed before
the transfer finished can still overwrite it afterwards (`late_salvage_write_breaks_completion`).
Where no salvage write falls on a settled transfer, the authority holds in every run
(`completed_transfer_is_whole`).
-/

namespace EmuleBB.Transfer

open Ed2kPieceState Ed2kResumeManifest TransferSystem PartBlockBitmap List

/-! ## A consistent manifest -/

structure Consistent (m : Ed2kResumeManifest) : Prop where
  indices : m.pieces.map pieceIndex = range (pieceCount m.fileSize m.pieceSize)
  full : ∀ p ∈ m.pieces, p.state = .verified → p = p.verifiedPiece (m.pieceLen p.pieceIndex)
  ranges : m.verifiedRanges = rebuildRangesLoop m.fileSize m.pieceSize m.pieces [] none
  completed : m.completed = true → m.isFullyVerified = true ∧ m.finalRehashPending = false
  pending : m.finalRehashPending = true → m.isFullyVerified = true

def Settled (m : Ed2kResumeManifest) : Prop :=
  m.completed = true ∨ m.finalRehashPending = true

section

variable {m m' : Ed2kResumeManifest} {i : Nat} {p q : Ed2kPieceState} {pieces : List Ed2kPieceState}
  {ranges : List Ed2kSharedRange}

/-- A settled transfer has all its pieces. -/
theorem Consistent.isFullyVerified (h : Consistent m) (hs : Settled m) :
    m.isFullyVerified = true := by
  rcases hs with hc | hp
  · exact (h.completed hc).1
  · exact h.pending hp

theorem verified_of_isFullyVerified (h : m.isFullyVerified = true) (hp : p ∈ m.pieces) :
    p.state = .verified := by
  simpa using all_eq_true.mp h p hp

theorem Consistent.verified (h : Consistent m) (hs : Settled m) (hp : p ∈ m.pieces) :
    p.state = .verified :=
  verified_of_isFullyVerified (h.isFullyVerified hs) hp

theorem not_settled (h : ¬Settled m) : m.completed = false ∧ m.finalRehashPending = false := by
  simpa [Settled] using h

theorem Consistent.refresh_eq (h : Consistent m) (hs : Settled m) : refresh m = m := by
  have hall := h.isFullyVerified hs
  have hranges := h.ranges
  have hpending : (if m.completed then false else m.isFullyVerified) = m.finalRehashPending := by
    rcases hs with hc | hp
    · rw [hc, (h.completed hc).2]
      rfl
    · cases hc : m.completed with
      | true => exact absurd (h.completed hc).2 (by simp [hp])
      | false => rw [hall, hp]; rfl
  unfold refresh markFinalRehashPending
  rw [show (rebuildVerifiedRanges m).isFullyVerified = m.isFullyVerified from rfl,
    show (rebuildVerifiedRanges m).completed = m.completed from rfl, hpending]
  unfold rebuildVerifiedRanges
  rw [← hranges]

theorem setPiece_self (h : m.findPiece i = some p) : m.setPiece i p = m := by
  unfold setPiece modifyPiece
  rw [modifyPieces_eq, FirstMatch.modifyFirst_congr (g := id), FirstMatch.modifyFirst_of_fixed]
  · exact fun _ _ _ => rfl
  · exact fun _ hfound => (Option.some.inj (hfound.symm.trans h)).symm

/-! ## Verified ranges

The ranges depend on the indices and states of the pieces only. -/

theorem rebuildRangesLoop_congr {fileSize pieceSize : Nat} {ps qs : List Ed2kPieceState}
    (h : List.Forall₂ (fun p q => p.pieceIndex = q.pieceIndex ∧ p.state = q.state) ps qs)
    {activeStart : Option Nat} :
    rebuildRangesLoop fileSize pieceSize ps ranges activeStart =
      rebuildRangesLoop fileSize pieceSize qs ranges activeStart := by
  induction h generalizing ranges activeStart with
  | nil => rfl
  | cons hpq _ ih =>
    simp only [rebuildRangesLoop, hpq.1, hpq.2]
    split
    · split <;> exact ih ..
    · split <;> exact ih ..

theorem forall₂_modifyPieces (h : pieces.find? (fun piece => piece.pieceIndex = i) = some p)
    (hq : p.pieceIndex = q.pieceIndex ∧ p.state = q.state) :
    List.Forall₂ (fun p q => p.pieceIndex = q.pieceIndex ∧ p.state = q.state) pieces
      (modifyPieces i (fun _ => q) pieces) := by
  have hrefl : ∀ rs : List Ed2kPieceState, List.Forall₂
      (fun p q => p.pieceIndex = q.pieceIndex ∧ p.state = q.state) rs rs :=
    fun rs => forall₂_same.mpr fun _ _ => ⟨rfl, rfl⟩
  rw [modifyPieces_eq]
  obtain ⟨-, heq⟩ | ⟨as, r, bs, rfl, hfind, heq, -⟩ :=
    FirstMatch.modifyFirst_cases (fun piece => piece.pieceIndex = i) (fun _ => q) pieces
  · rw [heq]
    exact hrefl pieces
  · cases hfind.symm.trans h
    rw [heq]
    exact rel_append (hrefl as) (.cons hq (hrefl bs))

section

variable {fileSize pieceSize : Nat}

theorem rebuildRangesLoop_append (ranges : List Ed2kSharedRange) (activeStart : Option Nat) :
    rebuildRangesLoop fileSize pieceSize pieces ranges activeStart =
      ranges ++ rebuildRangesLoop fileSize pieceSize pieces [] activeStart := by
  induction pieces generalizing ranges activeStart with
  | nil => simp [rebuildRangesLoop]
  | cons p ps ih =>
    simp only [rebuildRangesLoop]
    split
    · split
      · rw [ih, ih ([] ++ _), append_assoc]
        rfl
      · exact ih ranges _
    · split
      · rw [ih, ih ([] ++ _), append_assoc]
        rfl
      · exact ih ranges _

/-- The loop from piece `k` on, with a range open since `activeStart`. -/
theorem rebuildRangesLoop_exact (hpiece : 0 < pieceSize) (hfits : fileSize + pieceSize ≤ 2 ^ 64)
    {k : Nat} (hindices : pieces.map pieceIndex = range' k pieces.length)
    (hcount : k + pieces.length = chunkCount fileSize pieceSize) (activeStart : Option Nat)
    (hactive : ∀ start ∈ activeStart, start < k * pieceSize ∧ pieces ≠ []) :
    let start := activeStart.getD (k * pieceSize)
    let ranges := rebuildRangesLoop fileSize pieceSize pieces [] activeStart
    (∀ r ∈ ranges, start ≤ r.start ∧ r.start < r.stop) ∧
      ranges.Pairwise (fun r r' => r.stop < r'.start) ∧
      ∀ x, (∃ r ∈ ranges, r.start ≤ x ∧ x < r.stop) ↔
        (start ≤ x ∧ x < k * pieceSize) ∨ ∃ p ∈ pieces, p.state = .verified ∧
          p.pieceIndex * pieceSize ≤ x ∧
            x < min (p.pieceIndex * pieceSize + pieceSize) fileSize := by
  induction pieces generalizing k activeStart with
  | nil =>
    cases activeStart with
    | some start => exact absurd rfl (hactive start rfl).2
    | none => simp [rebuildRangesLoop]
  | cons p ps ih =>
    obtain ⟨hp, hps⟩ := cons.inj hindices
    rw [length_cons] at hcount
    have hnext : k + 1 + ps.length = chunkCount fileSize pieceSize := by omega
    have hinside : k * pieceSize < fileSize := by
      rw [← lt_chunkCount_iff hpiece]
      omega
    have hend : ps ≠ [] ↔ k * pieceSize + pieceSize < fileSize := by
      rw [← Nat.succ_mul, ← lt_chunkCount_iff hpiece, ← length_pos_iff]
      omega
    have hstart : activeStart.getD (k * pieceSize) ≤ k * pieceSize := by
      cases activeStart with
      | none => exact le_rfl
      | some start => exact (hactive start rfl).1.le
    -- the piece starts inside the file, so neither its start nor its end wraps
    have hfirst : k * pieceSize % 2 ^ 64 = k * pieceSize := Nat.mod_eq_of_lt (by omega)
    have hstop : (k * pieceSize + pieceSize) % 2 ^ 64 = k * pieceSize + pieceSize :=
      Nat.mod_eq_of_lt (by omega)
    simp only [rebuildRangesLoop, hp, hfirst, hstop, exists_mem_cons_iff]
    split
    · next hverified =>
      simp only [hverified, true_and]
      split
      · next hlast =>
        -- only the last piece ends at the end of the file
        obtain rfl : ps = [] := by
          by_contra hne
          have := hend.mp hne
          omega
        rw [hlast]
        simp only [nil_append, rebuildRangesLoop, mem_singleton, forall_eq, exists_eq_left,
          not_mem_nil, false_and, exists_false, or_false]
        exact ⟨⟨le_rfl, by omega⟩, pairwise_singleton _ _, fun x => by omega⟩
      · next hmore =>
        obtain ⟨hfrom, hapart, hcovers⟩ :=
          ih hps hnext (some (activeStart.getD (k * pieceSize))) (by
          rintro _ ⟨rfl⟩
          rw [Nat.succ_mul]
          exact ⟨by omega, hend.mpr (by omega)⟩)
        refine ⟨hfrom, hapart, fun x => ?_⟩
        rw [hcovers, Nat.succ_mul, Option.getD_some, ← or_assoc]
        refine or_congr_left ?_
        omega
    · next hmissing =>
      obtain ⟨hfrom, hapart, hcovers⟩ := ih hps hnext none (by simp)
      simp only [Option.getD_none, Nat.succ_mul] at hfrom hcovers
      simp only [hmissing, false_and, false_or]
      cases activeStart with
      | none =>
        simp only [Option.getD_none] at hstart ⊢
        refine ⟨fun r hr => ?_, hapart, fun x => ?_⟩
        · have := hfrom r hr
          omega
        · rw [hcovers]
          refine or_congr_left ?_
          omega
      | some start =>
        have hlt : start < k * pieceSize := (hactive start rfl).1
        simp only [nil_append, rebuildRangesLoop_append [_], singleton_append,
          forall_mem_cons, pairwise_cons, exists_mem_cons_iff, hcovers,
          Option.getD_some]
        refine ⟨⟨⟨le_rfl, hlt⟩, fun r hr => ?_⟩, ⟨fun r hr => ?_, hapart⟩, fun x => ?_⟩
        · have := hfrom r hr
          omega
        · have := hfrom r hr
          omega
        · refine or_congr_right ⟨fun h => h.resolve_left ?_, .inr⟩
          omega

/-- **The ranges are the verified bytes**: apart from each other, and in order. -/
theorem verifiedRanges_exact (hpiece : 0 < pieceSize) (hfits : fileSize + pieceSize ≤ 2 ^ 64)
    (hcanonical : pieces.map pieceIndex = range (chunkCount fileSize pieceSize)) :
    let ranges := rebuildRangesLoop fileSize pieceSize pieces [] none
    (∀ r ∈ ranges, r.start < r.stop) ∧ ranges.Pairwise (fun r r' => r.stop < r'.start) ∧
      ∀ x, (∃ r ∈ ranges, r.start ≤ x ∧ x < r.stop) ↔ ∃ p ∈ pieces, p.state = .verified ∧
        p.pieceIndex * pieceSize ≤ x ∧ x < min (p.pieceIndex * pieceSize + pieceSize) fileSize := by
  have hlength : pieces.length = chunkCount fileSize pieceSize := by
    rw [← length_map pieceIndex, hcanonical, length_range]
  rw [← hlength, range_eq_range'] at hcanonical
  obtain ⟨hfrom, hapart, hcovers⟩ :=
    rebuildRangesLoop_exact hpiece hfits hcanonical ((Nat.zero_add _).trans hlength) none (by simp)
  exact ⟨fun r hr => (hfrom r hr).2, hapart, fun x => (hcovers x).trans (by simp)⟩

/-- Ranges that do not touch and cover a whole segment are one range. -/
theorem eq_singleton_of_covers {size : Nat} (hsize : 0 < size)
    (hne : ∀ r ∈ ranges, r.start < r.stop) (hapart : ranges.Pairwise fun r r' => r.stop < r'.start)
    (hcovers : ∀ x, (∃ r ∈ ranges, r.start ≤ x ∧ x < r.stop) ↔ x < size) :
    ranges = [⟨0, size⟩] := by
  obtain ⟨r, rest, rfl⟩ := exists_cons_of_ne_nil (show ranges ≠ [] by
    rintro rfl
    simpa [hsize] using hcovers 0)
  rw [pairwise_cons] at hapart
  simp only [forall_mem_cons, exists_mem_cons_iff] at hne hcovers
  have hrest : rest = [] := by
    refine eq_nil_iff_forall_not_mem.mpr fun r' hr' => ?_
    -- the byte where the first range stops would be in no range
    have hafter := hapart.1 r' hr'
    have hinside := (hcovers r'.start).mp (.inr ⟨r', hr', le_rfl, hne.2 r' hr'⟩)
    obtain hr | ⟨r'', hr'', hle, -⟩ := (hcovers r.stop).mpr (by omega)
    · omega
    · exact absurd (hapart.1 r'' hr'') (by omega)
  subst hrest
  obtain ⟨start, stop⟩ := r
  simp only [not_mem_nil, false_and, exists_false, or_false] at hne hcovers
  have hfirst := (hcovers 0).mpr hsize
  have hstop := hcovers stop
  have hlast := hcovers (stop - 1)
  have hsize := hcovers (size - 1)
  grind

end

/-- **The verified ranges are exact** where the last piece ends within `u64`: they are in order, not
    empty and do not touch, and cover the bytes of the verified pieces. -/
theorem rebuild_verified_ranges_exact (m : Ed2kResumeManifest) (hpiece : 0 < m.pieceSize)
    (hfits : m.fileSize + m.pieceSize ≤ 2 ^ 64)
    (hcanonical : m.pieces.map pieceIndex = range (chunkCount m.fileSize m.pieceSize)) :
    let ranges := (rebuildVerifiedRanges m).verifiedRanges
    (∀ r ∈ ranges, r.start < r.stop) ∧ ranges.Pairwise (fun r r' => r.stop < r'.start) ∧
      ∀ x, (∃ r ∈ ranges, r.start ≤ x ∧ x < r.stop) ↔ ∃ p ∈ m.pieces, p.state = .verified ∧
        m.pieceStart p.pieceIndex ≤ x ∧
          x < min (m.pieceStart p.pieceIndex + m.pieceSize) m.fileSize :=
  verifiedRanges_exact hpiece hfits hcanonical

/-- A hole in the middle leaves two ranges, and the second ends with the file. -/
theorem verified_ranges_around_hole :
    let m := { new ⟨.replicate 16 0, 25, 10⟩ with pieces :=
      [⟨0, .verified, 10, none, false⟩, ⟨1, .missing, 0, none, false⟩,
        ⟨2, .verified, 5, none, false⟩] }
    let ranges := (rebuildVerifiedRanges m).verifiedRanges
    ranges = [⟨0, 10⟩, ⟨20, 25⟩] ∧ ranges.Pairwise fun r r' => r.stop < r'.start :=
  ⟨by decide, (rebuild_verified_ranges_exact _ (by decide) (by decide) (by decide)).2.1⟩

/-- **Past `u64` the ranges are lost.** The end of the second piece wraps to zero, so the open range
    is never closed: both pieces are verified and no byte of them is in a range. -/
theorem verified_ranges_lost_past_u64 :
    let m := { new ⟨.replicate 16 0, 2 ^ 63 + 1, 2 ^ 63⟩ with pieces :=
      [⟨0, .verified, 2 ^ 63, none, false⟩, ⟨1, .verified, 1, none, false⟩] }
    m.pieces.map pieceIndex = range (chunkCount m.fileSize m.pieceSize) ∧
      (∀ p ∈ m.pieces, p.state = .verified) ∧ (rebuildVerifiedRanges m).verifiedRanges = [] := by
  decide +kernel

/-! ## The steps of an open transfer keep the manifest consistent -/

section

variable (h : Consistent m)

include h

theorem Consistent.nodup : (m.pieces.map pieceIndex).Nodup := by
  rw [h.indices]
  exact nodup_range

section

variable (hfound : m.findPiece i = some p) (hindex : q.pieceIndex = p.pieceIndex)

include hfound hindex

theorem Consistent.full_setPiece
    (hq : q.state = .verified → q = q.verifiedPiece (m.pieceLen i)) :
    ∀ r ∈ (m.setPiece i q).pieces, r.state = .verified →
      r = r.verifiedPiece (m.pieceLen r.pieceIndex) := by
  intro r hr hv
  rcases mem_modifyPieces h.nodup hr with ⟨hmem, -⟩ | ⟨_, _, rfl⟩
  · exact h.full r hmem hv
  · rw [hindex, pieceIndex_of_findPiece hfound]
    exact hq hv

theorem Consistent.refresh_setPiece (hopen : m.completed = false)
    (hq : q.state = .verified → q = q.verifiedPiece (m.pieceLen i)) :
    Consistent (refresh (m.setPiece i q)) where
  indices := (map_pieceIndex_setPiece hfound hindex).trans h.indices
  full := h.full_setPiece hfound hindex hq
  ranges := rfl
  completed hc := absurd (hopen.symm.trans hc) (by simp)
  pending hp := by
    have hflag : (refresh (m.setPiece i q)).finalRehashPending =
        if m.completed then false else (m.setPiece i q).isFullyVerified := rfl
    rw [hflag, hopen] at hp
    exact hp

/-- A piece that is not verified can be replaced by another one without touching the ranges. -/
theorem Consistent.setPiece_missing (hopen : ¬Settled m) (hp : p.state = .missing)
    (hq : q.state = .missing) : Consistent (m.setPiece i q) where
  indices := (map_pieceIndex_setPiece hfound hindex).trans h.indices
  full := h.full_setPiece hfound hindex fun hv => absurd (hq.symm.trans hv) (by simp)
  ranges := h.ranges.trans (rebuildRangesLoop_congr
    (forall₂_modifyPieces hfound ⟨hindex.symm, hp.trans hq.symm⟩))
  completed hc := absurd (.inl hc) hopen
  pending hp := absurd (.inr hp) hopen

end

theorem Consistent.map {f : Ed2kPieceState → Ed2kPieceState}
    (hf : IsReset m.pieces f) (hsame : SameFile m m') (hpieces : m'.pieces = m.pieces.map f)
    (hranges : m'.verifiedRanges = rebuildRangesLoop m'.fileSize m'.pieceSize m'.pieces [] none)
    (hopen : ¬Settled m') : Consistent m' where
  indices := by rw [hpieces, hf.map_pieceIndex, h.indices, hsame.fileSize, hsame.pieceSize]
  full := by
    intro q hq hv
    rw [hpieces] at hq
    obtain ⟨p, hp, rfl⟩ := mem_map.mp hq
    rcases hf p hp with heq | ⟨ich, heq⟩
    · rw [heq] at hv ⊢
      rw [hsame.pieceLen]
      exact h.full p hp hv
    · rw [heq] at hv
      exact absurd hv (by simp [reset])
  ranges := hranges
  completed hc := absurd (.inl hc) hopen
  pending hp := absurd (.inr hp) hopen

theorem Consistent.flags (hall : m.isFullyVerified = true)
    (hsame : SameFile m m') (hpieces : m'.pieces = m.pieces)
    (hranges : m'.verifiedRanges = m.verifiedRanges)
    (hone : m'.completed = true → m'.finalRehashPending = false) : Consistent m' where
  indices := by rw [hpieces, h.indices, hsame.fileSize, hsame.pieceSize]
  full := by
    intro p hp hv
    rw [hsame.pieceLen]
    exact h.full p (hpieces ▸ hp) hv
  ranges := by rw [hranges, h.ranges, hsame.fileSize, hsame.pieceSize, hpieces]
  completed hc := by
    refine ⟨?_, hone hc⟩
    unfold Ed2kResumeManifest.isFullyVerified at hall ⊢
    rw [hpieces]
    exact hall
  pending _ := by
    unfold Ed2kResumeManifest.isFullyVerified at hall ⊢
    rw [hpieces]
    exact hall

end

theorem missing_of_ne_verified {state : Ed2kTransferState} (h : state ≠ .verified) :
    state = .missing := by
  cases state with
  | missing => rfl
  | verified => exact absurd rfl h

/-- A block write into a transfer that is not settled. -/
theorem Consistent.write {md4 : Md4} {salvage : Bool}
    {start : Nat} {data : ByteSeq} {w : WriteStep} {s : TransferSystem}
    (h : Consistent s.manifest) (hopen : ¬Settled s.manifest)
    (hw : WriteEffect md4 salvage s.payload s.manifest i start data w) :
    Consistent (s.written w).manifest := by
  cases hw with
  | refused | duplicate | failed => exact h
  | settled p q outcome m' found low high effect next =>
    rcases next with rfl | ⟨rfl, -, hroom, rfl⟩
    · exact h.refresh_setPiece found effect.pieceIndex_eq (not_settled hopen).1
        fun hv => (effect.of_verified hv).2
    · -- a piece with room left is not verified
      have hmissing : p.state ≠ .verified := by
        intro hv
        have hfull := h.full p (findPiece_eq_some found).1 hv
        rw [pieceIndex_of_findPiece found] at hfull
        rw [hfull] at hroom
        simp only [verifiedPiece] at hroom
        omega
      exact h.setPiece_missing found rfl hopen (missing_of_ne_verified hmissing) rfl

end

/-! ## Appends to a settled transfer -/

def SamePayload (payload payload' : Option ByteSeq) : Prop :=
  payload' = payload ∨
    ∃ file file', payload = some file ∧ payload' = some file' ∧ file.SameContent file'

section

variable {md4 : Md4} {sha1 : Sha1} {ichEnabled : Bool}
  {payload : Option ByteSeq} {m m' : Ed2kResumeManifest} {i start stop : Nat} {data : ByteSeq}
  {p : Ed2kPieceState} {s : TransferSystem} {e : Event} {payload' : Option ByteSeq}

theorem isPresent_of_full {bitmap : PartBlockBitmap} {idx : Nat}
    (hfull : p = p.verifiedPiece (m.pieceLen i))
    (hresolve : p.resolveBlockBitmap (m.pieceLen i) = some bitmap)
    (hidx : idx < bitmap.blockCount) :
    bitmap.isPresent idx = true := by
  have hnone : p.blockBitmap = none := by rw [hfull]; rfl
  have hbytes : p.bytesWritten = m.pieceLen i := by rw [hfull]; rfl
  rw [resolveBlockBitmap_of_none hnone, hbytes] at hresolve
  cases hresolve
  rw [isPresent_contiguousPrefix]
  exact ⟨by simpa [blockCount] using hidx, Nat.min_le_right ..⟩

theorem append_full (hp : m.findPiece i = some p) (hfull : p = p.verifiedPiece (m.pieceLen i)) :
    (∃ e, appendPieceBlockInner md4 ichEnabled payload m i start stop data =
        ⟨payload, .error e⟩) ∨
      appendPieceBlockInner md4 ichEnabled payload m i start stop data =
        ⟨payload, .ok ⟨m, .incomplete, .unchanged⟩⟩ ∨
      data.len = 0 := by
  have hbytes : p.bytesWritten = m.pieceLen i := by rw [hfull]; rfl
  unfold appendPieceBlockInner
  rw [hp]
  simp only
  split
  · -- the exact-block path: a block of the piece is present already
    unfold appendRequestedBlockByBitmapUnlocked
    cases hcheck : checkRequestedBlock m i start stop data.len with
    | error e => exact .inl ⟨e, rfl⟩
    | ok checked =>
      obtain ⟨bitmap, idx⟩ := checked
      obtain ⟨p', hp', hresolve, hstart, hlen, -, -⟩ := checkRequestedBlock_eq_ok hcheck
      cases hp.symm.trans hp'
      refine .inr ?_
      by_cases hidx : idx < bitmap.blockCount
      · left
        simp only
        rw [if_pos (isPresent_of_full hfull hresolve hidx)]
      · right
        have hpast : bitmap.partLen ≤ idx * ed2kEmblockSize :=
          Nat.le_of_not_lt fun hlt => hidx (lt_blockCountFor_iff.mpr hlt)
        unfold blockRange at hstart hlen
        generalize idx * ed2kEmblockSize = pos at *
        omega
  · rename_i hfast
    refine .inr (.inr ?_)
    omega

theorem OnDisk.verifyOnDisk_empty (h : OnDisk md4 payload m i) (hempty : data.len = 0) :
    verifyOnDisk md4 (writePayload payload start data) m i = .ok true := by
  obtain ⟨file, bytes, rfl, hread, hhash⟩ := h
  unfold verifyOnDisk
  rw [show writePayload (some file) start data = file.write start data from rfl,
    (ByteSeq.sameContent_write_of_len_eq_zero hempty).readExact_eq, hread]
  exact verifyPieceAgainstManifest_eq_true.mpr hhash

theorem PieceEffect.eq_of_full {salvage : Bool} {q : Ed2kPieceState} {outcome : PieceWriteOutcome}
    (h : PieceEffect md4 salvage (writePayload payload start data) m i start data.len p q outcome)
    (hfull : p = p.verifiedPiece (m.pieceLen i)) (hdisk : OnDisk md4 payload m i)
    (hempty : data.len = 0) : q = p := by
  cases h with
  | verified | salvaged => exact hfull.symm
  | gapped disk =>
    rw [hdisk.verifyOnDisk_empty hempty] at disk
    cases disk
  | block bitmap idx outcome resolved startEq stopEq open_ =>
    have hall : (bitmap.setPresent idx).allPresent = true := by
      refine allPresent_iff.mpr fun k hk => ?_
      rw [blockCount_setPresent] at hk
      have hpresent := isPresent_of_full hfull resolved hk
      by_cases hidx : idx < bitmap.blockCount
      · rw [isPresent_setPresent hidx, hpresent]
        simp
      · rw [setPresent, dif_pos (Nat.le_of_not_lt hidx)]
        exact hpresent
    cases hall.symm.trans open_
  | advance outcome noBitmap startEq open_ =>
    rw [hfull] at open_
    simp only [verifiedPiece] at open_
    omega

/-- **An append to a settled transfer changes nothing a reader can see.** -/
theorem append_settled (h : Consistent s.manifest) (hd : VerifiedOnDisk md4 s.payload s.manifest)
    (hs : Settled s.manifest) {s' : TransferSystem}
    (next : s' = s.written
      (appendPieceBlockInner md4 s.ichEnabled s.payload s.manifest i start stop data)) :
    s'.manifest = s.manifest ∧ SamePayload s.payload s'.payload := by
  subst next
  cases hp : s.manifest.findPiece i with
  | none =>
    have hrefused : appendPieceBlockInner md4 s.ichEnabled s.payload s.manifest i start stop data =
        ⟨s.payload, .error (.missingPieceIndex i)⟩ := by
      unfold appendPieceBlockInner
      rw [hp]
    rw [hrefused]
    exact ⟨rfl, .inl rfl⟩
  | some p =>
    obtain ⟨hmem, hindex⟩ := findPiece_eq_some hp
    have hv := h.verified hs hmem
    have hfull := h.full p hmem hv
    have hdisk := hd.onDisk p hmem hv
    rw [hindex] at hfull hdisk
    rcases append_full hp hfull with
      ⟨e, he⟩ | he | hempty
    · rw [he]
      exact ⟨rfl, .inl rfl⟩
    · rw [he]
      exact ⟨rfl, .inl rfl⟩
    · have heffect := appendPieceBlockInner_effect md4 s.ichEnabled s.payload s.manifest i start
        stop data
      have hwritten : SamePayload s.payload (some (writePayload s.payload start data)) := by
        obtain ⟨file, bytes, hfile, -⟩ := hdisk
        refine .inr ⟨file, _, hfile, rfl, ?_⟩
        rw [hfile]
        exact ByteSeq.sameContent_write_of_len_eq_zero hempty
      generalize appendPieceBlockInner md4 s.ichEnabled s.payload s.manifest i start stop data = w
        at heffect
      cases heffect with
      | refused | duplicate => exact ⟨rfl, .inl rfl⟩
      | failed => exact ⟨rfl, hwritten⟩
      | settled p' q outcome m' found low high effect next =>
        cases hp.symm.trans found
        obtain rfl := effect.eq_of_full hfull hdisk hempty
        refine ⟨?_, hwritten⟩
        rw [setPiece_self hp, h.refresh_eq hs] at next
        rcases next with rfl | ⟨rfl, -⟩ <;> rfl

/-! ## The authority of `completed` -/

/-- The condition on a run: **no salvage write is executed on a settled transfer**. -/
def SalvageWritesOpen (s : TransferSystem) (e : Event) : Prop :=
  ∀ index d, e = .deliver index → s.deliveries[index]? = some d → d.salvage = true →
    s.manifest.completed = false ∧ s.manifest.finalRehashPending = false

def WholeFile (md4 : Md4) (payload : Option ByteSeq) (m : Ed2kResumeManifest) :
    Prop :=
  ∃ file, payload = some file ∧ file.len = m.fileSize ∧
    payloadFileHash md4 file m.fileSize = some m.fileHash

/-- **The invariant behind completion.** While a final re-hash is in flight the transfer is
    pending, and what it hashed is still what is on disk. -/
structure Authority (md4 : Md4) (s : TransferSystem) : Prop where
  consistent : Consistent s.manifest
  onDisk : VerifiedOnDisk md4 s.payload s.manifest
  whole : s.manifest.completed = true → WholeFile md4 s.payload s.manifest
  inFlight : s.finalRehash ≠ .idle → s.manifest.finalRehashPending = true
  hashed : ∀ computation, s.finalRehash = .hashed computation →
    ∃ file, s.payload = some file ∧ computation.actualLen = file.len ∧
      computation.fileHash = payloadFileHash md4 file s.manifest.fileSize

theorem completed_completeManifest {c : FinalRehashComputation} :
    (completeManifest m c).finalRehashPending = false ∧
      (completeManifest m c).verifiedRanges = m.verifiedRanges := by
  unfold completeManifest
  cases c.recovery with
  | none => exact ⟨rfl, rfl⟩
  | some =>
    simp only
    split <;> exact ⟨rfl, rfl⟩

theorem Consistent.effect (h : Consistent s.manifest) (hd : VerifiedOnDisk md4 s.payload s.manifest)
    (hguard : SalvageWritesOpen s e) (he : StepEffect md4 s e payload' m') : Consistent m' := by
  have hopen_of_missing : ∀ {i p}, s.manifest.findPiece i = some p → p.state ≠ .verified →
      ¬Settled s.manifest := fun hp hmissing hs =>
    hmissing (h.verified hs (findPiece_eq_some hp).1)
  cases he with
  | unchanged => exact h
  | append i start stop data s' next =>
    by_cases hs : Settled s.manifest
    · rw [(append_settled h hd hs next).1]
      exact h
    · rw [next]
      exact h.write hs (appendPieceBlockInner_effect ..)
  | salvageWrite index d s' event delivery salvage next =>
    obtain ⟨hc, hp⟩ := hguard index d event delivery salvage
    have hs : ¬Settled s.manifest := by simp [Settled, hc, hp]
    rw [next]
    exact h.write hs (writeSalvageBlockUnfinalized_effect ..)
  | promoted i p file found missing =>
    have hc := (not_settled (hopen_of_missing found missing)).1
    have hindex : (p.verifiedPiece (s.manifest.pieceLen i)).pieceIndex = p.pieceIndex := rfl
    exact h.refresh_setPiece found hindex hc fun _ => rfl
  | salvaging i p bitmap found missing =>
    exact h.setPiece_missing found rfl (hopen_of_missing found missing)
      (missing_of_ne_verified missing) rfl
  | withdrawn m' authority next =>
    have hall : s.manifest.isFullyVerified = true := by
      rcases authority with hc | hall | hp
      · exact h.isFullyVerified (.inl hc)
      · exact hall
      · exact h.isFullyVerified (.inr hp)
    rw [next]
    exact h.flags hall ⟨rfl, rfl, rfl, rfl, rfl⟩ rfl rfl fun hc => absurd hc (by simp)
  | demoted f payload' reset =>
    exact h.map reset ⟨rfl, rfl, rfl, rfl, rfl⟩ rfl rfl (by simp [Settled, rebuildVerifiedRanges])
  | rechecked f reset open_ notPending =>
    have hp : s.manifest.finalRehashPending = false := by
      rcases notPending with hp | hall
      · exact hp
      · exact Bool.eq_false_iff.mpr fun hp => by
          rw [h.pending hp] at hall
          cases hall
    exact h.map reset ⟨rfl, rfl, rfl, rfl, rfl⟩ rfl rfl
      (by simp [Settled, rebuildVerifiedRanges, open_, hp])
  | completed computation hashed pending =>
    exact h.flags (h.pending pending) (sameFile_completeManifest ..) (pieces_completeManifest ..)
      (completed_completeManifest ..).2 fun _ => (completed_completeManifest ..).1

/-! ## Runs -/

theorem step_phase : (step md4 sha1 s e).finalRehash = s.finalRehash ∨
      (step md4 sha1 s e).finalRehash = .idle ∨
      (s.finalRehash = .idle ∧ (step md4 sha1 s e).finalRehash = .hashing ∧
        (step md4 sha1 s e).manifest.finalRehashPending = true) ∨
      ∃ file fingerprint, s.finalRehash = .hashing ∧ s.payload = some file ∧
        step md4 sha1 s e =
          { s with
            finalRehash :=
              .hashed (computeFinalRehash md4 sha1 file s.manifest.fileSize fingerprint) } := by
  cases e with
  | append | probe | setIchEnabled
  | recheckCompute => exact .inl rfl
  | deliver | beginSalvage | ichRehash | recheckBegin
  | recheckFinish | withdraw => simp only [step]; split <;> exact .inl rfl
  | rehashBegin force =>
    simp only [step]
    split
    · rename_i hidle
      cases hhashing : (finalRehashBegin force s.payload s.manifest).hashing with
      | false => exact .inr (.inl rfl)
      | true =>
        refine .inr (.inr (.inl ⟨hidle, rfl, ?_⟩))
        -- the phase that goes on to hash has raised the pending bit
        revert hhashing
        unfold finalRehashBegin
        split
        · simp
        split
        · simp
        cases s.payload with
        | none => simp
        | some => exact fun _ => rfl
    · exact .inl rfl
  | rehashCompute fingerprint =>
    simp only [step]
    split
    · rename_i file hphase hfile
      exact .inr (.inr (.inr ⟨file, fingerprint, hphase, hfile, rfl⟩))
    · exact .inl rfl
  | rehashFinish =>
    simp only [step]
    split
    · exact .inr (.inl rfl)
    · exact .inl rfl
  | rehashAbort => exact .inr (.inl rfl)
  | reconcileFailure =>
    simp only [step]
    split
    · split <;> exact .inl rfl
    · exact .inl rfl

/-- **A step of a settled transfer** either changes nothing a reader can see, or withdraws
    completion, or ends the final re-hash with the whole file on disk. -/
theorem step_of_settled (h : Authority md4 s)
    (hs : Settled s.manifest) (hguard : SalvageWritesOpen s e) :
    ((step md4 sha1 s e).manifest = s.manifest ∧
        SamePayload s.payload (step md4 sha1 s e).payload) ∨
      ((step md4 sha1 s e).manifest.completed = false ∧
        (s.finalRehash = .idle ∨ (step md4 sha1 s e).finalRehash = .idle)) ∨
      ((step md4 sha1 s e).finalRehash = .idle ∧
        WholeFile md4 (step md4 sha1 s e).payload (step md4 sha1 s e).manifest) := by
  have hall := h.consistent.isFullyVerified hs
  cases e with
  | append => exact .inl (append_settled h.consistent h.onDisk hs rfl)
  | probe | setIchEnabled | rehashAbort
  | recheckCompute => exact .inl ⟨rfl, .inl rfl⟩
  | deliver index =>
    simp only [step]
    cases hd : s.deliveries[index]? with
    | none => exact .inl ⟨rfl, .inl rfl⟩
    | some d =>
      left
      simp only [deliverBlock]
      cases hsalvage : d.salvage with
      | false => exact append_settled h.consistent h.onDisk hs rfl
      | true =>
        obtain ⟨hc, hp⟩ := hguard index d rfl hd hsalvage
        exact absurd hs (by simp [Settled, hc, hp])
  | beginSalvage =>
    simp only [step]
    split
    · rename_i m outcome hbegin
      obtain ⟨p, bitmap, hp, hmissing, -⟩ := beginPartSalvage_eq_some hbegin
      exact absurd (h.consistent.verified hs (findPiece_eq_some hp).1) hmissing
    · exact .inl ⟨rfl, .inl rfl⟩
  | ichRehash =>
    simp only [step]
    split
    · rename_i m result hrehash
      rcases ichTryRehashPartUnlocked_eq_ok hrehash with rfl | ⟨p, file, hp, hmissing, -⟩
      · exact .inl ⟨rfl, .inl rfl⟩
      · exact absurd (h.consistent.verified hs (findPiece_eq_some hp).1) hmissing
    · exact .inl ⟨rfl, .inl rfl⟩
  | rehashBegin =>
    simp only [step]
    split
    · rename_i hidle
      unfold finalRehashBegin
      split
      · exact .inl ⟨rfl, .inl rfl⟩
      split
      · exact .inl ⟨rfl, .inl rfl⟩
      cases s.payload with
      | none | some => exact .inr (.inl ⟨rfl, .inl hidle⟩)
    · exact .inl ⟨rfl, .inl rfl⟩
  | rehashCompute | recheckBegin => simp only [step]; split <;> exact .inl ⟨rfl, .inl rfl⟩
  | rehashFinish =>
    simp only [step]
    split
    · rename_i c hhashed
      unfold finalRehashFinish
      split
      · exact .inl ⟨rfl, .inl rfl⟩
      split
      · rename_i hmatch
        refine .inr (.inr ⟨rfl, ?_⟩)
        obtain ⟨file, hfile, hlen, hhash⟩ := h.hashed c hhashed
        have hsame := sameFile_completeManifest s.manifest c
        refine ⟨file, hfile, ?_, ?_⟩
        · rw [hsame.fileSize, ← hlen, hmatch.1]
        · rw [hsame.fileSize, hsame.fileHash, ← hhash, hmatch.2]
      · exact .inr (.inl ⟨rfl, .inr rfl⟩)
    · exact .inl ⟨rfl, .inl rfl⟩
  | recheckFinish =>
    simp only [step]
    split
    · rename_i snapshot c _
      have herror : recheckFinish snapshot c s.manifest = .error .recheckChanged := by
        unfold recheckFinish
        rw [if_neg fun hsame => absurd hsame.2.2.2.2.2.2 (by simp [hall])]
      rw [herror]
      exact .inl ⟨rfl, .inl rfl⟩
    · exact .inl ⟨rfl, .inl rfl⟩
  | reconcileFailure reported =>
    have hkept : reconcileIncompletePayloadFailure md4 s.payload s.manifest reported =
        .ok s.manifest := by
      unfold reconcileIncompletePayloadFailure
      rcases hs with hc | hp
      · simp [hc]
      · simp [hp]
    simp only [step, hkept]
    split <;> exact .inl ⟨rfl, .inl rfl⟩
  | withdraw =>
    simp only [step]
    split
    · rename_i hidle
      unfold withdrawUntrustedVerifiedPayload
      split
      · exact .inl ⟨rfl, .inl rfl⟩
      · exact .inr (.inl ⟨rfl, .inl hidle⟩)
    · exact .inl ⟨rfl, .inl rfl⟩

theorem payloadFileHash_congr {file file' : ByteSeq} (h : file.SameContent file') {size : Nat} :
    payloadFileHash md4 file' size = payloadFileHash md4 file size := by
  have hdigests : partDigests md4 file' size = partDigests md4 file size := by
    unfold partDigests
    simp only [h.readExact_eq]
  unfold payloadFileHash
  rw [hdigests]

theorem WholeFile.congr (h : WholeFile md4 payload m) (hsame : SamePayload payload payload') :
    WholeFile md4 payload' m := by
  obtain ⟨file, rfl, hlen, hhash⟩ := h
  rcases hsame with rfl | ⟨_, file', hfile, rfl, hcontent⟩
  · exact ⟨file, rfl, hlen, hhash⟩
  · cases hfile
    exact ⟨file', rfl, hcontent.len_eq.trans hlen, (payloadFileHash_congr hcontent).trans hhash⟩

theorem Authority.step (h : Authority md4 s) (hguard : SalvageWritesOpen s e) :
    Authority md4 (step md4 sha1 s e) := by
  have heffect := step_effect md4 sha1 s e
  refine ⟨h.consistent.effect h.onDisk hguard heffect, h.onDisk.effect heffect, ?_, ?_, ?_⟩
  · intro hc
    by_cases hs : Settled s.manifest
    · rcases step_of_settled h hs hguard with
        ⟨hmanifest, hpayload⟩ | ⟨hwithdrawn, -⟩ | ⟨-, hwhole⟩
      · rw [hmanifest] at hc ⊢
        exact (h.whole hc).congr hpayload
      · cases hwithdrawn.symm.trans hc
      · exact hwhole
    · obtain ⟨hopen, hpending⟩ := not_settled hs
      cases (heffect.samePlan.completed hopen hpending).symm.trans hc
  · intro hbusy
    rcases step_phase with
      hsame | hidle | ⟨-, -, hpending⟩ | ⟨file, fingerprint, hhashing, -, hstep⟩
    · -- the re-hash was in flight before, so the transfer is pending and stays so
      rw [hsame] at hbusy
      have hpending := h.inFlight hbusy
      rcases step_of_settled h (.inr hpending) hguard with
        ⟨hmanifest, -⟩ | ⟨-, hidle | hidle⟩ | ⟨hidle, -⟩
      · rw [hmanifest]
        exact hpending
      · exact absurd hidle hbusy
      · exact absurd (hsame.symm.trans hidle) hbusy
      · exact absurd (hsame.symm.trans hidle) hbusy
    · exact absurd hidle hbusy
    · exact hpending
    · rw [hstep]
      exact h.inFlight (by simp [hhashing])
  · intro c hc
    rcases step_phase with
      hsame | hidle | ⟨-, hhashing, -⟩ | ⟨file, fingerprint, -, hfile, hstep⟩
    · rw [hsame] at hc
      have hbusy : s.finalRehash ≠ .idle := by simp [hc]
      obtain ⟨file, hfile, hlen, hhash⟩ := h.hashed c hc
      rcases step_of_settled h (.inr (h.inFlight hbusy)) hguard with
        ⟨hmanifest, hpayload⟩ | ⟨-, hidle | hidle⟩ | ⟨hidle, -⟩
      · rw [hmanifest]
        rcases hpayload with hpayload | ⟨_, file', hfile', hpayload, hcontent⟩
        · exact ⟨file, hpayload.trans hfile, hlen, hhash⟩
        · cases hfile.symm.trans hfile'
          exact ⟨file', hpayload, hlen.trans hcontent.len_eq.symm,
            hhash.trans (payloadFileHash_congr hcontent).symm⟩
      · exact absurd hidle hbusy
      · exact absurd (hsame.symm.trans hidle) hbusy
      · exact absurd (hsame.symm.trans hidle) hbusy
    · cases hidle.symm.trans hc
    · cases hhashing.symm.trans hc
    · rw [hstep] at hc ⊢
      obtain rfl := RehashPhase.hashed.inj hc
      exact ⟨file, hfile, rfl, rfl⟩

theorem authority_start {job : Ed2kTransferJob} {md4Hashset : Option (List Md4Digest)}
    {aichRoot : Option Sha1Digest} :
    Authority md4 (TransferSystem.start job md4Hashset aichRoot payload ichEnabled) where
  consistent :=
    { indices := by
        simp [TransferSystem.start, new, Ed2kPieceState.empty,
          Function.comp_def]
      full := fun p hp hv => absurd ((missing_of_mem_new hp).symm.trans hv) (by simp)
      ranges := by
        have hmissing : ∀ (ps : List Ed2kPieceState), (∀ p ∈ ps, p.state = .missing) →
            rebuildRangesLoop job.fileSize job.pieceSize ps [] none = [] := by
          intro ps hps
          induction ps with
          | nil => rfl
          | cons p ps ih =>
            simp only [rebuildRangesLoop, hps p mem_cons_self]
            exact ih fun q hq => hps q (mem_cons_of_mem _ hq)
        exact (hmissing _ fun p hp => missing_of_mem_new hp).symm
      completed := fun hc => absurd hc (by simp [TransferSystem.start, new])
      pending := fun hp => absurd hp (by simp [TransferSystem.start, new]) }
  onDisk := verifiedOnDisk_start ..
  whole hc := absurd hc (by simp [TransferSystem.start, new])
  inFlight hbusy := absurd rfl hbusy
  hashed c hc := absurd hc (by simp [TransferSystem.start])

/-- With all pieces verified there is one range, the file. -/
theorem Consistent.single_range (h : Consistent m) (hall : m.isFullyVerified = true)
    (hsize : 0 < m.fileSize) (hpiece : 0 < m.pieceSize)
    (hfits : m.fileSize + m.pieceSize ≤ 2 ^ 64)
    (hcount : chunkCount m.fileSize m.pieceSize < 2 ^ 32) :
    m.verifiedRanges = [⟨0, m.fileSize⟩] := by
  have hpieces : pieceCount m.fileSize m.pieceSize = chunkCount m.fileSize m.pieceSize := by
    unfold pieceCount
    rw [if_neg (by omega), if_pos hcount]
  have hindices := h.indices
  rw [hpieces] at hindices
  obtain ⟨hne, hapart, hcovers⟩ := verifiedRanges_exact hpiece hfits hindices
  rw [h.ranges]
  refine eq_singleton_of_covers hsize hne hapart fun x => (hcovers x).trans ⟨?_, fun hx => ?_⟩
  · rintro ⟨p, -, -, -, hx⟩
    omega
  · have hdiv := Nat.div_add_mod' x m.pieceSize
    have hmod := Nat.mod_lt x hpiece
    have hmem : x / m.pieceSize ∈ m.pieces.map pieceIndex := by
      rw [hindices, mem_range, lt_chunkCount_iff hpiece]
      omega
    obtain ⟨p, hp, hindex⟩ := mem_map.mp hmem
    refine ⟨p, hp, verified_of_isFullyVerified hall hp, ?_⟩
    rw [hindex]
    omega

end

/-- **A completed transfer is whole**, in every run in which no salvage write is executed on a
    transfer that is completed or waits for its final re-hash: all pieces are verified, the
    verified ranges are the one range over the file, and the payload on disk has the length and
    the ED2K hash of the file. -/
theorem completed_transfer_is_whole (md4 : Md4)
    (sha1 : Sha1) (job : Ed2kTransferJob)
    (md4Hashset : Option (List Md4Digest)) (aichRoot : Option Sha1Digest)
    (payload : Option ByteSeq) (ichEnabled : Bool) (events : List Event)
    (hsize : 0 < job.fileSize) (hpiece : 0 < job.pieceSize)
    (hfits : job.fileSize + job.pieceSize ≤ 2 ^ 64)
    (hcount : chunkCount job.fileSize job.pieceSize < 2 ^ 32)
    (hrun : Run.Along (step md4 sha1) SalvageWritesOpen
      (start job md4Hashset aichRoot payload ichEnabled) events)
    (s : TransferSystem)
    (hs : s = (start job md4Hashset aichRoot payload ichEnabled).after md4 sha1
      events)
    (hc : s.manifest.completed = true) :
    (∀ p ∈ s.manifest.pieces, p.state = .verified) ∧
      s.manifest.verifiedRanges = [⟨0, s.manifest.fileSize⟩] ∧
      ∃ file, s.payload = some file ∧ file.len = s.manifest.fileSize ∧
        payloadFileHash md4 file s.manifest.fileSize = some s.manifest.fileHash := by
  have hauthority : Authority md4 s := by
    rw [hs]
    exact hrun.invariant (fun s e h hguard => h.step hguard) (authority_start ..)
  have hsame : SameFile (start job md4Hashset aichRoot payload
      ichEnabled).manifest s.manifest := by
    rw [hs]
    exact sameFile_run ..
  have hsettled : Settled s.manifest := .inl hc
  have hfileSize : s.manifest.fileSize = job.fileSize := hsame.fileSize
  have hpieceSize : s.manifest.pieceSize = job.pieceSize := hsame.pieceSize
  refine ⟨fun p hp => hauthority.consistent.verified hsettled hp, ?_, hauthority.whole hc⟩
  refine hauthority.consistent.single_range (hauthority.consistent.isFullyVerified hsettled)
    ?_ ?_ ?_ ?_
  · rw [hfileSize]
    exact hsize
  · rw [hpieceSize]
    exact hpiece
  · rw [hfileSize, hpieceSize]
    exact hfits
  · rw [hfileSize, hpieceSize]
    exact hcount

/-- Two blocks, 184321 bytes. The second block arrives first, so the piece has a bitmap when two
    sessions probe it for the first block, one with wrong bytes and one with the right ones. The
    right block finishes the transfer. -/
def twoProbesRun : List Event :=
  [.append 0 184320 184321 ⟨1, fun _ => 7⟩,
    .probe 0 0 184320 ⟨184320, fun _ => 9⟩,
    .probe 0 0 184320 ⟨184320, fun _ => 7⟩,
    .deliver 0, .rehashBegin false, .rehashCompute none, .rehashFinish]

def twoProbesStart : TransferSystem :=
  .start ⟨firstByteMd4 [7], 184321, ed2kPartSize⟩ (some []) none none true

def twoProbesAfter (events : List Event) : TransferSystem :=
  twoProbesStart.after firstByteMd4 (fun _ => Vector.replicate 20 0) events

/-- The block with the wrong bytes is refused, the other one finishes the file. -/
theorem completed_transfer_is_whole_two_probes :
    (∀ p ∈ (twoProbesAfter twoProbesRun).manifest.pieces, p.state = .verified) ∧
      (twoProbesAfter twoProbesRun).manifest.verifiedRanges =
        [⟨0, (twoProbesAfter twoProbesRun).manifest.fileSize⟩] ∧
      ∃ file, (twoProbesAfter twoProbesRun).payload = some file ∧
        file.len = (twoProbesAfter twoProbesRun).manifest.fileSize ∧
        payloadFileHash firstByteMd4 file (twoProbesAfter twoProbesRun).manifest.fileSize =
          some (twoProbesAfter twoProbesRun).manifest.fileHash := by
  have hrun : Run.Along (step firstByteMd4 fun _ => Vector.replicate 20 0) SalvageWritesOpen
      twoProbesStart twoProbesRun := by
    refine ⟨?_, ?_, ?_, ?_, ?_, ?_, ?_, trivial⟩
    all_goals intro index d event
    -- the one salvage write of the run falls on an open transfer
    case refine_4 => exact fun _ _ => ⟨by decide +kernel, by decide +kernel⟩
    all_goals cases event
  exact completed_transfer_is_whole firstByteMd4 (fun _ => Vector.replicate 20 0)
    ⟨firstByteMd4 [7], 184321, ed2kPartSize⟩ (some []) none none true twoProbesRun (by decide)
    (by decide) (by decide) (by decide) hrun (twoProbesAfter twoProbesRun) rfl (by decide +kernel)

/-- **A late salvage write breaks completion.** The session that probed first now delivers its
    wrong block: the transfer stays completed with its only piece missing, and the payload no
    longer hashes to the file hash. -/
theorem late_salvage_write_breaks_completion :
    (twoProbesAfter (twoProbesRun ++ [.deliver 0])).manifest.completed = true ∧
      (∃ p ∈ (twoProbesAfter (twoProbesRun ++ [.deliver 0])).manifest.pieces,
        p.state = .missing) ∧
      (twoProbesAfter (twoProbesRun ++ [.deliver 0])).manifest.verifiedRanges ≠ [⟨0, 184321⟩] ∧
      ∀ file, (twoProbesAfter (twoProbesRun ++ [.deliver 0])).payload = some file →
        payloadFileHash firstByteMd4 file 184321 ≠ some (firstByteMd4 [7]) := by
  refine ⟨by decide +kernel, by decide +kernel, by decide +kernel, ?_⟩
  have hhash : (twoProbesAfter (twoProbesRun ++ [.deliver 0])).payload.map
      (payloadFileHash firstByteMd4 · 184321) = some (some (firstByteMd4 [9])) := by
    decide +kernel
  intro file hfile heq
  rw [hfile, Option.map_some, heq] at hhash
  cases hhash

end EmuleBB.Transfer
