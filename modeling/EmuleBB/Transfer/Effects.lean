import EmuleBB.Lib.Except
import EmuleBB.Transfer.Append

/-!
# What one block write can do

One inversion for the three write paths. Every path either refuses the block, or ignores it as a
duplicate, or overlays the payload inside the piece and replaces that one piece; `PieceEffect`
lists the pieces that can stand there afterwards, each with the fact that put it there. All
invariants of the transfer system are derived from this list, never from the paths themselves.
-/

namespace EmuleBB.Transfer

open Ed2kPieceState Ed2kResumeManifest PartBlockBitmap

/-! ## Replacing one piece -/

def Ed2kResumeManifest.setPiece (m : Ed2kResumeManifest) (pieceIndex : Nat) (q : Ed2kPieceState) :
    Ed2kResumeManifest :=
  m.modifyPiece pieceIndex fun _ => q

def refresh (m : Ed2kResumeManifest) : Ed2kResumeManifest :=
  markFinalRehashPending (rebuildVerifiedRanges m)

section Pieces

variable {m : Ed2kResumeManifest} {pieceIndex : Nat} {f g : Ed2kPieceState → Ed2kPieceState}
  {p q : Ed2kPieceState}

theorem modifyPiece_eq_setPiece (h : m.findPiece pieceIndex = some p) :
    m.modifyPiece pieceIndex f = m.setPiece pieceIndex (f p) := by
  unfold setPiece modifyPiece
  rw [modifyPieces_eq, modifyPieces_eq, FirstMatch.modifyFirst_congr]
  intro found hfound
  rw [Option.some.inj (hfound.symm.trans h)]

theorem modifyPiece_setPiece (hq : q.pieceIndex = pieceIndex) :
    (m.setPiece pieceIndex q).modifyPiece pieceIndex g = m.setPiece pieceIndex (g q) := by
  unfold setPiece modifyPiece
  simp only [modifyPieces_eq]
  rw [FirstMatch.modifyFirst_modifyFirst]
  exact fun _ _ => decide_eq_true hq

theorem setPiece_setPiece (hq : q.pieceIndex = pieceIndex) (r : Ed2kPieceState) :
    (m.setPiece pieceIndex q).setPiece pieceIndex r = m.setPiece pieceIndex r :=
  modifyPiece_setPiece (g := fun _ => r) hq

theorem findPiece_setPiece_self (h : m.findPiece pieceIndex = some p)
    (hq : q.pieceIndex = pieceIndex) : (m.setPiece pieceIndex q).findPiece pieceIndex = some q := by
  show (modifyPieces pieceIndex (fun _ => q) m.pieces).find? _ = _
  rw [modifyPieces_eq, FirstMatch.find_modifyFirst_self fun _ _ => by exact decide_eq_true hq]
  exact congrArg (Option.map fun _ => q) h

@[simp] theorem pieceLen_setPiece (j : Nat) :
    (m.setPiece pieceIndex q).pieceLen j = m.pieceLen j := rfl

theorem pieceIndex_of_findPiece (h : m.findPiece pieceIndex = some p) :
    p.pieceIndex = pieceIndex := (findPiece_eq_some h).2

end Pieces

@[simp] theorem pieces_refresh (m : Ed2kResumeManifest) : (refresh m).pieces = m.pieces := rfl

/-! ## The effects -/

section

variable (md4 : Md4)

def writeStore (salvage : Bool) (i : Nat) (outcome : PieceWriteOutcome) : StoreAction :=
  if salvage then .full else requestedBlockStore i outcome

inductive PieceEffect (salvage : Bool) (file : ByteSeq) (m : Ed2kResumeManifest) (i start len : Nat)
    (p : Ed2kPieceState) : Ed2kPieceState → PieceWriteOutcome → Prop
  /-- The whole part is there and matches. -/
  | verified (disk : verifyOnDisk md4 file m i = .ok true) :
      PieceEffect salvage file m i start len p (p.verifiedPiece (m.pieceLen i)) .verified
  /-- A part flagged corrupted matches again before it is complete. -/
  | salvaged (bytes : Nat) (disk : verifyOnDisk md4 file m i = .ok true) :
      PieceEffect salvage file m i start len p (p.verifiedPiece (m.pieceLen i))
        (.ichSalvaged i bytes)
  /-- The whole part is there and does not match. -/
  | gapped (disk : verifyOnDisk md4 file m i = .ok false) :
      PieceEffect salvage file m i start len p (p.reset true) (.verificationFailed i)
  /-- One exact block of a part that is still incomplete. An append does not write a block that is
      already present. -/
  | block (bitmap : PartBlockBitmap) (idx : Nat) (outcome : PieceWriteOutcome)
      (resolved : p.resolveBlockBitmap (m.pieceLen i) = some bitmap)
      (startEq : start = m.pieceStart i + (bitmap.blockRange idx).1)
      (stopEq : start + len = m.pieceStart i + (bitmap.blockRange idx).2)
      (open_ : (bitmap.setPresent idx).allPresent = false)
      (absent : salvage = false → bitmap.isPresent idx = false)
      (told : outcome = .incomplete ∨ outcome = .ichRehashFailed i) :
      PieceEffect salvage file m i start len p (p.missingWith (bitmap.setPresent idx)) outcome
  /-- A continuation of the prefix of a part that is still incomplete. -/
  | advance (outcome : PieceWriteOutcome) (noBitmap : p.blockBitmap = none)
      (startEq : start = m.pieceStart i + p.bytesWritten)
      (open_ : p.bytesWritten + len < m.pieceLen i)
      (told : outcome = .incomplete ∨ outcome = .ichRehashFailed i) :
      PieceEffect salvage file m i start len p (p.missingPrefix (p.bytesWritten + len)) outcome

inductive WriteEffect (salvage : Bool) (payload : Option ByteSeq)
    (m : Ed2kResumeManifest) (i start : Nat) (data : ByteSeq) : WriteStep → Prop
  | refused (e : TransferError) : WriteEffect salvage payload m i start data ⟨payload, .error e⟩
  | duplicate (p : Ed2kPieceState) (bitmap : PartBlockBitmap) (idx : Nat)
      (found : m.findPiece i = some p)
        (resolved : p.resolveBlockBitmap (m.pieceLen i) = some bitmap)
      (startEq : start = m.pieceStart i + (bitmap.blockRange idx).1)
      (stopEq : start + data.len = m.pieceStart i + (bitmap.blockRange idx).2)
      (present : bitmap.isPresent idx = true) (append : salvage = false) :
      WriteEffect salvage payload m i start data ⟨payload, .ok ⟨m, .incomplete, .unchanged⟩⟩
  /-- The part cannot be read back, or has no expected hash: the call fails after the write. -/
  | failed (p : Ed2kPieceState) (e : TransferError) (found : m.findPiece i = some p)
      (low : m.pieceStart i ≤ start) (high : start + data.len ≤ m.pieceStart i + m.pieceLen i)
      (disk : verifyOnDisk md4 (writePayload payload start data) m i = .error e) :
      WriteEffect salvage payload m i start data ⟨some (writePayload payload start data), .error e⟩
  | settled (p q : Ed2kPieceState) (outcome : PieceWriteOutcome) (m' : Ed2kResumeManifest)
      (found : m.findPiece i = some p)
      (low : m.pieceStart i ≤ start) (high : start + data.len ≤ m.pieceStart i + m.pieceLen i)
      (effect : PieceEffect md4 salvage
        (writePayload payload start data) m i start data.len p q outcome)
      -- only an advance of the prefix leaves ranges and pending bit as they were
      (next : m' = refresh (m.setPiece i q) ∨
        m' = m.setPiece i q ∧ p.blockBitmap = none ∧ p.bytesWritten + data.len < m.pieceLen i ∧
          q = p.missingPrefix (p.bytesWritten + data.len)) :
      WriteEffect salvage payload m i start data
        ⟨some (writePayload payload start data), .ok ⟨m', outcome, writeStore salvage i outcome⟩⟩

end

/-! ## Inverting the write paths -/

section

variable {md4 : Md4} {ichEnabled : Bool} {payload : Option ByteSeq}
  {m : Ed2kResumeManifest} {i start stop : Nat} {data : ByteSeq} {p : Ed2kPieceState}
  {bitmap : PartBlockBitmap} {idx : Nat} {salvage : Bool} {dataLen : Nat}

/-- The ICH re-hash over a file that is there: it fails only where the part check fails, it
    changes nothing unless the part now matches, and then it promotes the piece. -/
theorem ichAfterWrite_cases (md4 : Md4) (ichEnabled : Bool) (file : ByteSeq)
    (hp : m.findPiece i = some p) (hresolve : (p.resolveBlockBitmap (m.pieceLen i)).isSome) :
    (∃ e, ichAfterWrite md4 ichEnabled (some file) m i = .error e ∧
        verifyOnDisk md4 file m i = .error e ∧
        (file.readExact (m.pieceStart i) (m.pieceLen i)).isSome) ∨
      (∃ o, ichAfterWrite md4 ichEnabled (some file) m i = .ok (m, o) ∧
        (o = .incomplete ∨ o = .ichRehashFailed i)) ∨
      ∃ n, ichAfterWrite md4 ichEnabled (some file) m i =
          .ok (refresh (m.setPiece i (p.verifiedPiece (m.pieceLen i))), .ichSalvaged i n) ∧
        verifyOnDisk md4 file m i = .ok true := by
  unfold ichAfterWrite ichTryRehashPartUnlocked
  rw [hp]
  by_cases hich : ichEnabled = true
  swap
  · exact .inr (.inl ⟨.incomplete, by simp [hich], .inl rfl⟩)
  simp only [hich, Bool.not_true, Bool.false_eq_true, if_false]
  split
  · exact .inr (.inl ⟨.incomplete, rfl, .inl rfl⟩)
  obtain ⟨bitmap, hbitmap⟩ := Option.isSome_iff_exists.mp hresolve
  rw [hbitmap]
  simp only [Option.bind_some]
  unfold verifyOnDisk
  cases hread : file.readExact (m.pieceStart i) (m.pieceLen i) with
  | none => exact .inr (.inl ⟨.ichRehashFailed i, rfl, .inr rfl⟩)
  | some bytes =>
    cases hverify : verifyPieceAgainstManifest md4 m i bytes with
    | error e => exact .inl ⟨e, by simp [hverify], hverify, rfl⟩
    | ok matched =>
      cases matched with
      | false =>
        refine .inr (.inl ⟨.ichRehashFailed i, ?_, .inr rfl⟩)
        simp [hverify]
      | true =>
        refine .inr (.inr ⟨m.pieceLen i - max bitmap.presentBytes p.bytesWritten, ?_, hverify⟩)
        rw [← modifyPiece_eq_setPiece (f := (·.verifiedPiece (m.pieceLen i))) hp]
        simp [hverify, refresh]

theorem partLen_of_resolveBlockBitmap {partLen : Nat}
    (h : p.resolveBlockBitmap partLen = some bitmap) : bitmap.partLen = partLen := by
  cases hb : p.blockBitmap with
  | none =>
    rw [resolveBlockBitmap_of_none hb] at h
    cases h
    exact partLen_contiguousPrefix ..
  | some =>
    rw [resolveBlockBitmap_of_some hb] at h
    exact (fromHex_eq_some h).1

/-- Settling an exact block: either the part check itself fails, or one piece is replaced. -/
theorem settleBlock_cases (md4 : Md4) (ichEnabled : Bool) (file : ByteSeq)
    {len : Nat} (hp : m.findPiece i = some p)
    (hresolve : p.resolveBlockBitmap (m.pieceLen i) = some bitmap)
    (hstart : start = m.pieceStart i + (bitmap.blockRange idx).1)
    (hstop : start + len = m.pieceStart i + (bitmap.blockRange idx).2)
    (habsent : salvage = false → bitmap.isPresent idx = false) :
    (∃ e, settleBlock md4 ichEnabled file m i (bitmap.setPresent idx) = .error e ∧
        verifyOnDisk md4 file m i = .error e ∧
        ((bitmap.setPresent idx).allPresent = true ∨
          (file.readExact (m.pieceStart i) (m.pieceLen i)).isSome)) ∨
      ∃ q o, settleBlock md4 ichEnabled file m i (bitmap.setPresent idx) =
          .ok (refresh (m.setPiece i q), o) ∧
          PieceEffect md4 salvage file m i start len p q o := by
  have hidx := pieceIndex_of_findPiece hp
  unfold settleBlock
  cases hall : (bitmap.setPresent idx).allPresent with
  | true =>
    -- the part is complete: its fate is the part check's
    simp only [if_true]
    cases hdisk : verifyOnDisk md4 file m i with
    | error e => exact .inl ⟨e, by simp only [Except.error_bind], rfl, .inl trivial⟩
    | ok matched =>
      refine .inr ?_
      cases matched with
      | true =>
        refine ⟨p.verifiedPiece (m.pieceLen i), .verified, ?_, .verified hdisk⟩
        rw [← modifyPiece_eq_setPiece (f := (·.verifiedPiece (m.pieceLen i))) hp]
        simp only [Except.ok_bind, if_true, Except.pure_eq_ok, refresh]
      | false =>
        refine ⟨p.reset true, .verificationFailed i, ?_, .gapped hdisk⟩
        rw [← modifyPiece_eq_setPiece (f := (·.reset true)) hp]
        simp only [Except.ok_bind, Bool.false_eq_true, if_false, Except.pure_eq_ok, refresh]
  | false =>
    -- the block is recorded first, then the re-hash may still promote the part
    simp only [Bool.false_eq_true, if_false, Except.pure_eq_ok, Except.ok_bind]
    have hset := modifyPiece_eq_setPiece (f := (·.missingWith (bitmap.setPresent idx))) hp
    rw [hset]
    have hfind := findPiece_setPiece_self (q := p.missingWith (bitmap.setPresent idx)) hp hidx
    have hsome : ((p.missingWith (bitmap.setPresent idx)).resolveBlockBitmap
        (m.pieceLen i)).isSome := by
      have hback := p.resolveBlockBitmap_missingWith (bitmap.setPresent idx)
      rw [partLen_setPresent, partLen_of_resolveBlockBitmap hresolve] at hback
      exact Option.isSome_iff_exists.mpr ⟨_, hback⟩
    rcases ichAfterWrite_cases md4 ichEnabled file hfind hsome
      with ⟨e, hich, hdisk, hread⟩ | ⟨o, hich, ho⟩ | ⟨n, hich, hdisk⟩
    · exact .inl ⟨e, by rw [hich, Except.error_bind], hdisk, .inr hread⟩
    · refine .inr ⟨p.missingWith (bitmap.setPresent idx), o, ?_, ?_⟩
      · rw [hich]
        rfl
      · exact .block bitmap idx o hresolve hstart hstop hall habsent ho
    · refine .inr ⟨p.verifiedPiece (m.pieceLen i), .ichSalvaged i n, ?_, .salvaged n hdisk⟩
      rw [pieceLen_setPiece, setPiece_setPiece (q := p.missingWith (bitmap.setPresent idx)) hidx]
        at hich
      rw [hich]
      rfl

theorem checkRequestedBlock_eq_ok
    (h : checkRequestedBlock m i start stop dataLen = .ok (bitmap, idx)) :
    ∃ p, m.findPiece i = some p ∧ p.resolveBlockBitmap (m.pieceLen i) = some bitmap ∧
      start = m.pieceStart i + (bitmap.blockRange idx).1 ∧
      start + dataLen = m.pieceStart i + (bitmap.blockRange idx).2 ∧
      stop = start + dataLen ∧ start + dataLen ≤ m.pieceStart i + m.pieceLen i := by
  unfold checkRequestedBlock at h
  simp only at h
  split at h
  · cases h
  split at h
  · cases h
  split at h
  · cases h
  cases hp : m.findPiece i with
  | none => rw [hp] at h; cases h
  | some p =>
    rw [hp] at h
    simp only at h
    cases hr : p.resolveBlockBitmap (m.pieceLen i) with
    | none => rw [hr] at h; cases h
    | some b =>
      rw [hr] at h
      simp only at h
      split at h
      · cases h
      obtain ⟨rfl, rfl⟩ : b = bitmap ∧ (start - m.pieceStart i) / ed2kEmblockSize = idx := by
        simpa using h
      generalize hrange1 : (b.blockRange ((start - m.pieceStart i) / ed2kEmblockSize)).1 = lo at *
      generalize hrange2 : (b.blockRange ((start - m.pieceStart i) / ed2kEmblockSize)).2 = hi at *
      exact ⟨p, rfl, hr, by omega, by omega, by omega, by omega⟩

/-- The salvage checks accept the same ranges; only their errors differ. -/
theorem checkSalvageBlock_eq_ok_iff : checkSalvageBlock m i start stop dataLen = .ok (bitmap, idx) ↔
      checkRequestedBlock m i start stop dataLen = .ok (bitmap, idx) := by
  unfold checkSalvageBlock checkRequestedBlock
  by_cases hstop : stop ≠ start + dataLen
  · rw [if_pos hstop, if_pos hstop]
    simp
  rw [if_neg hstop, if_neg hstop]
  by_cases hbounds : start < m.pieceStart i ∨ m.pieceStart i + m.pieceLen i < stop
  · rw [if_pos hbounds, if_pos hbounds]
    simp
  rw [if_neg hbounds, if_neg hbounds]
  by_cases haligned : (start - m.pieceStart i) % ed2kEmblockSize ≠ 0
  · rw [if_pos haligned, if_pos haligned]
    simp
  rw [if_neg haligned, if_neg haligned]
  cases m.findPiece i with
  | none => exact Iff.rfl
  | some p =>
    simp only
    cases p.resolveBlockBitmap (m.pieceLen i) with
    | none => exact Iff.rfl
    | some =>
      simp only
      split
      · simp
      · exact Iff.rfl

/-- Both paths write an accepted block and settle its piece. -/
theorem settleBlock_effect {data : ByteSeq}
    (hcheck : checkRequestedBlock m i start stop data.len = .ok (bitmap, idx))
    (habsent : salvage = false → bitmap.isPresent idx = false) :
    WriteEffect md4 salvage payload m i start data ⟨some (writePayload payload start data), do
      let (m, outcome) ← settleBlock md4 ichEnabled (writePayload payload start data) m i
        (bitmap.setPresent idx)
      return ⟨m, outcome, writeStore salvage i outcome⟩⟩ := by
  obtain ⟨p, hp, hresolve, hstart, hlen, -, hhigh⟩ := checkRequestedBlock_eq_ok hcheck
  have hlow : m.pieceStart i ≤ start := by omega
  rcases settleBlock_cases md4 ichEnabled (writePayload payload start data)
      hp hresolve hstart hlen habsent with
    ⟨e, hsettle, hdisk, -⟩ | ⟨q, o, hsettle, heffect⟩
  · rw [hsettle]
    exact .failed p e hp hlow hhigh hdisk
  · rw [hsettle]
    exact .settled p q o _ hp hlow hhigh heffect (.inl rfl)

theorem appendRequestedBlockByBitmapUnlocked_effect : WriteEffect md4 false payload m i start data
      (appendRequestedBlockByBitmapUnlocked md4 ichEnabled payload m i start stop data) := by
  unfold appendRequestedBlockByBitmapUnlocked
  cases hcheck : checkRequestedBlock m i start stop data.len with
  | error e => exact .refused e
  | ok =>
    simp only
    split
    · rename_i hpresent
      obtain ⟨p, hp, hresolve, hstart, hlen, -⟩ := checkRequestedBlock_eq_ok hcheck
      exact .duplicate p _ _ hp hresolve hstart hlen hpresent rfl
    · rename_i hpresent
      exact settleBlock_effect hcheck fun _ => Bool.eq_false_iff.mpr hpresent

theorem verifiedPiece_eq_of_noBitmap (h : p.blockBitmap = none) (partLen : Nat) :
    { p with bytesWritten := partLen, state := .verified, ichCorrupted := false } =
      p.verifiedPiece partLen := by
  cases p
  simp_all [verifiedPiece]

theorem reset_eq_of_noBitmap (h : p.blockBitmap = none) :
    { p with state := .missing, bytesWritten := 0, ichCorrupted := true } = p.reset true := by
  cases p
  simp_all [reset]

variable (md4 ichEnabled payload m i start stop data)

theorem writeSalvageBlockUnfinalized_effect : WriteEffect md4 true payload m i start data
    (writeSalvageBlockUnfinalized md4 ichEnabled payload m i start stop data) := by
  unfold writeSalvageBlockUnfinalized
  cases hcheck : checkSalvageBlock m i start stop data.len with
  | error e => exact .refused e
  | ok =>
    exact settleBlock_effect (checkSalvageBlock_eq_ok_iff.mp hcheck) nofun

/-- **What `append_piece_block_inner` can do.** -/
theorem appendPieceBlockInner_effect : WriteEffect md4 false payload m i start data
    (appendPieceBlockInner md4 ichEnabled payload m i start stop data) := by
  unfold appendPieceBlockInner
  cases hp : m.findPiece i with
  | none => exact .refused _
  | some p =>
    simp only
    split
    · exact appendRequestedBlockByBitmapUnlocked_effect ..
    rename_i hfast
    obtain ⟨hnone, hstart, hstop, hend⟩ : p.blockBitmap = none ∧
        start = m.pieceStart i + p.bytesWritten ∧
        stop = m.pieceStart i + p.bytesWritten + data.len ∧
        stop ≤ m.pieceStart i + m.pieceLen i := by
      simp only [hasBlockBitmap, not_or, not_not, Option.isSome_iff_ne_none, ne_eq,
        Nat.not_lt] at hfast
      exact hfast
    have hlow : m.pieceStart i ≤ start := by omega
    have hhigh : start + data.len ≤ m.pieceStart i + m.pieceLen i := by omega
    split
    · -- the last block of the piece
      unfold completePiece
      cases hdisk : verifyOnDisk md4 (writePayload payload start data) m i with
      | error e =>
        exact .failed p e hp hlow hhigh hdisk
      | ok matched =>
        rw [Except.ok_bind]
        cases matched with
        | true =>
          rw [modifyPiece_eq_setPiece hp, verifiedPiece_eq_of_noBitmap hnone]
          exact .settled p _ .verified _ hp hlow hhigh (.verified hdisk) (.inl rfl)
        | false =>
          simp only [Bool.false_eq_true, if_false]
          rw [modifyPiece_eq_setPiece hp, reset_eq_of_noBitmap hnone]
          exact .settled p _ (.verificationFailed i) _ hp hlow hhigh (.gapped hdisk) (.inl rfl)
    · -- a block inside the piece: the prefix advances
      have hopen' : p.bytesWritten + data.len < m.pieceLen i := by omega
      unfold advancePiece
      rw [modifyPiece_eq_setPiece (f := (·.missingPrefix (p.bytesWritten + data.len))) hp]
      have hadvance : ∀ o, o = .incomplete ∨ o = .ichRehashFailed i →
          WriteEffect md4 false payload m i start data
            ⟨some (writePayload payload start data), .ok ⟨m.setPiece i
              (p.missingPrefix (p.bytesWritten + data.len)), o, writeStore false i o⟩⟩ :=
        fun o ho => .settled p _ o _ hp hlow hhigh (.advance o hnone hstart hopen' ho)
          (.inr ⟨rfl, hnone, hopen', rfl⟩)
      cases hich : p.ichCorrupted with
      | false => exact hadvance .incomplete (.inl rfl)
      | true =>
        have hidx := pieceIndex_of_findPiece hp
        have hfind := findPiece_setPiece_self
          (q := p.missingPrefix (p.bytesWritten + data.len)) hp hidx
        simp only [if_true]
        rcases ichAfterWrite_cases md4 ichEnabled (writePayload payload start data) hfind
            (Option.isSome_of_eq_some
              (resolveBlockBitmap_of_none (p := p.missingPrefix _) hnone _)) with
          ⟨e, hrehash, hdisk, -⟩ | ⟨o, hrehash, ho⟩ | ⟨n, hrehash, hdisk⟩
        · rw [hrehash]
          exact .failed p e hp hlow hhigh hdisk
        · rw [hrehash]
          rcases ho with rfl | rfl
          · exact hadvance .incomplete (.inl rfl)
          · exact hadvance (.ichRehashFailed i) (.inr rfl)
        · rw [hrehash]
          rw [setPiece_setPiece (q := p.missingPrefix (p.bytesWritten + data.len)) hidx]
          exact .settled p _ (.ichSalvaged i n) _ hp hlow hhigh (.salvaged n hdisk) (.inl rfl)

end

end EmuleBB.Transfer
