import EmuleBB.Transfer.System

/-!
# Verified means verified on disk

The invariant of the transfer system: **a piece marked `Verified` has its whole range on disk, and
the MD4 of those bytes is the part hash the manifest expects**. It is carried over each of the
ways a step can change the payload or the manifest:

* a write overlays bytes of its own piece only, so the other pieces read back as before
  (`OnDisk.write_other`), and its own piece is `Verified` afterwards only if the part check read
  the file after the write;
* a write that fails half-way is one whose part check failed, which cannot happen to a piece that
  was already on disk (`OnDisk.verifyOnDisk_ne_error`);
* everything else takes marks away, or promotes a piece by reading the file.
-/

namespace EmuleBB.Transfer

open Ed2kPieceState Ed2kResumeManifest ByteSeq

def OnDisk (md4 : Md4) (payload : Option ByteSeq) (m : Ed2kResumeManifest)
    (i : Nat) : Prop :=
  ∃ file bytes, payload = some file ∧
    file.readExact (m.pieceStart i) (m.pieceLen i) = some bytes ∧
    expectedPartHash m i = some (md4 bytes)

structure SameFile (m m' : Ed2kResumeManifest) : Prop where
  fileHash : m'.fileHash = m.fileHash
  fileSize : m'.fileSize = m.fileSize
  pieceSize : m'.pieceSize = m.pieceSize
  acquired : m'.md4HashsetAcquired = m.md4HashsetAcquired
  hashset : m'.md4Hashset = m.md4Hashset

/-- **The invariant.** -/
structure VerifiedOnDisk (md4 : Md4) (payload : Option ByteSeq)
    (m : Ed2kResumeManifest) : Prop where
  indices : (m.pieces.map pieceIndex).Nodup
  onDisk : ∀ p ∈ m.pieces, p.state = .verified → OnDisk md4 payload m p.pieceIndex

section

variable {md4 : Md4} {sha1 : Sha1}
  {payload : Option ByteSeq} {m m' : Ed2kResumeManifest} {i j start : Nat} {data : ByteSeq}
  {file : ByteSeq} {p q : Ed2kPieceState} {payload' : Option ByteSeq} {salvage : Bool}
  {s : TransferSystem} {e : Event} {len : Nat} {outcome : PieceWriteOutcome}
  {f : Ed2kPieceState → Ed2kPieceState} {job : Ed2kTransferJob} {events : List Event}

/-! ## The same file -/

theorem SameFile.pieceLen (h : SameFile m m') (i : Nat) : m'.pieceLen i = m.pieceLen i := by
  unfold Ed2kResumeManifest.pieceLen
  rw [h.fileSize, h.pieceSize]

theorem SameFile.pieceStart (h : SameFile m m') (i : Nat) : m'.pieceStart i = m.pieceStart i := by
  unfold Ed2kResumeManifest.pieceStart
  rw [h.pieceSize]

theorem SameFile.expectedPartHash (h : SameFile m m') (i : Nat) :
    expectedPartHash m' i = Transfer.expectedPartHash m i := by
  unfold Transfer.expectedPartHash
  rw [h.acquired, h.hashset, h.fileHash]

theorem OnDisk.congr (h : SameFile m m') (hd : OnDisk md4 payload m i) :
    OnDisk md4 payload m' i := by
  obtain ⟨file, bytes, hfile, hread, hhash⟩ := hd
  refine ⟨file, bytes, hfile, ?_, ?_⟩
  · rw [h.pieceStart, h.pieceLen, hread]
  · rw [h.expectedPartHash, hhash]

theorem sameFile_refresh : SameFile m (refresh m) :=
  ⟨rfl, rfl, rfl, rfl, rfl⟩

theorem SameFile.trans {m'' : Ed2kResumeManifest} (h : SameFile m m') (h' : SameFile m' m'') :
    SameFile m m'' :=
  ⟨h'.fileHash.trans h.fileHash, h'.fileSize.trans h.fileSize, h'.pieceSize.trans h.pieceSize,
    h'.acquired.trans h.acquired, h'.hashset.trans h.hashset⟩

theorem sameFile_completeManifest (m : Ed2kResumeManifest) (c : FinalRehashComputation) :
    SameFile m (completeManifest m c) := by
  unfold completeManifest
  cases c.recovery with
  | none => exact ⟨rfl, rfl, rfl, rfl, rfl⟩
  | some =>
    simp only
    split <;> exact ⟨rfl, rfl, rfl, rfl, rfl⟩

theorem pieces_completeManifest {c : FinalRehashComputation} :
    (completeManifest m c).pieces = m.pieces := by
  unfold completeManifest
  cases c.recovery with
  | none => rfl
  | some =>
    simp only
    split <;> rfl

/-! ## Pieces and writes -/

theorem pieceRange_disjoint (m : Ed2kResumeManifest) (h : i ≠ j) :
    m.pieceStart j + m.pieceLen j ≤ m.pieceStart i ∨
      m.pieceStart i + m.pieceLen i ≤ m.pieceStart j := by
  unfold pieceStart pieceLen expectedPieceLength
  generalize m.pieceSize = c
  rcases Nat.lt_or_gt_of_ne h with hlt | hlt
  · have hmul := Nat.mul_le_mul_right c (Nat.succ_le_of_lt hlt)
    rw [Nat.succ_mul] at hmul
    omega
  · have hmul := Nat.mul_le_mul_right c (Nat.succ_le_of_lt hlt)
    rw [Nat.succ_mul] at hmul
    omega

/-- A write inside piece `i` leaves what is on disk of another piece. -/
theorem OnDisk.write_other (h : OnDisk md4 payload m j) (hne : i ≠ j)
    (hlow : m.pieceStart i ≤ start) (hhigh : start + data.len ≤ m.pieceStart i + m.pieceLen i) :
    OnDisk md4 (some (writePayload payload start data)) m j := by
  obtain ⟨file, bytes, rfl, hread, hhash⟩ := h
  refine ⟨_, bytes, rfl, ?_, hhash⟩
  have hapart := pieceRange_disjoint m hne
  exact readExact_write_disjoint hread (by omega)

theorem OnDisk.of_verifyOnDisk (h : verifyOnDisk md4 file m i = .ok true) :
    OnDisk md4 (some file) m i := by
  unfold verifyOnDisk at h
  cases hread : file.readExact (m.pieceStart i) (m.pieceLen i) with
  | none => rw [hread] at h; cases h
  | some bytes =>
    rw [hread] at h
    exact ⟨file, bytes, rfl, hread, verifyPieceAgainstManifest_eq_true.mp h⟩

/-- The part check after a write into a piece that was on disk never fails with an error: the
    file is still long enough, and the expected hash is known. -/
theorem OnDisk.verifyOnDisk_ne_error (h : OnDisk md4 payload m i) (e : TransferError) :
    verifyOnDisk md4 (writePayload payload start data) m i ≠ .error e := by
  obtain ⟨file, bytes, rfl, hread, hhash⟩ := h
  have hlen := (readExact_eq_some.mp hread).1
  have hlen' := le_trans hlen (len_le_len_write file start data)
  unfold verifyOnDisk
  rw [show writePayload (some file) start data = file.write start data from rfl,
    readExact_of_le hlen']
  simp only
  rw [verifyPieceAgainstManifest_of_expected hhash]
  exact fun h => by cases h

/-! ## What a step keeps of the plan -/

theorem map_pieceIndex_setPiece (hfound : m.findPiece i = some p)
    (hindex : q.pieceIndex = p.pieceIndex) :
    (m.setPiece i q).pieces.map pieceIndex = m.pieces.map pieceIndex := by
  have hset : m.setPiece i q = m.modifyPiece i fun r => { q with pieceIndex := r.pieceIndex } := by
    rw [modifyPiece_eq_setPiece hfound, ← hindex]
  rw [hset]
  exact map_pieceIndex_modifyPieces fun _ => rfl

theorem PieceEffect.pieceIndex_eq (h : PieceEffect md4 salvage file m i start len p q outcome) :
    q.pieceIndex = p.pieceIndex := by
  cases h <;> rfl

theorem IsReset.map_pieceIndex {pieces : List Ed2kPieceState} (h : IsReset pieces f) :
    (pieces.map f).map pieceIndex = pieces.map pieceIndex := by
  have hindex : ∀ p ∈ pieces, (f p).pieceIndex = p.pieceIndex := by
    intro p hp
    rcases h p hp with heq | ⟨ich, heq⟩ <;> rw [heq]
    rfl
  rw [List.map_map, show pieceIndex ∘ f = fun p => (f p).pieceIndex from rfl,
    List.map_congr_left hindex]

structure SamePlan (m m' : Ed2kResumeManifest) : Prop extends SameFile m m' where
  indices : m'.pieces.map pieceIndex = m.pieces.map pieceIndex
  completed : m.completed = false → m.finalRehashPending = false → m'.completed = false

theorem samePlan_refl : SamePlan m m :=
  ⟨⟨rfl, rfl, rfl, rfl, rfl⟩, rfl, fun h _ => h⟩

theorem samePlan_setPiece (found : m.findPiece i = some p) (hindex : q.pieceIndex = p.pieceIndex) :
    SamePlan m (m.setPiece i q) :=
  ⟨⟨rfl, rfl, rfl, rfl, rfl⟩, map_pieceIndex_setPiece found hindex, fun h _ => h⟩

theorem SamePlan.refresh (h : SamePlan m m') : SamePlan m (Transfer.refresh m') :=
  ⟨h.toSameFile.trans sameFile_refresh, h.indices, h.completed⟩

theorem StepEffect.samePlan (he : StepEffect md4 s e payload' m') : SamePlan s.manifest m' := by
  have hwritten : ∀ {salvage i start data w},
      WriteEffect md4 salvage s.payload s.manifest i start data w →
        SamePlan s.manifest (s.written w).manifest := by
    intro salvage i start data w hw
    cases hw with
    | refused | duplicate | failed => exact samePlan_refl
    | settled p q outcome m' found low high effect next =>
      rcases next with rfl | ⟨rfl, -⟩
      · exact (samePlan_setPiece found effect.pieceIndex_eq).refresh
      · exact samePlan_setPiece found effect.pieceIndex_eq
  cases he with
  | unchanged => exact samePlan_refl
  | append i start stop data s' next => rw [next]; exact hwritten (appendPieceBlockInner_effect ..)
  | salvageWrite index d s' event delivery salvage next =>
    rw [next]
    exact hwritten (writeSalvageBlockUnfinalized_effect ..)
  | promoted i p file found =>
    have hindex : (p.verifiedPiece (s.manifest.pieceLen i)).pieceIndex = p.pieceIndex := rfl
    exact (samePlan_setPiece found hindex).refresh
  | salvaging i p bitmap found => exact samePlan_setPiece found rfl
  | withdrawn m' authority next => rw [next]; exact ⟨⟨rfl, rfl, rfl, rfl, rfl⟩, rfl, fun _ _ => rfl⟩
  | demoted f payload' reset =>
    exact ⟨⟨rfl, rfl, rfl, rfl, rfl⟩, reset.map_pieceIndex, fun _ _ => rfl⟩
  | rechecked f reset =>
    exact ⟨⟨rfl, rfl, rfl, rfl, rfl⟩, reset.map_pieceIndex, fun h _ => h⟩
  | completed computation hashed pending =>
    refine ⟨sameFile_completeManifest .., by rw [pieces_completeManifest], fun _ hnone => ?_⟩
    rw [pending] at hnone
    cases hnone

/-! ## What a step makes of a piece -/

def Grows (payload payload' : Option ByteSeq) : Prop :=
  ∀ file, payload = some file → ∃ file', payload' = some file' ∧ file.len ≤ file'.len

theorem Grows.refl (payload : Option ByteSeq) : Grows payload payload :=
  fun file h => ⟨file, h, le_rfl⟩

theorem grows_writePayload (payload : Option ByteSeq) (start : Nat) (data : ByteSeq) :
    Grows payload (some (writePayload payload start data)) := by
  rintro file rfl
  exact ⟨_, rfl, len_le_len_write ..⟩

/-- **Where a piece of the next manifest comes from.** -/
inductive PieceStep (md4 : Md4) (s : TransferSystem) (payload' : Option ByteSeq)
    (q : Ed2kPieceState) : Prop
  | kept (mem : q ∈ s.manifest.pieces) (grows : Grows s.payload payload')
      (onDisk : OnDisk md4 s.payload s.manifest q.pieceIndex →
        OnDisk md4 payload' s.manifest q.pieceIndex)
  | reset (p : Ed2kPieceState) (ichCorrupted : Bool) (made : q = p.reset ichCorrupted)
  | promoted (p : Ed2kPieceState) (made : q = p.verifiedPiece (s.manifest.pieceLen p.pieceIndex))
      (onDisk : OnDisk md4 payload' s.manifest p.pieceIndex)
  | salvaging (p : Ed2kPieceState) (bitmap : PartBlockBitmap) (made : q = p.missingWith bitmap)
      (partLen : bitmap.partLen = s.manifest.pieceLen p.pieceIndex)
      (covered : ∃ file, payload' = some file ∧
        s.manifest.pieceStart p.pieceIndex + s.manifest.pieceLen p.pieceIndex ≤ file.len)
  | written (salvage : Bool) (start : Nat) (data : ByteSeq) (p : Ed2kPieceState)
      (outcome : PieceWriteOutcome) (mem : p ∈ s.manifest.pieces)
      (effect : PieceEffect md4 salvage (writePayload s.payload start data) s.manifest p.pieceIndex
        start data.len p q outcome)
      (wrote : payload' = some (writePayload s.payload start data))

theorem WriteEffect.piece {w : WriteStep}
    (hw : WriteEffect md4 salvage s.payload s.manifest i start data w)
    (hnodup : (s.manifest.pieces.map pieceIndex).Nodup) (hq : q ∈ (s.written w).manifest.pieces) :
    PieceStep md4 s (s.written w).payload q := by
  cases hw with
  | refused | duplicate => exact .kept hq (.refl _) id
  | failed p e found low high disk =>
    -- the manifest stays as it was, so every verified piece has to survive the overlay
    refine .kept hq (grows_writePayload _ _ _) fun hd => ?_
    by_cases hqi : i = q.pieceIndex
    · subst hqi
      exact absurd disk (hd.verifyOnDisk_ne_error e)
    · exact hd.write_other hqi low high
  | settled p r outcome m' found low high effect next =>
    obtain ⟨hmem, rfl⟩ := findPiece_eq_some found
    have hq : q ∈ (s.manifest.setPiece p.pieceIndex r).pieces := by
      rcases next with rfl | ⟨rfl, -⟩
      · exact hq
      · exact hq
    obtain ⟨hold, hne⟩ | ⟨_, _, rfl⟩ := mem_modifyPieces hnodup hq
    · exact .kept hold (grows_writePayload _ _ _) fun hd => hd.write_other (Ne.symm hne) low high
    · exact .written salvage start data p outcome hmem effect rfl

theorem pieceStep_map (hf : IsReset s.manifest.pieces f) (hpayload : payload' = s.payload ∨
      payload' = some .empty ∧ ∀ p ∈ s.manifest.pieces, ∃ ichCorrupted, f p = p.reset ichCorrupted)
    (hq : q ∈ s.manifest.pieces.map f) : PieceStep md4 s payload' q := by
  obtain ⟨p, hp, rfl⟩ := List.mem_map.mp hq
  obtain rfl | ⟨-, hall⟩ := hpayload
  · obtain heq | ⟨ich, heq⟩ := hf p hp
    · rw [heq]
      exact .kept hp (.refl _) id
    · exact .reset p ich heq
  · obtain ⟨ich, heq⟩ := hall p hp
    exact .reset p ich heq

theorem StepEffect.piece (he : StepEffect md4 s e payload' m')
    (hnodup : (s.manifest.pieces.map pieceIndex).Nodup) (hq : q ∈ m'.pieces) :
    PieceStep md4 s payload' q := by
  cases he with
  | unchanged => exact .kept hq (.refl _) id
  | append i start stop data s' next =>
    subst next
    exact (appendPieceBlockInner_effect ..).piece hnodup hq
  | salvageWrite index d s' event delivery salvage next =>
    subst next
    exact (writeSalvageBlockUnfinalized_effect ..).piece hnodup hq
  | promoted i p file found missing payload disk =>
    obtain ⟨-, rfl⟩ := findPiece_eq_some found
    obtain ⟨hold, -⟩ | ⟨_, _, rfl⟩ := mem_modifyPieces hnodup hq
    · exact .kept hold (.refl _) id
    · exact .promoted p rfl (payload ▸ .of_verifyOnDisk disk)
  | salvaging i p bitmap found missing partLen covered =>
    obtain ⟨-, rfl⟩ := findPiece_eq_some found
    obtain ⟨hold, -⟩ | ⟨_, _, rfl⟩ := mem_modifyPieces hnodup hq
    · exact .kept hold (.refl _) id
    · exact .salvaging p bitmap rfl partLen covered
  | withdrawn m' authority next =>
    subst next
    exact .kept hq (.refl _) id
  | demoted f payload' reset emptied => exact pieceStep_map reset emptied hq
  | rechecked f reset => exact pieceStep_map reset (.inl rfl) hq
  | completed =>
    rw [pieces_completeManifest] at hq
    exact .kept hq (.refl _) id

/-! ## The steps keep the invariant -/

/-- A write leaves its piece `Verified` only by a part check of the written file, and then full. -/
theorem PieceEffect.of_verified (h : PieceEffect md4 salvage file m i start len p q outcome)
    (hv : q.state = .verified) :
    OnDisk md4 (some file) m i ∧ q = q.verifiedPiece (m.pieceLen i) := by
  cases h with
  | verified disk | salvaged bytes disk => exact ⟨.of_verifyOnDisk disk, rfl⟩
  | gapped => exact absurd hv (by simp [reset])
  | block =>
    exact absurd hv (by simp [missingWith])
  | advance => exact absurd hv (by simp [missingPrefix])

theorem VerifiedOnDisk.effect (h : VerifiedOnDisk md4 s.payload s.manifest)
    (he : StepEffect md4 s e payload' m') : VerifiedOnDisk md4 payload' m' := by
  have hplan := he.samePlan
  refine ⟨hplan.indices ▸ h.indices, fun q hq hv => OnDisk.congr hplan.toSameFile ?_⟩
  cases he.piece h.indices hq with
  | kept mem grows onDisk => exact onDisk (h.onDisk q mem hv)
  | reset p ich made =>
    rw [made] at hv
    cases hv
  | promoted p made onDisk =>
    rw [made]
    exact onDisk
  | salvaging p bitmap made =>
    rw [made] at hv
    cases hv
  | written salvage start data p outcome mem effect wrote =>
    rw [wrote, effect.pieceIndex_eq]
    exact (effect.of_verified hv).1

/-! ## The runs -/

theorem sameFile_run : SameFile s.manifest (s.after md4 sha1 events).manifest :=
  @Run.invariant _ _ _ _ (fun s' => SameFile s.manifest s'.manifest)
    (fun s' e h => h.trans (step_effect md4 sha1 s' e).samePlan.toSameFile) events
    ⟨rfl, rfl, rfl, rfl, rfl⟩

theorem nodup_pieceIndex_new (job : Ed2kTransferJob) :
    ((new job).pieces.map pieceIndex).Nodup := by
  have hmap : (new job).pieces.map pieceIndex =
      List.range (pieceCount job.fileSize job.pieceSize) := by
    simp [new, Ed2kPieceState.empty, Function.comp_def]
  rw [hmap]
  exact List.nodup_range

theorem missing_of_mem_new (h : p ∈ (new job).pieces) : p.state = .missing := by
  obtain ⟨i, -, rfl⟩ := List.mem_map.mp h
  rfl

theorem verifiedOnDisk_run (h : VerifiedOnDisk md4 s.payload s.manifest) :
    VerifiedOnDisk md4 (s.after md4 sha1 events).payload (s.after md4 sha1 events).manifest :=
  @Run.invariant _ _ _ _ (fun s => VerifiedOnDisk md4 s.payload s.manifest)
    (fun s e h => h.effect (step_effect md4 sha1 s e)) events h

theorem verifiedOnDisk_start {md4Hashset : Option (List Md4Digest)}
    {aichRoot : Option Sha1Digest} {ichEnabled : Bool} :
    VerifiedOnDisk md4
      (TransferSystem.start job md4Hashset aichRoot payload ichEnabled).payload
      (TransferSystem.start job md4Hashset aichRoot payload ichEnabled).manifest := by
  refine ⟨nodup_pieceIndex_new job, fun p hp hv => ?_⟩
  rw [missing_of_mem_new hp] at hv
  cases hv

end

/-- **A verified piece is on disk.** Whatever the sessions of a transfer deliver, and in whatever
    order their locked operations interleave, the range of a piece marked `Verified` can be read
    from the payload and its MD4 is the expected part hash. -/
theorem verified_piece_on_disk (md4 : Md4) (sha1 : Sha1)
    (job : Ed2kTransferJob) (md4Hashset : Option (List Md4Digest)) (aichRoot : Option Sha1Digest)
    (payload : Option ByteSeq) (ichEnabled : Bool) (events : List Event) (s : TransferSystem)
    (hs : s = (TransferSystem.start job md4Hashset aichRoot payload ichEnabled).after md4 sha1
      events)
    (p : Ed2kPieceState) (hp : p ∈ s.manifest.pieces) (hv : p.state = .verified) :
    ∃ file bytes, s.payload = some file ∧
      file.readExact (s.manifest.pieceStart p.pieceIndex) (s.manifest.pieceLen p.pieceIndex) =
        some bytes ∧
      expectedPartHash s.manifest p.pieceIndex = some (md4 bytes) := by
  subst hs
  exact (verifiedOnDisk_run (verifiedOnDisk_start ..)).onDisk p hp hv

def firstByteMd4 (bytes : List UInt8) : Md4Digest := Vector.replicate 16 (bytes.headD 0)

def resentByteRun : TransferSystem :=
  (TransferSystem.start ⟨firstByteMd4 [7], 1, ed2kPartSize⟩ (some []) none none true).after
    firstByteMd4 (fun _ => Vector.replicate 20 0)
    [.append 0 0 1 ⟨1, fun _ => 9⟩, .append 0 0 1 ⟨1, fun _ => 7⟩]

/-- A byte that arrives corrupt, and again. -/
theorem verified_piece_on_disk_resent : ∃ file bytes, resentByteRun.payload = some file ∧
    file.readExact (resentByteRun.manifest.pieceStart 0) (resentByteRun.manifest.pieceLen 0) =
      some bytes ∧
    expectedPartHash resentByteRun.manifest 0 = some (firstByteMd4 bytes) :=
  verified_piece_on_disk _ _ _ _ _ _ _ _ resentByteRun rfl ⟨0, .verified, 1, none, false⟩
    (by decide) rfl

end EmuleBB.Transfer
