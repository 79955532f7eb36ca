import EmuleBB.Lib.Run
import EmuleBB.Transfer.Effects
import EmuleBB.Transfer.Rehash

/-!
# One transfer under all of its sessions

The transfer as a state machine. **A step is one manifest-locked operation**, or one of the
unlocked hashing passes between two of them; a run is any list of events, so it is any
interleaving of any number of sessions. What a session carries from one lock to the next stands
in the state:

* a `Delivery` is a received block after the bitmap probe of
  `append_or_salvage_block_with_manifest` and before its write, with the path the probe chose;
* a `RehashPhase` is the final re-hash between its two locked phases, under the lifecycle lock,
  so there is at most one and it excludes the other lifecycle operations;
* a `Recheck` is a partial recheck that took its snapshot and holds no lock.

An operation that fails leaves the manifest alone, because it worked on a copy. The payload it
had already written stays written.
-/

namespace EmuleBB.Transfer

structure Delivery where
  salvage : Bool
  pieceIndex : Nat
  start : Nat
  stop : Nat
  data : ByteSeq

structure Recheck where
  snapshot : Ed2kResumeManifest
  computation : Option FinalRehashComputation

inductive RehashPhase
  | idle
  | hashing
  | hashed (computation : FinalRehashComputation)

/-- The manifest, the payload, and the blocks that are on their way. -/
structure TransferSystem where
  manifest : Ed2kResumeManifest
  payload : Option ByteSeq
  ichEnabled : Bool
  deliveries : List Delivery
  finalRehash : RehashPhase
  rechecks : List Recheck

/-- One locked operation or hashing pass. An index into `deliveries` or `rechecks` names the
    session that moves. -/
inductive Event
  | append (pieceIndex start stop : Nat) (data : ByteSeq)
  | probe (pieceIndex start stop : Nat) (data : ByteSeq)
  | deliver (index : Nat)
  | beginSalvage (part : Nat) (masterHash : Sha1Digest) (recoveryBody : List UInt8)
  | setIchEnabled (enabled : Bool)
  | ichRehash (pieceIndex : Nat)
  | rehashBegin (force : Bool)
  | rehashCompute (fingerprint : Option NativeFileFingerprint)
  | rehashFinish
  | rehashAbort
  | recheckBegin
  | recheckCompute (index : Nat) (fingerprint : Option NativeFileFingerprint)
  | recheckFinish (index : Nat)
  | reconcileFailure (reported : Option Nat)
  | withdraw (expected : Option NativeFileFingerprint)

def TransferSystem.start (job : Ed2kTransferJob) (md4Hashset : Option (List Md4Digest))
    (aichRoot : Option Sha1Digest) (payload : Option ByteSeq) (ichEnabled : Bool) :
    TransferSystem where
  manifest :=
    { Ed2kResumeManifest.new job with
      md4HashsetAcquired := md4Hashset.isSome
      md4Hashset := md4Hashset.getD []
      aichRoot := aichRoot }
  payload := payload
  ichEnabled := ichEnabled
  deliveries := []
  finalRehash := .idle
  rechecks := []

section

variable (md4 : Md4) (sha1 : Sha1)

def TransferSystem.written (s : TransferSystem) (w : WriteStep) : TransferSystem :=
  { s with
    payload := w.payload
    manifest := match w.result with
      | .ok done => done.manifest
      | .error _ => s.manifest }

/-- A block that was probed is written the way the probe decided. -/
def deliverBlock (s : TransferSystem) (d : Delivery) : WriteStep :=
  if d.salvage then
    if d.pieceIndex < 2 ^ 16 then
      writeSalvageBlockUnfinalized md4 s.ichEnabled s.payload s.manifest d.pieceIndex d.start
        d.stop d.data
    else ⟨s.payload, .error (.salvagePartExceedsU16 d.pieceIndex)⟩
  else
    appendPieceBlockInner md4 s.ichEnabled s.payload s.manifest d.pieceIndex d.start d.stop d.data

/-- The hashing pass of a partial recheck; a missing payload counts as unreadable. -/
def recheckComputation (payload : Option ByteSeq) (expectedSize : Nat)
    (fingerprint : Option NativeFileFingerprint) : FinalRehashComputation :=
  match payload with
  | none => failedContentComputation expectedSize 0
  | some file => computeFinalRehash md4 sha1 file expectedSize fingerprint

def step (s : TransferSystem) : Event → TransferSystem
  | .append i start stop data =>
    s.written (appendPieceBlockInner md4 s.ichEnabled s.payload s.manifest i start stop data)
  | .probe i start stop data =>
    { s with deliveries := ⟨probeSalvage s.manifest i, i, start, stop, data⟩ :: s.deliveries }
  | .deliver index =>
    match s.deliveries[index]? with
    | none => s
    | some d =>
      { s.written (deliverBlock md4 s d) with deliveries := s.deliveries.eraseIdx index }
  | .beginSalvage part masterHash recoveryBody =>
    match beginPartSalvage sha1 s.payload s.manifest part masterHash recoveryBody with
    | .ok (some (m, _)) => { s with manifest := m }
    | _ => s
  | .setIchEnabled enabled => { s with ichEnabled := enabled }
  | .ichRehash i =>
    match ichTryRehashPartUnlocked md4 s.ichEnabled s.payload s.manifest i with
    | .ok (m, _) => { s with manifest := m }
    | .error _ => s
  | .rehashBegin force =>
    match s.finalRehash with
    | .idle =>
      let begun := finalRehashBegin force s.payload s.manifest
      { s with
        manifest := begun.manifest
        payload := begun.payload
        finalRehash := if begun.hashing then .hashing else .idle }
    | _ => s
  | .rehashCompute fingerprint =>
    match s.finalRehash, s.payload with
    | .hashing, some file =>
      { s with
        finalRehash :=
          .hashed (computeFinalRehash md4 sha1 file s.manifest.fileSize fingerprint) }
    | _, _ => s
  | .rehashFinish =>
    match s.finalRehash with
    | .hashed computation =>
      let done := finalRehashFinish computation s.payload s.manifest
      { s with payload := done.1, manifest := done.2, finalRehash := .idle }
    | _ => s
  | .rehashAbort => { s with finalRehash := .idle }
  | .recheckBegin =>
    if recheckApplies s.manifest then
      { s with rechecks := ⟨s.manifest, none⟩ :: s.rechecks }
    else s
  | .recheckCompute index fingerprint =>
    { s with
      rechecks := s.rechecks.modify index fun r =>
        { r with
          computation :=
            some (recheckComputation md4 sha1 s.payload r.snapshot.fileSize fingerprint) } }
  | .recheckFinish index =>
    match s.rechecks[index]? with
    | some ⟨snapshot, some computation⟩ =>
      { s with
        rechecks := s.rechecks.eraseIdx index
        manifest := match recheckFinish snapshot computation s.manifest with
          | .ok m => m
          | .error _ => s.manifest }
    | _ => { s with rechecks := s.rechecks.eraseIdx index }
  | .reconcileFailure reported =>
    match s.finalRehash with
    | .idle =>
      match reconcileIncompletePayloadFailure md4 s.payload s.manifest reported with
      | .ok m => { s with manifest := m }
      | .error _ => s
    | _ => s
  | .withdraw expected =>
    match s.finalRehash with
    | .idle => { s with manifest := withdrawUntrustedVerifiedPayload s.manifest expected }
    | _ => s

def TransferSystem.after (s : TransferSystem) (events : List Event) : TransferSystem :=
  Run.run (step md4 sha1) s events

end

/-! ## What one step can do -/

def IsReset (pieces : List Ed2kPieceState) (f : Ed2kPieceState → Ed2kPieceState) : Prop :=
  ∀ p ∈ pieces, f p = p ∨ ∃ ichCorrupted, f p = p.reset ichCorrupted

section

variable (md4 : Md4) (sha1 : Sha1)

/-- The payload and manifest a step can leave, **one constructor per way of changing them**. -/
inductive StepEffect (s : TransferSystem) (e : Event) : Option ByteSeq → Ed2kResumeManifest → Prop
  | unchanged : StepEffect s e s.payload s.manifest
  /-- A block through `append_piece_block`. -/
  | append (i start stop : Nat) (data : ByteSeq) (s' : TransferSystem)
      (next : s' = s.written
        (appendPieceBlockInner md4 s.ichEnabled s.payload s.manifest i start stop data)) :
      StepEffect s e s'.payload s'.manifest
  /-- A block through `write_salvage_block`, after its probe. -/
  | salvageWrite (index : Nat) (d : Delivery) (s' : TransferSystem) (event : e = .deliver index)
      (delivery : s.deliveries[index]? = some d) (salvage : d.salvage = true)
      (next : s' = s.written (writeSalvageBlockUnfinalized md4 s.ichEnabled s.payload s.manifest
        d.pieceIndex d.start d.stop d.data)) :
      StepEffect s e s'.payload s'.manifest
  /-- The ICH re-hash matched. -/
  | promoted (i : Nat) (p : Ed2kPieceState) (file : ByteSeq)
      (found : s.manifest.findPiece i = some p) (missing : p.state ≠ .verified)
      (payload : s.payload = some file)
      (disk : verifyOnDisk md4 file s.manifest i = .ok true) :
      StepEffect s e s.payload
        (refresh (s.manifest.setPiece i (p.verifiedPiece (s.manifest.pieceLen i))))
  /-- A salvage started on a piece that is not verified. -/
  | salvaging (i : Nat) (p : Ed2kPieceState) (bitmap : PartBlockBitmap)
      (found : s.manifest.findPiece i = some p) (missing : p.state ≠ .verified)
      (partLen : bitmap.partLen = s.manifest.pieceLen i)
      (covered : ∃ file, s.payload = some file ∧
        s.manifest.pieceStart i + s.manifest.pieceLen i ≤ file.len) :
      StepEffect s e s.payload (s.manifest.setPiece i (p.missingWith bitmap))
  /-- Completion withdrawn until the whole file has been hashed again. -/
  | withdrawn (m' : Ed2kResumeManifest)
      (authority : s.manifest.completed = true ∨ s.manifest.isFullyVerified = true ∨
        s.manifest.finalRehashPending = true)
      (next : m' = { s.manifest with
        completed := false, finalRehashPending := true, payloadFingerprint := none }) :
      StepEffect s e s.payload m'
  /-- Pieces reset by the final re-hash; an emptied payload resets them all. -/
  | demoted (f : Ed2kPieceState → Ed2kPieceState) (payload' : Option ByteSeq)
      (reset : IsReset s.manifest.pieces f)
      (emptied : payload' = s.payload ∨
        payload' = some .empty ∧ ∀ p ∈ s.manifest.pieces, ∃ ichCorrupted,
          f p = p.reset ichCorrupted) :
      StepEffect s e payload' (rebuildVerifiedRanges
        { s.manifest with
          pieces := s.manifest.pieces.map f
          completed := false
          finalRehashPending := false
          payloadFingerprint := none })
  /-- Pieces of an incomplete transfer reset by a recheck. -/
  | rechecked (f : Ed2kPieceState → Ed2kPieceState) (reset : IsReset s.manifest.pieces f)
      (open_ : s.manifest.completed = false)
      (notPending : s.manifest.finalRehashPending = false ∨ s.manifest.isFullyVerified = false) :
      StepEffect s e s.payload
        (rebuildVerifiedRanges { s.manifest with pieces := s.manifest.pieces.map f })
  /-- The whole-file hash matched. -/
  | completed (computation : FinalRehashComputation)
      (hashed : s.finalRehash = .hashed computation)
      (pending : s.manifest.finalRehashPending = true)
      (len : computation.actualLen = s.manifest.fileSize) :
      StepEffect s e s.payload (completeManifest s.manifest computation)

end

section

variable {md4 : Md4} {sha1 : Sha1} {payload : Option ByteSeq}
  {m m' : Ed2kResumeManifest} {s : TransferSystem} {e : Event}
    {computation : FinalRehashComputation}

theorem ichTryRehashPartUnlocked_eq_ok {ichEnabled : Bool} {i : Nat} {result : IchRehashResult}
    (h : ichTryRehashPartUnlocked md4 ichEnabled payload m i = .ok (m', result)) :
    m' = m ∨ ∃ p file, m.findPiece i = some p ∧ p.state ≠ .verified ∧ payload = some file ∧
      verifyOnDisk md4 file m i = .ok true ∧
      m' = refresh (m.setPiece i (p.verifiedPiece (m.pieceLen i))) := by
  unfold ichTryRehashPartUnlocked at h
  split at h
  · exact .inl (by simp_all)
  cases hp : m.findPiece i with
  | none => exact .inl (by simp_all)
  | some p =>
    rw [hp] at h
    simp only at h
    split at h
    · exact .inl (by simp_all)
    rename_i hattempt
    cases hb : p.resolveBlockBitmap (m.pieceLen i) with
    | none => rw [hb] at h; cases h
    | some =>
      rw [hb] at h
      cases payload with
      | none => exact .inl (by simp_all)
      | some file =>
        rw [Option.bind_some] at h
        cases hread : file.readExact (m.pieceStart i) (m.pieceLen i) with
        | none => rw [hread] at h; exact .inl (by simp_all)
        | some =>
          rw [hread] at h
          obtain ⟨matched, hverify, h⟩ := Except.bind_eq_ok.mp h
          cases matched with
          | false => exact .inl (by simp_all)
          | true =>
            have hmissing : p.state ≠ .verified := fun hv => hattempt (.inr (.inl hv))
            refine .inr
              ⟨p, file, rfl, hmissing, rfl, by simpa [verifyOnDisk, hread] using hverify, ?_⟩
            rw [← modifyPiece_eq_setPiece (f := (·.verifiedPiece (m.pieceLen i))) hp]
            simp only [if_true, Except.pure_eq_ok, Except.ok.injEq, Prod.mk.injEq] at h
            exact h.1.symm

theorem partLen_salvageBitmap (partLen partStart : Nat) (recovered : List (Nat × Nat)) :
    (salvageBitmap partLen partStart recovered).partLen = partLen := by
  unfold salvageBitmap
  generalize hb : PartBlockBitmap.empty partLen = bitmap
  have hlen : bitmap.partLen = partLen := by rw [← hb]; rfl
  clear hb
  induction recovered generalizing bitmap with
  | nil => exact hlen
  | cons r rs ih => exact ih _ (by rw [PartBlockBitmap.partLen_setPresent, hlen])

theorem beginPartSalvage_eq_some {part : Nat} {masterHash : Sha1Digest} {body : List UInt8}
    {outcome : PartSalvageOutcome}
    (h : beginPartSalvage sha1 payload m part masterHash body = .ok (some (m', outcome))) :
    ∃ p bitmap, m.findPiece part = some p ∧ p.state ≠ .verified ∧
      bitmap.partLen = m.pieceLen part ∧
      (∃ file, payload = some file ∧ m.pieceStart part + m.pieceLen part ≤ file.len) ∧
      m' = m.setPiece part (p.missingWith bitmap) := by
  unfold beginPartSalvage at h
  split at h
  · cases h
  split at h
  · cases h
  cases hp : m.findPiece part with
  | none => rw [hp] at h; cases h
  | some p =>
    rw [hp] at h
    simp only at h
    by_cases hv : p.state = .verified
    · rw [if_pos hv] at h
      cases h
    rw [if_neg hv] at h
    split at h
    · cases h
    rename_i file
    split at h
    · cases h
    rename_i bytes hread
    split at h
    · cases h
    split at h
    · cases h
    rename_i recovery _
    have hcovered := (ByteSeq.readExact_eq_some.mp hread).1
    simp only [Except.ok.injEq, Option.some.injEq, Prod.mk.injEq] at h
    refine ⟨p, _, rfl, hv, partLen_salvageBitmap _ (m.pieceStart part)
      recovery.recoveredRanges, ⟨file, rfl, hcovered⟩, ?_⟩
    rw [← modifyPiece_eq_setPiece (f := (·.missingWith _)) hp]
    exact h.1.symm

theorem isReset_resetListed {pieces : List Ed2kPieceState} {damaged : List Nat}
    {ich : Nat → Bool} : IsReset pieces (resetListed damaged ich) := by
  intro p _
  by_cases hp : p.pieceIndex ∈ damaged
  · exact .inr ⟨_, if_pos hp⟩
  · exact .inl (if_neg hp)

/-- The first phase of the final re-hash withdraws completion, or reopens everything over an
    empty payload, or does nothing. -/
theorem finalRehashBegin_effect {force : Bool} :
    StepEffect md4 s e (finalRehashBegin force s.payload s.manifest).payload
      (finalRehashBegin force s.payload s.manifest).manifest := by
  unfold finalRehashBegin
  split
  · exact .unchanged
  rename_i hpending
  split
  · exact .unchanged
  rename_i hforce
  cases hpayload : s.payload with
  | none =>
    refine .demoted (·.reset false) (some .empty) (fun p _ => .inr ⟨false, rfl⟩) ?_
    exact .inr ⟨rfl, fun p _ => ⟨false, rfl⟩⟩
  | some =>
    simp only
    rw [← hpayload]
    refine .withdrawn _ ?_ rfl
    cases force with
    | false => exact .inr (.inr (by simpa using hpending))
    | true =>
      rcases hc : s.manifest.completed with _ | _
      · exact .inr (.inl (by simpa [hc] using hforce))
      · exact .inl rfl

theorem finalRehashFinish_effect
    (h : s.finalRehash = .hashed computation) :
    StepEffect md4 s e (finalRehashFinish computation s.payload s.manifest).1
      (finalRehashFinish computation s.payload s.manifest).2 := by
  unfold finalRehashFinish
  split
  · exact .unchanged
  rename_i hpending
  split
  · rename_i hmatch
    exact .completed computation h (by simpa using hpending) hmatch.1
  · refine .demoted _ _ isReset_resetListed ?_
    by_cases hover : s.manifest.fileSize < computation.actualLen
    · refine .inr ⟨by simp [hover], fun p hp => ⟨_, if_pos ?_⟩⟩
      simpa [hover] using ⟨p, hp, rfl⟩
    · exact .inl (by simp [hover])

theorem recheckFinish_effect {snapshot : Ed2kResumeManifest}
    (h : recheckFinish snapshot computation s.manifest = .ok m') :
    StepEffect md4 s e s.payload m' := by
  unfold recheckFinish at h
  split at h
  · rename_i hsame
    cases h
    exact .rechecked _ isReset_resetListed (by simpa using hsame.2.2.2.2.2.1)
      (.inr (by simpa using hsame.2.2.2.2.2.2))
  · cases h

theorem reconcileIncompletePayloadFailure_effect {reported : Option Nat}
    (h : reconcileIncompletePayloadFailure md4 s.payload s.manifest reported = .ok m') :
    StepEffect md4 s e s.payload m' := by
  unfold reconcileIncompletePayloadFailure at h
  split at h
  · cases h
    exact .unchanged
  rename_i hopen
  obtain ⟨damaged, -, h⟩ := Except.bind_eq_ok.mp h
  split at h
  · cases h
    exact .unchanged
  · cases h
    obtain ⟨hcompleted, hpending⟩ : s.manifest.completed = false ∧
        s.manifest.finalRehashPending = false := by simpa using hopen
    exact .rechecked _ isReset_resetListed hcompleted (.inl hpending)

/-- **What one step can do to the payload and the manifest.** -/
theorem step_effect (md4 : Md4) (sha1 : Sha1)
    (s : TransferSystem) (e : Event) :
    StepEffect md4 s e (step md4 sha1 s e).payload (step md4 sha1 s e).manifest := by
  cases e with
  | append i start stop data => exact .append i start stop data _ rfl
  | probe | setIchEnabled | rehashAbort
  | recheckCompute => exact .unchanged
  | deliver index =>
    simp only [step]
    cases hd : s.deliveries[index]? with
    | none => exact .unchanged
    | some d =>
      simp only [deliverBlock]
      cases hsalvage : d.salvage with
      | false => exact .append d.pieceIndex d.start d.stop d.data _ rfl
      | true =>
        by_cases hu16 : d.pieceIndex < 2 ^ 16
        · rw [if_pos hu16]
          exact .salvageWrite index d _ rfl hd hsalvage rfl
        · rw [if_neg hu16]
          exact .unchanged
  | beginSalvage part =>
    simp only [step]
    split
    · rename_i m outcome hbegin
      obtain ⟨p, bitmap, hp, hmissing, hlen, hcovered, rfl⟩ := beginPartSalvage_eq_some hbegin
      exact .salvaging part p bitmap hp hmissing hlen hcovered
    · exact .unchanged
  | ichRehash i =>
    simp only [step]
    split
    · rename_i m result hrehash
      rcases ichTryRehashPartUnlocked_eq_ok hrehash with
        rfl | ⟨p, file, hp, hmissing, hpayload, hdisk, rfl⟩
      · exact .unchanged
      · exact .promoted i p file hp hmissing hpayload hdisk
    · exact .unchanged
  | rehashBegin force =>
    simp only [step]
    split
    · exact finalRehashBegin_effect
    · exact .unchanged
  | rehashCompute | recheckBegin =>
    simp only [step]
    split <;> exact .unchanged
  | rehashFinish =>
    simp only [step]
    split
    · rename_i computation hhashed
      exact finalRehashFinish_effect hhashed
    · exact .unchanged
  | recheckFinish =>
    simp only [step]
    split
    · rename_i snapshot computation _
      cases hfinish : recheckFinish snapshot computation s.manifest with
      | ok => exact recheckFinish_effect hfinish
      | error => exact .unchanged
    · exact .unchanged
  | reconcileFailure =>
    simp only [step]
    split
    · split
      · rename_i m hreconcile
        exact reconcileIncompletePayloadFailure_effect hreconcile
      · exact .unchanged
    · exact .unchanged
  | withdraw =>
    simp only [step]
    split
    · unfold withdrawUntrustedVerifiedPayload
      split
      · exact .unchanged
      · rename_i hcompleted
        exact .withdrawn _ (.inl (by simpa using (not_or.mp hcompleted).1)) rfl
    · exact .unchanged

end

end EmuleBB.Transfer
