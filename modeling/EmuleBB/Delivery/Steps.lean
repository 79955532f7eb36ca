import EmuleBB.Delivery.Calls
import EmuleBB.Lib.Except

/-!
# What the steps share

Facts about single steps that every reading of the calls needs: which programs only look, and what
the actions of others leave alone. **Others never touch the rows**, nor what is noted beside them,
and no object of theirs takes the identity of another.
-/

namespace EmuleBB.Delivery

open Prog FileSystem

variable {tombstone : DeletionTombstone} {attempt : DeliveryAttempt}

/-! ## Programs that only look -/

section

variable {md4 : Md4} {job : DeliveryJob} {path : NativePath} {id size : Nat}
  {hash : Md4Digest} {current : Option Stamp}

instance {condition : Prop} [Decidable condition] {message : String} :
    ReadOnly (ensure condition message) := by
  unfold ensure
  infer_instance

instance : ReadOnly (openFile path) := inferInstanceAs (ReadOnly (read _))

instance : ReadOnly (openFollowing path) := inferInstanceAs (ReadOnly (read _))

instance : ReadOnly (fingerprintFromHandle id) := inferInstanceAs (ReadOnly (read _))

instance : ReadOnly (symlinkMetadata path) := inferInstanceAs (ReadOnly (read _))

instance : ReadOnly (pathExists path) := inferInstanceAs (ReadOnly (read _))

instance : ReadOnly deliveryAttempt := inferInstanceAs (ReadOnly (read _))

instance : ReadOnly loadForDeletion := inferInstanceAs (ReadOnly (read _))

instance : ReadOnly transferDirectoryDeletionAuthority := inferInstanceAs (ReadOnly (read _))

instance : ReadOnly (nativeDirectoryIdentity path) := inferInstanceAs (ReadOnly (read _))

instance : ReadOnly (nativeFileFingerprint path) := by
  refine ReadOnly.bind (g := fun opened => ?_)
  split <;> infer_instance

instance : ReadOnly (computeEd2kHashFromHandle md4 id size) := by
  refine readOnly_transact fun w digest w' h => ?_
  split at h
  · cases h
  · cases h
    rfl

instance : ReadOnly (classifyAfterHash job path current) := by
  refine ReadOnly.bind (h := ReadOnly.bind (g := fun metadata => ?_))
  split <;> infer_instance

instance : ReadOnly (classifyByHash md4 job path current) := by
  refine ReadOnly.bind (g := fun metadata => ?_)
  split
  · split
    · refine ReadOnly.bind (g := fun opened => ?_)
      split <;> infer_instance
    · infer_instance
  · infer_instance

instance : ReadOnly (classifyDeliveredOutput md4 job path current) := by
  refine ReadOnly.bind (g := fun metadata => ?_)
  split <;> infer_instance

instance {expected : Stamp} : ReadOnly (classifyAttemptArtifact md4 job path expected) := by
  refine ReadOnly.bind (g := fun found => ?_)
  split <;> infer_instance

instance : ReadOnly (verifyHandle md4 id path size hash) := by
  refine ReadOnly.bind (g := fun shown => ?_)
  split
  · infer_instance
  · split
    · infer_instance
    · refine ReadOnly.bind (g := fun digest => ?_)
      split
      · infer_instance
      · refine ReadOnly.bind (g := fun shown => ?_)
        split <;> infer_instance

instance : ReadOnly (openVerifiedStagingFile md4 job path) := by
  refine ReadOnly.bind (g := fun opened => ?_)
  split
  · refine ReadOnly.bind (g := fun result => ?_)
    split <;> infer_instance
  · infer_instance

instance : ReadOnly (capturePublishedFingerprint md4 job id path) := by
  refine ReadOnly.bind (g := fun result => ?_)
  split <;> infer_instance

instance : ReadOnly (verifyUncheckpointedMovedTombstone md4 id path size hash) := by
  refine ReadOnly.bind (g := fun result => ?_)
  split <;> infer_instance

instance : ReadOnly (captureMovedFingerprint id path) := by
  refine ReadOnly.bind (g := fun shown => ?_)
  split <;> infer_instance

instance : ReadOnly (validateDeliverySource path size) := by
  refine ReadOnly.bind (g := fun metadata => ?_)
  split <;> infer_instance

instance : ReadOnly (loadManifest job) := by
  refine readOnly_transact fun w row w' h => ?_
  split at h
  · split at h
    · cases h
    · cases h
      rfl
  · cases h

instance {markerId : Uuid} : ReadOnly (markerMatches path markerId) := by
  refine ReadOnly.bind (g := fun opened => ?_)
  split <;> infer_instance

instance {authority : TransferDirectoryDeletionAuthority} :
    ReadOnly (validateTransferDirectoryAuthority path authority) := by
  refine ReadOnly.bind (g := fun identity => ?_)
  split <;> infer_instance

instance : ReadOnly (validateDeliveryAttemptPaths attempt) := by
  unfold validateDeliveryAttemptPaths
  infer_instance

instance : ReadOnly (validateTombstone tombstone) := by
  unfold validateTombstone
  infer_instance

end

/-! ## Transactions -/

/-- **A tombstone is begun** for an output the transfer owns; a tombstone that is there already is
    the answer. -/
theorem prepareTombstone_eq_ok {job : DeliveryJob} {tombstoneId : Uuid}
    {originalPath tombstonePath : NativePath} {sourceFingerprint : Stamp} {w w' : World}
    (h : prepareTombstone job tombstoneId originalPath tombstonePath sourceFingerprint w =
      .ok (tombstone, w')) :
    originalPath ≠ tombstonePath ∧ ∃ row, w.transfer = some row ∧
      row.ownsOutput originalPath sourceFingerprint = true ∧
      (row.tombstone = some tombstone ∧ w' = w ∨
        row.tombstone = none ∧
          tombstone = ⟨tombstoneId, originalPath, tombstonePath, sourceFingerprint, .prepared⟩ ∧
          w' = { w with transfer := some { row with tombstone := some tombstone } }) := by
  simp only [prepareTombstone, Except.guard_eq_ok] at h
  obtain ⟨-, -, hne, -, -, h⟩ := h
  split at h
  · cases h
  · next row hrow =>
    split at h
    · next howns =>
      split at h
      · next existing hexisting =>
        split at h
        · cases h
          exact ⟨hne, row, hrow, howns, .inl ⟨hexisting, rfl⟩⟩
        · cases h
      · next hnone =>
        cases h
        exact ⟨hne, row, hrow, howns, .inr ⟨hnone, rfl, rfl⟩⟩
    · cases h

/-! ## Others -/

section

variable (action : Action) (w : World)

/-- **What an action comes to**: nothing, a new object, other bytes in an object, or
    one path less. -/
theorem act_cases : act action w = w ∨ (∃ path kind bytes,
      (action = .create path kind bytes ∧ w.fs.find path = none ∨
        action = .replace path kind bytes ∧ w.fs.find path ≠ none) ∧
      act action w = { w with fs := w.fs.create path kind bytes }) ∨
    (∃ path id bytes, action = .edit path bytes ∧ w.fs.find path = some id ∧
      act action w = { w with fs := w.fs.write id bytes }) ∨
    (∃ path, action = .remove path ∧ act action w = { w with fs := w.fs.remove path }) := by
  cases action with
  | create path kind bytes =>
    cases hfind : w.fs.find path with
    | none => exact .inr (.inl ⟨path, kind, bytes, .inl ⟨rfl, hfind⟩, by simp only [act, hfind]⟩)
    | some => exact .inl (by simp only [act, hfind])
  | edit path bytes =>
    cases hfind : w.fs.find path with
    | none => exact .inl (by simp only [act, hfind])
    | some id =>
      exact .inr (.inr (.inl ⟨path, id, bytes, rfl, hfind, by simp only [act, hfind]⟩))
  | replace path kind bytes =>
    cases hfind : w.fs.find path with
    | none => exact .inl (by simp only [act, hfind])
    | some =>
      have htaken : w.fs.find path ≠ none := by simp [hfind]
      exact .inr (.inl ⟨path, kind, bytes, .inr ⟨rfl, htaken⟩, by simp only [act, hfind]⟩)
  | remove path => exact .inr (.inr (.inr ⟨path, rfl, rfl⟩))

theorem act_frame : act action w = { w with fs := (act action w).fs } := by
  obtain heq | ⟨_, _, _, -, heq⟩ | ⟨_, _, _, -, -, heq⟩ | ⟨_, -, heq⟩ := act_cases action w
  · rw [heq]
  · rw [heq]
  · rw [heq]
  · rw [heq]

theorem transfer_act : (act action w).transfer = w.transfer := by rw [act_frame]

theorem next_act : w.fs.next ≤ (act action w).fs.next := by
  obtain heq | ⟨_, _, _, -, heq⟩ | ⟨_, _, _, -, -, heq⟩ | ⟨_, -, heq⟩ := act_cases action w
  · rw [heq]
  · rw [heq]
    exact Nat.le_succ _
  · rw [heq]
    exact le_rfl
  · rw [heq]
    exact le_rfl

theorem inUse_act {w : World} (h : w.fs.InUse) : (act action w).fs.InUse := by
  obtain heq | ⟨_, _, _, -, heq⟩ | ⟨_, _, _, -, -, heq⟩ | ⟨_, -, heq⟩ := act_cases action w
  · rw [heq]
    exact h
  · rw [heq]
    exact h.create _ _ _
  · rw [heq]
    exact h.write _ _
  · rw [heq]
    exact h.remove _

end

/-! ## Fragments of programs -/

theorem keeping_ensure {R : World → World → Prop} {I : World → Prop} {E : String → World → Prop}
    {w : World} {condition : Prop} [Decidable condition] {message : String} (h : I w)
    (hE : ¬condition → E message w) :
    Keeping R I E (ensure condition message) w fun _ w' => condition ∧ w' = w := by
  unfold ensure
  split
  · next hcondition => exact keeping_pure h ⟨hcondition, rfl⟩
  · next hcondition => exact keeping_fail h (hE hcondition)

/-! ## A small transfer

One byte, in a file system that holds nothing but its directory. The digest repeats
the first byte. -/

namespace Sample

def md4 (bytes : List UInt8) : Md4Digest := Vector.replicate 16 (bytes.headD 0)

def inDir : Directory := ⟨true, "/in"⟩

def job : DeliveryJob :=
  ⟨"a.txt", 1, md4 [7], ⟨⟨true, "/transfers"⟩, "07070707070707070707070707070707"⟩⟩

def target : NativePath := ⟨inDir, "a.txt"⟩

def ids (n : Nat) : Uuid := Vector.replicate 16 (UInt8.ofNat n)

def objects : Nat → FileObject
  | 0 => ⟨.directory, [], 0, 0⟩
  | _ => ⟨.regular, [7], 0, 0⟩

def world : World where
  fs := ⟨AList.insert job.payloadPath 1 (AList.insert job.transferPath 0 ∅), objects, 2, 1⟩
  transfer := some ⟨true, false, false, false, .pending, none, none, none⟩
  renamed := []
  cleaned := false
  produced := []

theorem inUse_world : world.fs.InUse := inUse_of_entries (by decide +kernel)

def delivery : List (Event Call Action) :=
  .call (.materialize inDir ids) :: List.replicate 25 .tick

end Sample

end EmuleBB.Delivery
