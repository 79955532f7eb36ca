import EmuleBB.Delivery.Steps

/-!
# The code left alone

With nobody else at work a look finds what is there, and a program can be followed state by state. A
file that **stands** at a path is regular, shows a given stamp and holds the transfer: every check
the code makes of such a file succeeds (`value_classifyDeliveredOutput`, `value_verifyHandle`).
-/

namespace EmuleBB.Delivery

open Prog FileSystem

/-- The bytes are those of the download. -/
def Payload (md4 : Md4) (job : DeliveryJob) (bytes : List UInt8) : Prop :=
  bytes.length = job.fileSize ∧ ed2kHash md4 bytes job.fileSize = some job.fileHash

structure Stands (md4 : Md4) (job : DeliveryJob) (fs : FileSystem NativePath)
    (path : NativePath) (seen : Stamp) : Prop where
  found : fs.find path = some seen.identity
  shown : fs.fingerprint seen.identity = some seen
  payload : Payload md4 job (fs.objects seen.identity).bytes

section

variable {md4 : Md4} {job : DeliveryJob} {w : World} {path : NativePath}
  {seen : Stamp} {recorded : Option Stamp}

section

variable (h : Stands md4 job w.fs path seen)

include h

theorem Stands.kind :
    (w.fs.objects seen.identity).kind = .regular := (fingerprint_eq_some.mp h.shown).1

theorem Stands.size : seen.size = job.fileSize := by
  obtain ⟨-, hstamp⟩ := fingerprint_eq_some.mp h.shown
  exact (congrArg Stamp.size hstamp).symm.trans h.payload.1

/-! ## Looks -/

theorem value_openFile : (openFile path).value w = .ok (.handle seen.identity) := by
  simp only [openFile, value_read, h.found, h.kind]

theorem value_nativeFileFingerprint : (nativeFileFingerprint path).value w = .ok (some seen) := by
  refine (value_bind (value_openFile h)).trans ?_
  exact congrArg Except.ok h.shown

theorem value_symlinkMetadata :
    (symlinkMetadata path).value w = .ok (some (.regular, job.fileSize)) := by
  simp only [symlinkMetadata, value_read, h.found, h.kind, h.payload.1, Option.map_some]

theorem value_computeEd2kHashFromHandle :
    (computeEd2kHashFromHandle md4 seen.identity job.fileSize).value w = .ok job.fileHash := by
  refine value_transact ?_
  simp only [h.payload.2]

theorem value_classifyAfterHash :
    (classifyAfterHash job path (some seen)).value w = .ok (.matching (some seen)) := by
  refine (value_bind (a := some seen) ?_).trans ?_
  · refine (value_bind (value_symlinkMetadata h)).trans ?_
    simp only [if_true]
    exact value_nativeFileFingerprint h
  · simp only [ne_eq, not_true_eq_false, and_false, if_false]
    rfl

/-- **A file that stands is verified.** -/
theorem value_verifyHandle :
    (verifyHandle md4 seen.identity path job.fileSize job.fileHash).value w =
    .ok (.ok seen) := by
  have hshown : (fingerprintFromHandle seen.identity).value w = .ok (some seen) :=
    congrArg Except.ok h.shown
  refine (value_bind hshown).trans ?_
  simp only [h.size, ne_eq, not_true_eq_false, if_false]
  refine (value_bind (value_computeEd2kHashFromHandle h)).trans ?_
  simp only [not_true_eq_false, if_false]
  refine (value_bind hshown).trans ?_
  simp only [not_true_eq_false, if_false]
  refine (value_bind (value_nativeFileFingerprint h)).trans ?_
  simp only [if_true]
  rfl

/-- **A file that stands is recognised**, by the recorded stamp or, without one, by its bytes. -/
theorem value_classifyDeliveredOutput :
    (classifyDeliveredOutput md4 job path recorded).value w = .ok (.matching (some seen)) := by
  refine (value_bind (value_symlinkMetadata h)).trans ?_
  simp only [ne_eq, not_true_eq_false, or_self, if_false]
  refine (value_bind (value_nativeFileFingerprint h)).trans ?_
  split
  · rfl
  · refine (value_bind (value_symlinkMetadata h)).trans ?_
    simp only [if_true]
    have hopen : (openFollowing path).value w = .ok (.handle seen.identity) := by
      simp only [openFollowing, value_read, h.found, h.kind]
    refine (value_bind hopen).trans ?_
    refine (value_bind (value_computeEd2kHashFromHandle h)).trans ?_
    simp only [if_true]
    exact value_classifyAfterHash h

end

theorem value_classifyDeliveredOutput_missing (h : w.fs.find path = none) :
    (classifyDeliveredOutput md4 job path recorded).value w = .ok .missing := by
  have hlook : (symlinkMetadata path).value w = .ok none := by
    simp only [symlinkMetadata, value_read, h, Option.map_none]
  exact value_bind hlook

theorem value_classifyDeliveredOutput_link {id : Nat} {target : Option Nat}
    (h : w.fs.find path = some id) (hkind : (w.fs.objects id).kind = .link target) :
    (classifyDeliveredOutput md4 job path recorded).value w = .ok .foreign := by
  have hlook : (symlinkMetadata path).value w =
      .ok (some (.link target, (w.fs.objects id).bytes.length)) := by
    simp only [symlinkMetadata, value_read, h, hkind, Option.map_some]
  refine (value_bind hlook).trans ?_
  rfl

theorem value_classifyAttemptArtifact (h : Stands md4 job w.fs path seen) :
    (classifyAttemptArtifact md4 job path seen).value w = .ok .owned := by
  refine (value_bind (value_classifyDeliveredOutput h)).trans ?_
  simp only [if_true]
  rfl

theorem value_classifyAttemptArtifact_missing (h : w.fs.find path = none) :
    (classifyAttemptArtifact md4 job path seen).value w = .ok .missing :=
  value_bind (value_classifyDeliveredOutput_missing h)

end

/-! ## Programs -/

section

variable {α : Type} {I : World → Prop} {t : Async α} {w : World} {Q : α → World → Prop}
  {f : World → α × World}

/-- Nobody else does anything, no call fails, and every step keeps the invariant. -/
abbrev Alone (I : World → Prop) (t : Async α) (w : World) (Q : α → World → Prop) : Prop :=
  t.Keeping (Interference fun _ _ => False) I (fun _ _ => False) w Q

theorem no_interference (w w' : World) : ¬Interference (fun _ _ => False) w w' :=
  fun ⟨_, hmay, _⟩ => hmay

/-- Where nobody else acts, every condition is stable. -/
theorem stable_alone (P : World → Prop) : Stable (Interference fun _ _ => False) P :=
  fun w w' _ hmove => absurd hmove (no_interference w w')

theorem alone_look {β : Type} {f : α → Async β} {Q : β → World → Prop} [ht : ReadOnly t] {a : α}
    (hvalue : t.value w = .ok a) (h : I w) (hf : Alone I (f a) w Q) : Alone I (t >>= f) w Q := by
  have hlook : Alone I t w fun a' w' => a' = a ∧ w' = w :=
    keeping_value no_interference ht hvalue h ⟨rfl, rfl⟩
  refine hlook.bind fun a' w' _ heq => ?_
  obtain ⟨rfl, rfl⟩ := heq
  exact hf

theorem alone_atomic (hI : I (f w).2) (hQ : Q (f w).1 (f w).2) : Alone I (atomic f) w Q :=
  keeping_atomic_alone no_interference hI hQ

theorem alone_step (a : α) (w' : World) (hf : f w = (a, w')) (hI : I w')
    (hQ : Q a w') : Alone I (atomic f) w Q := by
  refine alone_atomic ?_ ?_
  · rw [hf]
    exact hI
  · rw [hf]
    exact hQ

theorem alone_transact {f : World → Except String (α × World)} (a : α) (w' : World)
    (hf : f w = .ok (a, w')) (hI : I w') (hQ : Q a w') : Alone I (transact f) w Q :=
  keeping_transact_alone no_interference hf hI hQ

theorem alone_ensure {condition : Prop} [Decidable condition] {message : String}
    (hcondition : condition) (h : I w) :
    Alone I (ensure condition message) w fun _ w' => w' = w := by
  rw [ensure, if_pos hcondition]
  exact keeping_pure h rfl

end

end EmuleBB.Delivery
