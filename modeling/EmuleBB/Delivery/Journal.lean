import EmuleBB.Delivery.Alone

/-!
# Where a delivery can be

A crash can separate the rename of a staged file from the note of it, and the note from the record
of the delivery. **The states a cut can leave are those of `Once`**: nothing begun; an attempt that
is prepared; one that is staged, with the staging file there, gone again, or already under its final
name; one that is published; and a delivery on record.

The recovery goes on from any of them, without putting a second file, to one in which nothing is
begun or the delivery is on record (`proceeds_recoverDeliveryAttempt`).
-/

namespace EmuleBB.Delivery

open Prog FileSystem

/-! ## The states -/

structure Finished (row : TransferRow) : Prop where
  completed : row.completed = true
  verified : row.finalRehashPending = false
  kept : row.removed = false
  wanted : row.deleteRequested = false

variable (md4 : Md4) (job : DeliveryJob)

/-- The payload is where the transfer keeps it. One without bytes may be missing. -/
def PayloadReady (fs : FileSystem NativePath) : Prop :=
  match fs.find job.payloadPath with
  | some id => (fs.objects id).kind = .regular ∧ Payload md4 job (fs.objects id).bytes
  | none => Payload md4 job []

structure Files (fs : FileSystem NativePath) : Prop where
  inUse : fs.InUse
  payload : PayloadReady md4 job fs

structure DeliveryAttempt.Valid (attempt : DeliveryAttempt) : Prop where
  absolute : attempt.targetPath.parent.absolute = true
  parent : attempt.targetPath.parent = attempt.stagingPath.parent
  name : attempt.stagingPath.fileName = stagingName attempt.attemptId
  differ : attempt.targetPath ≠ attempt.stagingPath

def Vacant (fs : FileSystem NativePath) (path : NativePath) : Prop :=
  ∀ id, fs.find path = some id → (fs.objects id).kind = .link none

/-- A finished transfer, before any delivery of it. -/
structure Idle (w : World) : Prop where
  files : Files md4 job w.fs
  row : ∃ row, w.transfer = some row ∧ Finished row ∧ row.delivery = .pending ∧ row.attempt = none
  produced : w.produced = []

structure Journal (attempt : DeliveryAttempt) (w : World) : Prop where
  files : Files md4 job w.fs
  row : ∃ row, w.transfer = some row ∧ Finished row ∧ row.delivery = .pending ∧
    row.attempt = some attempt
  valid : attempt.Valid

structure Delivered (path : NativePath) (w : World) : Prop where
  files : Files md4 job w.fs
  row : ∃ row seen, w.transfer = some row ∧ Finished row ∧ row.attempt = none ∧
    (row.delivery = .owned path seen ∨ row.delivery = .unowned path (some seen)) ∧
    Stands md4 job w.fs path seen
  produced : w.produced = [path]

/-- **Where a delivery can be.** -/
inductive Once (w : World) : Prop where
  | idle (h : Idle md4 job w)
  | prepared {attempt : DeliveryAttempt} (h : Journal md4 job attempt w)
      (hphase : attempt.phase = .prepared) (hproduced : w.produced = [])
  | staged {attempt : DeliveryAttempt} {staging : Stamp} (h : Journal md4 job attempt w)
      (hphase : attempt.phase = .staged staging)
      (hstands : Stands md4 job w.fs attempt.stagingPath staging)
      (hvacant : Vacant w.fs attempt.targetPath) (hproduced : w.produced = [])
  | dropped {attempt : DeliveryAttempt} {staging : Stamp} (h : Journal md4 job attempt w)
      (hphase : attempt.phase = .staged staging) (hgone : w.fs.find attempt.stagingPath = none)
      (hvacant : Vacant w.fs attempt.targetPath) (hproduced : w.produced = [])
  | installed {attempt : DeliveryAttempt} {staging seen : Stamp} (h : Journal md4 job attempt w)
      (hphase : attempt.phase = .staged staging) (hgone : w.fs.find attempt.stagingPath = none)
      (hstands : Stands md4 job w.fs attempt.targetPath seen)
      (hproduced : w.produced = [attempt.targetPath])
  | published {attempt : DeliveryAttempt} {staging seen : Stamp} (h : Journal md4 job attempt w)
      (hphase : attempt.phase = .published staging seen)
      (hstands : Stands md4 job w.fs attempt.targetPath seen)
      (hproduced : w.produced = [attempt.targetPath])
  | delivered {path : NativePath} (h : Delivered md4 job path w)

variable {md4 job} {w w' w₀ : World} {attempt : DeliveryAttempt} {fs : FileSystem NativePath}
  {path : NativePath} {seen staging : Stamp} {row : TransferRow}

theorem Finished.deliverable (h : Finished row) (hpending : row.delivery = .pending) :
    row.deliverable = true := by
  simp [TransferRow.deliverable, h.completed, h.verified, h.kept, h.wanted, hpending]

theorem stagingName_toList (id : Uuid) : (stagingName id).toList =
    '.' :: ("emulebb-delivery-".toList ++ id.hyphenated.toList ++ ".tmp".toList) := by
  have hdot : ".emulebb-delivery-".toList = '.' :: "emulebb-delivery-".toList := by decide +kernel
  unfold stagingName
  rw [String.toList_append, String.toList_append, hdot]
  rfl

/-- A staging file never takes the payload's name. -/
theorem stagingName_ne (id : Uuid) : stagingName id ≠ "pieces.bin" := by
  intro heq
  have hlist := stagingName_toList id
  rw [heq] at hlist
  injection hlist with hhead
  cases hhead

theorem DeliveryAttempt.Valid.ne_payloadPath (h : attempt.Valid) :
    attempt.stagingPath ≠ job.payloadPath := by
  intro heq
  refine stagingName_ne attempt.attemptId ?_
  rw [← h.name, heq]
  rfl

/-! ## What the steps do to the files -/

theorem Files.create (h : Files md4 job fs) (hne : path ≠ job.payloadPath) :
    Files md4 job (fs.create path .regular []) := by
  refine ⟨h.inUse.create _ _ _, ?_⟩
  have hpayload := h.payload
  unfold PayloadReady at hpayload ⊢
  rw [find_create, if_neg hne.symm]
  cases hfind : fs.find job.payloadPath with
  | none =>
    rw [hfind] at hpayload
    exact hpayload
  | some id =>
    rw [hfind] at hpayload
    have hobject : (fs.create path .regular []).objects id = fs.objects id :=
      Function.update_of_ne (Nat.ne_of_lt (h.inUse _ _ hfind)) _ _
    dsimp only at hpayload ⊢
    rw [hobject]
    exact hpayload

theorem Files.copy (h : Files md4 job fs) {input output : Nat}
    (hinput : fs.find job.payloadPath = some input) :
    Files md4 job (fs.write output (fs.objects input).bytes) := by
  refine ⟨h.inUse.write _ _, ?_⟩
  have hpayload := h.payload
  unfold PayloadReady at hpayload ⊢
  rw [hinput] at hpayload
  have hfind : (fs.write output (fs.objects input).bytes).find job.payloadPath = some input :=
    hinput
  rw [hfind]
  dsimp only at hpayload ⊢
  by_cases heq : input = output
  · subst heq
    have hobject : (fs.write input (fs.objects input).bytes).objects input = _ :=
      Function.update_self _ _ _
    rw [hobject]
    exact hpayload
  · have hobject : (fs.write output (fs.objects input).bytes).objects input = fs.objects input :=
      Function.update_of_ne heq _ _
    rw [hobject]
    exact hpayload

theorem Files.remove (h : Files md4 job fs) (hne : path ≠ job.payloadPath) :
    Files md4 job (fs.remove path) := by
  refine ⟨h.inUse.remove _, ?_⟩
  have hpayload := h.payload
  unfold PayloadReady at hpayload ⊢
  rw [find_remove, if_neg hne.symm]
  exact hpayload

theorem Stands.rename (h : Stands md4 job fs path seen) (destination : NativePath) :
    Stands md4 job (fs.rename path destination seen.identity) destination
      ((fs.rename path destination seen.identity).stamp seen.identity) := by
  obtain ⟨time, hobject⟩ := fs.objects_rename path destination seen.identity seen.identity
  refine ⟨?_, fingerprint_eq_some.mpr ⟨?_, rfl⟩, ?_⟩
  · rw [find_rename, if_pos rfl]
    rfl
  · show ((fs.rename path destination seen.identity).objects seen.identity).kind = .regular
    rw [hobject]
    exact (fingerprint_eq_some.mp h.shown).1
  · show Payload md4 job ((fs.rename path destination seen.identity).objects seen.identity).bytes
    rw [hobject]
    exact h.payload

theorem Files.rename (h : Files md4 job fs) (hstands : Stands md4 job fs path seen)
    (hne : path ≠ job.payloadPath) (destination : NativePath) :
    Files md4 job (fs.rename path destination seen.identity) := by
  refine ⟨h.inUse.rename (h.inUse _ _ hstands.found), ?_⟩
  have hpayload := h.payload
  unfold PayloadReady at hpayload ⊢
  have hkept : ∀ id, ((fs.rename path destination seen.identity).objects id).kind =
        (fs.objects id).kind ∧
      ((fs.rename path destination seen.identity).objects id).bytes = (fs.objects id).bytes := by
    intro id
    obtain ⟨time, hobject⟩ := fs.objects_rename path destination seen.identity id
    rw [hobject]
    exact ⟨rfl, rfl⟩
  rw [find_rename]
  split
  · -- an empty transfer is delivered under the very name of its missing payload
    next id heq =>
    split at heq
    · cases heq
      rw [(hkept seen.identity).1, (hkept seen.identity).2]
      exact ⟨(fingerprint_eq_some.mp hstands.shown).1, hstands.payload⟩
    · rw [if_neg hne.symm] at heq
      rw [heq] at hpayload
      rw [(hkept id).1, (hkept id).2]
      exact hpayload
  · next heq =>
    split at heq
    · cases heq
    · rw [if_neg hne.symm] at heq
      rw [heq] at hpayload
      exact hpayload

/-! ## The journal -/

abbrev Proceeds {α : Type} (md4 : Md4) (job : DeliveryJob) (t : Async α)
    (w : World) (Q : α → World → Prop) : Prop :=
  Alone (Once md4 job) t w Q

structure SameFiles (w w' : World) : Prop where
  fs : w'.fs = w.fs
  produced : w'.produced = w.produced

theorem proceeds_updateAttempt {update : AttemptPhase → Option AttemptPhase} (phase : AttemptPhase)
    (h : Journal md4 job attempt w) (hupdate : update attempt.phase = some phase)
    (honce : ∀ w', Journal md4 job { attempt with phase := phase } w' → SameFiles w w' →
      Once md4 job w') :
    Proceeds md4 job (updateAttempt attempt.attemptId update) w fun marked w' =>
      marked = true ∧ Journal md4 job { attempt with phase := phase } w' ∧ SameFiles w w' := by
  obtain ⟨row, hrow, hfinished, hpending, hattempt⟩ := h.row
  have hjournal : Journal md4 job { attempt with phase := phase }
      { w with transfer := some { row with attempt := some { attempt with phase := phase } } } :=
    ⟨h.files, ⟨_, rfl, ⟨hfinished.1, hfinished.2, hfinished.3, hfinished.4⟩, hpending, rfl⟩,
      ⟨h.valid.1, h.valid.2, h.valid.3, h.valid.4⟩⟩
  refine alone_step true _ ?_ (honce _ hjournal ⟨rfl, rfl⟩) ⟨rfl, hjournal, rfl, rfl⟩
  simp [hrow, hattempt, hfinished.deliverable hpending, hupdate]

theorem proceeds_clearDeliveryAttempt (h : Journal md4 job attempt w)
    (hproduced : w.produced = []) :
    Proceeds md4 job (clearDeliveryAttempt attempt.attemptId) w fun cleared w' =>
      cleared = true ∧ Idle md4 job w' ∧ w'.fs = w.fs := by
  obtain ⟨row, hrow, hfinished, hpending, hattempt⟩ := h.row
  have hidle : Idle md4 job { w with transfer := some { row with attempt := none } } :=
    ⟨h.files, ⟨_, rfl, ⟨hfinished.1, hfinished.2, hfinished.3, hfinished.4⟩, hpending, rfl⟩,
      hproduced⟩
  refine alone_step true _ ?_ (.idle hidle) ⟨rfl, hidle, rfl⟩
  simp [hrow, hattempt]

def StaysFree (w w' : World) : Prop := ∀ path, w.fs.find path = none → w'.fs.find path = none

variable (md4 job) in
def Recovered (w w' : World) : Prop :=
  (Idle md4 job w' ∧ StaysFree w w') ∨ ∃ path, Delivered md4 job path w'

theorem proceeds_forgetAttempt (h : Journal md4 job attempt w) (hproduced : w.produced = [])
    (hfree : StaysFree w₀ w) :
    Proceeds md4 job (do
      let _ ← clearDeliveryAttempt attempt.attemptId
      return () : Async Unit) w fun _ w' => Recovered md4 job w₀ w' := by
  refine Keeping.bind (proceeds_clearDeliveryAttempt h hproduced) fun _ w' hw hcleared => ?_
  obtain ⟨-, hidle, hfs⟩ := hcleared
  exact keeping_pure hw (.inl ⟨hidle, fun path hpath => hfs ▸ hfree path hpath⟩)

section

variable (h : Journal md4 job attempt w) (hstands : Stands md4 job w.fs attempt.targetPath seen)
  (hproduced : w.produced = [attempt.targetPath]) {record : DeliveryRecord}

include h hstands hproduced

theorem Journal.deliver (hrow : w.transfer = some row)
    (hrecord : record = .owned attempt.targetPath seen ∨
      record = .unowned attempt.targetPath (some seen)) :
    Delivered md4 job attempt.targetPath { w with transfer := some (row.deliver record) } := by
  obtain ⟨row', hrow', hfinished, -, -⟩ := h.row
  cases hrow.symm.trans hrow'
  exact ⟨h.files, ⟨_, seen, rfl, ⟨hfinished.1, hfinished.2, hfinished.3, hfinished.4⟩, rfl, hrecord,
    hstands⟩, hproduced⟩

theorem proceeds_commitRecoveredDelivery {named : DeliveryAttempt}
    (hrecord : record = .owned attempt.targetPath seen ∨
      record = .unowned attempt.targetPath (some seen)) :
    Proceeds md4 job (commitRecoveredDelivery job named record) w fun _ w' =>
      Recovered md4 job w₀ w' := by
  obtain ⟨row, hrow, hfinished, hpending, -⟩ := h.row
  have hdelivered := h.deliver hstands hproduced hrow hrecord
  refine alone_transact () { w with transfer := some (row.deliver record) } ?_
    (.delivered hdelivered) (.inr ⟨_, hdelivered⟩)
  simp [hrow, hfinished.wanted, hpending, hfinished.completed, hfinished.verified]

theorem proceeds_publish {id : Nat} (hphase : attempt.phase = .staged staging)
    (hid : seen.identity = id) (hgone : w.fs.find attempt.stagingPath = none) :
    Proceeds md4 job (publish md4 job attempt.attemptId id attempt.targetPath) w
      fun fingerprint w' => fingerprint = seen ∧
        Journal md4 job { attempt with phase := .published staging seen } w' ∧ SameFiles w w' := by
  subst hid
  have honce : Once md4 job w := .installed h hphase hgone hstands hproduced
  have hcaptured : (capturePublishedFingerprint md4 job seen.identity attempt.targetPath).value w =
      .ok seen := value_bind (value_verifyHandle hstands)
  refine alone_look hcaptured honce ?_
  refine Keeping.bind (proceeds_updateAttempt (.published staging seen) h ?_ ?_)
    fun marked w₂ hw₂ hmarked => ?_
  · rw [hphase]
  · intro w₂ hjournal hsame
    refine .published hjournal rfl ?_ ?_
    · rw [hsame.fs]
      exact hstands
    · rw [hsame.produced]
      exact hproduced
  · obtain ⟨rfl, hjournal, hsame⟩ := hmarked
    refine Keeping.bind (alone_ensure rfl hw₂) fun _ w₃ _ heq => ?_
    subst heq
    exact keeping_pure hw₂ ⟨rfl, hjournal, hsame⟩

end

/-! ## Installing a staged file -/

theorem value_openVerifiedStagingFile (h : Stands md4 job w.fs path seen) :
    (openVerifiedStagingFile md4 job path).value w = .ok ⟨seen.identity, seen⟩ := by
  refine (value_bind (value_openFile h)).trans ?_
  exact value_bind (value_verifyHandle h)

section

variable (h : Journal md4 job attempt w) (hphase : attempt.phase = .staged staging)
  (hstands : Stands md4 job w.fs attempt.stagingPath staging)
  (hvacant : Vacant w.fs attempt.targetPath) (hproduced : w.produced = [])

include h hphase hstands hvacant hproduced

/-- **The rename puts the one file under its final name**, unless a link is in the way. -/
theorem proceeds_installStagedPayload :
    Proceeds md4 job (installStagedPayload attempt.stagingPath attempt.targetPath) w
      fun outcome w' =>
        (outcome = .alreadyExists ∧ w' = w ∧ w.fs.find attempt.targetPath ≠ none) ∨
        (outcome = .moved ∧ Journal md4 job attempt w' ∧
          w'.fs.find attempt.stagingPath = none ∧ w'.produced = [attempt.targetPath] ∧
          ∃ seen, seen.identity = staging.identity ∧
            Stands md4 job w'.fs attempt.targetPath seen) := by
  cases htarget : w.fs.find attempt.targetPath with
  | some =>
    refine alone_transact .alreadyExists w ?_
      (.staged h hphase hstands hvacant hproduced) (.inl ⟨rfl, rfl, nofun⟩)
    simp only [hstands.found, htarget]
  | none =>
    have hjournal : Journal md4 job attempt
        { w with
          fs := w.fs.rename attempt.stagingPath attempt.targetPath staging.identity
          produced := w.produced ++ [attempt.targetPath] } :=
      ⟨h.files.rename hstands h.valid.ne_payloadPath _, h.row, h.valid⟩
    have hgone : (w.fs.rename attempt.stagingPath attempt.targetPath staging.identity).find
        attempt.stagingPath = none := by
      rw [find_rename, if_neg h.valid.differ.symm, if_pos rfl]
    have hone : w.produced ++ [attempt.targetPath] = [attempt.targetPath] := by rw [hproduced]; rfl
    refine alone_transact .moved _ ?_
      (.installed hjournal hphase hgone (hstands.rename attempt.targetPath) hone)
      (.inr ⟨rfl, hjournal, hgone, hone,
        (w.fs.rename attempt.stagingPath attempt.targetPath staging.identity).stamp
          staging.identity, rfl, hstands.rename attempt.targetPath⟩)
    simp only [hstands.found, htarget]

theorem proceeds_removeStaging :
    Proceeds md4 job (removeFileIfFingerprintMatches attempt.stagingPath staging) w
      fun _ w' => w' = { w with fs := w.fs.remove attempt.stagingPath } := by
  have honce : Once md4 job w := .staged h hphase hstands hvacant hproduced
  refine alone_look (value_symlinkMetadata hstands) honce ?_
  refine alone_look (value_nativeFileFingerprint hstands) honce ?_
  rw [if_pos rfl]
  have hjournal : Journal md4 job attempt { w with fs := w.fs.remove attempt.stagingPath } :=
    ⟨h.files.remove h.valid.ne_payloadPath, h.row, h.valid⟩
  have hgone : (w.fs.remove attempt.stagingPath).find attempt.stagingPath = none := by
    rw [find_remove, if_pos rfl]
  have hvacant' : Vacant (w.fs.remove attempt.stagingPath) attempt.targetPath := by
    intro id hid
    rw [find_remove, if_neg h.valid.differ] at hid
    exact hvacant id hid
  refine alone_step true _ ?_ (.dropped hjournal hphase hgone hvacant' hproduced) rfl
  simp only [hstands.found, hstands.shown, if_true]

theorem proceeds_recoverStaged :
    Proceeds md4 job (recoverStaged md4 job attempt staging) w fun _ w' =>
      Recovered md4 job w w' := by
  have honce : Once md4 job w := .staged h hphase hstands hvacant hproduced
  refine alone_look (value_openVerifiedStagingFile hstands) honce ?_
  refine Keeping.bind (alone_ensure rfl honce) fun _ w₁ _ heq => ?_
  subst heq
  refine Keeping.bind (proceeds_installStagedPayload h hphase hstands hvacant hproduced)
    fun outcome w₂ hw₂ houtcome => ?_
  obtain ⟨rfl, rfl, -⟩ | ⟨rfl, hjournal, hgone, hone, seen, hid, hinstalled⟩ := houtcome
  · -- a link is in the way: the staging file is taken away again
    refine Keeping.bind (proceeds_removeStaging h hphase hstands hvacant hproduced)
      fun _ w₃ _ heq => ?_
    subst heq
    refine proceeds_forgetAttempt ⟨h.files.remove h.valid.ne_payloadPath, h.row, h.valid⟩ hproduced
      fun path hfree => ?_
    rw [find_remove, hfree, ite_self]
  · refine Keeping.bind (proceeds_publish hjournal hinstalled hone hphase hid hgone)
      fun fingerprint w₃ _ hpublished => ?_
    obtain ⟨rfl, hjournal', hsame⟩ := hpublished
    have hinstalled' : Stands md4 job w₃.fs attempt.targetPath fingerprint := by
      rw [hsame.fs]
      exact hinstalled
    have hone' : w₃.produced = [attempt.targetPath] := by
      rw [hsame.produced]
      exact hone
    exact proceeds_commitRecoveredDelivery hjournal' hinstalled' hone' (.inl rfl)

end

/-! ## Recovery -/

section

variable (h : Journal md4 job attempt w)

include h

/-- A staged file that is gone stands under its final name, or was never put there. -/
theorem proceeds_recoverInstalled (hphase : attempt.phase = .staged staging)
    (hgone : w.fs.find attempt.stagingPath = none)
    (hwhere : (∃ seen, Stands md4 job w.fs attempt.targetPath seen) ∧
        w.produced = [attempt.targetPath] ∨
      Vacant w.fs attempt.targetPath ∧ w.produced = []) :
    Proceeds md4 job (recoverInstalled md4 job attempt) w fun _ w' => Recovered md4 job w w' := by
  obtain ⟨⟨seen, hstands⟩, hproduced⟩ | ⟨hvacant, hproduced⟩ := hwhere
  · refine alone_look (value_classifyDeliveredOutput hstands)
      (.installed h hphase hgone hstands hproduced) ?_
    exact proceeds_commitRecoveredDelivery h hstands hproduced (.inr rfl)
  · have honce : Once md4 job w := .dropped h hphase hgone hvacant hproduced
    have hforget := proceeds_forgetAttempt h hproduced fun _ hfree => hfree
    cases hfind : w.fs.find attempt.targetPath with
    | none =>
      refine alone_look (value_classifyDeliveredOutput_missing hfind) honce ?_
      exact hforget
    | some id =>
      refine alone_look (value_classifyDeliveredOutput_link hfind (hvacant id hfind)) honce ?_
      exact hforget

/-- **From wherever a cut left the delivery, the recovery reaches a clear state.** -/
theorem proceeds_recoverPending (honce : Once md4 job w) :
    Proceeds md4 job (recoverPending md4 job attempt) w fun _ w' => Recovered md4 job w w' := by
  obtain ⟨row, hrow, -, hpending, hattempt⟩ := h.row
  -- the journal's attempt is the one the state speaks of
  have hsame : ∀ found, Journal md4 job found w → found = attempt := by
    intro found hfound
    obtain ⟨row', hrow', -, -, hfound⟩ := hfound.row
    cases hrow.symm.trans hrow'
    exact Option.some.inj (hfound.symm.trans hattempt)
  unfold recoverPending
  cases honce with
  | idle hidle =>
    obtain ⟨row', hrow', -, -, hnone⟩ := hidle.row
    cases hrow.symm.trans hrow'
    rw [hattempt] at hnone
    cases hnone
  | delivered hdelivered =>
    obtain ⟨row', -, hrow', -, hnone, -⟩ := hdelivered.row
    cases hrow.symm.trans hrow'
    rw [hattempt] at hnone
    cases hnone
  | prepared hfound hphase hproduced =>
    obtain rfl := hsame _ hfound
    rw [hphase]
    refine alone_look rfl (.prepared h hphase hproduced) ?_
    exact proceeds_forgetAttempt h hproduced fun _ hfree => hfree
  | published hfound hphase hstands hproduced =>
    obtain rfl := hsame _ hfound
    rw [hphase]
    refine alone_look (value_classifyAttemptArtifact hstands)
      (.published h hphase hstands hproduced) ?_
    exact proceeds_commitRecoveredDelivery h hstands hproduced (.inl rfl)
  | staged hfound hphase hstands hvacant hproduced =>
    obtain rfl := hsame _ hfound
    rw [hphase]
    refine alone_look (value_classifyAttemptArtifact hstands)
      (.staged h hphase hstands hvacant hproduced) ?_
    exact proceeds_recoverStaged h hphase hstands hvacant hproduced
  | dropped hfound hphase hgone hvacant hproduced =>
    obtain rfl := hsame _ hfound
    rw [hphase]
    refine alone_look (value_classifyAttemptArtifact_missing hgone)
      (.dropped h hphase hgone hvacant hproduced) ?_
    exact proceeds_recoverInstalled h hphase hgone (.inr ⟨hvacant, hproduced⟩)
  | installed hfound hphase hgone hstands hproduced =>
    obtain rfl := hsame _ hfound
    rw [hphase]
    refine alone_look (value_classifyAttemptArtifact_missing hgone)
      (.installed h hphase hgone hstands hproduced) ?_
    exact proceeds_recoverInstalled h hphase hgone (.inl ⟨⟨_, hstands⟩, hproduced⟩)

end

theorem Once.clear_or_journal (h : Once md4 job w) :
    Idle md4 job w ∨ (∃ path, Delivered md4 job path w) ∨ ∃ attempt, Journal md4 job attempt w := by
  cases h with
  | idle hidle => exact .inl hidle
  | delivered hdelivered => exact .inr (.inl ⟨_, hdelivered⟩)
  | prepared hfound | staged hfound | dropped hfound | installed hfound | published hfound =>
    exact .inr (.inr ⟨_, hfound⟩)

theorem value_loadManifest (hrow : w.transfer = some row) (hfinished : Finished row) :
    (loadManifest job).value w = .ok row := by
  refine value_transact ?_
  simp [hrow, hfinished.wanted]

theorem value_validateDeliveryAttemptPaths (h : attempt.Valid) :
    (validateDeliveryAttemptPaths attempt).value w = .ok () := by
  have hstaging : attempt.stagingPath.parent.absolute = true := h.parent ▸ h.absolute
  simp only [validateDeliveryAttemptPaths, ensure, hstaging, h.parent, h.name, and_self, if_true]
  rfl

theorem value_deliveryAttempt (hrow : w.transfer = some row) :
    deliveryAttempt.value w = .ok row.attempt := by
  simp only [deliveryAttempt, value_read, hrow, Option.bind_some]

theorem proceeds_recoverDeliveryAttempt (h : Once md4 job w) :
    Proceeds md4 job (recoverDeliveryAttempt md4 job) w fun _ w' => Recovered md4 job w w' := by
  obtain hidle | ⟨path, hdelivered⟩ | ⟨attempt, hjournal⟩ := h.clear_or_journal
  · obtain ⟨row, hrow, -, -, hnone⟩ := hidle.row
    refine alone_look (value_deliveryAttempt hrow) h ?_
    rw [hnone]
    exact keeping_pure h (.inl ⟨hidle, fun _ hfree => hfree⟩)
  · obtain ⟨row, -, hrow, -, hnone, -⟩ := hdelivered.row
    refine alone_look (value_deliveryAttempt hrow) h ?_
    rw [hnone]
    exact keeping_pure h (.inr ⟨path, hdelivered⟩)
  · obtain ⟨row, hrow, hfinished, hpending, hattempt⟩ := hjournal.row
    refine alone_look (value_deliveryAttempt hrow) h ?_
    rw [hattempt]
    refine alone_look (value_validateDeliveryAttemptPaths hjournal.valid) h ?_
    refine alone_look (value_loadManifest hrow hfinished) h ?_
    rw [if_pos ⟨hpending, hfinished.completed, by rw [hfinished.verified]; exact Bool.false_ne_true⟩]
    exact proceeds_recoverPending hjournal h

end EmuleBB.Delivery
