import EmuleBB.Delivery.Journal

/-!
# Delivered once

A call first recovers, then delivers unless the delivery is on record. It needs an absolute
directory and a free name in it. The metadata store refuses a relative path
(`relative_directory_is_refused`), and with every name taken the loop ends in an error; otherwise
every call that is not cut returns the recorded path (`delivered_once`).
-/

namespace EmuleBB.Delivery

open Prog FileSystem Sample

section

variable {md4 : Md4} {job : DeliveryJob} {w w' : World}
  {attempt : DeliveryAttempt} {fs : FileSystem NativePath} {path : NativePath} {seen : Stamp}
  {row : TransferRow} {staging : Stamp} {destDir : Directory} {ids : Nat → Uuid}

/-! ## The loop over names -/

def SameElsewhere (path : NativePath) (fs fs' : FileSystem NativePath) : Prop :=
  ∀ path', path' ≠ path → fs'.find path' = fs.find path'

theorem stands_of_regular {id : Nat} (hfind : fs.find path = some id)
    (hkind : (fs.objects id).kind = .regular) (hpayload : Payload md4 job (fs.objects id).bytes) :
    Stands md4 job fs path (fs.stamp id) :=
  ⟨hfind, fingerprint_eq_some.mpr ⟨hkind, rfl⟩, hpayload⟩

theorem Vacant.create (h : Vacant fs path) (hinUse : fs.InUse) {new : NativePath}
    (hne : path ≠ new) : Vacant (fs.create new .regular []) path := by
  intro id hid
  rw [find_create, if_neg hne] at hid
  have hobject : (fs.create new .regular []).objects id = fs.objects id :=
    Function.update_of_ne (Nat.ne_of_lt (hinUse _ _ hid)) _ _
  rw [hobject]
  exact h id hid

theorem Vacant.write (h : Vacant fs path) (output : Nat) (bytes : List UInt8) :
    Vacant (fs.write output bytes) path := by
  intro id hid
  show (Function.update fs.objects output _ id).kind = .link none
  rw [Function.update_apply]
  split
  · next heq => exact heq ▸ h id hid
  · exact h id hid

section

variable (h : Journal md4 job attempt w) (hphase : attempt.phase = .prepared)
  (hfree : w.fs.find attempt.stagingPath = none) (hvacant : Vacant w.fs attempt.targetPath)
  (hproduced : w.produced = [])

include h hphase hfree hvacant hproduced

/-- **The payload is copied to a file of its own.** -/
theorem proceeds_stageDeliveryPayload :
    Proceeds md4 job (stageDeliveryPayload job.payloadPath attempt.stagingPath) w fun _ w' =>
      Journal md4 job attempt w' ∧ w'.produced = [] ∧ Vacant w'.fs attempt.targetPath ∧
        SameElsewhere attempt.stagingPath w.fs w'.fs ∧
        ∃ seen, Stands md4 job w'.fs attempt.stagingPath seen := by
  let fs₁ := w.fs.create attempt.stagingPath .regular []
  let w₁ : World := { w with fs := fs₁ }
  have hjournal : Journal md4 job attempt w₁ :=
    ⟨h.files.create h.valid.ne_payloadPath, h.row, h.valid⟩
  refine Keeping.bind (Q := fun output w' => output = w.fs.next ∧ w' = w₁) ?_
    fun output w' hw₁ heq => ?_
  · refine alone_transact w.fs.next w₁ ?_ (.prepared hjournal hphase hproduced) ⟨rfl, rfl⟩
    simp only [hfree]
    rfl
  obtain ⟨rfl, rfl⟩ := heq
  have hcreated : fs₁.objects w.fs.next = ⟨.regular, [], w.fs.clock, w.fs.clock⟩ :=
    Function.update_self _ _ _
  have hfound : fs₁.find attempt.stagingPath = some w.fs.next := by rw [find_create, if_pos rfl]
  have hvacant₁ : Vacant fs₁ attempt.targetPath := hvacant.create h.files.inUse h.valid.differ
  have helse : SameElsewhere attempt.stagingPath w.fs fs₁ := by
    intro path' hne
    rw [find_create, if_neg hne]
  have hpayload : PayloadReady md4 job fs₁ := hjournal.files.payload
  unfold PayloadReady at hpayload
  split at hpayload
  · next input hinput =>
    have hexists : (pathExists job.payloadPath).value w₁ = .ok true := by
      simp only [pathExists, value_read, w₁, hinput, hpayload.1]
    refine alone_look hexists hw₁ ?_
    have hopen : (openFollowing job.payloadPath).value w₁ = .ok (.handle input) := by
      simp only [openFollowing, value_read, w₁, hinput, hpayload.1]
    refine alone_look hopen hw₁ ?_
    let fs₂ := fs₁.write w.fs.next (fs₁.objects input).bytes
    have hcopied : fs₂.objects w.fs.next = { fs₁.objects w.fs.next with
        bytes := (fs₁.objects input).bytes, modified := fs₁.clock, changed := fs₁.clock } :=
      Function.update_self _ _ _
    have hjournal₂ : Journal md4 job attempt { w₁ with fs := fs₂ } :=
      ⟨hjournal.files.copy hinput, h.row, h.valid⟩
    refine alone_step () { w₁ with fs := fs₂ } rfl (.prepared hjournal₂ hphase hproduced)
      ⟨hjournal₂, hproduced, hvacant₁.write _ _, helse, _, stands_of_regular hfound ?_ ?_⟩
    · rw [hcopied, hcreated]
    · rw [hcopied]
      exact hpayload.2
  · next hnone =>
    have hexists : (pathExists job.payloadPath).value w₁ = .ok false := by
      simp only [pathExists, value_read, w₁, hnone]
    refine alone_look hexists hw₁ ?_
    refine keeping_pure hw₁
      ⟨hjournal, hproduced, hvacant₁, helse, _, stands_of_regular hfound ?_ ?_⟩
    · rw [hcreated]
    · rw [hcreated]
      exact hpayload

end

/-- The destination has room for the delivery, and its identifiers are fresh. -/
structure Suitable (job : DeliveryJob) (destDir : Directory) (ids : Nat → Uuid) (w : World) :
    Prop where
  absolute : destDir.absolute = true
  fresh : ∀ n, w.fs.find ⟨destDir, stagingName (ids n)⟩ = none
  differ : ∀ n, candidateName job.displayName n ≠ stagingName (ids n)
  free : ∃ n < candidateCount, w.fs.find ⟨destDir, candidateName job.displayName n⟩ = none

structure Installed (md4 : Md4) (job : DeliveryJob) (installed : InstalledDelivery)
    (w : World) : Prop where
  journal : ∃ attempt, attempt.targetPath = installed.path ∧ Journal md4 job attempt w
  stands : Stands md4 job w.fs installed.path installed.fingerprint
  produced : w.produced = [installed.path]

theorem proceeds_beginDeliveryAttempt (h : Idle md4 job w) (hvalid : attempt.Valid)
    (hphase : attempt.phase = .prepared) :
    Proceeds md4 job
      (beginDeliveryAttempt job attempt.attemptId attempt.targetPath attempt.stagingPath) w
      fun _ w' => Journal md4 job attempt w' ∧ SameFiles w w' := by
  obtain ⟨row, hrow, hfinished, hpending, hnone⟩ := h.row
  have hjournal : Journal md4 job attempt
      { w with transfer := some { row with attempt := some attempt } } :=
    ⟨h.files, ⟨_, rfl, ⟨hfinished.1, hfinished.2, hfinished.3, hfinished.4⟩, hpending, rfl⟩, hvalid⟩
  refine alone_transact attempt _ ?_ (.prepared hjournal hphase h.produced) ⟨hjournal, rfl, rfl⟩
  have hstaging : attempt.stagingPath.parent.absolute = true := hvalid.parent ▸ hvalid.absolute
  simp [prepareAttempt, hstaging, hvalid.differ, hvalid.parent, hvalid.name, hrow, hnone,
    hfinished.deliverable hpending, ← hphase]

theorem value_pathExists : ((pathExists path).value w = .ok true ∧ w.fs.find path ≠ none) ∨
      ((pathExists path).value w = .ok false ∧ Vacant w.fs path) := by
  simp only [pathExists, value_read]
  cases hfind : w.fs.find path with
  | none => exact .inr ⟨rfl, fun id hid => by rw [hfind] at hid; cases hid⟩
  | some id =>
    dsimp only
    cases hkind : (w.fs.objects id).kind with
    | regular | directory => exact .inl ⟨rfl, Option.some_ne_none id⟩
    | link target =>
      cases target with
      | some => exact .inl ⟨rfl, Option.some_ne_none id⟩
      | none =>
        refine .inr ⟨rfl, fun id' hid' => ?_⟩
        cases hfind.symm.trans hid'
        exact hkind

/-- **The loop ends with the file under a free name.** The induction is on the names left to try; a
    name that turns out to be taken is not the free one. -/
theorem proceeds_deliverCandidates {count index : Nat} (h : Idle md4 job w)
    (habsolute : destDir.absolute = true)
    (hfresh : ∀ n, w.fs.find ⟨destDir, stagingName (ids n)⟩ = none)
    (hdiffer : ∀ n, candidateName job.displayName n ≠ stagingName (ids n))
    (hfree : ∃ n, index ≤ n ∧ n < index + count ∧
      w.fs.find ⟨destDir, candidateName job.displayName n⟩ = none) :
    Proceeds md4 job (deliverCandidates md4 job destDir ids count index) w
      (Installed md4 job) := by
  induction count generalizing w index with
  | zero =>
    obtain ⟨n, hle, hlt, -⟩ := hfree
    omega
  | succ count ih =>
    obtain ⟨n, hle, hlt, hfree⟩ := hfree
    let attempt : DeliveryAttempt := ⟨ids index, ⟨destDir, candidateName job.displayName index⟩,
      ⟨destDir, stagingName (ids index)⟩, .prepared⟩
    have hvalid : attempt.Valid :=
      ⟨habsolute, rfl, rfl, fun heq => hdiffer index (congrArg NativePath.fileName heq)⟩
    have hnext : w.fs.find attempt.targetPath ≠ none → index + 1 ≤ n := by
      intro htaken
      refine Nat.lt_of_le_of_ne hle ?_
      rintro rfl
      exact htaken hfree
    obtain ⟨hexists, htaken⟩ | ⟨hexists, hvacant⟩ := value_pathExists
    · refine alone_look hexists (.idle h) ?_
      exact ih h hfresh ⟨n, hnext htaken, by omega, hfree⟩
    refine alone_look hexists (.idle h) ?_
    refine Keeping.bind (proceeds_beginDeliveryAttempt h hvalid rfl) fun _ w₁ _ hbegun => ?_
    obtain ⟨hjournal₁, hsame₁⟩ := hbegun
    refine Keeping.bind (proceeds_stageDeliveryPayload hjournal₁ rfl (hsame₁.fs ▸ hfresh index)
      (hsame₁.fs ▸ hvacant) (hsame₁.produced.trans h.produced)) fun _ w₂ hw₂ hstaged => ?_
    obtain ⟨hjournal₂, hnone₂, hvacant₂, helse, seen, hstands₂⟩ := hstaged
    refine alone_look (value_openVerifiedStagingFile hstands₂) hw₂ ?_
    refine Keeping.bind (proceeds_updateAttempt (.staged seen) hjournal₂ rfl
      fun w' hjournal hsame => .staged hjournal rfl (hsame.fs ▸ hstands₂) (hsame.fs ▸ hvacant₂)
        (hsame.produced.trans hnone₂)) fun marked w₃ hw₃ hmarked => ?_
    obtain ⟨rfl, hjournal₃, hsame₃⟩ := hmarked
    refine Keeping.bind (alone_ensure rfl hw₃) fun _ w' _ heq => ?_
    subst heq
    have hstands₃ : Stands md4 job w'.fs attempt.stagingPath seen := hsame₃.fs ▸ hstands₂
    have hvacant₃ : Vacant w'.fs attempt.targetPath := hsame₃.fs ▸ hvacant₂
    have hnone₃ := hsame₃.produced.trans hnone₂
    refine Keeping.bind (proceeds_installStagedPayload hjournal₃ rfl hstands₃ hvacant₃ hnone₃)
      fun outcome w₄ hw₄ houtcome => ?_
    obtain ⟨rfl, rfl, htaken⟩ | ⟨rfl, hjournal₄, hgone, hone, shown, hshown, hinstalled⟩ := houtcome
    · -- a link is in the way: the staging file is taken away again, and the next name is tried
      refine Keeping.bind (proceeds_removeStaging hjournal₃ rfl hstands₃ hvacant₃ hnone₃)
        fun _ w₅ _ heq => ?_
      subst heq
      have hjournal₅ : Journal md4 job { attempt with phase := .staged seen }
          { w₄ with fs := w₄.fs.remove attempt.stagingPath } :=
        ⟨hjournal₃.files.remove hjournal₃.valid.ne_payloadPath, hjournal₃.row, hjournal₃.valid⟩
      refine Keeping.bind (proceeds_clearDeliveryAttempt hjournal₅ hnone₃)
        fun cleared w₆ hw₆ hcleared => ?_
      obtain ⟨rfl, hidle, hfs⟩ := hcleared
      refine Keeping.bind (alone_ensure rfl hw₆) fun _ w' _ heq => ?_
      subst heq
      have hfind : ∀ path, w'.fs.find path =
          if path = attempt.stagingPath then none else w.fs.find path := by
        intro path
        rw [hfs, find_remove]
        split
        · rfl
        · next hne => rw [hsame₃.fs, helse path hne, hsame₁.fs]
      have hstill : ∀ path, w.fs.find path = none → w'.fs.find path = none := by
        intro path hpath
        rw [hfind, hpath, ite_self]
      refine ih hidle (fun n => hstill _ (hfresh n)) ⟨n, hnext ?_, by omega, hstill _ hfree⟩
      rw [← hsame₁.fs, ← helse _ hvalid.differ, ← hsame₃.fs]
      exact htaken
    · have hpublish := proceeds_publish hjournal₄ hinstalled hone rfl hshown hgone
      refine hpublish.bind fun fingerprint w₅ hw₅ hpublished => ?_
      obtain ⟨rfl, hjournal₅, hsame₅⟩ := hpublished
      have hinstalled₅ : Stands md4 job w₅.fs attempt.targetPath fingerprint :=
        hsame₅.fs ▸ hinstalled
      have hone₅ := hsame₅.produced.trans hone
      exact keeping_pure hw₅ ⟨⟨_, rfl, hjournal₅⟩, hinstalled₅, hone₅⟩

/-! ## A call -/

theorem value_validateDeliverySource (h : PayloadReady md4 job w.fs) :
    (validateDeliverySource job.payloadPath job.fileSize).value w = .ok () := by
  unfold PayloadReady at h
  unfold validateDeliverySource
  split at h
  · next id hfind =>
    have hlook : (symlinkMetadata job.payloadPath).value w =
        .ok (some (.regular, job.fileSize)) := by
      simp only [symlinkMetadata, value_read, hfind, h.1, h.2.1, Option.map_some]
    rw [value_bind hlook]
    simp only [ensure, if_true]
    rfl
  · next hnone =>
    have hlook : (symlinkMetadata job.payloadPath).value w = .ok none := by
      simp only [symlinkMetadata, value_read, hnone, Option.map_none]
    have hempty : job.fileSize = 0 := h.1.symm
    rw [value_bind hlook]
    simp only [ensure, hempty, if_true]
    rfl

theorem proceeds_deliverAndRecord (h : Idle md4 job w) (hsuitable : Suitable job destDir ids w) :
    Proceeds md4 job (deliverAndRecord md4 job destDir ids) w fun outcome w' =>
      ∃ path, Delivered md4 job path w' ∧ outcome = .delivered path := by
  obtain ⟨n, hn, hfree⟩ := hsuitable.free
  refine Keeping.bind (Q := Installed md4 job) ?_ fun installed w₁ _ hinstalled => ?_
  · refine alone_look (value_validateDeliverySource h.files.payload)
      (.idle h) ?_
    exact proceeds_deliverCandidates h hsuitable.absolute hsuitable.fresh hsuitable.differ
      ⟨n, Nat.zero_le n, by omega, hfree⟩
  obtain ⟨attempt, hpath, hjournal⟩ := hinstalled.journal
  obtain ⟨row, hrow, hfinished, -⟩ := hjournal.row
  have hdelivered := hjournal.deliver (hpath ▸ hinstalled.stands) (hpath ▸ hinstalled.produced) hrow
    (.inl rfl)
  rw [hpath] at hdelivered
  refine alone_transact (.delivered installed.path) _ ?_ (.delivered hdelivered)
    ⟨_, hdelivered, rfl⟩
  simp [hrow, hfinished.wanted]

theorem proceeds_redeliver {unowned : Bool} (h : Delivered md4 job path w)
    (hstands : Stands md4 job w.fs path seen) :
    Proceeds md4 job (redeliver md4 job destDir ids path (some seen) unowned) w fun outcome w' =>
      w' = w ∧ outcome = .alreadyDelivered path := by
  refine alone_look (value_attempt (value_classifyDeliveredOutput hstands)) (.delivered h) ?_
  dsimp only
  rw [if_pos (.inr ⟨rfl, rfl⟩)]
  exact keeping_pure (.delivered h) ⟨rfl, rfl⟩

/-- The row says that the file was delivered to this path. -/
def World.Records (w : World) (path : NativePath) : Prop :=
  ∃ row, w.transfer = some row ∧ row.delivery.recordedAt path = true

theorem Delivered.records (h : Delivered md4 job path w) : w.Records path := by
  obtain ⟨row, seen, hrow, -, -, hrecord, -⟩ := h.row
  refine ⟨row, hrow, ?_⟩
  obtain hrecord | hrecord := hrecord <;> simp [hrecord, DeliveryRecord.recordedAt]

theorem Suitable.of_staysFree (h : Suitable job destDir ids w) (hfree : StaysFree w w') :
    Suitable job destDir ids w' := by
  obtain ⟨n, hn, hfind⟩ := h.free
  exact ⟨h.absolute, fun n => hfree _ (h.fresh n), h.differ, n, hn, hfree _ hfind⟩

/-- **From wherever it starts, a call that is not cut ends with the delivery on record.** -/
theorem proceeds_materializeCompletedPayload (h : Once md4 job w)
    (hsuitable : Suitable job destDir ids w) :
    Proceeds md4 job (materializeCompletedPayload md4 job destDir ids) w fun outcome w' =>
      ∃ path, Delivered md4 job path w' ∧
        (outcome = .delivered path ∨ outcome = .alreadyDelivered path) := by
  refine Keeping.bind (proceeds_recoverDeliveryAttempt h) fun _ w₁ hw₁ hrecovered => ?_
  obtain ⟨hidle, hfree⟩ | ⟨path, hdelivered⟩ := hrecovered
  · obtain ⟨row, hrow, hfinished, hpending, -⟩ := hidle.row
    refine alone_look (value_loadManifest hrow hfinished) hw₁ ?_
    rw [if_neg (by simp [hfinished.completed, hfinished.verified]), hpending]
    refine Keeping.mono (proceeds_deliverAndRecord hidle (hsuitable.of_staysFree hfree))
      fun outcome w₂ _ hdelivered => ?_
    obtain ⟨path, hdelivered, rfl⟩ := hdelivered
    exact ⟨path, hdelivered, .inl rfl⟩
  · obtain ⟨row, seen, hrow, hfinished, -, hrecord, hstands⟩ := hdelivered.row
    refine alone_look (value_loadManifest hrow hfinished) hw₁ ?_
    rw [if_neg (by simp [hfinished.completed, hfinished.verified])]
    have hstill : ∀ unowned, Proceeds md4 job
        (redeliver md4 job destDir ids path (some seen) unowned) w₁ fun outcome w' =>
          ∃ path, Delivered md4 job path w' ∧
            (outcome = .delivered path ∨ outcome = .alreadyDelivered path) := by
      intro unowned
      refine Keeping.mono (proceeds_redeliver hdelivered hstands) fun outcome w₂ _ hsame => ?_
      obtain ⟨rfl, rfl⟩ := hsame
      exact ⟨path, hdelivered, .inr rfl⟩
    obtain hrecord | hrecord := hrecord
    · rw [hrecord]
      exact hstill false
    · rw [hrecord]
      exact hstill true

end

/-! ## Runs -/

def SuitableCall (job : DeliveryJob) (call : Call) (w : World) : Prop :=
  match call with
  | .materialize destDir ids => Suitable job destDir ids w
  | _ => False

/-- **The delivery is answered with the path the row records.** -/
def Answers (outcome : Outcome) (w : World) : Prop :=
  ∃ path, w.Records path ∧
    (outcome = .delivery (.delivered path) ∨ outcome = .delivery (.alreadyDelivered path))

section

variable {md4 : Md4} {job : DeliveryJob} {w : World}

/-- What one call of a delivery keeps, wherever it stops. -/
theorem proceeds_program {call : Call} (h : Once md4 job w) (hcall : SuitableCall job call w) :
    Proceeds md4 job (call.program md4 job) w Answers := by
  cases call with
  | recover | delete => exact hcall.elim
  | materialize =>
    refine Keeping.bind (proceeds_materializeCompletedPayload h hcall)
      fun outcome w' hw' hdone => ?_
    obtain ⟨path, hdelivered, houtcome⟩ := hdone
    refine keeping_pure hw' ⟨path, hdelivered.records, ?_⟩
    exact houtcome.imp (congrArg Outcome.delivery) (congrArg Outcome.delivery)

/-- A crash keeps it. -/
theorem Once.crashed (h : Once md4 job w) : Once md4 job (crashed w) := by
  cases h with
  | idle h => exact .idle ⟨h.1, h.2, h.3⟩
  | prepared h hphase hproduced => exact .prepared ⟨h.1, h.2, h.3⟩ hphase hproduced
  | staged h hphase hstands hvacant hproduced =>
    exact .staged ⟨h.1, h.2, h.3⟩ hphase hstands hvacant hproduced
  | dropped h hphase hgone hvacant hproduced =>
    exact .dropped ⟨h.1, h.2, h.3⟩ hphase hgone hvacant hproduced
  | installed h hphase hgone hstands hproduced =>
    exact .installed ⟨h.1, h.2, h.3⟩ hphase hgone hstands hproduced
  | published h hphase hstands hproduced =>
    exact .published ⟨h.1, h.2, h.3⟩ hphase hstands hproduced
  | delivered h => exact .delivered ⟨h.1, h.2, h.3⟩

/-- The payload is produced once at most. -/
theorem Once.produced_le (h : Once md4 job w) : w.produced.length ≤ 1 := by
  cases h with
  | idle h => rw [h.produced]; exact Nat.zero_le 1
  | prepared _ _ hproduced | staged _ _ _ _ hproduced | dropped _ _ _ _ hproduced =>
    rw [hproduced]; exact Nat.zero_le 1
  | installed _ _ _ _ hproduced | published _ _ _ hproduced => rw [hproduced]; exact le_rfl
  | delivered h => rw [h.produced]; exact le_rfl

/-- What is recorded is there, with the bytes of the download. -/
theorem Once.delivered_of_records {path : NativePath} (h : Once md4 job w)
    (hrecords : w.Records path) :
    Delivered md4 job path w := by
  obtain ⟨row, hrow, hrecorded⟩ := hrecords
  have hpending : ∀ row', w.transfer = some row' → row'.delivery ≠ .pending := by
    intro row' hrow' heq
    cases hrow.symm.trans hrow'
    rw [heq] at hrecorded
    cases hrecorded
  obtain hidle | ⟨path', hdelivered⟩ | ⟨attempt, hjournal⟩ := h.clear_or_journal
  · obtain ⟨row', hrow', -, heq, -⟩ := hidle.row
    exact absurd heq (hpending row' hrow')
  · obtain ⟨row', seen, hrow', -, -, hrecord, -⟩ := hdelivered.row
    cases hrow.symm.trans hrow'
    obtain rfl : path' = path := by
      obtain hrecord | hrecord := hrecord <;>
        simpa [hrecord, DeliveryRecord.recordedAt] using hrecorded
    exact hdelivered
  · obtain ⟨row', hrow', -, heq, -⟩ := hjournal.row
    exact absurd heq (hpending row' hrow')

end

/-- **A finished transfer is delivered once**, however often a call is cut and made again, as long
    as the directories are suitable: one file at most was put under a final name; a path on record
    is that name, with the transfer standing there; and every call that ends says so and does not
    fail. -/
theorem delivered_once (md4 : Md4) (job : DeliveryJob) (w : World)
    (hw : Idle md4 job w) (events : List (Event Call Action))
    (h : Run.Along (machine md4 job).step (Machine.Permitted (SuitableCall job) fun _ _ => False)
      ⟨w, none⟩ events) :
    let final := (Run.run (machine md4 job).step ⟨w, none⟩ events).world
    final.produced.length ≤ 1 ∧
      (∀ path, final.Records path → final.produced = [path] ∧
        ∃ id, final.fs.find path = some id ∧ (final.fs.objects id).kind = .regular ∧
          Payload md4 job (final.fs.objects id).bytes) ∧
      Run.Along (machine md4 job).step (Machine.Lawful Answers fun _ _ => False) ⟨w, none⟩
        events := by
  obtain ⟨hlawful, honce⟩ := (machine md4 job).lawful_run (stable_alone (Once md4 job))
    (fun _ => Once.crashed) (fun _ => stable_alone _) (fun _ => stable_alone _)
    (fun _ _ honce hcall => proceeds_program honce hcall) (.idle hw) h
  refine ⟨honce.produced_le, fun path hrecords => ?_, hlawful⟩
  have hdelivered := honce.delivered_of_records hrecords
  obtain ⟨row, seen, -, -, -, -, hstands⟩ := hdelivered.row
  exact ⟨hdelivered.produced, seen.identity, hstands.found, hstands.kind, hstands.payload⟩

namespace Sample

theorem idle_world : Idle md4 job world := by
  refine ⟨⟨inUse_world, ?_⟩, ⟨_, rfl, ⟨rfl, rfl, rfl, rfl⟩, rfl, rfl⟩, rfl⟩
  exact ⟨rfl, rfl, by decide +kernel⟩

/-- A delivery that is cut after 17 steps, and the one after it. -/
def cutDelivery : List (Event Call Action) :=
  .call (.materialize inDir fun _ => ids 1) :: List.replicate 17 .tick ++
    (.crash :: .call (.materialize inDir fun _ => ids 2) :: List.replicate 20 .tick)

theorem candidateName_ne {n : Nat} {id : Uuid} :
    candidateName job.displayName n ≠ stagingName id := by
  intro heq
  have hhead : (candidateName job.displayName n).toList.head? = some 'a' := by
    have hname : sanitizeFileName job.displayName = "a.txt" := by decide +kernel
    have hsplit : splitStemExtension "a.txt" = ("a", some "txt") := by decide +kernel
    simp only [candidateName, hname, hsplit]
    split
    · decide +kernel
    · have hstem : "a".toList = ['a'] := by decide +kernel
      simp only [toString, String.toList_append, hstem]
      rfl
  rw [heq, stagingName_toList] at hhead
  cases Option.some.inj hhead

theorem suitable {id : Uuid} {w : World} (hfresh : w.fs.find ⟨inDir, stagingName id⟩ = none)
    (hfree : w.fs.find ⟨inDir, candidateName job.displayName 1⟩ = none) :
    Suitable job inDir (fun _ => id) w :=
  ⟨rfl, fun _ => hfresh, fun n => candidateName_ne, 1, by decide +kernel, hfree⟩

theorem permitted_cutDelivery : Run.Along (machine md4 job).step
    (Machine.Permitted (SuitableCall job) fun _ _ => False) ⟨world, none⟩ cutDelivery := by
  refine Run.along_append.mpr ⟨⟨fun _ => ?_, Machine.permitted_ticks ..⟩, trivial, fun _ => ?_,
    Machine.permitted_ticks ..⟩
  · exact suitable (by decide +kernel) (by decide +kernel)
  · exact suitable (by decide +kernel) (by decide +kernel)

end Sample

/-- The call after the cut finds the file under its final name. -/
theorem delivered_once_cut :
    let final := (Run.run (machine md4 job).step ⟨world, none⟩
      cutDelivery).world
    final.produced = [target] ∧ final.Records target := by
  have hrecords : (Run.run (machine md4 job).step ⟨world, none⟩
      cutDelivery).world.Records target := ⟨_, rfl, by decide +kernel⟩
  exact ⟨((delivered_once md4 job world idle_world cutDelivery
    permitted_cutDelivery).2.1 target hrecords).1, hrecords⟩

/-- **A relative directory is refused**: the metadata store keeps absolute paths only. -/
theorem relative_directory_is_refused :
    ¬∀ (md4 : Md4) (job : DeliveryJob) (w : World), Idle md4 job w →
      ∀ events,
        Run.Along (machine md4 job).step
          (Machine.Permitted (fun call _ => call matches .materialize _ _) fun _ _ => False)
          ⟨w, none⟩ events →
        Run.Along (machine md4 job).step (Machine.Lawful Answers fun _ _ => False) ⟨w, none⟩
          events := by
  intro h
  let begun : List (Event Call Action) :=
    .call (.materialize ⟨false, "in"⟩ ids) :: List.replicate 5 .tick
  have hlawful := h md4 job world idle_world (begun ++ [.tick])
    (Run.along_append.mpr ⟨⟨fun _ => rfl, Machine.permitted_ticks ..⟩,
      Machine.permitted_ticks _ _ _ _ 1⟩)
  -- the last tick finds that the call has failed
  exact (Run.along_append.mp hlawful).2.1

end EmuleBB.Delivery
