import EmuleBB.Delivery.Steps

/-!
# What a deletion moves aside

A deletion renames the output before it unlinks it. What stands aside is accounted for by the row of
the tombstone: its path is where the object stands, and while the row says *prepared* nothing stands
at the original path (`Stowed`). So a deletion that finds something at the original path, or nothing
at the tombstone's, has nothing standing aside any more, and may forget the row.

**The first of these inferences holds only if nobody puts a file at the original path meanwhile.**
After a crash between the rename and the note of it, a new file there makes the retry preserve that
file, forget the tombstone without a look at its path, and report success; the renamed object stays
behind under its hidden name (`replacement_strands_output`). As long as the original path is left
alone while something stands aside, nothing is left behind (`nothing_stranded`).
-/

namespace EmuleBB.Delivery

open Prog FileSystem Sample

def Settled (w : World) : Prop :=
  ∀ entry ∈ w.renamed, entry.1 < w.fs.next ∧ w.fs.find entry.2 ≠ some entry.1

def DeletionTombstone.Holds (tombstone : DeletionTombstone) (w : World) : Prop :=
  ∃ id ∈ w.fs.find tombstone.tombstonePath, (id, tombstone.tombstonePath) ∈ w.renamed

/-- Nobody puts a file at the original path of a prepared tombstone while its
    object stands aside. -/
def LeavesOriginal (w : World) : Action → Prop
  | .create path _ _ => ∀ row ∈ w.transfer, ∀ tombstone ∈ row.tombstone,
      tombstone.phase = .prepared → tombstone.Holds w → path ≠ tombstone.originalPath
  | _ => True

instance (tombstone : DeletionTombstone) (w : World) : Decidable (tombstone.Holds w) :=
  inferInstanceAs (Decidable (∃ id ∈ w.fs.find tombstone.tombstonePath, _))

instance (w : World) : ∀ action, Decidable (LeavesOriginal w action)
  | .create .. => inferInstanceAs (Decidable (∀ row ∈ w.transfer, _))
  | .edit .. | .replace .. | .remove .. => .isTrue trivial

def Requested (w : World) : Prop := ∀ row ∈ w.transfer, row.deleteRequested = true

/-- **What stands aside is accounted for by the tombstone's row.** -/
structure Stowed (w : World) : Prop where
  inUse : w.fs.InUse
  known : ∀ entry ∈ w.renamed, entry.1 < w.fs.next
  recorded : ∀ entry ∈ w.renamed, w.fs.find entry.2 = some entry.1 →
    ∃ row ∈ w.transfer, ∃ tombstone ∈ row.tombstone, tombstone.tombstonePath = entry.2 ∧
      (tombstone.phase = .prepared → w.fs.find tombstone.originalPath = none)
  cleaned : w.cleaned = true → Settled w
  requested : Requested w ∨ Settled w

def AsideAt (path : NativePath) (w : World) : Prop :=
  ∀ row ∈ w.transfer, ∀ tombstone ∈ row.tombstone, tombstone.tombstonePath = path

def InRow (tombstone : DeletionTombstone) (w : World) : Prop :=
  w.transfer.bind TransferRow.tombstone = some tombstone

def Unfinished (w : World) : Prop := w.cleaned = false ∧ Requested w

section

variable {w w' : World} {tombstone : DeletionTombstone} {path : NativePath} {id : Nat}
  {May : World → Action → Prop}

theorem inRow_iff : InRow tombstone w ↔ ∃ row ∈ w.transfer, tombstone ∈ row.tombstone :=
  Option.bind_eq_some_iff

theorem InRow.eq (h : InRow tombstone w) {row : TransferRow} (hrow : row ∈ w.transfer)
    {found : DeletionTombstone} (hfound : found ∈ row.tombstone) : tombstone = found :=
  Option.some.inj (h.symm.trans (inRow_iff.mpr ⟨row, hrow, hfound⟩))

theorem InRow.asideAt (h : InRow tombstone w) : AsideAt tombstone.tombstonePath w := by
  intro row hrow found hfound
  rw [h.eq hrow hfound]

theorem Stowed.settled_of_missing (h : Stowed w) (haside : AsideAt path w)
    (hmissing : w.fs.find path = none) : Settled w := by
  refine fun entry hentry => ⟨h.known entry hentry, fun hfind => ?_⟩
  obtain ⟨row, hrow, tombstone, htombstone, heq, -⟩ := h.recorded entry hentry hfind
  rw [← heq, haside row hrow tombstone htombstone, hmissing] at hfind
  cases hfind

theorem Stowed.settled_of_original (h : Stowed w) (hrow : InRow tombstone w)
    (hphase : tombstone.phase = .prepared) (hfound : w.fs.find tombstone.originalPath ≠ none) :
    Settled w := by
  refine fun entry hentry => ⟨h.known entry hentry, fun hfind => ?_⟩
  obtain ⟨row, hrow', found, htombstone, -, horiginal⟩ := h.recorded entry hentry hfind
  obtain rfl := hrow.eq hrow' htombstone
  exact hfound (horiginal hphase)

theorem Stowed.settled_of_none (h : Stowed w)
    (hnone : w.transfer.bind TransferRow.tombstone = none) : Settled w := by
  refine fun entry hentry => ⟨h.known entry hentry, fun hfind => ?_⟩
  obtain ⟨row, hrow, tombstone, htombstone, -⟩ := h.recorded entry hentry hfind
  cases hnone.symm.trans (inRow_iff.mpr ⟨row, hrow, htombstone⟩)

theorem Settled.stowed (h : Settled w) (hinUse : w.fs.InUse) : Stowed w :=
  ⟨hinUse, fun entry hentry => (h entry hentry).1,
    fun entry hentry hfind => absurd hfind (h entry hentry).2, fun _ => h, .inr h⟩

theorem Requested.update {row row' : TransferRow} (h : Requested w) (hrow : row ∈ w.transfer)
    (hsame : row'.deleteRequested = row.deleteRequested) :
    Requested { w with transfer := some row' } := by
  rintro _ ⟨rfl⟩
  exact hsame.trans (h row hrow)

theorem Settled.of_eq (h : Settled w) (hfs : w'.fs = w.fs) (hrenamed : w'.renamed = w.renamed) :
    Settled w' := by
  intro entry hentry
  rw [hfs]
  exact h entry (hrenamed ▸ hentry)

theorem Stowed.of_eq (h : Stowed w) (hfs : w'.fs = w.fs) (hrenamed : w'.renamed = w.renamed)
    (htombstone : w'.transfer.bind TransferRow.tombstone = w.transfer.bind TransferRow.tombstone)
    (hrequested : Requested w → Requested w') (hcleaned : w'.cleaned = true → w.cleaned = true) :
    Stowed w' := by
  refine ⟨by rw [hfs]; exact h.inUse, ?_, ?_, fun hdone => ?_,
    h.requested.imp hrequested fun hsettled => hsettled.of_eq hfs hrenamed⟩
  · intro entry hentry
    rw [hfs]
    exact h.known entry (hrenamed ▸ hentry)
  · intro entry hentry hfind
    rw [hfs] at hfind ⊢
    obtain ⟨row, hrow, tombstone, hsome, hpath⟩ := h.recorded entry (hrenamed ▸ hentry) hfind
    obtain ⟨row', hrow', hsome'⟩ :=
      inRow_iff.mp (htombstone.trans (inRow_iff.mpr ⟨row, hrow, hsome⟩))
    exact ⟨row', hrow', tombstone, hsome', hpath⟩
  · exact (h.cleaned (hcleaned hdone)).of_eq hfs hrenamed

theorem Settled.remove (h : Settled w) (path : NativePath) :
    Settled { w with fs := w.fs.remove path } :=
  fun entry hentry => ⟨(h entry hentry).1, fun hp => (h entry hentry).2 (find_of_find_remove hp)⟩

theorem Stowed.remove (h : Stowed w) (path : NativePath) :
    Stowed { w with fs := w.fs.remove path } := by
  refine ⟨h.inUse.remove path, h.known, fun entry hentry hp => ?_,
    fun hdone => (h.cleaned hdone).remove path, h.requested.imp id fun hsettled =>
    hsettled.remove path⟩
  obtain ⟨row, hrow, tombstone, hsome, heq, horiginal⟩ :=
    h.recorded entry hentry (find_of_find_remove hp)
  refine ⟨row, hrow, tombstone, hsome, heq, fun hphase => ?_⟩
  rw [find_remove, horiginal hphase]
  split
  · rfl
  · rfl

/-! ## Others -/

/-- A new object has a new identity, so it is never taken for one that was renamed. -/
theorem find_act {action : Action} {p : NativePath} (hid : id < w.fs.next)
    (h : (act action w).fs.find p = some id) : w.fs.find p = some id := by
  obtain heq | ⟨path, kind, bytes, -, heq⟩ | ⟨path, edited, bytes, -, -, heq⟩ | ⟨path, -, heq⟩ :=
    act_cases action w
  · rw [heq] at h
    exact h
  · rw [heq] at h
    simp only [find_create] at h
    split at h
    · cases h
      exact absurd hid (Nat.lt_irrefl _)
    · exact h
  · rw [heq] at h
    exact h
  · rw [heq] at h
    simp only [find_remove] at h
    split at h
    · cases h
    · exact h

theorem stable_settled (May : World → Action → Prop) : Stable (Interference May) Settled := by
  rintro w _ h ⟨action, -, rfl⟩ entry hentry
  rw [act_frame] at hentry
  obtain ⟨hknown, hfind⟩ := h entry hentry
  exact ⟨lt_of_lt_of_le hknown (next_act action w),
    fun hfound => hfind (find_act hknown hfound)⟩

theorem stable_inRow : Stable (Interference May) (InRow tombstone) := by
  rintro w _ h ⟨action, -, rfl⟩
  rw [InRow, transfer_act]
  exact h

theorem stable_asideAt : Stable (Interference May) (AsideAt path) := by
  rintro w _ h ⟨action, -, rfl⟩
  rw [AsideAt, transfer_act]
  exact h

theorem stable_unfinished (May : World → Action → Prop) : Stable (Interference May) Unfinished := by
  rintro w _ h ⟨action, -, rfl⟩
  rw [act_frame]
  exact h

/-- Others keep it, as long as they leave the original paths alone. -/
theorem stable_stowed : Stable (Interference LeavesOriginal) Stowed := by
  rintro w _ h ⟨action, hmay, rfl⟩
  have hsettled : Settled w → Settled (act action w) := fun hsettled =>
    stable_settled LeavesOriginal w _ hsettled ⟨action, hmay, rfl⟩
  refine ⟨inUse_act action h.inUse, fun entry hentry => ?_, fun entry hentry hfind => ?_,
    fun hdone => ?_, h.requested.imp (fun hrequested => ?_) hsettled⟩
  · rw [act_frame] at hentry
    exact lt_of_lt_of_le (h.known entry hentry) (next_act action w)
  · rw [act_frame] at hentry
    have hstands := find_act (h.known entry hentry) hfind
    obtain ⟨row, hrow, tombstone, hsome, heq, horiginal⟩ := h.recorded entry hentry hstands
    refine ⟨row, by rw [transfer_act]; exact hrow, tombstone, hsome, heq, fun hphase => ?_⟩
    -- nothing is put at the original path, since the object stands aside
    obtain hact | ⟨path, kind, bytes, haction, hact⟩ | ⟨_, _, _, -, -, hact⟩ | ⟨path, -, hact⟩ :=
      act_cases action w
    · rw [hact]
      exact horiginal hphase
    · have hne : tombstone.originalPath ≠ path := by
        rintro rfl
        obtain ⟨rfl, -⟩ | ⟨-, htaken⟩ := haction
        · refine hmay row hrow tombstone hsome hphase ⟨entry.1, ?_, ?_⟩ rfl
          · rw [heq]
            exact hstands
          · rw [heq]
            exact hentry
        · exact htaken (horiginal hphase)
      rw [hact]
      simp only [find_create, if_neg hne]
      exact horiginal hphase
    · rw [hact]
      exact horiginal hphase
    · rw [hact]
      simp only [find_remove]
      split
      · rfl
      · exact horiginal hphase
  · rw [act_frame] at hdone
    exact hsettled (h.cleaned hdone)
  · rw [Requested, transfer_act]
    exact hrequested

/-! ## Programs -/

variable {α : Type} {t : Async α} {P : World → Prop} {Q : α → World → Prop} {message : String}
  {seen moved : Stamp} {tombstoneId : Uuid}

abbrev Stowing (t : Async α) (w : World) (Q : α → World → Prop) : Prop :=
  t.Keeping (Interference LeavesOriginal) Stowed (fun _ _ => True) w Q

theorem stowing_fail (h : Stowed w) : Stowing (fail message : Async α) w Q := keeping_fail h trivial

section

variable (hstable : Stable (Interference LeavesOriginal) P)

include hstable

theorem stowing_look {β : Type} [ReadOnly t] {f : α → Async β} {Q : β → World → Prop} (h : Stowed w)
    (hP : P w) (hf : ∀ a w, Stowed w → P w → Stowing (f a) w Q) : Stowing (t >>= f) w Q :=
  keeping_look stable_stowed hstable (fun _ _ _ => trivial) h hP hf

theorem stowing_atomic {f : World → α × World} (h : Stowed w) (hP : P w)
    (hstep : ∀ w, Stowed w → P w → Stowed (f w).2 ∧ Q (f w).1 (f w).2) : Stowing (atomic f) w Q :=
  keeping_atomic stable_stowed hstable h hP hstep

theorem stowing_transact {f : World → Except String (α × World)} (h : Stowed w) (hP : P w)
    (hstep : ∀ w a w', Stowed w → P w → f w = .ok (a, w') → Stowed w' ∧ Q a w') :
    Stowing (transact f) w Q :=
  keeping_transact stable_stowed hstable h hP hstep fun _ _ _ _ _ => trivial

end

theorem stowing_inspectFile {P P' M : World → Prop} (hP : Stable (Interference LeavesOriginal) P)
    (hP' : Stable (Interference LeavesOriginal) P')
    (hmissing : ∀ w, Stowed w → P w → w.fs.find path = none → M w)
    (hfound : ∀ w id, Stowed w → P w → w.fs.find path = some id → P' w) (h : Stowed w) (hPw : P w) :
    Stowing (inspectFile path) w fun found w =>
      (found matches .missing → M w) ∧ (¬found matches .missing → P' w) := by
  refine Keeping.bind (Q := fun opened w =>
    (opened = .missing → M w) ∧ ∀ id, opened = .handle id → P' w) ?_ fun opened w hw hopened => ?_
  · refine stowing_atomic hP h hPw fun w hw hPw => ⟨hw, ?_, fun id hid => ?_⟩
    · intro hopened
      cases hfind : w.fs.find path with
      | none => exact hmissing w hw hPw hfind
      | some =>
        simp only [hfind] at hopened
        split at hopened
        · cases hopened
        · cases hopened
    · cases hfind : w.fs.find path with
      | none =>
        simp only [hfind] at hid
        cases hid
      | some id => exact hfound w id hw hPw hfind
  cases opened with
  | missing => exact keeping_pure hw ⟨fun _ => hopened.1 rfl, fun hne => absurd rfl hne⟩
  | refused => exact stowing_fail hw
  | handle id =>
    refine stowing_look hP' hw (hopened.2 id rfl) fun shown w hw hPw => ?_
    cases shown with
    | none => exact keeping_pure hw ⟨Bool.noConfusion, fun _ => hPw⟩
    | some =>
      refine stowing_look hP' hw hPw fun current w hw hPw => ?_
      split
      · exact keeping_pure hw ⟨Bool.noConfusion, fun _ => hPw⟩
      · exact keeping_pure hw ⟨Bool.noConfusion, fun _ => hPw⟩

/-! ## Deletion -/

def AllSettled (w : World) : Prop := Settled w ∧ Unfinished w

/-- The deletion goes on, and if something stands aside it is at this path. -/
def AtMostAt (path : NativePath) (w : World) : Prop := AsideAt path w ∧ Unfinished w

theorem stable_allSettled : Stable (Interference LeavesOriginal) AllSettled :=
  (stable_settled _).and (stable_unfinished _)

theorem stable_atMostAt : Stable (Interference LeavesOriginal) (AtMostAt path) :=
  stable_asideAt.and (stable_unfinished _)

theorem AtMostAt.settled (h : AtMostAt path w) (hw : Stowed w) (hmissing : w.fs.find path = none) :
    AllSettled w :=
  ⟨hw.settled_of_missing h.1 hmissing, h.2⟩

/-- **When the unlink succeeds nothing stands at the path.** -/
theorem stowing_removeFile {S : World → Prop} (hstable : Stable (Interference LeavesOriginal) P)
    (hremove : ∀ w, P w → P { w with fs := w.fs.remove path })
    (hgone : ∀ w, Stowed w → P w → w.fs.find path = none → S w) (h : Stowed w) (hP : P w) :
    Stowing (removeFileIfFingerprintMatches path seen) w fun removed w =>
      (removed = true → S w) ∧ (removed = false → P w) := by
  refine Keeping.bind (Q := fun metadata w => P w ∧ (metadata = none → S w)) ?_
    fun metadata w hw hmetadata => ?_
  · refine stowing_atomic hstable h hP fun w hw hP => ⟨hw, hP, fun hnone => ?_⟩
    exact hgone w hw hP (Option.map_eq_none_iff.mp hnone)
  obtain ⟨hP, hnone⟩ := hmetadata
  split
  · exact keeping_pure hw ⟨fun _ => hnone rfl, by simp⟩
  · refine stowing_look hstable hw hP fun current w hw hP => ?_
    split
    · refine stowing_atomic hstable hw hP fun w hw hP => ?_
      split
      · next hfind => exact ⟨hw, fun _ => hgone w hw hP hfind, by simp⟩
      · split
        · refine ⟨hw.remove path, fun _ => hgone _ (hw.remove path) (hremove w hP) ?_, by simp⟩
          rw [find_remove, if_pos rfl]
        · exact ⟨hw, by simp, fun _ => hP⟩
    · exact keeping_pure hw ⟨by simp, fun _ => hP⟩
  · exact keeping_pure hw ⟨by simp, fun _ => hP⟩

theorem stowing_inspectTombstone (h : Stowed w) (haside : AtMostAt path w) :
    Stowing (inspectFile path) w fun found w =>
      (found matches .missing → AllSettled w) ∧ (¬found matches .missing → AtMostAt path w) :=
  stowing_inspectFile stable_atMostAt stable_atMostAt
    (fun _ hw haside hmissing => haside.settled hw hmissing) (fun _ _ _ haside _ => haside) h haside

theorem stowing_markDeletionTombstoneMoved {fingerprint : Stamp} (h : Stowed w)
    (haside : AtMostAt path w) :
    Stowing (markDeletionTombstoneMoved tombstoneId fingerprint) w fun _ => AtMostAt path := by
  refine stowing_atomic stable_atMostAt h haside fun w hw haside => ?_
  split
  · exact ⟨hw, haside⟩
  · next row hrow =>
    split
    · exact ⟨hw, haside⟩
    · next found hfound =>
      split
      · split
        · exact ⟨hw, haside⟩
        · next updated hupdated =>
          -- the new tombstone stands at the same path, and what it says of the original is less
          have hnew : ∃ new, updated = some new ∧ new.tombstonePath = found.tombstonePath ∧
              new.originalPath = found.originalPath ∧
              (new.phase = .prepared → found.phase = .prepared) := by
            dsimp only at hupdated
            split at hupdated
            · cases hupdated
              exact ⟨_, rfl, rfl, rfl, nofun⟩
            · split at hupdated
              · cases hupdated
                exact ⟨_, rfl, rfl, rfl, fun hphase => hphase⟩
              · cases hupdated
          obtain ⟨new, rfl, hpath, horiginal, hphase⟩ := hnew
          have hrequested : Requested
            { w with transfer := some { row with tombstone := some new } } :=
            haside.2.2.update hrow rfl
          refine ⟨⟨hw.inUse, hw.known, fun entry hentry hfind => ?_, hw.cleaned,
            .inl hrequested⟩, ?_,
            haside.2.1, hrequested⟩
          · obtain ⟨row', hrow', found', hfound', heq, hprepared⟩ :=
              hw.recorded entry hentry hfind
            cases hrow.symm.trans hrow'
            cases hfound.symm.trans hfound'
            refine ⟨_, rfl, new, rfl, hpath.trans heq, fun hnew => ?_⟩
            rw [horiginal]
            exact hprepared (hphase hnew)
          · rintro _ ⟨rfl⟩ _ ⟨rfl⟩
            exact hpath.trans (haside.1 row hrow found hfound)
      · exact ⟨hw, haside⟩

section

variable (h : Stowed w) (haside : AtMostAt tombstone.tombstonePath w)

include h haside

theorem stowing_reapMovedTombstone :
    Stowing (reapMovedTombstone tombstone moved) w fun _ => AllSettled := by
  refine (stowing_inspectTombstone h haside).bind fun found w hw hfound => ?_
  cases found with
  | missing => exact keeping_pure hw (hfound.1 rfl)
  | regular =>
    dsimp only
    split
    · refine (stowing_removeFile stable_atMostAt (fun _ hP => hP) (fun _ hw hP => hP.settled hw) hw
        (hfound.2 nofun)).bind fun removed w hw hremoved => ?_
      refine (keeping_ensure hw fun _ => trivial).mono fun _ w' _ hensured => ?_
      obtain ⟨htrue, rfl⟩ := hensured
      exact hremoved.1 htrue
    · exact stowing_fail hw
  | foreign => exact stowing_fail hw

theorem stowing_markAndReap : Stowing (markAndReap tombstone moved) w fun _ => AllSettled := by
  refine (stowing_markDeletionTombstoneMoved h haside).bind fun marked w hw haside => ?_
  refine stowing_look stable_atMostAt hw haside fun _ w hw haside => ?_
  exact (stowing_reapMovedTombstone hw haside).ret

theorem stowing_processMoved (md4 : Md4) (job : DeliveryJob) :
    Stowing (processMoved md4 job tombstone) w fun _ => AllSettled := by
  refine (stowing_inspectTombstone h haside).bind fun found w hw hfound => ?_
  cases found with
  | missing => exact keeping_pure hw (hfound.1 rfl)
  | regular id =>
    dsimp only
    split
    · refine stowing_look stable_atMostAt hw (hfound.2 nofun) fun verified w hw haside => ?_
      cases verified with
      | some => exact stowing_markAndReap hw haside
      | none => exact stowing_fail hw
    · exact stowing_fail hw
  | foreign => exact stowing_fail hw

end

/-- **A prepared tombstone is forgotten only when nothing stands aside.** -/
theorem stowing_forgetPrepared {reason : String} {outcome : PreparedCleanupOutcome} (h : Stowed w)
    (hsettled : AllSettled w) :
    Stowing (forgetPrepared tombstone reason outcome) w fun _ => AllSettled := by
  refine Keeping.bind (Q := fun _ => AllSettled) ?_ fun cleared w hw hsettled => ?_
  · refine stowing_atomic stable_allSettled h hsettled fun w hw hsettled => ?_
    split
    · exact ⟨hw, hsettled⟩
    · next hrow =>
      split
      · exact ⟨hw, hsettled⟩
      · split
        · split
          · exact ⟨hw, hsettled⟩
          · exact ⟨Settled.stowed hsettled.1 hw.inUse, hsettled.1, hsettled.2.1,
              hsettled.2.2.update hrow rfl⟩
        · exact ⟨hw, hsettled⟩
  exact stowing_look stable_allSettled hw hsettled fun _ w hw hsettled => keeping_pure hw hsettled

def Prepared (tombstone : DeletionTombstone) (w : World) : Prop :=
  InRow tombstone w ∧ Unfinished w

theorem stable_prepared : Stable (Interference LeavesOriginal) (Prepared tombstone) :=
  stable_inRow.and (stable_unfinished _)

theorem Prepared.atMostAt (h : Prepared tombstone w) : AtMostAt tombstone.tombstonePath w :=
  ⟨h.1.asideAt, h.2⟩

variable (md4 : Md4) (job : DeliveryJob) {ids : Nat → Uuid}
  {authority : Option OwnedDeliveryOutput}

section

variable (h : Stowed w) (hprepared : Prepared tombstone w)

include h hprepared

/-- **The rename**: what stood at the original path stands aside, as the row says, and nothing
    stands at the original path. -/
theorem Stowed.rename (hsettled : Settled w) (hsource : w.fs.find tombstone.originalPath = some id)
    (hfree : w.fs.find tombstone.tombstonePath = none) : Stowed (asideAt tombstone.tombstonePath id
      { w with fs := w.fs.rename tombstone.originalPath tombstone.tombstonePath id }) := by
  have hne : tombstone.originalPath ≠ tombstone.tombstonePath := by
    intro heq
    rw [heq, hfree] at hsource
    cases hsource
  obtain ⟨row, hrow, hsome⟩ := inRow_iff.mp hprepared.1
  have hknown : ∀ entry ∈ w.renamed ++ [(id, tombstone.tombstonePath)], entry.1 < w.fs.next := by
    intro entry hentry
    obtain hold | hnew := List.mem_append.mp hentry
    · exact h.known entry hold
    · obtain rfl := List.mem_singleton.mp hnew
      exact h.inUse _ _ hsource
  refine ⟨h.inUse.rename (h.inUse _ _ hsource), hknown, fun entry hentry hfind => ?_,
    fun hdone => ?_, .inl hprepared.2.2⟩
  · refine ⟨row, hrow, tombstone, hsome, ?_, fun _ => ?_⟩
    · -- an older entry that stood elsewhere would have stood there before
      by_contra hother
      obtain hold | hnew := List.mem_append.mp hentry
      · refine (hsettled entry hold).2 ?_
        have hfind : (w.fs.rename tombstone.originalPath tombstone.tombstonePath id).find entry.2 =
            some entry.1 := hfind
        rw [find_rename, if_neg (fun heq => hother heq.symm)] at hfind
        split at hfind
        · cases hfind
        · exact hfind
      · obtain rfl := List.mem_singleton.mp hnew
        exact hother rfl
    · show (w.fs.rename tombstone.originalPath tombstone.tombstonePath id).find
        tombstone.originalPath = none
      rw [find_rename, if_neg hne, if_pos rfl]
  · have hcleaned : w.cleaned = false := hprepared.2.1
    rw [hcleaned] at hdone
    cases hdone

/-- **The way back**: whatever stood at the tombstone's path stands at the original one, so nothing
    stands aside. -/
theorem Stowed.restore (id : Nat) : Settled (putBack id
      { w with fs := w.fs.rename tombstone.tombstonePath tombstone.originalPath id }) := by
  intro entry hentry
  obtain ⟨hold, hback⟩ := List.mem_filter.mp hentry
  have hne : entry.1 ≠ id := of_decide_eq_true hback
  refine ⟨h.known entry hold, fun hfind => ?_⟩
  have hfind : (w.fs.rename tombstone.tombstonePath tombstone.originalPath id).find entry.2 =
      some entry.1 := hfind
  rw [find_rename] at hfind
  split at hfind
  · exact hne (Option.some.inj hfind).symm
  · split at hfind
    · cases hfind
    · next helsewhere =>
      obtain ⟨row, hrow, found, hfound, heq, -⟩ := h.recorded entry hold hfind
      exact helsewhere (heq.symm.trans (hprepared.1.asideAt row hrow found hfound))

theorem stowing_moveAndReap (hsettled : Settled w) :
    Stowing (moveAndReap tombstone id) w fun _ => AllSettled := by
  refine Keeping.bind (Q := fun outcome w =>
    Prepared tombstone w ∧ (outcome = .alreadyExists → Settled w)) ?_
    fun outcome w hw houtcome => ?_
  · refine stowing_transact (stable_prepared.and (stable_settled _)) h
      ⟨hprepared, hsettled⟩ fun w outcome w' hw hP hstep => ?_
    split at hstep
    · cases hstep
    · next moved hsource =>
      split at hstep
      · cases hstep
        exact ⟨hw, hP.1, fun _ => hP.2⟩
      · next hfree =>
        cases hstep
        exact ⟨hw.rename hP.1 hP.2 hsource hfree, hP.1, by simp⟩
  obtain ⟨hprepared, hexists⟩ := houtcome
  cases outcome with
  | alreadyExists => exact stowing_forgetPrepared hw ⟨hexists rfl, hprepared.2⟩
  | moved =>
    refine stowing_look stable_prepared hw hprepared fun found w hw hprepared => ?_
    cases found with
    | some => exact stowing_markAndReap hw hprepared.atMostAt
    | none =>
      refine Keeping.bind (Q := fun outcome w => outcome = .moved → AllSettled w) ?_
        fun outcome w hw hrestored => ?_
      · refine stowing_transact stable_prepared hw hprepared
          fun w outcome w' hw hP hstep => ?_
        split at hstep
        · cases hstep
        · next moved hsource =>
          split at hstep
          · cases hstep
            exact ⟨hw, by simp⟩
          · cases hstep
            have hsettled := hw.restore hP moved
            exact ⟨hsettled.stowed (hw.inUse.rename (hw.inUse _ _ hsource)),
              fun _ => ⟨hsettled, hP.2⟩⟩
      cases outcome with
      | moved => exact stowing_forgetPrepared hw (hrestored rfl)
      | alreadyExists => exact stowing_fail hw

/-- **Whatever is found at the original path shows that nothing stands aside.** -/
theorem stowing_processPreparedTombstone (hphase : tombstone.phase = .prepared) :
    Stowing (processPreparedTombstone md4 job tombstone) w fun _ => AllSettled := by
  have hinspect : Stowing (inspectFile tombstone.originalPath) w fun found w =>
      (found matches .missing → Prepared tombstone w) ∧
        (¬found matches .missing → Prepared tombstone w ∧ Settled w) := by
    refine stowing_inspectFile stable_prepared (stable_prepared.and (stable_settled _))
      (fun _ _ hP _ => hP) (fun w id hw hP hfind => ⟨hP, ?_⟩) h hprepared
    exact hw.settled_of_original hP.1 hphase (by rw [hfind]; nofun)
  refine hinspect.bind fun found w hw hfound => ?_
  cases found with
  | missing => exact stowing_processMoved hw (hfound.1 rfl).atMostAt md4 job
  | regular =>
    obtain ⟨hprepared, hsettled⟩ := hfound.2 nofun
    dsimp only
    split
    · exact stowing_moveAndReap hw hprepared hsettled
    · exact stowing_forgetPrepared hw ⟨hsettled, hprepared.2⟩
  | foreign =>
    obtain ⟨hprepared, hsettled⟩ := hfound.2 nofun
    exact stowing_forgetPrepared hw ⟨hsettled, hprepared.2⟩

theorem stowing_processTombstone :
    Stowing (processTombstone md4 job tombstone) w fun _ => AllSettled := by
  refine stowing_look stable_prepared h hprepared fun _ w hw hprepared => ?_
  split
  · next hphase => exact stowing_processPreparedTombstone md4 job hw hprepared hphase
  · exact (stowing_reapMovedTombstone hw hprepared.atMostAt).ret

end

/-! ## The transfer directory

When its turn comes nothing stands aside any more, and no step puts anything aside. -/

theorem stowing_settled {f : World → Except String (α × World)} (h : Stowed w)
    (hsettled : Settled w) (hstep : ∀ w a w', Stowed w → Settled w → f w = .ok (a, w') →
      Settled w' ∧ w'.fs.InUse) : Stowing (transact f) w fun _ => Settled :=
  stowing_transact (stable_settled _) h hsettled fun w a w' hw hsettled hf => by
    obtain ⟨hsettled, hinUse⟩ := hstep w a w' hw hsettled hf
    exact ⟨hsettled.stowed hinUse, hsettled⟩

/-- The directory under another name, and with it what stands beneath it. -/
def World.directoryMoved (w : World) (source destination : NativePath) (id : Nat) : World :=
  let inside := w.beneath source.directory
  let route := NativePath.reroute source.directory destination.directory
  renamedAgain (id :: inside.filterMap w.fs.find)
    { w with fs := (w.fs.relink inside route).rename source destination id }

/-- What goes along with the directory is struck out, so nothing comes to stand aside by it. -/
theorem Settled.directoryMoved {source destination : NativePath} (h : Settled w) :
    Settled (w.directoryMoved source destination id) := by
  intro entry hentry
  obtain ⟨hold, hother⟩ := List.mem_filter.mp hentry
  obtain ⟨hdirectory, hother⟩ := not_or.mp (List.mem_cons.not.mp (of_decide_eq_true hother))
  refine ⟨(h entry hold).1, fun hfind => ?_⟩
  simp only [World.directoryMoved, renamedAgain, find_rename] at hfind
  split at hfind
  · exact hdirectory (Option.some.inj hfind).symm
  · split at hfind
    · cases hfind
    · obtain ⟨path, hpath, -, hfound⟩ | ⟨-, hsame⟩ := find_relink hfind
      · exact hother (List.mem_filterMap.mpr ⟨path, hpath, hfound⟩)
      · exact (h entry hold).2 hsame

section

variable (h : Stowed w) (hsettled : Settled w)

include h hsettled

theorem stowing_unlinkAll (paths : List NativePath) :
    Stowing (unlinkAll paths) w fun _ => Settled := by
  induction paths generalizing w with
  | nil => exact keeping_pure h hsettled
  | cons path paths ih =>
    refine Keeping.bind (stowing_atomic (stable_settled _) h hsettled fun w hw hsettled => ?_)
      fun _ w hw hsettled => ih hw hsettled
    exact ⟨hw.remove path, hsettled.remove path⟩

theorem stowing_removeDirAll : Stowing (removeDirAll path) w fun _ => Settled := by
  refine stowing_look (stable_settled _) h hsettled fun metadata w hw hsettled => ?_
  split
  · exact stowing_fail hw
  · exact stowing_fail hw
  · exact stowing_unlinkAll hw hsettled [path]
  · refine stowing_look (stable_settled _) hw hsettled fun inside w hw hsettled => ?_
    refine (stowing_unlinkAll hw hsettled inside).bind fun _ w hw hsettled => ?_
    refine stowing_settled hw hsettled fun w _ w' hw hsettled hstep => ?_
    split at hstep
    · cases hstep
    · split at hstep
      · cases hstep
      · split at hstep
        · cases hstep
        · cases hstep
          exact ⟨hsettled.remove path, hw.inUse.remove path⟩

theorem stowing_moveTransferDirectory {authority : Option TransferDirectoryDeletionAuthority}
    {tombstoneExists : Bool} :
    Stowing (moveTransferDirectory job authority tombstoneExists) w fun _ => Settled := by
  refine stowing_look (stable_settled _) h hsettled fun _ w hw hsettled => ?_
  cases authority with
  | none => exact stowing_fail hw
  | some =>
    refine stowing_look (stable_settled _) hw hsettled fun _ w hw hsettled => ?_
    refine Keeping.bind (stowing_settled hw hsettled fun w outcome w' hw hsettled hstep => ?_)
      fun _ w hw hsettled =>
        (keeping_ensure hw fun _ => trivial).mono fun _ w' _ heq => heq.2 ▸ hsettled
    split at hstep
    · cases hstep
    · next id hsource =>
      split at hstep
      · cases hstep
        exact ⟨hsettled, hw.inUse⟩
      · dsimp only at hstep
        split at hstep
        · cases hstep
          exact ⟨hsettled.directoryMoved, hw.inUse.relink.rename (hw.inUse _ _ hsource)⟩
        · cases hstep

theorem stowing_cleanupTransferDirectory :
    Stowing (cleanupTransferDirectory job) w fun _ => Settled := by
  have hstable := stable_settled LeavesOriginal
  refine stowing_look hstable h hsettled fun authority w hw hsettled => ?_
  refine stowing_look hstable hw hsettled fun transferExists w hw hsettled => ?_
  refine stowing_look hstable hw hsettled fun tombstoneExists w hw hsettled => ?_
  refine Keeping.bind (Q := fun _ => Settled) ?_ fun _ w hw hsettled => ?_
  · split
    · exact stowing_moveTransferDirectory job hw hsettled
    · exact keeping_pure hw hsettled
  refine stowing_look hstable hw hsettled fun remains w hw hsettled => ?_
  split
  · cases authority with
    | none => exact stowing_fail hw
    | some =>
      refine stowing_look hstable hw hsettled fun _ w hw hsettled => ?_
      exact stowing_removeDirAll hw hsettled
  · exact keeping_pure hw hsettled

end

section

variable (h : Stowed w) (hunfinished : Unfinished w)

include h hunfinished

theorem stowing_chooseTombstone :
    Stowing (chooseTombstone job authority tombstoneId) w fun found w =>
      (found = none → AllSettled w) ∧ ∀ tombstone, found = some tombstone →
        Prepared tombstone w := by
  refine Keeping.bind (Q := fun found w => (found = none → AllSettled w) ∧
    ∀ tombstone, found = some tombstone → Prepared tombstone w) ?_ fun found w hw hfound => ?_
  · exact stowing_atomic (stable_unfinished _) h hunfinished fun w hw hunfinished =>
      ⟨hw, fun hnone => ⟨hw.settled_of_none hnone, hunfinished⟩,
        fun tombstone hsome => ⟨hsome, hunfinished⟩⟩
  cases found with
  | some tombstone =>
    refine keeping_pure hw ⟨nofun, fun found heq => ?_⟩
    cases heq
    exact hfound.2 tombstone rfl
  | none =>
    have hsettled := hfound.1 rfl
    cases authority with
    | none => exact keeping_pure hw ⟨fun _ => hsettled, nofun⟩
    | some output =>
      have hinspect : Stowing (inspectFile output.path) w fun found w =>
          (found matches .missing → AllSettled w) ∧ (¬found matches .missing → AllSettled w) :=
        stowing_inspectFile stable_allSettled stable_allSettled (fun _ _ hP _ => hP)
          (fun _ _ _ hP _ => hP) hw hsettled
      refine hinspect.bind fun inspected w hw hinspected => ?_
      cases inspected with
      | missing => exact keeping_pure hw ⟨fun _ => hinspected.1 rfl, nofun⟩
      | foreign => exact keeping_pure hw ⟨fun _ => hinspected.2 nofun, nofun⟩
      | regular =>
        have hsettled := hinspected.2 nofun
        dsimp only
        split
        · refine Keeping.bind (Q := Prepared) ?_ fun tombstone w hw hprepared => ?_
          · refine stowing_transact stable_allSettled hw hsettled
              fun w tombstone w' hw hsettled hstep => ?_
            obtain ⟨-, row, hrow, -, ⟨hexisting, rfl⟩ | ⟨-, rfl, rfl⟩⟩ :=
              prepareTombstone_eq_ok hstep
            · exact ⟨hw, inRow_iff.mpr ⟨row, hrow, hexisting⟩, hsettled.2⟩
            · exact ⟨Settled.stowed hsettled.1 hw.inUse, rfl, hsettled.2.1,
                hsettled.2.2.update hrow rfl⟩
          refine keeping_pure hw ⟨nofun, fun found heq => ?_⟩
          cases heq
          exact hprepared
        · exact keeping_pure hw ⟨fun _ => hsettled, nofun⟩

theorem stowing_cleanupDeliveryOutput (turns : Nat) :
    Stowing (cleanupDeliveryOutput md4 job authority ids turns) w fun _ => AllSettled := by
  induction turns generalizing w with
  | zero => exact stowing_fail h
  | succ turns ih =>
    refine (stowing_chooseTombstone job h hunfinished).bind fun found w hw hfound => ?_
    cases found with
    | none => exact keeping_pure hw (hfound.1 rfl)
    | some tombstone =>
      refine (stowing_processTombstone md4 job hw (hfound.2 tombstone rfl)).bind
        fun outcome w hw hsettled => ?_
      cases outcome with
      | complete => exact keeping_pure hw hsettled
      | retryWithNewTombstone => exact ih hw hsettled.2

theorem stowing_clearDeliveryAttempt {attemptId : Uuid} :
    Stowing (clearDeliveryAttempt attemptId) w fun _ => Unfinished := by
  refine stowing_atomic (stable_unfinished _) h hunfinished fun w hw hunfinished => ?_
  split
  · exact ⟨hw, hunfinished⟩
  · next row hrow =>
    split
    · exact ⟨hw, hunfinished⟩
    · split
      · refine ⟨hw.of_eq rfl rfl ?_ (fun hrequested => hrequested.update hrow rfl) id,
          hunfinished.1, hunfinished.2.update hrow rfl⟩
        rw [hrow]
        rfl
      · exact ⟨hw, hunfinished⟩

theorem stowing_discardDeliveryAttemptForDeletion :
    Stowing (discardDeliveryAttemptForDeletion md4 job) w fun _ => Unfinished := by
  have hstable := stable_unfinished LeavesOriginal
  have hdiscard : ∀ (attempt : DeliveryAttempt) (staging : Stamp) (w : World), Stowed w →
      Unfinished w →
      Stowing (discardDeliveryAttemptForDeletion.discardStaging md4 job attempt staging) w
        fun _ => Unfinished := by
    intro attempt staging w hw hunfinished
    refine stowing_look hstable hw hunfinished fun found w hw hunfinished => ?_
    split
    · refine (stowing_removeFile hstable (fun _ hP => hP) (fun _ _ hP _ => hP) hw hunfinished).bind
        fun removed w hw hremoved => ?_
      cases removed with
      | true => exact keeping_pure hw (hremoved.1 rfl)
      | false => exact keeping_pure hw (hremoved.2 rfl)
    · exact keeping_pure hw hunfinished
  have hclear : ∀ (attemptId : Uuid) (w : World), Stowed w → Unfinished w → Stowing (do
      let _ ← clearDeliveryAttempt attemptId
      return none : Async (Option OwnedDeliveryOutput)) w fun _ => Unfinished :=
    fun attemptId w hw hunfinished => (stowing_clearDeliveryAttempt hw hunfinished).ret
  refine stowing_look hstable h hunfinished fun found w hw hunfinished => ?_
  split
  · exact keeping_pure hw hunfinished
  · next attempt =>
    refine stowing_look hstable hw hunfinished fun _ w hw hunfinished => ?_
    split
    · refine stowing_look hstable hw hunfinished fun _ w hw hunfinished => ?_
      exact hclear _ w hw hunfinished
    · exact (hdiscard attempt _ w hw hunfinished).bind fun _ w hw hunfinished =>
        hclear _ w hw hunfinished
    · exact (hdiscard attempt _ w hw hunfinished).ret

theorem stowing_completeTransferDeletion {manifest : TransferRow}
    {attempted : Option OwnedDeliveryOutput} :
    Stowing (completeTransferDeletion md4 job manifest attempted ids) w fun _ _ => True := by
  refine (stowing_cleanupDeliveryOutput md4 job h hunfinished 4).bind fun _ w hw hsettled => ?_
  have hnote : Stowing (atomic fun w => ((), { w with cleaned := true })) w fun _ => Settled :=
    stowing_atomic (stable_settled _) hw hsettled.1 fun w hw hsettled =>
      have hdone : Settled { w with cleaned := true } := hsettled
      ⟨hdone.stowed hw.inUse, hdone⟩
  refine hnote.bind fun _ w hw hsettled => ?_
  refine (stowing_cleanupTransferDirectory job hw hsettled).bind fun _ w hw hsettled => ?_
  refine Keeping.mono (stowing_settled hw hsettled fun w _ w' hw hsettled hstep => ?_)
    fun _ _ _ _ => trivial
  split at hstep
  · split at hstep
    · cases hstep
      exact ⟨hsettled, hw.inUse⟩
    · cases hstep
  · cases hstep

end

/-- The marker is made before the deletion is requested, when nothing stands aside. -/
theorem stowing_prepareTransferDirectoryDeletionAuthority {markerId : Uuid} {manifest : TransferRow}
    (hopen : manifest.deleteRequested = false) (h : Stowed w) (hrow : w.transfer = some manifest) :
    Stowing (prepareTransferDirectoryDeletionAuthority job markerId) w fun _ _ => True := by
  have hstable : Stable (Interference LeavesOriginal) fun w => w.transfer = some manifest := by
    rintro w _ h ⟨action, -, rfl⟩
    rw [transfer_act]
    exact h
  refine stowing_look hstable h hrow fun metadata w hw hrow => ?_
  split
  · refine Keeping.bind (Q := fun _ _ => True) ?_ fun _ w hw _ => ?_
    · refine stowing_transact hstable hw hrow fun w _ w' hw hrow hstep => ?_
      split at hstep
      · cases hstep
      · cases hstep
        have hsettled : Settled w := hw.requested.resolve_left fun hrequested => by
          cases (hrequested manifest hrow).symm.trans hopen
        refine ⟨Settled.stowed (fun entry hentry => ?_) (hw.inUse.create _ _ _), trivial⟩
        obtain ⟨hknown, hfind⟩ := hsettled entry hentry
        refine ⟨Nat.lt_succ_of_lt hknown, fun hfound => ?_⟩
        simp only [find_create] at hfound
        split at hfound
        · exact absurd (Option.some.inj hfound) (Nat.ne_of_gt hknown)
        · exact hfind hfound
    · refine stowing_look (stable_const True) hw trivial fun identity w hw _ => ?_
      cases identity with
      | none => exact stowing_fail hw
      | some => exact keeping_pure hw trivial
  · exact keeping_pure hw trivial

theorem stowing_deleteTransferFiles (h : Stowed w) :
    Stowing (deleteTransferFiles md4 job ids) w fun _ _ => True := by
  refine Keeping.bind (Q := fun found w => w.transfer = found ∧ (found = none → Settled w))
    (stowing_atomic (stable_const True) h trivial fun w hw _ => ⟨hw, rfl, fun hnone => ?_⟩)
    fun found w hw hfound => ?_
  · exact hw.settled_of_none (by rw [show w.transfer = none from hnone]; rfl)
  cases found with
  | none =>
    refine stowing_look (stable_settled _) hw (hfound.2 rfl) fun present w hw hsettled => ?_
    split
    · exact (stowing_removeDirAll hw hsettled).bind fun _ _ hw _ => keeping_pure hw trivial
    · exact keeping_pure hw trivial
  | some manifest =>
    dsimp only
    split
    · exact keeping_pure hw trivial
    · refine Keeping.bind (Q := fun _ _ => True) ?_ fun directory w hw _ => ?_
      · split
        · exact keeping_pure hw trivial
        · next hopen =>
          exact stowing_prepareTransferDirectoryDeletionAuthority job
            (Bool.eq_false_iff.mpr hopen) hw hfound.1
      have hrequest : Stowing (requestTransferDeletion job directory) w fun _ => Unfinished := by
        refine stowing_transact (stable_const True) hw trivial fun w _ w' hw _ hstep => ?_
        split at hstep
        · cases hstep
        · next row hrow =>
          cases hstep
          have hrequested : ∀ row', row'.deleteRequested = true →
              Requested { w with cleaned := false, transfer := some row' } := by
            rintro row' htrue _ ⟨rfl⟩
            exact htrue
          refine ⟨hw.of_eq rfl rfl ?_ (fun _ => hrequested _ rfl) nofun, rfl, hrequested _ rfl⟩
          rw [hrow]
          rfl
      refine hrequest.bind fun _ w hw hunfinished => ?_
      refine (stowing_discardDeliveryAttemptForDeletion md4 job hw hunfinished).bind
        fun attempted w hw hunfinished => ?_
      exact (stowing_completeTransferDeletion md4 job hw hunfinished).ret

end

/-! ## Runs -/

/-- Before the first deletion. -/
structure NothingAside (w : World) : Prop where
  inUse : w.fs.InUse
  renamed : w.renamed = []

def IsDeletion (call : Call) (_ : World) : Prop := call matches .delete _

instance (call : Call) (w : World) : Decidable (IsDeletion call w) :=
  inferInstanceAs (Decidable (_ = true))

/-- What one deletion keeps, wherever it stops. -/
theorem stowing_program {md4 : Md4} {job : DeliveryJob} {call : Call} {w : World}
    (h : Stowed w) (hcall : IsDeletion call w) :
    Stowing (call.program md4 job) w fun _ _ => True := by
  cases call with
  | materialize | recover => cases hcall
  | delete => exact (stowing_deleteTransferFiles md4 job h).ret

/-- **Nothing a deletion moved aside is stranded**, as long as nobody puts a file at the original
    path while something stands aside: when the cleanup of the output has returned, and when the
    transfer has been forgotten, nothing that was renamed stands where it was renamed to. -/
theorem nothing_stranded (md4 : Md4) (job : DeliveryJob) (w : World)
    (hw : NothingAside w) (events : List (Event Call Action))
    (h : Run.Along (machine md4 job).step (Machine.Permitted IsDeletion LeavesOriginal) ⟨w, none⟩
      events) :
    let final := (Run.run (machine md4 job).step ⟨w, none⟩ events).world
    final.cleaned = true ∨ final.transfer = none →
      ∀ entry ∈ final.renamed, final.fs.find entry.2 ≠ some entry.1 := by
  intro final hfinal entry hentry
  have hsettled : Settled w := by
    rw [Settled, hw.renamed]
    nofun
  obtain ⟨-, hstowed⟩ := (machine md4 job).lawful_run stable_stowed
    (fun w hw => hw.of_eq rfl rfl rfl (fun h => h) nofun) (fun _ => stable_const True)
    (fun _ => stable_const True)
    (fun call w hw hcall => stowing_program hw hcall) (hsettled.stowed hw.inUse) h
  obtain hdone | hgone := hfinal
  · exact (hstowed.cleaned hdone entry hentry).2
  · exact (hstowed.settled_of_none (by rw [hgone]; rfl) entry hentry).2

namespace Sample

def delivered : World := (Run.run (machine md4 job).step ⟨world, none⟩ delivery).world

theorem nothingAside : NothingAside delivered :=
  ⟨inUse_of_entries (by decide +kernel), by decide +kernel⟩

/-- A deletion that is cut, an action of others, and the deletion after it. -/
def cutDeletion (action : Action) (steps : Nat) : List (Event Call Action) :=
  .call (.delete ids) :: List.replicate 17 .tick ++
    [.crash, .other action, .call (.delete ids)] ++ List.replicate steps .tick

end Sample

/-- A new file beside the output does not keep the retry from finding what was moved. -/
theorem nothing_stranded_retried :
    let final := (Run.run (machine md4 job).step ⟨delivered, none⟩
      (cutDeletion (.create ⟨inDir, "b.txt"⟩ .regular [9]) 55)).world
    final.transfer = none ∧ ∀ entry ∈ final.renamed, final.fs.find entry.2 ≠ some entry.1 :=
  ⟨by decide +kernel,
    nothing_stranded md4 job delivered nothingAside
      (cutDeletion (.create ⟨inDir, "b.txt"⟩ .regular [9]) 55) (by decide +kernel)
      (.inr (by decide +kernel))⟩

/-- **A new file at the original path strands what was moved**: the retry preserves it
    and is done. -/
theorem replacement_strands_output :
    ¬∀ (md4 : Md4) (job : DeliveryJob) (w : World), NothingAside w →
      ∀ events,
        Run.Along (machine md4 job).step (Machine.Permitted IsDeletion fun _ _ => True) ⟨w, none⟩
          events →
        let final := (Run.run (machine md4 job).step ⟨w, none⟩ events).world
        final.cleaned = true ∨ final.transfer = none →
          ∀ entry ∈ final.renamed, final.fs.find entry.2 ≠ some entry.1 := by
  intro h
  have hstranded := h md4 job delivered nothingAside
    (cutDeletion (.create target .regular [9]) 10) (by decide +kernel)
    (.inl (by decide +kernel)) (2, ⟨inDir, tombstoneName (ids 3)⟩) (by decide +kernel)
  exact hstranded (by decide +kernel)

end EmuleBB.Delivery
