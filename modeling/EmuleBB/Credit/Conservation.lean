import Mathlib
import EmuleBB.Credit.Ledger

/-!
# No credit is lost or made

Bytes of credit live in three places: in the database, in the ledger, and with the holder of the
gate. **The total of the three changes only by what is added**, up to the cap of a database column,
except where credit is removed on purpose. Two steps lose credit that nobody asked to remove: a
settling commit that fails, and a flush that commits a file the database has no row for.
-/

namespace EmuleBB.Credit

open Counters ParkedCreditLedger Capped

open Capped (CutAt)

/-! ## Where credit is -/

/-- One number that is kept: what went to a peer, what came from one, or what a file has sent. -/
inductive Account
  | uploaded (user : UserHash)
  | downloaded (user : UserHash)
  | file (file : Md4Digest)
  deriving DecidableEq

def Account.ofUser (account : Account) (user : UserHash) : Bool :=
  match account with
  | .uploaded u => u = user
  | .downloaded u => u = user
  | .file _ => false

def batchAmount (peers : ParkedPeerDeltas) (files : ParkedFileDeltas) : Account → Nat
  | .uploaded user => (peers.amount user).1.val
  | .downloaded user => (peers.amount user).2.val
  | .file file => (files.amount file).val

def GateHolder.amount : GateHolder → Account → Nat
  | .flush peers files => batchAmount peers files
  | .failed peers files => batchAmount peers files
  | .settle user delta => batchAmount (AList.singleton user delta) ∅

namespace MetadataStore

def persisted (db : MetadataStore) : Account → Nat
  | .uploaded user => ((db.peers user).getD .empty).uploadedBytes.val
  | .downloaded user => ((db.peers user).getD .empty).downloadedBytes.val
  | .file file => ((db.knownFiles file).getD 0).val

def hasRowFor (db : MetadataStore) : Account → Bool
  | .file file => (db.knownFiles file).isSome
  | _ => true

end MetadataStore

namespace CreditSystem

def parked (s : CreditSystem) (account : Account) : Nat :=
  batchAmount s.ledger.peers s.ledger.files account

def inFlight (s : CreditSystem) (account : Account) : Nat :=
  match s.gate with
  | none => 0
  | some holder => holder.amount account

/-- Persisted, in flight and parked. -/
def total (s : CreditSystem) (account : Account) : Nat :=
  s.db.persisted account + (s.inFlight account + s.parked account)

end CreditSystem

def CreditEvent.added : CreditEvent → Account → Nat
  | .addPeer user uploaded downloaded _, account =>
    match account with
    | .uploaded u => if u = user then uploaded.val else 0
    | .downloaded u => if u = user then downloaded.val else 0
    | .file _ => 0
  | .addFile file delta _, account =>
    match account with
    | .file f => if f = file then delta.val else 0
    | _ => 0
  | _, _ => 0

/-- What the events credit the account with. -/
def added (events : List CreditEvent) (account : Account) : Nat :=
  (events.map fun e => e.added account).sum

/-- The event gives the account up on purpose. -/
def removesCredit (s : CreditSystem) (account : Account) : CreditEvent → Bool
  | .discard user => account.ofUser user
  | .upsertPeerCredit user _ _ => account.ofUser user
  | .pinVerifiedSecureIdent user _ => account.ofUser user && s.db.wipesOnPin user
  | _ => false

/-- The event loses what it took out of the ledger. -/
def losesCredit (s : CreditSystem) (account : Account) : CreditEvent → Bool
  | .settleCommit false =>
    match s.gate with
    | some (.settle user _) => account.ofUser user
    | _ => false
  | .flushCommit true => s.inFlight account ≠ 0 && !s.db.hasRowFor account
  | _ => false

/-! ## Batches -/

variable {user : UserHash} {account : Account} {peers : ParkedPeerDeltas} {files : ParkedFileDeltas}
  {ledger : ParkedCreditLedger} {delta : U64} {current : SqlInteger}

theorem batchAmount_merge (peers peers' : ParkedPeerDeltas) (files files' : ParkedFileDeltas)
    (account : Account) :
    CutAt i64Max (batchAmount (peers.merge peers') (files.merge files') account)
      (batchAmount peers files account + batchAmount peers' files' account) := by
  cases account with
  | uploaded | downloaded | file =>
    simp only [batchAmount, amount_merge]
    exact cutAt_val_add i64Max_le_u64Max _ _

theorem amount_singleton {delta : U64 × U64} {u : UserHash} :
    amount (AList.singleton user delta) u = if u = user then delta else 0 := by
  have hbump := amount_bump (∅ : ParkedPeerDeltas) user delta u
  simpa [bump] using hbump

theorem batchAmount_singleton_other (h : account.ofUser user = false)
    (delta : U64 × U64) : batchAmount (AList.singleton user delta) ∅ account = 0 := by
  cases account with
  | uploaded u | downloaded u =>
    simp [batchAmount, amount_singleton, show u ≠ user by simpa [Account.ofUser] using h]
  | file => rfl

theorem batchAmount_erase_other (h : account.ofUser user = false)
    (peers : ParkedPeerDeltas) (files : ParkedFileDeltas) :
    batchAmount (peers.erase user) files account = batchAmount peers files account := by
  cases account with
  | uploaded u | downloaded u =>
    simp [batchAmount, amount_erase, show u ≠ user by simpa [Account.ofUser] using h]
  | file => rfl

theorem batchAmount_erase_le :
    batchAmount (peers.erase user) files account ≤ batchAmount peers files account := by
  cases account with
  | uploaded | downloaded =>
    simp only [batchAmount, amount_erase]
    split <;> simp
  | file => exact Nat.le_refl _

theorem batchAmount_erase {delta : U64 × U64}
    (h : peers.lookup user = some delta) (files : ParkedFileDeltas) (account : Account) :
    batchAmount (AList.singleton user delta) ∅ account +
        batchAmount (peers.erase user) files account =
      batchAmount peers files account := by
  have hamount := amount_of_lookup h
  cases account with
  | uploaded u | downloaded u =>
    simp only [batchAmount, amount_singleton, amount_erase]
    by_cases hu : u = user
    · simp [hu, hamount]
    · simp [hu]
  | file => simp [batchAmount]

/-! ## Commits -/

theorem addToColumn_cutAt :
    CutAt i64Max (addToColumn current delta).val (current.val + delta.val) := by
  have hcap := i64Max_le_u64Max
  simp only [CutAt, addToColumn, u64ToI64Saturating, val_ofNat, val_add]
  omega

theorem addToCounter_cutAt :
    CutAt i64Max (addToCounter current delta).val (current.val + delta.val) := by
  have hle := current.le
  simp only [CutAt, addToCounter, u64ToI64Saturating, val_ofNat]
  omega

namespace MetadataStore

variable {db : MetadataStore}

def bumpRow (delta : U64 × U64) (row : Option PeerRow) : Option PeerRow :=
  some { row.getD .empty with
    uploadedBytes := addToColumn (row.getD .empty).uploadedBytes delta.1
    downloadedBytes := addToColumn (row.getD .empty).downloadedBytes delta.2 }

theorem peers_applyCreditDeltas :
    (db.applyCreditDeltas peers files).peers user =
      (peers.lookup user).elim (db.peers user) fun delta => bumpRow delta (db.peers user) := by
  have hfiles := @Keyed.proj_foldl Md4Digest U64 _ _ MetadataStore.peers applyFileDelta
    (fun _ _ _ => rfl) files.entries
    (peers.entries.foldl (fun db e => db.applyPeerDelta e.1 e.2) db)
  refine (congrFun hfiles user).trans ?_
  refine @Keyed.get_foldl UserHash (U64 × U64) _ _ _ MetadataStore.peers applyPeerDelta bumpRow
    (fun db k delta k' => ?_) peers.entries peers.nodupKeys db user
  exact Function.update_apply _ _ _ _

theorem knownFiles_applyCreditDeltas {file : Md4Digest} :
    (db.applyCreditDeltas peers files).knownFiles file =
      (files.lookup file).elim (db.knownFiles file) fun delta =>
        (db.knownFiles file).map fun current => addToCounter current delta := by
  have hpeers := @Keyed.proj_foldl UserHash (U64 × U64) _ _ MetadataStore.knownFiles applyPeerDelta
    (fun _ _ _ => rfl) peers.entries db
  refine (@Keyed.get_foldl Md4Digest U64 _ _ _ MetadataStore.knownFiles applyFileDelta
    (fun delta row => row.map fun current => addToCounter current delta)
    (fun db k delta k' => Function.update_apply _ _ _ _) files.entries files.nodupKeys
    (peers.entries.foldl (fun db e => db.applyPeerDelta e.1 e.2) db) file).trans ?_
  rw [hpeers]
  rfl

/-- **A commit adds the batch to the database**, as far as there are rows for it. -/
theorem persisted_applyCreditDeltas (db : MetadataStore) (peers : ParkedPeerDeltas)
    (files : ParkedFileDeltas) (account : Account)
    (hrow : db.hasRowFor account = true ∨ batchAmount peers files account = 0) :
    CutAt i64Max ((db.applyCreditDeltas peers files).persisted account)
      (db.persisted account + batchAmount peers files account) := by
  cases account with
  | uploaded user | downloaded user =>
    simp only [persisted, batchAmount, peers_applyCreditDeltas, amount]
    cases peers.lookup user with
    | none => exact CutAt.refl _ _
    | some => exact addToColumn_cutAt
  | file file =>
    simp only [persisted, batchAmount, knownFiles_applyCreditDeltas, amount] at hrow ⊢
    cases hdelta : files.lookup file with
    | none => exact CutAt.refl _ _
    | some delta =>
      cases hfile : db.knownFiles file with
      | some => exact addToCounter_cutAt
      | none =>
        -- without a row nothing is added, so there must have been nothing to add
        rcases hrow with hrow | hzero
        · exact absurd hrow (by simp [hasRowFor, hfile])
        · rw [hdelta] at hzero
          have hnone : delta.val = 0 := hzero
          show CutAt i64Max 0 (0 + delta.val)
          rw [hnone]
          exact CutAt.refl _ _

/-- A write to one peer's row is not seen by other accounts. -/
theorem persisted_update_other {user : UserHash}
    (h : account.ofUser user = false) (db : MetadataStore) (row : Option PeerRow) :
    persisted { db with peers := Function.update db.peers user row } account =
      db.persisted account := by
  cases account with
  | uploaded u | downloaded u =>
    have hne : u ≠ user := by simpa [Account.ofUser] using h
    simp only [persisted, Function.update_of_ne hne]
  | file => rfl

theorem persisted_pin {user : UserHash} (db : MetadataStore)
    (h : (account.ofUser user && db.wipesOnPin user) = false) (key : List UInt8) :
    (db.pinVerifiedSecureIdent user key).persisted account = db.persisted account := by
  cases hother : account.ofUser user with
  | false =>
    simp only [pinVerifiedSecureIdent]
    split
    · rfl
    · split
      · exact persisted_update_other hother db _
      · exact persisted_update_other hother db _
  | true =>
    have hwipe : db.wipesOnPin user = false := by simpa [hother] using h
    simp only [pinVerifiedSecureIdent, hwipe, Bool.false_eq_true, if_false]
    split
    · rfl
    · cases account with
      | uploaded u | downloaded u =>
        obtain rfl : u = user := by simpa [Account.ofUser] using hother
        simp [persisted]
      | file => rfl

end MetadataStore

/-! ## Steps -/

theorem batchAmount_addPeer {uploaded downloaded : U64} {now : Nat} :
    CutAt i64Max
      (batchAmount (ledger.addPeerCreditDelta user uploaded downloaded now).1.peers
        (ledger.addPeerCreditDelta user uploaded downloaded now).1.files account)
      (batchAmount ledger.peers ledger.files account +
        (CreditEvent.addPeer user uploaded downloaded now).added account) := by
  unfold addPeerCreditDelta
  split
  · rename_i hzero
    obtain ⟨rfl, rfl⟩ := hzero
    cases account <;> simp [batchAmount, CreditEvent.added, CutAt]
  · cases account with
    | uploaded u | downloaded u =>
      simp only [batchAmount, CreditEvent.added, amount_bump]
      by_cases hu : u = user
      · rw [if_pos hu, if_pos hu, hu]
        exact cutAt_val_add i64Max_le_u64Max _ _
      · rw [if_neg hu, if_neg hu]
        exact CutAt.refl _ _
    | file => exact CutAt.refl _ _

theorem batchAmount_addFile {file : Md4Digest} {now : Nat} :
    CutAt i64Max
      (batchAmount (ledger.addFileAllTimeUploaded file delta now).1.peers
        (ledger.addFileAllTimeUploaded file delta now).1.files account)
      (batchAmount ledger.peers ledger.files account +
        (CreditEvent.addFile file delta now).added account) := by
  unfold addFileAllTimeUploaded
  split
  · rename_i hzero
    subst hzero
    cases account <;> simp [batchAmount, CreditEvent.added, CutAt]
  · cases account with
    | uploaded | downloaded => exact CutAt.refl _ _
    | file f =>
      simp only [batchAmount, CreditEvent.added, amount_bump]
      by_cases hf : f = file
      · rw [if_pos hf, if_pos hf, hf]
        exact cutAt_val_add i64Max_le_u64Max _ _
      · rw [if_neg hf, if_neg hf]
        exact CutAt.refl _ _

namespace CreditSystem

variable {s : CreditSystem} {e : CreditEvent} {s' : CreditSystem}

def pending (s : CreditSystem) (account : Account) : Nat := s.inFlight account + s.parked account

structure StepBalance (s s' : CreditSystem) (e : CreditEvent) (account : Account) : Prop where
  /-- Nothing but an add makes pending credit. -/
  pending_le : s'.pending account ≤ s.pending account + e.added account
  /-- Nothing is lost where nothing is meant to be removed. -/
  total : removesCredit s account e = false → losesCredit s account e = false →
    CutAt i64Max (s'.total account) (s.total account + e.added account)

theorem StepBalance.of_pending
    (hdb : s'.db.persisted account = s.db.persisted account)
    (h : CutAt i64Max (s'.pending account) (s.pending account + e.added account)) :
    StepBalance s s' e account := by
  refine ⟨h.1, fun _ _ => ?_⟩
  show CutAt i64Max (s'.db.persisted account + s'.pending account)
    (s.db.persisted account + s.pending account + e.added account)
  rw [hdb, Nat.add_assoc]
  exact (CutAt.refl _ _).add h

theorem StepBalance.same (s : CreditSystem) (hadd : e.added account = 0) :
    StepBalance s s e account := by
  refine .of_pending rfl ?_
  rw [hadd]
  exact CutAt.refl _ _

theorem StepBalance.of_removed (hle : s'.pending account ≤ s.pending account)
    (hsame : removesCredit s account e = false → losesCredit s account e = false →
      s'.pending account = s.pending account ∧
        s'.db.persisted account = s.db.persisted account) (hadd : e.added account = 0) :
    StepBalance s s' e account := by
  refine ⟨Nat.le_trans hle (Nat.le_add_right _ _), fun hremove hlose => ?_⟩
  obtain ⟨hpending, hdb⟩ := hsame hremove hlose
  show CutAt i64Max (s'.db.persisted account + s'.pending account)
    (s.db.persisted account + s.pending account + e.added account)
  rw [hpending, hdb, hadd]
  exact CutAt.refl _ _

theorem StepBalance.of_commit {holder : GateHolder} (hgate : s.gate = some holder)
    (hbatch : holder.amount account = batchAmount peers files account) (hadd : e.added account = 0)
    (hrow : losesCredit s account e = false →
      s.db.hasRowFor account = true ∨ batchAmount peers files account = 0) :
    StepBalance s { s with gate := none, db := s.db.applyCreditDeltas peers files } e account := by
  have hflight : s.inFlight account = batchAmount peers files account := by
    rw [← hbatch, inFlight, hgate]
  refine ⟨?_, fun _ hlose => ?_⟩
  · show 0 + s.parked account ≤ s.inFlight account + s.parked account + e.added account
    omega
  · have hcommit := s.db.persisted_applyCreditDeltas peers files account (hrow hlose)
    show CutAt i64Max
      ((s.db.applyCreditDeltas peers files).persisted account + (0 + s.parked account))
      (s.db.persisted account + (s.inFlight account + s.parked account) + e.added account)
    rw [hflight, hadd, Nat.add_zero, Nat.zero_add, ← Nat.add_assoc]
    exact hcommit.add (CutAt.refl _ _)

/-- **Every step keeps the balance.** -/
theorem stepBalance (s : CreditSystem) (e : CreditEvent) (account : Account) :
    StepBalance s (creditStep s e) e account := by
  cases e with
  | addPeer user uploaded downloaded now =>
    refine .of_pending rfl ?_
    rw [pending, pending, Nat.add_assoc]
    exact (CutAt.refl _ _).add batchAmount_addPeer
  | addFile file delta now =>
    refine .of_pending rfl ?_
    rw [pending, pending, Nat.add_assoc]
    exact (CutAt.refl _ _).add batchAmount_addFile
  | flushDrain =>
    simp only [creditStep]
    split
    · exact .same s rfl
    · rename_i hgate
      split
      · exact .same s rfl
      · -- the drained batch is what was parked, and nothing stays parked
        refine .of_pending rfl ?_
        have hempty : batchAmount ∅ ∅ account = 0 := by cases account <;> simp [batchAmount]
        simp only [pending, inFlight, hgate, parked, drain, GateHolder.amount,
          CreditEvent.added, hempty, Nat.zero_add, Nat.add_zero]
        exact CutAt.refl _ _
  | flushCommit =>
    simp only [creditStep]
    split
    · rename_i peers files hgate
      split
      · refine .of_commit hgate rfl rfl fun hlose => ?_
        simp only [losesCredit, inFlight, hgate, GateHolder.amount] at hlose
        by_cases hzero : batchAmount peers files account = 0
        · exact .inr hzero
        · exact .inl (by simp_all)
      · refine .of_pending rfl ?_
        simp only [pending, inFlight, hgate]
        exact CutAt.refl _ _
    · exact .same s rfl
  | flushRestore =>
    simp only [creditStep]
    split
    · rename_i peers files hgate
      refine .of_pending rfl ?_
      have hmerge := batchAmount_merge s.ledger.peers peers s.ledger.files files account
      simp only [pending, inFlight, hgate, parked, restore, GateHolder.amount,
        CreditEvent.added, Nat.zero_add, Nat.add_zero]
      rw [Nat.add_comm (batchAmount peers files account)]
      exact hmerge
    · exact .same s rfl
  | settleTake =>
    simp only [creditStep]
    split
    · exact .same s rfl
    · rename_i hgate
      split
      · exact .same s rfl
      · rename_i delta hdelta
        refine .of_pending rfl ?_
        have hsplit := batchAmount_erase hdelta s.ledger.files account
        simp only [pending, inFlight, hgate, parked, GateHolder.amount, CreditEvent.added, hsplit,
          Nat.zero_add, Nat.add_zero]
        exact CutAt.refl _ _
  | settleCommit ok =>
    simp only [creditStep]
    split
    · rename_i user delta hgate
      cases ok with
      | true =>
        refine .of_commit hgate rfl rfl fun _ => ?_
        cases account with
        | uploaded | downloaded => exact .inl rfl
        | file => exact .inr rfl
      | false =>
        refine .of_removed ?_ (fun _ hlose => ⟨?_, rfl⟩) rfl
        · simp [pending, inFlight, parked]
        · have hother : account.ofUser user = false := by
            simpa [losesCredit, hgate] using hlose
          simp [pending, inFlight, parked, hgate, GateHolder.amount,
            batchAmount_singleton_other hother]
    · exact .same s rfl
  | discard user =>
    simp only [creditStep]
    split
    · exact .same s rfl
    · rename_i hgate
      refine .of_removed ?_ (fun hremove _ => ⟨?_, rfl⟩) rfl
      · simpa [pending, inFlight, parked, hgate] using
          batchAmount_erase_le
      · simp [pending, inFlight, parked, hgate, batchAmount_erase_other hremove]
  | upsertPeerCredit =>
    refine .of_removed (Nat.le_refl _) (fun hremove _ => ⟨rfl, ?_⟩) rfl
    exact s.db.persisted_update_other hremove _
  | pinVerifiedSecureIdent user key =>
    refine .of_removed (Nat.le_refl _) (fun hremove _ => ⟨rfl, ?_⟩) rfl
    exact s.db.persisted_pin hremove key

theorem total_after {events : List CreditEvent} (hrun : Run.Along creditStep
      (fun s e => removesCredit s account e = false ∧ losesCredit s account e = false) s events) :
    CutAt i64Max ((s.after events).total account) (s.total account + added events account) := by
  induction events generalizing s with
  | nil => exact CutAt.refl _ _
  | cons e events ih =>
    obtain ⟨⟨hremove, hlose⟩, hrest⟩ := hrun
    have hstep := (s.stepBalance e account).total hremove hlose
    have hadded : added (e :: events) account = e.added account + added events account := rfl
    rw [hadded, ← Nat.add_assoc]
    exact (ih hrest).trans (hstep.add (CutAt.refl _ _))

/-- Pending credit never grows by more than what is added. -/
theorem pending_after_le (s : CreditSystem) (events : List CreditEvent) (account : Account) :
    (s.after events).pending account ≤ s.pending account + added events account := by
  induction events generalizing s with
  | nil => exact Nat.le_refl _
  | cons e events ih =>
    have hstep := (s.stepBalance e account).pending_le
    have hrest := ih (creditStep s e)
    have hadded : added (e :: events) account = e.added account + added events account := rfl
    exact Nat.le_trans hrest (by omega)

end CreditSystem

/-- **Credit is conserved.** Through adds, flushes and settlements in any order, with commits that
    succeed or fail, all credit of an account is what there was and what was added, as far as a
    database column can count. -/
theorem credit_conserved (s : CreditSystem) (events : List CreditEvent) (account : Account)
    (hrun : Run.Along creditStep
      (fun s e => removesCredit s account e = false ∧ losesCredit s account e = false) s events) :
    min ((s.after events).total account) i64Max =
      min (s.total account + added events account) i64Max :=
  (CreditSystem.total_after hrun).min_eq

/-! ## One peer -/

section OnePeer

def onePeer : UserHash := Vector.replicate 16 0x5A

def freshCredit : CreditSystem := ⟨.new 0, none, ⟨fun _ => none, fun _ => none⟩⟩

def addThousand : CreditEvent :=
  .addPeer onePeer (ofNat u64Max 1000) (ofNat u64Max 2000) 0

def retriedFlush : List CreditEvent :=
  [addThousand, .flushDrain 60, .flushCommit false, addThousand, .flushRestore, .flushDrain 120,
    .flushCommit true]

/-- A flush that fails, is restored and tried again. -/
theorem credit_conserved_retried_flush : Run.Along creditStep
        (fun s e => removesCredit s (.uploaded onePeer) e = false ∧
          losesCredit s (.uploaded onePeer) e = false) freshCredit retriedFlush ∧
      min ((freshCredit.after retriedFlush).total (.uploaded onePeer)) i64Max =
        min (freshCredit.total (.uploaded onePeer) + added retriedFlush (.uploaded onePeer))
          i64Max := by
  have hrun : Run.Along creditStep
      (fun s e => removesCredit s (.uploaded onePeer) e = false ∧
        losesCredit s (.uploaded onePeer) e = false) freshCredit retriedFlush := by
    decide +kernel
  exact ⟨hrun, credit_conserved freshCredit retriedFlush (.uploaded onePeer) hrun⟩

/-- **A settling commit that fails loses the delta.** It was taken out of the ledger, it is not in
    the database, and the error path does not put it back. -/
theorem failed_settle_loses_credit :
    let events := [addThousand, .settleTake onePeer, .settleCommit false]
    Run.Along creditStep (fun s e => removesCredit s (.uploaded onePeer) e = false) freshCredit
        events ∧
      min ((freshCredit.after events).total (.uploaded onePeer)) i64Max ≠
        min (freshCredit.total (.uploaded onePeer) + added events (.uploaded onePeer)) i64Max := by
  decide +kernel

end OnePeer

end EmuleBB.Credit
