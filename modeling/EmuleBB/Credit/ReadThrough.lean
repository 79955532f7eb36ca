import EmuleBB.Credit.Conservation

/-!
# Reading credit while it moves

A score reads the stored row first and the parked delta second, with nothing held in between.
**It never counts a delta twice**: what it finds parked was not in the row yet. It can miss one:
a flush that commits between the two reads moves the delta from where it is still to be looked for
to where it has been looked for already. A row read that fails counts as a peer without a row.
-/

namespace EmuleBB.Credit

open CreditSystem

open Capped (CutAt)

/-- The totals `peer_credit_score_permille` scores, from the row and the parked delta it read;
    `none` where it falls back to the neutral score. -/
def scoreInputs (stored : Option PeerRow) (parked : U64 × U64) : Option (U64 × U64) :=
  if stored.isNone ∧ parked = 0 then none
  else
    let row := stored.getD .empty
    some (Capped.ofNat u64Max row.uploadedBytes.val + parked.1,
      Capped.ofNat u64Max row.downloadedBytes.val + parked.2)

/-- The two reads of a score: the row in one state, the parked delta in a later one. `rowRead` is
    whether the query of the row succeeds; the score drops its error (`.ok().flatten()`). -/
def readTotal (before after : CreditSystem) (rowRead : Bool) (user : UserHash) : U64 × U64 :=
  let stored := (if rowRead then some (before.db.peers user) else none).join
  (scoreInputs stored (after.ledger.parkedPeerCreditDelta user)).getD (0, 0)

/-- Uploads, downloads and flushes, and nothing that rewrites a row. -/
def CreditEvent.isTraffic : CreditEvent → Bool
  | .addPeer .. => true
  | .addFile .. => true
  | .flushDrain _ => true
  | .flushCommit _ => true
  | .flushRestore => true
  | _ => false

/-- A flush commits something of the peer. -/
def commitsDelta (s : CreditSystem) (user : UserHash) : CreditEvent → Bool
  | .flushCommit true => s.inFlight (.uploaded user) ≠ 0 || s.inFlight (.downloaded user) ≠ 0
  | _ => false

/-- The read adds what it saw of the row to what it saw parked, in that order. -/
theorem readTotal_val (before after : CreditSystem) (user : UserHash) :
    (readTotal before after true user).1.val =
        min (before.db.persisted (.uploaded user) + after.parked (.uploaded user)) u64Max ∧
      (readTotal before after true user).2.val =
        min (before.db.persisted (.downloaded user) + after.parked (.downloaded user)) u64Max := by
  simp only [readTotal, if_true, Option.join_some]
  unfold scoreInputs ParkedCreditLedger.parkedPeerCreditDelta
  split
  · rename_i hnone
    obtain ⟨hrow, hparked⟩ := hnone
    rw [Option.isNone_iff_eq_none] at hrow
    simp [MetadataStore.persisted, parked, batchAmount, hrow, hparked, PeerRow.empty]
  · simp only [Option.getD_some, Capped.val_add, Capped.val_ofNat, MetadataStore.persisted,
      parked, batchAmount]
    constructor <;> omega

/-! ## While the read is under way -/

def Account.OfPeer (account : Account) (user : UserHash) : Prop :=
  account = .uploaded user ∨ account = .downloaded user

section

variable {account : Account} {user : UserHash} {s : CreditSystem} {e : CreditEvent}

section

variable (haccount : account.OfPeer user) {events : List CreditEvent}

include haccount

theorem traffic_keeps_credit (htraffic : e.isTraffic = true) :
    removesCredit s account e = false ∧ losesCredit s account e = false := by
  have hrow : s.db.hasRowFor account = true := by
    rcases haccount with rfl | rfl <;> rfl
  cases e with
  | addPeer | addFile | flushDrain | flushRestore => exact ⟨rfl, rfl⟩
  | flushCommit ok =>
    cases ok with
    | false => exact ⟨rfl, rfl⟩
    | true => exact ⟨rfl, by simp [losesCredit, hrow]⟩
  | settleTake | settleCommit | discard | upsertPeerCredit | pinVerifiedSecureIdent =>
    exact absurd htraffic (by simp [CreditEvent.isTraffic])

theorem persisted_le (db : MetadataStore) : db.persisted account ≤ i64Max := by
  rcases haccount with rfl | rfl
  · exact ((db.peers user).getD .empty).uploadedBytes.le
  · exact ((db.peers user).getD .empty).downloadedBytes.le

theorem persisted_traffic (htraffic : e.isTraffic = true)
    (hcommit : commitsDelta s user e = false) :
    (creditStep s e).db.persisted account = s.db.persisted account := by
  cases e with
  | addPeer | addFile => rfl
  | flushDrain =>
    simp only [creditStep]
    split
    · rfl
    · split <;> rfl
  | flushRestore =>
    simp only [creditStep]
    split <;> rfl
  | flushCommit ok =>
    simp only [creditStep]
    split
    · rename_i peers files hgate
      cases ok with
      | false => rfl
      | true =>
        -- the batch holds nothing for the account, and a row is never above the cap
        have hzero : batchAmount peers files account = 0 := by
          simp only [commitsDelta, inFlight, hgate, GateHolder.amount] at hcommit
          rcases haccount with rfl | rfl
          · simp_all
          · simp_all
        obtain ⟨hle, hge⟩ := s.db.persisted_applyCreditDeltas peers files account (.inr hzero)
        have hcap := persisted_le haccount s.db
        show (s.db.applyCreditDeltas peers files).persisted account = s.db.persisted account
        omega
    · rfl
  | settleTake | settleCommit | discard | upsertPeerCredit | pinVerifiedSecureIdent =>
    exact absurd htraffic (by simp [CreditEvent.isTraffic])

theorem persisted_after
    (hrun : Run.Along creditStep
      (fun s e => e.isTraffic = true ∧ commitsDelta s user e = false) s events) :
    (s.after events).db.persisted account = s.db.persisted account :=
  @Run.Along.invariant _ _ _ _ _ _ (fun s' => s'.db.persisted account = s.db.persisted account)
    (fun _ _ hinv h => (persisted_traffic haccount h.1 h.2).trans hinv) hrun rfl

theorem along_traffic (h : ∀ e ∈ events, e.isTraffic = true) :
    Run.Along creditStep
      (fun s e => removesCredit s account e = false ∧ losesCredit s account e = false)
        s events := by
  induction events generalizing s with
  | nil => trivial
  | cons e events ih =>
    exact ⟨traffic_keeps_credit haccount (h e List.mem_cons_self),
      ih fun e' he' => h e' (List.mem_cons_of_mem _ he')⟩

end

/-- **No delta is counted twice**, whatever happens between the two reads: what is found parked at
    the second was pending at the first, or was added since. -/
theorem row_add_parked_le (s : CreditSystem) (during : List CreditEvent) (account : Account) :
    s.db.persisted account + (s.after during).parked account ≤
      s.total account + added during account := by
  have hpending := s.pending_after_le during account
  have hparked : (s.after during).parked account ≤ (s.after during).pending account :=
    Nat.le_add_left _ _
  show _ ≤ s.db.persisted account + s.pending account + added during account
  omega

theorem read_bounds {before during : List CreditEvent} (haccount : account.OfPeer user)
    (hbefore : ∀ e ∈ before, e.isTraffic = true)
    (hduring : Run.Along creditStep
      (fun s e => e.isTraffic = true ∧ commitsDelta s user e = false) (s.after before) during)
    (hidle : ((s.after before).after during).inFlight account = 0) :
    min (s.total account + added before account) i64Max ≤
        (s.after before).db.persisted account +
          ((s.after before).after during).parked account ∧
      (s.after before).db.persisted account + ((s.after before).after during).parked account ≤
        s.total account + added (before ++ during) account := by
  have hrow := persisted_after haccount hduring
  have hstart : CutAt i64Max ((s.after before).total account)
      (s.total account + added before account) :=
    total_after (along_traffic haccount hbefore)
  have hconserved : CutAt i64Max (((s.after before).after during).total account)
      ((s.after before).total account + added during account) :=
    total_after
      (hduring.mono fun s e h => traffic_keeps_credit haccount h.1)
  -- nothing is in flight at the second read, so row and ledger are all there is
  have hall : ((s.after before).after during).total account =
      (s.after before).db.persisted account + ((s.after before).after during).parked account := by
    rw [total, hidle, hrow, Nat.zero_add]
  obtain ⟨hle, hge⟩ := hstart
  obtain ⟨-, hge'⟩ := hconserved
  have honce := row_add_parked_le (s.after before) during account
  have hadded : added (before ++ during) account = added before account + added during account := by
    simp [added]
  constructor <;> omega

end

/-- **A read sees every delta once.** Adds and flushes of other threads come in before the read and
    between its two steps. If the row read succeeds, none of them commits a delta of the peer
    between the two steps, and none of it is in flight at the second, the totals scored are at least
    everything credited before the read began and at most everything credited before it ended. -/
theorem read_through_complete (s : CreditSystem) (before during : List CreditEvent)
    (user : UserHash) (rowRead : Bool) (hread : rowRead = true)
    (hbefore : ∀ e ∈ before, e.isTraffic = true)
    (hduring : Run.Along creditStep
      (fun s e => e.isTraffic = true ∧ commitsDelta s user e = false) (s.after before) during)
    (hidle : ((s.after before).after during).inFlight (.uploaded user) = 0 ∧
      ((s.after before).after during).inFlight (.downloaded user) = 0) :
    let read := readTotal (s.after before) ((s.after before).after during) rowRead user
    (min (s.total (.uploaded user) + added before (.uploaded user)) i64Max ≤ read.1.val ∧
        read.1.val ≤ s.total (.uploaded user) + added (before ++ during) (.uploaded user)) ∧
      min (s.total (.downloaded user) + added before (.downloaded user)) i64Max ≤ read.2.val ∧
        read.2.val ≤ s.total (.downloaded user) + added (before ++ during) (.downloaded user) := by
  subst hread
  obtain ⟨hup, hdown⟩ := readTotal_val (s.after before) ((s.after before).after during) user
  have hupload := read_bounds (.inl rfl) hbefore hduring hidle.1
  have hdownload := read_bounds (.inr rfl) hbefore hduring hidle.2
  have hcap := i64Max_le_u64Max
  show (_ ∧ _) ∧ _ ∧ _
  refine ⟨⟨?_, ?_⟩, ?_, ?_⟩ <;> omega

/-- A flush fails between the two reads and its deltas are back in time. -/
theorem read_through_complete_restored :
    let before := [addThousand]
    let during := [.flushDrain 60, .flushCommit false, .flushRestore]
    let read := readTotal (freshCredit.after before) ((freshCredit.after before).after during)
      true onePeer
    (min (freshCredit.total (.uploaded onePeer) + added before (.uploaded onePeer)) i64Max ≤
          read.1.val ∧
        read.1.val ≤ freshCredit.total (.uploaded onePeer) +
          added (before ++ during) (.uploaded onePeer)) ∧
      min (freshCredit.total (.downloaded onePeer) + added before (.downloaded onePeer)) i64Max ≤
          read.2.val ∧
        read.2.val ≤ freshCredit.total (.downloaded onePeer) +
          added (before ++ during) (.downloaded onePeer) :=
  read_through_complete freshCredit [addThousand]
    [.flushDrain 60, .flushCommit false, .flushRestore]
    onePeer true rfl (by decide +kernel) (by decide +kernel) (by decide +kernel)

/-- **A read can miss a delta.** The row is read, the flush moves the delta into it, and the ledger
    is read: the delta is in neither. -/
theorem commit_between_reads_is_missed :
    let before := [addThousand]
    let during := [.flushDrain 60, .flushCommit true]
    (∀ e ∈ before ++ during, e.isTraffic = true) ∧
      ¬ added before (.uploaded onePeer) ≤
        (readTotal (freshCredit.after before) ((freshCredit.after before).after during)
          true onePeer).1.val := by
  decide +kernel

end EmuleBB.Credit
