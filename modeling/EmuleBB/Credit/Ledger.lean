import Mathlib.Algebra.Group.Prod
import EmuleBB.Lib.Capped
import EmuleBB.Lib.Run
import EmuleBB.Wire

/-!
# Parked credit

Upload and download bytes are credited in memory first: **deltas are parked** in
`ParkedCreditLedger` and moved to the database in one transaction. A flush drains the ledger under
the flush gate, commits, and puts the deltas back when the commit fails; settling one peer commits
its delta alone.

Taking the deltas out, the commit and the restore are separate steps, since only the gate is held
across them; adds take the ledger's own lock and come in anywhere.
-/

namespace EmuleBB.Credit

def i64Max : Nat := 2 ^ 63 - 1

theorem i64Max_le_u64Max : i64Max ≤ u64Max := by decide

abbrev U64 := Capped u64Max

abbrev SqlInteger := Capped i64Max

def parkedCreditFlushInterval : Nat := 60

/-! ## The ledger -/

abbrev ParkedPeerDeltas := Counters UserHash (U64 × U64)

abbrev ParkedFileDeltas := Counters Md4Digest U64

structure ParkedCreditLedger where
  peers : ParkedPeerDeltas
  files : ParkedFileDeltas
  lastFlushStarted : Nat

namespace ParkedCreditLedger

def new (now : Nat) : ParkedCreditLedger := ⟨∅, ∅, now⟩

def isEmpty (ledger : ParkedCreditLedger) : Bool :=
  ledger.peers.entries.isEmpty && ledger.files.entries.isEmpty

variable (ledger : ParkedCreditLedger)

def drain (now : Nat) : ParkedCreditLedger × ParkedPeerDeltas × ParkedFileDeltas :=
  (⟨∅, ∅, now⟩, ledger.peers, ledger.files)

def restore (peers : ParkedPeerDeltas) (files : ParkedFileDeltas) : ParkedCreditLedger :=
  { ledger with peers := ledger.peers.merge peers, files := ledger.files.merge files }

def flushDue (now : Nat) : Bool :=
  parkedCreditFlushInterval ≤ now - ledger.lastFlushStarted

/-- `add_peer_credit_delta`; the flag says whether a background flush is spawned. -/
def addPeerCreditDelta (user : UserHash) (uploadedDelta downloadedDelta : U64) (now : Nat) :
    ParkedCreditLedger × Bool :=
  if uploadedDelta = 0 ∧ downloadedDelta = 0 then (ledger, false)
  else
    ({ ledger with peers := ledger.peers.bump user (uploadedDelta, downloadedDelta) },
      ledger.flushDue now)

def addFileAllTimeUploaded (file : Md4Digest) (delta : U64) (now : Nat) :
    ParkedCreditLedger × Bool :=
  if delta = 0 then (ledger, false)
  else ({ ledger with files := ledger.files.bump file delta }, ledger.flushDue now)

def parkedPeerCreditDelta (user : UserHash) : U64 × U64 :=
  ledger.peers.amount user

end ParkedCreditLedger

/-! ## The database -/

structure PeerRow where
  uploadedBytes : SqlInteger
  downloadedBytes : SqlInteger
  secureIdentPubkey : List UInt8

def PeerRow.empty : PeerRow := ⟨0, 0, []⟩

structure MetadataStore where
  peers : UserHash → Option PeerRow
  knownFiles : Md4Digest → Option SqlInteger

def u64ToI64Saturating (x : U64) : SqlInteger := Capped.ofNat i64Max x.val

def addToColumn (current : SqlInteger) (delta : U64) : SqlInteger :=
  u64ToI64Saturating (Capped.ofNat u64Max current.val + delta)

/-- `all_time_uploaded_bytes + min(?2, 9223372036854775807 - all_time_uploaded_bytes)`. -/
def addToCounter (current : SqlInteger) (delta : U64) : SqlInteger :=
  ⟨current.val + min (u64ToI64Saturating delta).val (i64Max - current.val), by
    have hle := current.le
    omega⟩

namespace MetadataStore

variable (db : MetadataStore)

/-- One peer row of `apply_credit_deltas`; a missing row is inserted. -/
def applyPeerDelta (user : UserHash) (delta : U64 × U64) : MetadataStore :=
  let current := (db.peers user).getD .empty
  { db with
    peers := Function.update db.peers user
      (some { current with
        uploadedBytes := addToColumn current.uploadedBytes delta.1
        downloadedBytes := addToColumn current.downloadedBytes delta.2 }) }

/-- One file row of `apply_credit_deltas`: an `UPDATE`, so a missing row stays missing. -/
def applyFileDelta (file : Md4Digest) (delta : U64) : MetadataStore :=
  { db with
    knownFiles := Function.update db.knownFiles file
      ((db.knownFiles file).map fun current => addToCounter current delta) }

def applyCreditDeltas (peers : ParkedPeerDeltas) (files : ParkedFileDeltas) : MetadataStore :=
  files.entries.foldl (fun db e => db.applyFileDelta e.1 e.2)
    (peers.entries.foldl (fun db e => db.applyPeerDelta e.1 e.2) db)

def upsertPeerCredit (user : UserHash) (uploaded downloaded : U64) : MetadataStore :=
  let current := (db.peers user).getD .empty
  { db with
    peers := Function.update db.peers user
      (some { current with
        uploadedBytes := u64ToI64Saturating uploaded
        downloadedBytes := u64ToI64Saturating downloaded }) }

def wipesOnPin (user : UserHash) : Bool :=
  match db.peers user with
  | none => false
  | some row => row.secureIdentPubkey.isEmpty && 0 < row.downloadedBytes.val

/-- `pin_verified_secure_ident`: a bound key stays, and the first key wipes accrued credit down to
    one byte each way. -/
def pinVerifiedSecureIdent (user : UserHash) (key : List UInt8) : MetadataStore :=
  let current := (db.peers user).getD .empty
  if !current.secureIdentPubkey.isEmpty then db
  else if db.wipesOnPin user then
    { db with
      peers := Function.update db.peers user
        (some ⟨Capped.ofNat i64Max 1, Capped.ofNat i64Max 1, key⟩) }
  else
    { db with
      peers := Function.update db.peers user (some { current with secureIdentPubkey := key }) }

end MetadataStore

/-! ## The system -/

inductive GateHolder
  /-- A flush drained these deltas and has not committed them yet. -/
  | flush (peers : ParkedPeerDeltas) (files : ParkedFileDeltas)
  /-- The commit failed and the deltas are not back in the ledger yet. -/
  | failed (peers : ParkedPeerDeltas) (files : ParkedFileDeltas)
  /-- `settle_parked_peer_credit` took one peer's delta out. -/
  | settle (user : UserHash) (delta : U64 × U64)

/-- The parked deltas, who holds the gate of a flush with what, and the rows. -/
structure CreditSystem where
  ledger : ParkedCreditLedger
  gate : Option GateHolder
  db : MetadataStore

/-- A flag says whether a commit succeeds. Taking the gate is only possible while it is free. -/
inductive CreditEvent
  | addPeer (user : UserHash) (uploaded downloaded : U64) (now : Nat)
  | addFile (file : Md4Digest) (delta : U64) (now : Nat)
  | flushDrain (now : Nat)
  | flushCommit (ok : Bool)
  | flushRestore
  | settleTake (user : UserHash)
  | settleCommit (ok : Bool)
  | discard (user : UserHash)
  | upsertPeerCredit (user : UserHash) (uploaded downloaded : U64)
  | pinVerifiedSecureIdent (user : UserHash) (key : List UInt8)

/-- A flush is several events: drain, commit, and restore after a failure. -/
def creditStep (s : CreditSystem) : CreditEvent → CreditSystem
  | .addPeer user uploaded downloaded now =>
    { s with ledger := (s.ledger.addPeerCreditDelta user uploaded downloaded now).1 }
  | .addFile file delta now =>
    { s with ledger := (s.ledger.addFileAllTimeUploaded file delta now).1 }
  | .flushDrain now =>
    match s.gate with
    | some _ => s
    | none =>
      if s.ledger.isEmpty then s
      else
        let (ledger, peers, files) := s.ledger.drain now
        { s with ledger := ledger, gate := some (.flush peers files) }
  | .flushCommit ok =>
    match s.gate with
    | some (.flush peers files) =>
      if ok then { s with gate := none, db := s.db.applyCreditDeltas peers files }
      else { s with gate := some (.failed peers files) }
    | _ => s
  | .flushRestore =>
    match s.gate with
    | some (.failed peers files) => { s with ledger := s.ledger.restore peers files, gate := none }
    | _ => s
  | .settleTake user =>
    match s.gate with
    | some _ => s
    | none =>
      match s.ledger.peers.lookup user with
      | none => s
      | some delta =>
        { s with
          ledger := { s.ledger with peers := s.ledger.peers.erase user }
          gate := some (.settle user delta) }
  | .settleCommit ok =>
    match s.gate with
    | some (.settle user delta) =>
      -- the error is returned to the caller: nothing puts the delta back
      { s with
        gate := none
        db := if ok then s.db.applyCreditDeltas (AList.singleton user delta) ∅ else s.db }
    | _ => s
  | .discard user =>
    match s.gate with
    | some _ => s
    | none => { s with ledger := { s.ledger with peers := s.ledger.peers.erase user } }
  | .upsertPeerCredit user uploaded downloaded =>
    { s with db := s.db.upsertPeerCredit user uploaded downloaded }
  | .pinVerifiedSecureIdent user key => { s with db := s.db.pinVerifiedSecureIdent user key }

def CreditSystem.after (s : CreditSystem) (events : List CreditEvent) : CreditSystem :=
  Run.run creditStep s events

end EmuleBB.Credit
