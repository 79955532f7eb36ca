import EmuleBB.Transfer.System
import Mathlib.Data.List.AList

/-!
# Download block leases

Which peer fetches which bytes. The registry maps **a key (piece, start, end) to its owner**, so
two peers cannot hold the same key; where a lease starts is read off the piece when the lease is
taken, from the block bitmap and from `bytes_written`, which may stand inside a block after a
prefix was checkpointed. The part to work on comes from `pick_next_missing_part`.

Times are milliseconds of one monotonic clock. The takeover of a slow lease looks at the owners
in hash-map order, which is unspecified: `pick` says which of the candidates comes first.
-/

namespace EmuleBB.Transfer

open Ed2kPieceState

/-! ## Choosing a part -/

/-- `part_rank`, in saturating 32-bit arithmetic: rarity, then preview, then completion. -/
def partRank (piece : Ed2kPieceState) (frequency expectedLen : Nat) (isPreview : Bool) : Nat :=
  let rank := min (frequency * 1000) (2 ^ 32 - 1)
  let rank := if isPreview then rank - 500 else rank
  if 0 < expectedLen then rank - min (piece.bytesWritten * 100 / expectedLen % 2 ^ 32) 100 else rank

def isPreviewPart (partIndex partTotal : Nat) : Bool :=
  if partTotal = 0 then false else partIndex = 0 || partIndex = partTotal - 1

/-- One turn of `pick_next_missing_part`: keep the best rank seen, the earlier piece on a tie. -/
def pickBetter (best : Option (Nat × Nat)) (rank pieceIndex : Nat) : Option (Nat × Nat) :=
  match best with
  | some (bestRank, bestIndex) =>
    if bestRank ≤ rank then some (bestRank, bestIndex) else some (rank, pieceIndex)
  | none => some (rank, pieceIndex)

def pickNextMissingPart (m : Ed2kResumeManifest) (eligible : List Bool) (frequency : List Nat) :
    Option Nat :=
  let best := m.pieces.zipIdx.foldl (fun best (piece, position) =>
    if piece.state = .verified then best
    else if !(eligible[position]?).getD false then best
    else
      pickBetter best
        (partRank piece ((frequency[position]?).getD 0) (m.pieceLen piece.pieceIndex)
          (isPreviewPart position m.pieces.length))
        piece.pieceIndex) none
  best.map Prod.snd

/-! ## The registry -/

/-- A block, by its range in the file. -/
structure BlockKey where
  pieceIndex : Nat
  start : Nat
  stop : Nat
  deriving DecidableEq, Repr

/-- Who asked for the block, and how far the peer has come with it. -/
structure BlockLeaseOwner where
  leaseId : Nat
  peerAddr : Nat
  leasedAt : Nat
  transferredBytes : Nat
  peerRate : Nat
  deriving DecidableEq, Repr

structure LeaseRegistry where
  owners : AList fun _ : BlockKey => BlockLeaseOwner
  lastSteal : Option Nat
  nextLeaseId : Nat

/-- What a peer holds; dropping the last clone releases the key if this lease still owns it. -/
structure BlockLeaseToken where
  key : BlockKey
  leaseId : Nat
  deriving DecidableEq, Repr

structure EndgamePolicy where
  late : Bool
  endgame : Bool

/-- `endgame_policy`: late from 90 percent, endgame from 99.9 percent or when the rest fits into
    thirty seconds of the aggregate rate. -/
def endgamePolicy (fileSize presentBytes aggregateRate : Nat) : EndgamePolicy :=
  if fileSize = 0 then ⟨true, true⟩
  else
    let present := min presentBytes fileSize
    let permille := present * 1000 / fileSize
    ⟨900 ≤ permille, 999 ≤ permille ||
      (0 < aggregateRate && fileSize - present ≤ min (aggregateRate * 30) (2 ^ 64 - 1))⟩

structure LeaseRequest where
  peerAddr : Nat
  peerRate : Nat
  policy : EndgamePolicy
  allowTakeover : Bool

def mayStealLease (policy : EndgamePolicy) (owner : BlockLeaseOwner)
    (requester requesterRate now : Nat)
    (lastSteal : Option Nat) : Bool :=
  policy.late && policy.endgame && owner.peerAddr != requester && owner.transferredBytes == 0 &&
    decide (15000 ≤ now - owner.leasedAt) && decide (0 < owner.peerRate) &&
    decide (min (owner.peerRate * 5) (2 ^ 64 - 1) ≤ requesterRate) &&
    lastSteal.all fun last => decide (60000 ≤ now - last)

/-- Where the missing block `b` of the piece is fetched from: a checkpoint may have kept a prefix
    that ends inside it. -/
def resumePoint (p : Ed2kPieceState) (bitmap : PartBlockBitmap) (b : Nat) : Nat :=
  max (bitmap.blockRange b).1 (min p.bytesWritten (bitmap.blockRange b).2)

def freeKey (owners : AList fun _ : BlockKey => BlockLeaseOwner) (m : Ed2kResumeManifest)
    (p : Ed2kPieceState) (bitmap : PartBlockBitmap) (b : Nat) : Option BlockKey :=
  if bitmap.isPresent b then none
  else if (bitmap.blockRange b).2 ≤ resumePoint p bitmap b then none
  else
    let key : BlockKey :=
      ⟨p.pieceIndex, m.pieceStart p.pieceIndex + resumePoint p bitmap b,
        m.pieceStart p.pieceIndex + (bitmap.blockRange b).2⟩
    if key ∈ owners then none else some key

namespace LeaseRegistry

def grant (leases : LeaseRegistry) (request : LeaseRequest) (now : Nat) (key : BlockKey) :
    BlockLeaseToken × LeaseRegistry :=
  (⟨key, leases.nextLeaseId⟩,
    { leases with
      owners := leases.owners.insert key
        ⟨leases.nextLeaseId, request.peerAddr, now, 0, request.peerRate⟩
      nextLeaseId := leases.nextLeaseId + 1 })

def takeoverKey (leases : LeaseRegistry) (request : LeaseRequest) (now pick pieceIndex : Nat) :
    Option BlockKey :=
  let candidates := leases.owners.entries.filter fun entry =>
    decide (entry.1.pieceIndex = pieceIndex) &&
      mayStealLease request.policy entry.2 request.peerAddr request.peerRate now leases.lastSteal
  (candidates[pick % candidates.length]?).map Sigma.fst

/-- `try_lease_block_in_piece`. The error is the panic on an unvalidated bitmap. -/
def tryLeaseBlockInPiece (leases : LeaseRegistry) (m : Ed2kResumeManifest) (pieceIndex : Nat)
    (request : LeaseRequest) (now pick : Nat) :
    Except TransferError (Option BlockLeaseToken × LeaseRegistry) :=
  match m.findPiece pieceIndex with
  | none => .ok (none, leases)
  | some piece =>
    if piece.state = .verified then .ok (none, leases)
    else
      match piece.resolveBlockBitmap (m.pieceLen pieceIndex) with
      | none => .error .invalidBlockBitmap
      | some bitmap =>
        let leases := { leases with lastSteal := leases.lastSteal.filter (now - · < 60000) }
        match (List.range bitmap.blockCount).findSome? (freeKey leases.owners m piece bitmap) with
        | some key =>
          let granted := leases.grant request now key
          .ok (some granted.1, granted.2)
        | none =>
          if !request.allowTakeover then .ok (none, leases)
          else
            match leases.takeoverKey request now pick pieceIndex with
            | some key =>
              let granted := leases.grant request now key
              .ok (some granted.1, { granted.2 with lastSteal := some now })
            | none => .ok (none, leases)

/-- The two `while let` loops of `lease_next_download_block`: the best part left is tried and then
    struck off. Each turn strikes off one part, so there are at most as many turns as parts. -/
def leasePicked (m : Ed2kResumeManifest) (frequency : List Nat) (request : LeaseRequest)
    (now pick : Nat) : Nat → LeaseRegistry → List Bool →
    Except TransferError (Option BlockLeaseToken × LeaseRegistry)
  | 0, leases, _ => .ok (none, leases)
  | turns + 1, leases, eligible =>
    match pickNextMissingPart m eligible frequency with
    | none => .ok (none, leases)
    | some pieceIndex => do
      let (token, leases) ← leases.tryLeaseBlockInPiece m pieceIndex request now pick
      if token.isSome then return (token, leases)
      else if pieceIndex < eligible.length then
        leasePicked m frequency request now pick turns leases (eligible.set pieceIndex false)
      else return (none, leases)

end LeaseRegistry

/-- Bytes present in whole blocks over all pieces; `none` is the panic on an unvalidated bitmap. -/
def Ed2kResumeManifest.durablePresentBytes (m : Ed2kResumeManifest) : Option Nat := do
  let present ← m.pieces.mapM fun piece =>
    (piece.resolveBlockBitmap (m.pieceLen piece.pieceIndex)).map PartBlockBitmap.presentBytes
  return min present.sum m.fileSize

structure LeaseCall where
  peerAddr : Nat
  peerBitmap : Option (List Bool)
  preferredPiece : Option Nat
  peerRate : Nat
  aggregateRate : Nat
  frequency : List Nat
  now : Nat
  pick : Nat

def LeaseCall.eligible (call : LeaseCall) (partTotal : Nat) : List Bool :=
  match call.peerBitmap with
  | none => List.replicate partTotal true
  | some bitmap => (List.range partTotal).map fun index => (bitmap[index]?).getD false

variable (leases : LeaseRegistry)

def LeaseRegistry.leasePreferred (m : Ed2kResumeManifest) (call : LeaseCall)
    (request : LeaseRequest)
    (eligible : List Bool) : Except TransferError (Option BlockLeaseToken × LeaseRegistry) :=
  match call.preferredPiece with
  | some pieceIndex =>
    if (eligible[pieceIndex]?).getD false then
      leases.tryLeaseBlockInPiece m pieceIndex request call.now call.pick
    else .ok (none, leases)
  | none => .ok (none, leases)

def LeaseRegistry.leaseNextDownloadBlock (m : Ed2kResumeManifest) (call : LeaseCall) :
    Except TransferError (Option BlockLeaseToken × LeaseRegistry) :=
  match m.durablePresentBytes with
  | none => .error .invalidBlockBitmap
  | some presentBytes => do
    let policy := endgamePolicy m.fileSize presentBytes call.aggregateRate
    let request : LeaseRequest := ⟨call.peerAddr, call.peerRate, policy, false⟩
    let eligible := call.eligible m.pieces.length
    let (token, leases) ← leases.leasePreferred m call request eligible
    if token.isSome then return (token, leases)
    let (token, leases) ← leasePicked m call.frequency request call.now call.pick
      (m.pieces.length + 1) leases eligible
    if token.isSome then return (token, leases)
    leasePicked m call.frequency { request with allowTakeover := true } call.now call.pick
      (m.pieces.length + 1) leases eligible

def LeaseRegistry.notePayload (token : BlockLeaseToken) (bytes : Nat) : LeaseRegistry :=
  match leases.owners.lookup token.key with
  | some owner =>
    if owner.leaseId = token.leaseId then
      { leases with
        owners := leases.owners.insert token.key
          { owner with
            transferredBytes := min (owner.transferredBytes + bytes) (2 ^ 64 - 1) } }
    else leases
  | none => leases

/-- `drop` of the last clone of a token. -/
def LeaseRegistry.release (token : BlockLeaseToken) : LeaseRegistry :=
  match leases.owners.lookup token.key with
  | some owner =>
    if owner.leaseId = token.leaseId then { leases with owners := leases.owners.erase token.key }
    else leases
  | none => leases

/-! ## The transfer with its leases -/

/-- The transfer, the registry of its leases, and the tokens that are out. -/
structure LeaseSystem where
  transfer : TransferSystem
  leases : LeaseRegistry
  tokens : List BlockLeaseToken

/-- The transfer goes on, a block is leased, its bytes come in, a token is dropped. -/
inductive LeaseEvent
  | transfer (event : Event)
  | lease (call : LeaseCall)
  | notePayload (index bytes : Nat)
  | drop (index : Nat)

def LeaseSystem.start (transfer : TransferSystem) : LeaseSystem :=
  ⟨transfer, ⟨∅, none, 1⟩, []⟩

section

variable (md4 : Md4) (sha1 : Sha1)

def leaseStep (s : LeaseSystem) : LeaseEvent → LeaseSystem
  | .transfer event => { s with transfer := step md4 sha1 s.transfer event }
  | .lease call =>
    match s.leases.leaseNextDownloadBlock s.transfer.manifest call with
    | .ok (token, leases) => { s with leases := leases, tokens := token.toList ++ s.tokens }
    | .error _ => s
  | .notePayload index bytes =>
    match s.tokens[index]? with
    | some token => { s with leases := s.leases.notePayload token bytes }
    | none => s
  | .drop index =>
    match s.tokens[index]? with
    | some token =>
      { s with leases := s.leases.release token, tokens := s.tokens.eraseIdx index }
    | none => s

def LeaseSystem.after (s : LeaseSystem) (events : List LeaseEvent) : LeaseSystem :=
  Run.run (leaseStep md4 sha1) s events

end

end EmuleBB.Transfer
