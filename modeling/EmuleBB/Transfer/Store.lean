import EmuleBB.Transfer.System

/-!
# The manifest store

Three copies of one transfer's progress: the cached manifest, the durable rows in the metadata
database, and the payload file. A full store is **one transaction**. A progress checkpoint commits
**one row at a time**, in the order of the piece indexes, and stops at the first row that fails.
Between checkpoints an append only changes the cache and remembers the index of its piece in
`dirtyPieceIndexes`.

A `StoreCall` is what one call meets from outside: the clock, the ICH setting, and which of its
durable writes fail. A failing payload flush is a checkpoint that fails at its first row.
-/

namespace EmuleBB.Transfer

def ed2kResumeCheckpointInterval : Nat := 2000

def ed2kResumeCheckpointBytes : Nat := 8 * ed2kEmblockSize

structure Ed2kManifestCheckpointState where
  persistedBytesWritten : Nat
  lastPersistedAt : Nat
  dirtyPieceIndexes : Std.TreeSet Nat

/-- The store's view of one file: its entries in the manifest cache and in the checkpoint states,
    and its rows in the database. -/
structure TransferStore where
  manifestCache : Option Ed2kResumeManifest
  checkpointState : Option Ed2kManifestCheckpointState
  durable : Option Ed2kResumeManifest

/-- What one call meets. `failAt` counts the row updates of a checkpoint that succeed before one
    fails; `fullOk` says whether a full store goes through. -/
structure StoreCall where
  now : Nat
  ichEnabled : Bool
  failAt : Option Nat
  fullOk : Bool

/-! ## Admission -/

/-- `validate_manifest`: the geometry a manifest needs to be stored. -/
def validateManifest (m : Ed2kResumeManifest) : Bool :=
  decide (0 < m.pieceSize) &&
    (m.pieces.all fun piece =>
      decide (m.pieceStart piece.pieceIndex < m.fileSize) &&
        decide (piece.bytesWritten ≤
          min m.pieceSize (m.fileSize - m.pieceStart piece.pieceIndex))) &&
    (m.verifiedRanges.all fun range =>
      decide (range.start ≤ range.stop) && decide (range.stop ≤ m.fileSize)) &&
    match m.payloadFingerprint with
    | none => true
    | some fingerprint =>
      m.completed && !m.finalRehashPending && decide (fingerprint.sizeBytes = m.fileSize)

def manifestFromMetadata (m : Ed2kResumeManifest) : Option Ed2kResumeManifest :=
  if m.pieceSize = 0 ∧ 0 < m.fileSize then none
  else if m.pieces.all fun piece =>
      match piece.blockBitmap with
      | none => true
      | some bitmap =>
        decide (0 < m.pieceLen piece.pieceIndex) &&
          (PartBlockBitmap.fromHex (m.pieceLen piece.pieceIndex) bitmap).isSome then
    some m
  else none

namespace TransferStore

/-! ## Caching and full stores -/

/-- The pieces with progress that is not saved. -/
def dirtyPieceIndexes (st : TransferStore) : Std.TreeSet Nat :=
  match st.checkpointState with
  | some state => state.dirtyPieceIndexes
  | none => ∅

variable (st : TransferStore)

variable (call : StoreCall) (now : Nat) (m : Ed2kResumeManifest)

def cacheManifest : TransferStore :=
  { st with manifestCache := some m }

def markManifestPersisted : TransferStore :=
  { st.cacheManifest m with checkpointState := some ⟨m.manifestProgressBytes, now, ∅⟩ }

def loadManifest : TransferStore × Option Ed2kResumeManifest :=
  match st.manifestCache with
  | some m => (st, some m)
  | none =>
    match st.durable.bind manifestFromMetadata with
    | some m => (st.markManifestPersisted now m, some m)
    | none => (st, none)

def storeManifest : TransferStore × Bool :=
  if validateManifest m && call.fullOk then
    ({ st with durable := some m }.markManifestPersisted call.now m, true)
  else (st, false)

/-! ## Progress checkpoints -/

inductive RowsResult
  | updated
  | absent
  | failed
  deriving DecidableEq

/-- The loop of row updates. Each one commits before the next starts. -/
def commitRows : Option Nat → List Ed2kPieceState → Option Ed2kResumeManifest →
    Option Ed2kResumeManifest × RowsResult
  | _, [], durable => (durable, .updated)
  | some 0, _ :: _, durable => (durable, .failed)
  | failAt, row :: rows, durable =>
    match durable.bind (·.findPiece row.pieceIndex) with
    | none => (durable, .absent)
    | some _ =>
      commitRows (failAt.map (· - 1)) rows (durable.map (·.setPiece row.pieceIndex row))

/-- The rows of the dirty pieces and the current one; `none` when the manifest lacks one. -/
def progressRows (indexes : List Nat) : Option (List Ed2kPieceState) :=
  indexes.mapM m.findPiece

/-- The rows of the dirty pieces are saved, or the whole manifest. -/
def storeManifestPieceProgress (currentPiece : Nat) : TransferStore × Bool :=
  match progressRows m (st.dirtyPieceIndexes.insert currentPiece).toList with
  | none => st.storeManifest call m
  | some rows =>
    match commitRows call.failAt rows st.durable with
    | (durable, .updated) =>
      ({ st with durable := durable }.markManifestPersisted call.now m, true)
    | (durable, .absent) => { st with durable := durable }.storeManifest call m
    | (durable, .failed) => ({ st with durable := durable }, false)

def checkpointEntry : Ed2kManifestCheckpointState :=
  st.checkpointState.getD ⟨m.manifestProgressBytes, now, ∅⟩

def shouldCheckpointManifest : TransferStore × Bool :=
  let state := st.checkpointEntry now m
  let dirtyBytes := m.manifestProgressBytes - state.persistedBytesWritten
  ({ st with checkpointState := some state },
    decide (ed2kResumeCheckpointBytes ≤ dirtyBytes) ||
      (decide (dirtyBytes ≠ 0) &&
        decide (ed2kResumeCheckpointInterval ≤ now - state.lastPersistedAt)))

def noteDirtyPiece (pieceIndex : Nat) : TransferStore :=
  let state := st.checkpointEntry now m
  { st with
    checkpointState :=
      some { state with dirtyPieceIndexes := state.dirtyPieceIndexes.insert pieceIndex } }

def persistWrite (done : WriteDone) : TransferStore × Bool :=
  match done.store with
  | .unchanged => (st, true)
  | .full => st.storeManifest call done.manifest
  | .progress i =>
    let asked := st.shouldCheckpointManifest call.now done.manifest
    if asked.2 then asked.1.storeManifestPieceProgress call done.manifest i
    else
      ((asked.1.noteDirtyPiece call.now done.manifest i).cacheManifest done.manifest, true)

/-- Nothing is saved where nothing is dirty. -/
def checkpointDirtyDownloadProgress : TransferStore × Bool :=
  match st.dirtyPieceIndexes.toList with
  | [] => (st, true)
  | currentPiece :: _ =>
    match st.manifestCache with
    | none => (st, false)
    | some m => st.storeManifestPieceProgress call m currentPiece

end TransferStore

/-! ## One file under its store -/

/-- The payload on disk, and the manifest cached and stored. -/
structure StoreSystem where
  payload : Option ByteSeq
  store : TransferStore

/-- One call on the file. `store` is any operation that ends in a full store, with the manifest it
    stores; `restart` loses the cache. -/
inductive StoreEvent
  | append (call : StoreCall) (pieceIndex start stop : Nat) (data : ByteSeq)
  | salvageWrite (call : StoreCall) (part start stop : Nat) (data : ByteSeq)
  | store (call : StoreCall) (m : Ed2kResumeManifest)
  | load (call : StoreCall)
  | checkpoint (call : StoreCall)
  | restart

def StoreSystem.start (payload : Option ByteSeq) (durable : Option Ed2kResumeManifest) :
    StoreSystem :=
  ⟨payload, none, none, durable⟩

/-- Load the manifest, run the write path on it, and persist what it returns. A failure on the way
    leaves the manifest that was loaded. -/
def StoreSystem.writeThrough (s : StoreSystem) (call : StoreCall)
    (write : Ed2kResumeManifest → WriteStep) : StoreSystem × Bool :=
  match s.store.loadManifest call.now with
  | (st, none) => (⟨s.payload, st⟩, false)
  | (st, some m) =>
    match (write m).result with
    | .error _ => (⟨(write m).payload, st⟩, false)
    | .ok done =>
      (⟨(write m).payload, (st.persistWrite call done).1⟩, (st.persistWrite call done).2)

section

variable (md4 : Md4)

def storeCall (s : StoreSystem) : StoreEvent → StoreSystem × Bool
  | .append call i start stop data =>
    s.writeThrough call fun m =>
      appendPieceBlockInner md4 call.ichEnabled s.payload m i start stop data
  | .salvageWrite call part start stop data =>
    s.writeThrough call fun m =>
      writeSalvageBlockUnfinalized md4 call.ichEnabled s.payload m part start stop data
  | .store call m =>
    (⟨s.payload, (s.store.storeManifest call m).1⟩, (s.store.storeManifest call m).2)
  | .load call =>
    (⟨s.payload, (s.store.loadManifest call.now).1⟩, (s.store.loadManifest call.now).2.isSome)
  | .checkpoint call =>
    (⟨s.payload, (s.store.checkpointDirtyDownloadProgress call).1⟩,
      (s.store.checkpointDirtyDownloadProgress call).2)
  | .restart => (.start s.payload s.store.durable, true)

def storeStep (s : StoreSystem) (e : StoreEvent) : StoreSystem := (storeCall md4 s e).1

def StoreSystem.after (s : StoreSystem) (events : List StoreEvent) : StoreSystem :=
  Run.run (storeStep md4) s events

end

end EmuleBB.Transfer
