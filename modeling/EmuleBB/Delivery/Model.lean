import EmuleBB.Lib.FileSystem
import EmuleBB.Lib.PackedBits
import EmuleBB.Lib.Prog
import EmuleBB.Wire

/-!
# Delivering a finished file, and deleting what was delivered

The verified payload of a finished transfer is copied to a file beside its destination, checked
there, and moved to its final name by a rename that replaces nothing. Deleting the transfer takes
the delivered file away again, if it is still the one that was delivered: it is renamed to a name of
its own first, and unlinked under that name. Each phase is written to the metadata store before the
next begins, so that after a crash the next call finds where the last one stopped.

**Ownership is a fingerprint.** The code acts on a file when a fingerprint it recorded is the one
the file shows now; a rename changes a fingerprint, so a new one is taken after every rename.

Each line that looks at or changes the file system or the rows is a step, and between two steps
anybody may do anything. The lifecycle lock lets one call run at a time. Ghost fields record history
for the statements about runs.
-/

namespace EmuleBB.Delivery

/-! ## Names

A finished file is delivered under a name that is safe as one path component everywhere, in the
first form that is free: the name itself, then with ` (1)`, ` (2)` and so on before the extension.
Files on their way there or to being deleted stand beside it under a name of their own. -/

structure Directory where
  absolute : Bool
  text : String
  deriving DecidableEq

/-- A path, as the directory and the name in it. -/
structure NativePath where
  parent : Directory
  fileName : String
  deriving DecidableEq

def NativePath.display (path : NativePath) : String := path.parent.text ++ "/" ++ path.fileName

/-- The directory the path names, if it names one. -/
def NativePath.directory (path : NativePath) : Directory := ⟨path.parent.absolute, path.display⟩

/-- In the directory itself, or anywhere beneath it. -/
def NativePath.beneath (path : NativePath) (directory : Directory) : Bool :=
  decide (path.parent = directory) ||
    decide (path.parent.absolute = directory.absolute) &&
      (directory.text.toList ++ ['/']).isPrefixOf path.parent.text.toList

/-- The path once the directory it lies beneath has another name. -/
def NativePath.reroute (source destination : Directory) (path : NativePath) : NativePath :=
  let rest := path.parent.text.toList.drop source.text.length
  ⟨⟨destination.absolute, destination.text ++ String.ofList rest⟩, path.fileName⟩

abbrev Uuid := Vector UInt8 16

def Uuid.hyphenated (id : Uuid) : String :=
  let digits := PackedBits.hexEncode id.toList
  let group := fun first count => (digits.drop first).take count
  String.ofList (group 0 8 ++ '-' :: group 8 4 ++ '-' :: group 12 4 ++ '-' :: group 16 4 ++
    '-' :: group 20 12)

def stagingName (id : Uuid) : String := ".emulebb-delivery-" ++ id.hyphenated ++ ".tmp"

def tombstoneName (id : Uuid) : String := ".emulebb-delete-" ++ id.hyphenated ++ ".tmp"

/-! ## Safe names -/

def isWhiteSpace (c : Char) : Bool :=
  let n := c.toNat
  (decide (9 ≤ n) && decide (n ≤ 13)) || n == 32 || n == 0x85 || n == 0xa0 || n == 0x1680 ||
    (decide (0x2000 ≤ n) && decide (n ≤ 0x200a)) || n == 0x2028 || n == 0x2029 || n == 0x202f ||
    n == 0x205f || n == 0x3000

def isDotOrSpace (c : Char) : Bool := c == '.' || c == ' '

def trimEnd (name : List Char) : List Char := (name.reverse.dropWhile isDotOrSpace).reverse

/-- Windows treats these base names as devices. The upper case of a letter that is not ASCII is no
    letter of one of them. -/
def isReservedWindowsLeaf (name : List Char) : Bool :=
  let stem := (trimEnd name).takeWhile (· ≠ '.')
  let upper := String.ofList (stem.map Char.toUpper)
  let ports := ["1", "2", "3", "4", "5", "6", "7", "8", "9", "¹", "²", "³"]
  ["CON", "PRN", "AUX", "NUL", "CLOCK$"].contains upper ||
    (ports.map ("COM" ++ ·)).contains upper || (ports.map ("LPT" ++ ·)).contains upper

/-- One path component on every platform, and never an empty one. -/
def sanitizeFileName (name : String) : String :=
  let replaced := name.toList.map fun c =>
    if "<>:\"/\\|?*".toList.contains c || decide (c.toNat < 0x20) then '_' else c
  let sanitized := (trimEnd replaced).dropWhile isWhiteSpace
  if sanitized.isEmpty then "download"
  else if isReservedWindowsLeaf sanitized then
    String.ofList (sanitized.takeWhile (· ≠ '.') ++ '_' :: sanitized.dropWhile (· ≠ '.'))
  else String.ofList sanitized

def splitStemExtension (fileName : String) : String × Option String :=
  let reversed := fileName.toList.reverse
  let extension := (reversed.takeWhile (· ≠ '.')).reverse
  match reversed.dropWhile (· ≠ '.') with
  | [] => (fileName, none)
  | _ :: stem =>
    if stem.isEmpty || extension.isEmpty then (fileName, none)
    else (String.ofList stem.reverse, some (String.ofList extension))

def candidateName (displayName : String) (index : Nat) : String :=
  let fileName := sanitizeFileName displayName
  if index = 0 then fileName
  else
    match splitStemExtension fileName with
    | (stem, some extension) => s!"{stem} ({index}).{extension}"
    | (stem, none) => s!"{stem} ({index})"

example : candidateName " a.tar.gz. " 2 = "a.tar (2).gz" := by decide +kernel

example : candidateName "con.txt" 0 = "con_.txt" := by decide +kernel

/-! ## The file hash -/

def partHashes (md4 : Md4) : Nat → List UInt8 → List Md4Digest
  | 0, _ => []
  | count + 1, bytes =>
    md4 (bytes.take ed2kPartSize) :: partHashes md4 count (bytes.drop ed2kPartSize)

def ed2kHash (md4 : Md4) (bytes : List UInt8) (expectedSize : Nat) :
    Option Md4Digest :=
  if bytes.length < expectedSize then none
  else
    let hashes := partHashes md4 (chunkCount expectedSize ed2kPartSize) (bytes.take expectedSize)
    if expectedSize = 0 then some (md4 [])
    else if expectedSize < ed2kPartSize then hashes.head?
    else
      let composite := (hashes.map Vector.toList).flatten
      let tail := if expectedSize % ed2kPartSize = 0 then (md4 []).toList else []
      some (md4 (composite ++ tail))

/-! ## The rows of one transfer -/

/-- `delivery_state`, `delivery_ownership`, `delivered_path` and `source_fingerprint`, in the
    combinations the schema allows. -/
inductive DeliveryRecord where
  | pending
  | owned (path : NativePath) (fingerprint : Stamp)
  | unowned (path : NativePath) (fingerprint : Option Stamp)
  deriving DecidableEq

inductive AttemptPhase where
  | prepared
  | staged (staging : Stamp)
  | published (staging published : Stamp)
  deriving DecidableEq

structure DeliveryAttempt where
  attemptId : Uuid
  targetPath : NativePath
  stagingPath : NativePath
  phase : AttemptPhase
  deriving DecidableEq

inductive TombstonePhase where
  | prepared
  | moved (fingerprint : Stamp)
  deriving DecidableEq

structure DeletionTombstone where
  tombstoneId : Uuid
  originalPath : NativePath
  tombstonePath : NativePath
  sourceFingerprint : Stamp
  phase : TombstonePhase
  deriving DecidableEq

/-- Which directory a deletion may take away: the one with this identity that holds this marker. -/
structure TransferDirectoryDeletionAuthority where
  identity : Nat
  markerId : Uuid
  deriving DecidableEq

/-- What the metadata store has of the transfer. -/
structure TransferRow where
  completed : Bool
  finalRehashPending : Bool
  /-- `removed_at_ms` is set. -/
  removed : Bool
  /-- `delete_requested_at_ms` is set. -/
  deleteRequested : Bool
  delivery : DeliveryRecord
  attempt : Option DeliveryAttempt
  tombstone : Option DeletionTombstone
  directoryAuthority : Option TransferDirectoryDeletionAuthority
  deriving DecidableEq

/-- The file system, the row, and what is noted of the run. -/
structure World where
  fs : FileSystem NativePath
  transfer : Option TransferRow
  /-- Ghost: the objects a deletion renamed and did not rename again, and to what. -/
  renamed : List (Nat × NativePath)
  /-- Ghost: the running deletion is done with the delivered output. -/
  cleaned : Bool
  /-- Ghost: the final names under which a file was put. -/
  produced : List NativePath

/-- What a delivery takes from its transfer. -/
structure DeliveryJob where
  displayName : String
  fileSize : Nat
  fileHash : Md4Digest
  /-- Where the transfer's own directory stands. -/
  transferPath : NativePath

def DeliveryJob.transferDir (job : DeliveryJob) : Directory := job.transferPath.directory

def DeliveryJob.payloadPath (job : DeliveryJob) : NativePath := ⟨job.transferDir, "pieces.bin"⟩

def DeliveryJob.hashText (job : DeliveryJob) : String :=
  String.ofList (PackedBits.hexEncode job.fileHash.toList)

def DeliveryJob.transferDirectoryTombstonePath (job : DeliveryJob) : NativePath :=
  ⟨job.transferPath.parent, ".emulebb-delete-transfer-" ++ job.hashText ++ ".tmp"⟩

def transferDirectoryAuthorityMarkerPath (transferDir : Directory) (markerId : Uuid) : NativePath :=
  ⟨transferDir, ".emulebb-delete-authority-" ++ markerId.hyphenated ++ ".tmp"⟩

variable {α : Type}

abbrev Async (α : Type) := Prog World String α

open Prog

def ensure (condition : Prop) [Decidable condition] (message : String) : Async Unit :=
  if condition then ret () else fail message

/-! ## Looking at files -/

inductive Opened where
  | missing
  /-- It is a link, and links are not followed. -/
  | refused
  | handle (id : Nat)

variable (md4 : Md4) (job : DeliveryJob) (path : NativePath)

def openFile : Async Opened :=
  read fun w =>
    match w.fs.find path with
    | none => .missing
    | some id =>
      match (w.fs.objects id).kind with
      | .link _ => .refused
      | _ => .handle id

/-- `File::open`, which follows a link. -/
def openFollowing : Async Opened :=
  read fun w =>
    match w.fs.find path with
    | none => .missing
    | some id =>
      match (w.fs.objects id).kind with
      | .link none => .missing
      | .link (some target) => .handle target
      | _ => .handle id

variable (attemptId : Uuid) (id : Nat)

def fingerprintFromHandle : Async (Option Stamp) := read fun w => w.fs.fingerprint id

def nativeFileFingerprint : Async (Option Stamp) := do
  match ← openFile path with
  | .handle id => fingerprintFromHandle id
  | _ => return none

def symlinkMetadata : Async (Option (FileKind × Nat)) :=
  read fun w =>
    (w.fs.find path).map fun id => ((w.fs.objects id).kind, (w.fs.objects id).bytes.length)

def pathExists : Async Bool :=
  read fun w =>
    match w.fs.find path with
    | none => false
    | some id =>
      match (w.fs.objects id).kind with
      | .link target => target.isSome
      | _ => true

def computeEd2kHashFromHandle (expectedSize : Nat) : Async Md4Digest :=
  transact fun w =>
    match ed2kHash md4 (w.fs.objects id).bytes expectedSize with
    | none => .error "failed to fill whole buffer"
    | some digest => .ok (digest, w)

inductive InspectedFile where
  | missing
  | regular (id : Nat) (fingerprint : Stamp)
  | foreign

def inspectFile : Async InspectedFile := do
  match ← openFile path with
  | .missing => return .missing
  | .refused => fail s!"failed to open deletion path {path.display}"
  | .handle id =>
    match ← fingerprintFromHandle id with
    | none => return .foreign
    | some fingerprint =>
      let current ← nativeFileFingerprint path
      if current = some fingerprint then return .regular id fingerprint else return .foreign

inductive DeliveredOutputIdentity where
  | missing
  | matching (fingerprint : Option Stamp)
  | foreign
  deriving DecidableEq

def classifyAfterHash (current : Option Stamp) : Async DeliveredOutputIdentity := do
  let postHash ←
    (do
      match ← symlinkMetadata path with
      | some (.regular, length) =>
        if length = job.fileSize then nativeFileFingerprint path else return none
      | _ => return none)
  if current.isSome ∧ current ≠ postHash then return .foreign
  else return .matching postHash

def classifyByHash (current : Option Stamp) : Async DeliveredOutputIdentity := do
  match ← symlinkMetadata path with
  | some (.regular, length) =>
    if length = job.fileSize then
      match ← openFollowing path with
      | .handle id =>
        let digest ← computeEd2kHashFromHandle md4 id job.fileSize
        if digest = job.fileHash then classifyAfterHash job path current else return .foreign
      | _ => fail s!"failed to open {path.display}"
    else return .foreign
  | _ => return .foreign

def classifyDeliveredOutput (recorded : Option Stamp) : Async DeliveredOutputIdentity := do
  match ← symlinkMetadata path with
  | none => return .missing
  | some (kind, length) =>
    if kind ≠ .regular ∨ length ≠ job.fileSize then return .foreign
    else
      let current ← nativeFileFingerprint path
      if recorded.isSome ∧ recorded = current then return .matching current
      else classifyByHash md4 job path current

inductive AttemptArtifactIdentity where
  | missing
  | owned
  | foreign
  deriving DecidableEq

def classifyAttemptArtifact (expected : Stamp) : Async AttemptArtifactIdentity := do
  match ← classifyDeliveredOutput md4 job path (some expected) with
  | .missing => return .missing
  | .matching current => if current = some expected then return .owned else return .foreign
  | .foreign => return .foreign

inductive VerificationFailure where
  | noIdentity
  | sizeChanged
  | hashMismatch
  | lostIdentity
  | changed
  | pathChanged

def verifyHandle (path : NativePath) (expectedSize : Nat) (expectedHash : Md4Digest) :
    Async (Except VerificationFailure Stamp) := do
  match ← fingerprintFromHandle id with
  | none => return .error .noIdentity
  | some fingerprint =>
    if fingerprint.size ≠ expectedSize then return .error .sizeChanged
    else
      let digest ← computeEd2kHashFromHandle md4 id expectedSize
      if digest ≠ expectedHash then return .error .hashMismatch
      else
        match ← fingerprintFromHandle id with
        | none => return .error .lostIdentity
        | some verified =>
          if verified ≠ fingerprint then return .error .changed
          else
            let current ← nativeFileFingerprint path
            if current = some verified then return .ok verified else return .error .pathChanged

/-! ## Changing files -/

inductive NoReplaceMoveOutcome where
  | moved
  | alreadyExists
  deriving DecidableEq

/-- `noted` is ghost: what is noted with the rename. -/
def movePathNoReplace (source destination : NativePath) (noted : Nat → World → World) :
    Async NoReplaceMoveOutcome :=
  transact fun w =>
    match w.fs.find source with
    | none => .error "No such file or directory"
    | some id =>
      match w.fs.find destination with
      | some _ => .ok (.alreadyExists, w)
      | none => .ok (.moved, noted id { w with fs := w.fs.rename source destination id })

def unlinkIfShown (expected : Stamp) : Async Bool :=
  atomic fun w =>
    match w.fs.find path with
    | none => (true, w)
    | some id =>
      if w.fs.fingerprint id = some expected then (true, { w with fs := w.fs.remove path })
      else (false, w)

def removeFileIfFingerprintMatches (expected : Stamp) : Async Bool := do
  match ← symlinkMetadata path with
  | none => return true
  | some (.regular, _) =>
    let current ← nativeFileFingerprint path
    if current = some expected then unlinkIfShown path expected else return false
  | some _ => return false

/-- `create_new`, then the copy of the payload if there is one. -/
def stageDeliveryPayload (source stagingPath : NativePath) : Async Unit := do
  let output ← transact fun w =>
    match w.fs.find stagingPath with
    | some _ => .error s!"failed to create delivery staging file {stagingPath.display}"
    | none => .ok (w.fs.next, { w with fs := w.fs.create stagingPath .regular [] })
  let present ← pathExists source
  if present then
    match ← openFollowing source with
    | .handle input =>
      atomic fun w => ((), { w with fs := w.fs.write output (w.fs.objects input).bytes })
    | _ => fail s!"failed to open delivery payload {source.display}"
  else return ()

def validateDeliverySource (source : NativePath) (expectedSize : Nat) : Async Unit := do
  match ← symlinkMetadata source with
  | none => ensure (expectedSize = 0) s!"missing delivery payload {source.display}"
  | some (kind, length) =>
    ensure (kind = .regular) s!"delivery payload is not a regular file: {source.display}"
    ensure (length = expectedSize) s!"delivery payload size mismatch for {source.display}"

/-! ## Handles that are kept -/

structure VerifiedStagingFile where
  id : Nat
  fingerprint : Stamp

def VerificationFailure.stagingText : VerificationFailure → String
  | noIdentity => s!"delivery staging file has no stable native identity: {path.display}"
  | sizeChanged => s!"delivery staging file size changed at {path.display}"
  | hashMismatch => s!"delivery staging file failed verification: {path.display}"
  | lostIdentity => s!"delivery staging file lost its native identity: {path.display}"
  | changed => s!"delivery staging file changed during verification: {path.display}"
  | pathChanged => s!"delivery staging path changed during verification: {path.display}"

def VerificationFailure.publishedText : VerificationFailure → String
  | noIdentity => s!"published delivery has no stable native identity: {path.display}"
  | sizeChanged => s!"published delivery size changed at {path.display}"
  | hashMismatch => s!"published delivery failed verification: {path.display}"
  | lostIdentity => s!"published delivery lost its stable native identity: {path.display}"
  | changed => s!"published delivery changed during verification: {path.display}"
  | pathChanged => s!"published delivery path does not identify the staged object: {path.display}"

def openVerifiedStagingFile : Async VerifiedStagingFile := do
  match ← openFile path with
  | .handle id =>
    match ← verifyHandle md4 id path job.fileSize job.fileHash with
    | .ok fingerprint => return ⟨id, fingerprint⟩
    | .error failure => fail (failure.stagingText path)
  | _ => fail s!"failed to open delivery staging file {path.display}"

def capturePublishedFingerprint (targetPath : NativePath) : Async Stamp := do
  match ← verifyHandle md4 id targetPath job.fileSize job.fileHash with
  | .ok fingerprint => return fingerprint
  | .error failure => fail (failure.publishedText targetPath)

def verifyUncheckpointedMovedTombstone (tombstonePath : NativePath) (expectedSize : Nat)
    (expectedHash : Md4Digest) : Async (Option Stamp) := do
  match ← verifyHandle md4 id tombstonePath expectedSize expectedHash with
  | .ok fingerprint => return some fingerprint
  | .error _ => return none

def captureMovedFingerprint (tombstonePath : NativePath) : Async (Option Stamp) := do
  match ← fingerprintFromHandle id with
  | none => return none
  | some fingerprint =>
    let current ← nativeFileFingerprint tombstonePath
    if current = some fingerprint then return some fingerprint else return none

/-! ## The journal of a delivery -/

def TransferRow.deliverable (row : TransferRow) : Bool :=
  row.completed && !row.finalRehashPending && decide (row.delivery = .pending) && !row.removed &&
    !row.deleteRequested

def loadManifest : Async TransferRow :=
  transact fun w =>
    match w.transfer with
    | some row =>
      if row.deleteRequested then .error s!"missing ED2K transfer metadata for {job.hashText}"
      else .ok (row, w)
    | none => .error s!"missing ED2K transfer metadata for {job.hashText}"

def deliveryAttempt : Async (Option DeliveryAttempt) :=
  read fun w => w.transfer.bind TransferRow.attempt

/-- The transaction of `begin_transfer_delivery_attempt`. -/
def prepareAttempt (targetPath stagingPath : NativePath) (w : World) :
    Except String (DeliveryAttempt × World) :=
  if ¬targetPath.parent.absolute then .error "delivery target path must be absolute"
  else if ¬stagingPath.parent.absolute then .error "delivery staging path must be absolute"
  else if targetPath = stagingPath then .error "delivery target and staging paths must differ"
  else if targetPath.parent ≠ stagingPath.parent then
    .error "delivery target and staging paths must share one parent directory"
  else if stagingPath.fileName ≠ stagingName attemptId then
    .error s!"delivery staging path does not match attempt {attemptId.hyphenated}"
  else
    match w.transfer with
    | none => .error s!"transfer {job.hashText} is not eligible for delivery"
    | some row =>
      if row.deliverable then
        match row.attempt with
        | some existing =>
          if existing.attemptId = attemptId ∧ existing.targetPath = targetPath ∧
              existing.stagingPath = stagingPath then
            .ok (existing, w)
          else .error s!"transfer {job.hashText} already has a different delivery attempt"
        | none =>
          let attempt := ⟨attemptId, targetPath, stagingPath, .prepared⟩
          .ok (attempt, { w with transfer := some { row with attempt := some attempt } })
      else .error s!"transfer {job.hashText} is not eligible for delivery"

def beginDeliveryAttempt (targetPath stagingPath : NativePath) : Async DeliveryAttempt :=
  transact (prepareAttempt job attemptId targetPath stagingPath)

/-- An update of the attempt with the given identifier, where the phase allows it. -/
def updateAttempt (update : AttemptPhase → Option AttemptPhase) : Async Bool :=
  atomic fun w =>
    match w.transfer with
    | none => (false, w)
    | some row =>
      match row.attempt with
      | none => (false, w)
      | some attempt =>
        if row.deliverable ∧ attempt.attemptId = attemptId then
          match update attempt.phase with
          | none => (false, w)
          | some phase =>
            (true, { w with
              transfer := some { row with attempt := some { attempt with phase := phase } } })
        else (false, w)

def markDeliveryAttemptStaged (fingerprint : Stamp) : Async Bool :=
  updateAttempt attemptId fun
    | .prepared => some (.staged fingerprint)
    | .staged staging => if staging = fingerprint then some (.staged staging) else none
    | .published _ _ => none

def markDeliveryAttemptPublished (fingerprint : Stamp) : Async Bool :=
  updateAttempt attemptId fun
    | .prepared => none
    | .staged staging => some (.published staging fingerprint)
    | .published staging published =>
      if published = fingerprint then some (.published staging published) else none

def clearDeliveryAttempt : Async Bool :=
  atomic fun w =>
    match w.transfer with
    | none => (false, w)
    | some row =>
      match row.attempt with
      | none => (false, w)
      | some attempt =>
        if attempt.attemptId = attemptId then
          (true, { w with transfer := some { row with attempt := none } })
        else (false, w)

/-- The record is stored; once it says delivered, the trigger of the table drops the attempt. -/
def TransferRow.deliver (row : TransferRow) (record : DeliveryRecord) : TransferRow :=
  { row with delivery := record, attempt := none }

end EmuleBB.Delivery
