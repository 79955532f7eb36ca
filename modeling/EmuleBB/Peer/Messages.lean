import EmuleBB.Lib.Except
import EmuleBB.Transfer.Manifest

/-!
# Peer messages that carry file metadata

The answers by which a download session learns about its file: the MD4 and AICH hashsets, the
file identifier, the multipacket answers and the AICH root. Each body is turned into **the list of
store operations** the handler goes on to run, or into the error that ends the session. A handler
takes the manifest lock anew for every operation, so other sessions may run in between; that is why
they are not executed here.

File names and part availability are parsed because a malformed one is an error.
-/

namespace EmuleBB.Peer

open Transfer (Ed2kResumeManifest)
open Aich (Ed2kAichHashset AichError)

/-! ## Errors -/

inductive PeerError
  | identifierShortDescriptor
  | identifierUnsupported (descriptor : UInt8)
  | identifierMissingMd4
  | identifierShortMd4
  | identifierShortSize
  | identifierShortAich
  | hashsetAnswerShort (len : Nat)
  | hashsetAnswerShortExpected (len expected : Nat)
  | aichHashsetShort (len : Nat)
  | aichHashsetShortExpected (len expected : Nat)
  | hashsetAnswer2Short
  | hashsetAnswer2Md4For (returned expected : Md4Digest)
  | hashsetAnswer2RootMismatch (fileHash : Md4Digest)
  | unexpectedFile (what : String) (returned : Md4Digest)
  | multipacketShortHash
  | multipacketShortAich (len : Nat)
  | multipacketSubOp (what : String) (subOpcode : UInt8)
  | aichFileHashShort (len : Nat)
  | fileHashPayload (len : Nat)
  | fileNameHashMismatch (returned expected : Md4Digest)
  | fileNameShortBody
  | fileNameShort
  | fileStatusShortBody
  | fileStatusShort (len expected : Nat)
  | fileStatusPartCount (partCount expected : Nat)
  | md4HashsetLength (len expected : Nat)
  | md4HashsetMismatch
  | aichRootConflict
  | adoptSizeAfterProgress (fileSize : Nat)
  | changeSize (current fileSize : Nat)
  | advertisedRootConflicts
  | aich (error : AichError)
  deriving DecidableEq

/-! ## File identifiers -/

structure Ed2kFileIdentifier where
  fileHash : Md4Digest
  fileSize : Option Nat
  aichRoot : Option Sha1Digest
  deriving DecidableEq

def takeMd4 (body : List UInt8) : Option (Md4Digest × List UInt8) :=
  if h : 16 ≤ body.length then
    some (⟨(body.take 16).toArray, by simp [h]⟩, body.drop 16)
  else none

/-- The identifier a session puts into its requests; an unknown size is left out. -/
def Ed2kFileIdentifier.fromManifest (m : Ed2kResumeManifest) : Ed2kFileIdentifier where
  fileHash := m.fileHash
  fileSize := if m.fileSize = 0 then none else some m.fileSize
  aichRoot := m.aichRoot

/-- The size field, present when the descriptor says so. A zero size counts as unknown. -/
def takeIdentifierSize (included : Bool) (body : List UInt8) :
    Except PeerError (Option Nat × List UInt8) :=
  if included then
    match takeLe 8 body with
    | none => .error .identifierShortSize
    | some (size, rest) => .ok (if size = 0 then none else some size, rest)
  else .ok (none, body)

def takeIdentifierRoot (included : Bool) (body : List UInt8) :
    Except PeerError (Option Sha1Digest × List UInt8) :=
  if included then
    match takeSha1 body with
    | none => .error .identifierShortAich
    | some (root, rest) => .ok (some root, rest)
  else .ok (none, body)

variable (payload : List UInt8)

/-- `Ed2kFileIdentifier::decode`. Unknown mandatory options (bits 3 and 4) are refused, unknown
    plain ones (bits 5 to 7) are ignored. -/
def Ed2kFileIdentifier.decode : Except PeerError (Ed2kFileIdentifier × List UInt8) :=
  match payload with
  | [] => .error .identifierShortDescriptor
  | descriptor :: rest =>
    if descriptor &&& 0x18 ≠ 0 then .error (.identifierUnsupported descriptor)
    else if descriptor &&& 1 = 0 then .error .identifierMissingMd4
    else
      match takeMd4 rest with
      | none => .error .identifierShortMd4
      | some (fileHash, rest) => do
        let (fileSize, rest) ← takeIdentifierSize (descriptor &&& 2 ≠ 0) rest
        let (aichRoot, rest) ← takeIdentifierRoot (descriptor &&& 4 ≠ 0) rest
        return (⟨fileHash, fileSize, aichRoot⟩, rest)

def agree {α : Type} [DecidableEq α] : Option α → Option α → Bool
  | some left, some right => decide (left = right)
  | _, _ => true

def Ed2kFileIdentifier.matchesRelaxed (id other : Ed2kFileIdentifier) : Bool :=
  decide (id.fileHash = other.fileHash) && agree id.fileSize other.fileSize &&
    agree id.aichRoot other.aichRoot

/-! ## Hashset answers -/

def takeDigests {α : Type} (take : List UInt8 → Option (α × List UInt8)) :
    Nat → List UInt8 → List α × List UInt8
  | 0, body => ([], body)
  | count + 1, body =>
    match take body with
    | none => ([], body)
    | some (digest, rest) =>
      let (digests, rest) := takeDigests take count rest
      (digest :: digests, rest)

def decodeHashsetBody {α : Type} (take : List UInt8 → Option (α × List UInt8)) (width : Nat)
    (short : Nat → PeerError) (shortExpected : Nat → Nat → PeerError) (payload : List UInt8) :
    Except PeerError (α × List α × List UInt8) :=
  match take payload with
  | none => .error (short payload.length)
  | some (leading, rest) =>
    match takeLe 2 rest with
    | none => .error (short payload.length)
    | some (count, rest) =>
      let expected := width + 2 + count * width
      if payload.length < expected then .error (shortExpected payload.length expected)
      else
        let (digests, rest) := takeDigests take count rest
        .ok (leading, digests, rest)

def decodeMd4HashsetBody : List UInt8 →
    Except PeerError (Md4Digest × List Md4Digest × List UInt8) :=
  decodeHashsetBody takeMd4 16 .hashsetAnswerShort .hashsetAnswerShortExpected

def decodeAichHashsetBody : Except PeerError (Ed2kAichHashset × List UInt8) := do
  let (masterHash, partHashes, rest) ←
    decodeHashsetBody takeSha1 20 .aichHashsetShort .aichHashsetShortExpected payload
  return (⟨masterHash, partHashes⟩, rest)

def decodeHashsetAnswer : Except PeerError (Md4Digest × List Md4Digest) := do
  let (fileHash, hashset, _) ← decodeMd4HashsetBody payload
  return (fileHash, hashset)

structure Ed2kHashsetAnswer2 where
  fileIdentifier : Ed2kFileIdentifier
  md4Hashset : Option (List Md4Digest)
  aichHashset : Option Ed2kAichHashset

def takeMd4Section (included : Bool) (fileHash : Md4Digest) (body : List UInt8) :
    Except PeerError (Option (List Md4Digest) × List UInt8) :=
  if included then do
    let (returned, hashset, rest) ← decodeMd4HashsetBody body
    if returned ≠ fileHash then throw (.hashsetAnswer2Md4For returned fileHash)
    return (some hashset, rest)
  else .ok (none, body)

def takeAichSection (included : Bool) (id : Ed2kFileIdentifier) (body : List UInt8) :
    Except PeerError (Option Ed2kAichHashset) :=
  if included then do
    let (hashset, _) ← decodeAichHashsetBody body
    if !agree id.aichRoot (some hashset.masterHash) then
      throw (.hashsetAnswer2RootMismatch id.fileHash)
    return some hashset
  else .ok none

def decodeHashsetAnswer2 : Except PeerError Ed2kHashsetAnswer2 := do
  let (id, rest) ← Ed2kFileIdentifier.decode payload
  match rest with
  | [] => throw .hashsetAnswer2Short
  | options :: rest =>
    let (md4Hashset, rest) ← takeMd4Section (options &&& 1 ≠ 0) id.fileHash rest
    let aichHashset ← takeAichSection (options &&& 2 ≠ 0) id rest
    return ⟨id, md4Hashset, aichHashset⟩

/-! ## Other answers -/

def decodeAichFileHashAnswer : Except PeerError (Md4Digest × Sha1Digest) :=
  match takeMd4 payload with
  | none => .error (.aichFileHashShort payload.length)
  | some (fileHash, rest) =>
    match takeSha1 rest with
    | none => .error (.aichFileHashShort payload.length)
    | some (root, _) => .ok (fileHash, root)

def decodeRequestFilenameAnswerBody (body : List UInt8) :
    Except PeerError (List UInt8 × List UInt8) :=
  match takeLe 2 body with
  | none => .error .fileNameShortBody
  | some (len, rest) =>
    match takeBytes len rest with
    | none => .error .fileNameShort
    | some (name, rest) => .ok (name, rest)

def decodeRequestFilenameAnswer : Except PeerError (Md4Digest × List UInt8) :=
  match takeMd4 payload with
  | none => .error (.fileHashPayload payload.length)
  | some (fileHash, rest) => do
    let (name, _) ← decodeRequestFilenameAnswerBody rest
    return (fileHash, name)

def decodeFileStatusBody (body : List UInt8) : Except PeerError (Nat × List UInt8) :=
  match takeLe 2 body with
  | none => .error .fileStatusShortBody
  | some (partCount, rest) =>
    match takeBytes ((partCount + 7) / 8) rest with
    | none => .error (.fileStatusShort body.length (2 + (partCount + 7) / 8))
    | some (_, rest) => .ok (partCount, rest)

/-- The part count eMule reports, one more than the data parts at an exact multiple. -/
def ed2kPartCount (fileSize : Nat) : Nat :=
  if fileSize = 0 then 0 else Aich.saturateU16 (fileSize / ed2kPartSize + 1)

def validateFileStatusPartCount (partCount fileSize : Nat) : Except PeerError Unit :=
  if partCount = 0 then .ok ()
  else if partCount ≠ ed2kPartCount fileSize then
    .error (.fileStatusPartCount partCount (ed2kPartCount fileSize))
  else .ok ()

def opFileStatus : UInt8 := 0x50

def opReqFileNameAnswer : UInt8 := 0x59

def opAichFileHashAns : UInt8 := 0x9D

structure MultipacketAnswer where
  fileName : Option (List UInt8)
  aichRoot : Option Sha1Digest

/-- The loop over the sub-packets. Only the plain answer, not the one with a file identifier, may
    carry an AICH root. Every turn takes at least its opcode, so the length of the body bounds the
    turns. -/
def multipacketLoop (what : String) (rootAllowed : Bool) (fileSize : Nat) :
    Nat → List UInt8 → MultipacketAnswer → Except PeerError MultipacketAnswer
  | _, [], answer => .ok answer
  | 0, _ :: _, answer => .ok answer
  | turns + 1, subOpcode :: rest, answer =>
    if subOpcode = opReqFileNameAnswer then do
      let (name, rest) ← decodeRequestFilenameAnswerBody rest
      multipacketLoop what rootAllowed fileSize turns rest { answer with fileName := some name }
    else if subOpcode = opFileStatus then do
      let (partCount, rest) ← decodeFileStatusBody rest
      validateFileStatusPartCount partCount fileSize
      multipacketLoop what rootAllowed fileSize turns rest answer
    else if rootAllowed ∧ subOpcode = opAichFileHashAns then
      match takeSha1 rest with
      | none => .error (.multipacketShortAich rest.length)
      | some (root, rest) =>
        multipacketLoop what rootAllowed fileSize turns rest { answer with aichRoot := some root }
    else .error (.multipacketSubOp what subOpcode)

/-! ## Handlers -/

inductive SessionOp
  | reconcileJobMetadata (fileSize : Option Nat)
  | recordNetworkAichRoot (root : Option Sha1Digest)
  | storeMd4Hashset (hashset : List Md4Digest)
  | storeAichHashset (hashset : Ed2kAichHashset)
  /-- A file name was remembered: nothing modelled here changes, and the manifest is loaded. -/
  | rememberFileName
  /-- `request_file_identifier = from_manifest(&manifest)`. -/
  | refreshIdentifier
  /-- A root that conflicts with the manifest's ends the session. -/
  | checkAdvertisedRoot (root : Option Sha1Digest)

inductive Packet
  | hashsetAnswer (payload : List UInt8)
  | hashsetAnswer2 (payload : List UInt8)
  | requestFilenameAnswer (payload : List UInt8)
  | multipacketAnswer (payload : List UInt8)
  | multipacketAnswerExt2 (payload : List UInt8)
  | aichFileHashAns (payload : List UInt8)

def reconcileDownloadManifestMetadata (id : Ed2kFileIdentifier) : List SessionOp :=
  if id.fileSize.isNone && id.aichRoot.isNone then []
  else [.reconcileJobMetadata id.fileSize, .recordNetworkAichRoot id.aichRoot, .refreshIdentifier]

def rememberName (answer : MultipacketAnswer) : List SessionOp :=
  if answer.fileName.isSome then [.rememberFileName] else []

def handlePacket (id : Ed2kFileIdentifier) (m : Ed2kResumeManifest) :
    Packet → Except PeerError (List SessionOp)
  | .hashsetAnswer payload => do
    let (returned, hashset) ← decodeHashsetAnswer payload
    if returned ≠ m.fileHash then throw (.unexpectedFile "hashset" returned)
    return [.storeMd4Hashset hashset]
  | .hashsetAnswer2 payload => do
    let answer ← decodeHashsetAnswer2 payload
    if !id.matchesRelaxed answer.fileIdentifier then
      throw (.unexpectedFile "OP_HASHSETANSWER2" answer.fileIdentifier.fileHash)
    return reconcileDownloadManifestMetadata answer.fileIdentifier ++
      (match answer.md4Hashset with
        | some hashset => [.storeMd4Hashset hashset]
        | none => []) ++
      match answer.aichHashset with
        | some hashset => [.storeAichHashset hashset, .refreshIdentifier]
        | none => []
  | .requestFilenameAnswer payload => do
    let (returned, _) ← decodeRequestFilenameAnswer payload
    if returned ≠ m.fileHash then throw (.fileNameHashMismatch returned m.fileHash)
    return [.rememberFileName, .refreshIdentifier]
  | .multipacketAnswer payload =>
    match takeMd4 payload with
    | none => .error .multipacketShortHash
    | some (returned, rest) => do
      if returned ≠ m.fileHash then throw (.unexpectedFile "OP_MULTIPACKETANSWER" returned)
      let answer ←
        multipacketLoop "OP_MULTIPACKETANSWER" true m.fileSize rest.length rest ⟨none, none⟩
      return [.recordNetworkAichRoot answer.aichRoot, .checkAdvertisedRoot answer.aichRoot] ++
        rememberName answer ++ [.refreshIdentifier]
  | .multipacketAnswerExt2 payload => do
    let (returned, rest) ← Ed2kFileIdentifier.decode payload
    if !id.matchesRelaxed returned then
      throw (.unexpectedFile "OP_MULTIPACKETANSWER_EXT2" returned.fileHash)
    let answer ←
      multipacketLoop "OP_MULTIPACKETANSWER_EXT2" false m.fileSize rest.length rest ⟨none, none⟩
    return rememberName answer ++ reconcileDownloadManifestMetadata returned
  | .aichFileHashAns payload => do
    let (returned, root) ← decodeAichFileHashAnswer payload
    if returned ≠ m.fileHash then throw (.unexpectedFile "AICH file hash" returned)
    return [.recordNetworkAichRoot (some root), .checkAdvertisedRoot (some root),
      .refreshIdentifier]

end EmuleBB.Peer
