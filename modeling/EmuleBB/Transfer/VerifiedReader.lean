import EmuleBB.Transfer.Store

/-!
# The reader of verified ranges

One reader serves the fragments of an upload from one open payload. **Nothing in the file is
trusted because it is there**: a complete payload is trusted while its handle still shows the
fingerprint it was verified with, an incomplete one part by part, when the part just read has the
expected MD4. What was accepted stays in a cache, and a later request inside it is answered without
the disk.

The handle is an input of each call. Others may change the file at any time, also during a call, and
any seek, read or inspection may fail; so a call is given what the handle does, and the answers are
judged in `EmuleBB.Transfer.ServedBytes`.
-/

namespace EmuleBB.Transfer

/-! ## The payload handle -/

/-- What the handle does during one call: whether a seek to a position succeeds, the bytes it
    delivers from there before it ends or fails, and, if the inspection succeeds, the fingerprint it
    shows of a regular file. Others may change the file at any time, so nothing ties these to an
    earlier call. -/
structure PayloadIo where
  seeks : Nat → Bool
  delivers : Nat → List UInt8
  inspects : Option (Option NativeFileFingerprint)

/-- A zeroed buffer after `read_exact` has filled what it could. -/
def PayloadIo.buffer (io : PayloadIo) (pos wanted : Nat) : List UInt8 :=
  (io.delivers pos ++ List.replicate wanted 0).take wanted

def PayloadIo.readsExact (io : PayloadIo) (pos wanted : Nat) : Bool :=
  wanted ≤ (io.delivers pos).length

def slice (bytes : List UInt8) (first last : Nat) : Option (List UInt8) :=
  if first ≤ last ∧ last ≤ bytes.length then some ((bytes.drop first).take (last - first))
  else none

/-- The errors of a read, with what their messages say. -/
inductive RangeReadError
  | noMd4Hashset
  | descendingRange
  | zeroPieceSize
  | partIndexRange
  | missingHashsetEntry (part : Nat)
  | emptyPart (part : Nat)
  | partSeek (part : Nat)
  | partRead (part : Nat)
  | partChanged (part : Nat)
  | rangeExceedsPart
  | seek
  | read
  | reinspect
  | identityLost
  | payloadChanged
  deriving DecidableEq

/-! ## The reader -/

structure IncompletePayloadAuthority where
  fileHash : Md4Digest
  fileSize : Nat
  pieceSize : Nat
  partHashes : List Md4Digest

def IncompletePayloadAuthority.fromManifest (m : Ed2kResumeManifest) :
    Except RangeReadError IncompletePayloadAuthority :=
  if m.md4HashsetAcquired then
    .ok
      { fileHash := m.fileHash
        fileSize := m.fileSize
        pieceSize := m.pieceSize
        partHashes := if m.md4Hashset.isEmpty then [m.fileHash] else m.md4Hashset }
  else .error .noMd4Hashset

structure AcceptedRead where
  offset : Nat
  bytes : List UInt8
  io : PayloadIo

/-- A file that is served, and the bytes read ahead. -/
structure Ed2kVerifiedRangeReader where
  expectedFingerprint : Option NativeFileFingerprint
  incompleteAuthority : Option IncompletePayloadAuthority
  verifiedRanges : List Ed2kSharedRange
  cacheStart : Nat
  cache : List UInt8
  cacheHitCount : Nat
  cacheMissCount : Nat
  diskReadBytes : Nat
  /-- Ghost: the reads accepted so far. -/
  accepted : List AcceptedRead
  /-- Ghost: the cache is the buffer of a read that failed. -/
  spoiled : Bool

/-- One read, and what the file system does with it. -/
structure RangeRead where
  start : Nat
  stop : Nat
  readAheadBytes : Nat
  io : PayloadIo

def IncompletePayloadAuthority.readPart (md4 : Md4)
    (authority : IncompletePayloadAuthority) (io : PayloadIo) (pieceIndex : Nat) :
    Except RangeReadError (List UInt8) :=
  if 2 ^ 32 ≤ pieceIndex then .error .partIndexRange
  else
    match authority.partHashes[pieceIndex]? with
    | none => .error (.missingHashsetEntry pieceIndex)
    | some expectedHash =>
      let pieceStart := pieceIndex * authority.pieceSize
      let pieceLen := expectedPieceLength authority.fileSize authority.pieceSize pieceIndex
      if pieceLen = 0 then .error (.emptyPart pieceIndex)
      else if !io.seeks pieceStart then .error (.partSeek pieceIndex)
      else if !io.readsExact pieceStart pieceLen then .error (.partRead pieceIndex)
      else
        let pieceBytes := io.buffer pieceStart pieceLen
        if md4 pieceBytes = expectedHash then .ok pieceBytes
        else .error (.partChanged pieceIndex)

namespace Ed2kVerifiedRangeReader

def readCachedRange (r : Ed2kVerifiedRangeReader) (start stop : Nat) : Option (List UInt8) :=
  let cacheEnd := saturatingAdd r.cacheStart r.cache.length
  if start < r.cacheStart ∨ stop > cacheEnd then none
  else
    let offset := start - r.cacheStart
    slice r.cache offset (offset + (stop - start))

def ensurePayloadIdentityUnchanged (r : Ed2kVerifiedRangeReader) (io : PayloadIo) :
    Except RangeReadError Unit :=
  match r.expectedFingerprint with
  | none => .ok ()
  | some expected =>
    match io.inspects with
    | none => .error .reinspect
    | some none => .error .identityLost
    | some (some current) => if expected = current then .ok () else .error .payloadChanged

/-- The loop of `read_cryptographically_verified_range` over `count` parts. -/
def serveParts (md4 : Md4) (authority : IncompletePayloadAuthority)
    (io : PayloadIo) (start stop : Nat) :
    (count pieceIndex : Nat) → Ed2kVerifiedRangeReader → List UInt8 →
      Ed2kVerifiedRangeReader × Except RangeReadError (List UInt8)
  | 0, _, r, response => (r, .ok response)
  | count + 1, pieceIndex, r, response =>
    match authority.readPart md4 io pieceIndex with
    | .error (.partChanged part) =>
      ({ r with cache := [], spoiled := false }, .error (.partChanged part))
    | .error error => (r, .error error)
    | .ok pieceBytes =>
      let pieceStart := pieceIndex * authority.pieceSize
      let pieceEnd := pieceStart + pieceBytes.length
      let r := { r with accepted := r.accepted ++ [⟨pieceStart, pieceBytes, io⟩] }
      match slice pieceBytes (max start pieceStart - pieceStart)
        (min stop pieceEnd - pieceStart) with
      | none => (r, .error .rangeExceedsPart)
      | some part =>
        serveParts md4 authority io start stop count (pieceIndex + 1)
          { r with
            cacheStart := pieceStart
            cache := pieceBytes
            diskReadBytes := saturatingAdd r.diskReadBytes pieceBytes.length
            spoiled := false }
          (response ++ part)

def readCryptographicallyVerifiedRange (md4 : Md4)
    (authority : IncompletePayloadAuthority) (r : Ed2kVerifiedRangeReader) (start stop : Nat)
    (io : PayloadIo) : Ed2kVerifiedRangeReader × Except RangeReadError (Option (List UInt8)) :=
  if stop < start then (r, .error .descendingRange)
  else if start = stop then (r, .ok (some []))
  else if authority.pieceSize = 0 then (r, .error .zeroPieceSize)
  else
    let firstPiece := start / authority.pieceSize
    let lastPiece := (stop - 1) / authority.pieceSize
    match serveParts md4 authority io start stop (lastPiece + 1 - firstPiece) firstPiece r [] with
    | (r, .error error) => (r, .error error)
    | (r, .ok response) =>
      ({ r with cacheMissCount := saturatingAdd r.cacheMissCount 1 }, .ok (some response))

/-- The rest of `read_range_with_read_ahead` for a complete payload, in a verified range that ends
    at `rangeEnd`. -/
def readCompletePayload (r : Ed2kVerifiedRangeReader) (call : RangeRead) (rangeEnd : Nat) :
    Ed2kVerifiedRangeReader × Except RangeReadError (Option (List UInt8)) :=
  let requestedLen := call.stop - call.start
  let readLen :=
    if requestedLen ≥ ed2kEmblockSize then max requestedLen call.readAheadBytes else requestedLen
  let readEnd := min (saturatingAdd call.start readLen) rangeEnd
  if !call.io.seeks call.start then (r, .error .seek)
  else
    let wanted := readEnd - call.start
    -- the buffer is the cache from here on, whatever becomes of the read
    let r := { r with cacheStart := call.start, cache := call.io.buffer call.start wanted }
    if !call.io.readsExact call.start wanted then ({ r with spoiled := true }, .error .read)
    else
      match r.ensurePayloadIdentityUnchanged call.io with
      | .error error => ({ r with cache := [], spoiled := false }, .error error)
      | .ok () =>
        let r :=
          { r with
            cacheMissCount := saturatingAdd r.cacheMissCount 1
            diskReadBytes := saturatingAdd r.diskReadBytes r.cache.length
            accepted := r.accepted ++ [⟨call.start, r.cache, call.io⟩]
            spoiled := false }
        (r, .ok (r.readCachedRange call.start call.stop))

def readRangeWithReadAhead (md4 : Md4) (r : Ed2kVerifiedRangeReader)
    (call : RangeRead) :
    Ed2kVerifiedRangeReader × Except RangeReadError (Option (List UInt8)) :=
  match r.verifiedRanges.find? fun range =>
      decide (range.start ≤ call.start) && decide (call.stop ≤ range.stop) with
  | none => (r, .ok none)
  | some verifiedRange =>
    match r.readCachedRange call.start call.stop with
    | some bytes => ({ r with cacheHitCount := saturatingAdd r.cacheHitCount 1 }, .ok (some bytes))
    | none =>
      match r.incompleteAuthority with
      | some authority =>
        readCryptographicallyVerifiedRange md4 authority r call.start call.stop call.io
      | none => r.readCompletePayload call verifiedRange.stop

def step (md4 : Md4) (r : Ed2kVerifiedRangeReader) (call : RangeRead) :
    Ed2kVerifiedRangeReader :=
  (r.readRangeWithReadAhead md4 call).1

end Ed2kVerifiedRangeReader

/-! ## Opening one -/

/-- The row of a file that was verified. -/
structure LocalFileInstance where
  fileSize : Nat
  verifiedFingerprint : NativeFileFingerprint

inductive VerifiedPayloadAuthority
  | managedIncomplete
  | managedCompleted (expected : Option NativeFileFingerprint)
  | localInstance (expected : NativeFileFingerprint)

namespace VerifiedPayloadAuthority

def expectedFingerprint : VerifiedPayloadAuthority → Option NativeFileFingerprint
  | managedIncomplete => none
  | managedCompleted expected => expected
  | localInstance expected => some expected

def requiresFingerprint : VerifiedPayloadAuthority → Bool
  | managedIncomplete => false
  | _ => true

def opens (authority : VerifiedPayloadAuthority) :
    Option (Option NativeFileFingerprint) → Bool
  | none => false
  | some seen =>
    match authority.expectedFingerprint with
    | none => true
    | some expected => seen = some expected

end VerifiedPayloadAuthority

/-- What there is to serve of a file and by whose word: an active local file, or else the verified
    ranges of the managed transfer. -/
def verifiedPayload (localFile : Option LocalFileInstance) (manifest : Option Ed2kResumeManifest) :
    Except RangeReadError (Option (List Ed2kSharedRange × VerifiedPayloadAuthority ×
      Option IncompletePayloadAuthority)) :=
  match localFile, manifest with
  | some file, _ =>
    .ok (some ([⟨0, file.fileSize⟩], .localInstance file.verifiedFingerprint, none))
  | none, none => .ok none
  | none, some m =>
    if m.verifiedRanges.isEmpty then .ok none
    else if m.completed then
      .ok (some (m.verifiedRanges, .managedCompleted m.payloadFingerprint, none))
    else do
      let authority ← IncompletePayloadAuthority.fromManifest m
      return some (m.verifiedRanges, .managedIncomplete, some authority)

/-- `opened` is what opening the payload gives: a regular file, with its fingerprint where one can
    be taken. Where there is nothing to serve, or it is not what was verified, there
    is no reader. -/
def openVerifiedRangeReader (localFile : Option LocalFileInstance)
    (manifest : Option Ed2kResumeManifest) (opened : Option (Option NativeFileFingerprint)) :
    Except RangeReadError (Option Ed2kVerifiedRangeReader) := do
  match ← verifiedPayload localFile manifest with
  | none => return none
  | some (verifiedRanges, authority, incompleteAuthority) =>
    if authority.requiresFingerprint && authority.expectedFingerprint.isNone then return none
    else if authority.opens opened then
      return some
        { expectedFingerprint := authority.expectedFingerprint
          incompleteAuthority := incompleteAuthority
          verifiedRanges := verifiedRanges
          cacheStart := 0
          cache := []
          cacheHitCount := 0
          cacheMissCount := 0
          diskReadBytes := 0
          accepted := []
          spoiled := false }
    else return none

end EmuleBB.Transfer
