import EmuleBB.Lib.Ballot
import EmuleBB.Lib.Run
import EmuleBB.Wire
import EmuleBB.Peer.Messages

/-!
# AICH roots learned from the network

How a download comes by the root that later authorises part salvage. Roots that peers advertise
go through **an accumulator of first votes**, one per masked IPv4 address, and are promoted once
enough signers agree. The hashset of an `OP_HASHSETANSWER2` is checked against itself and against a
root that is already known, and then stored with its root.

A step is the arrival of a packet or one operation of a handler, of any peer session of one file.
-/

namespace EmuleBB.Peer

open Transfer (Ed2kResumeManifest Ed2kPieceState)
open Aich (Ed2kAichHashset)

/-! ## The accumulator -/

def minUniqueIpsToTrust : Nat := 10

def minPercentageToTrust : Nat := 92

/-- The signer behind an address: its top 20 bits. -/
def maskSignerIp (ip : Ipv4Addr) : Ipv4Addr := ⟨ip.a, ip.b, ip.c &&& 0xF0, 0⟩

abbrev AichRootCorroboration := Ballot.Box Ipv4Addr Sha1Digest

namespace AichRootCorroboration

def record (acc : AichRootCorroboration) (root : Sha1Digest) (fromIp : Ipv4Addr) :
    AichRootCorroboration :=
  Ballot.record acc (maskSignerIp fromIp) root

/-- The leading root, if enough signers and a large enough share of them proposed it. -/
def trustedRoot (acc : AichRootCorroboration) : Option Sha1Digest :=
  let totalSigners := (Ballot.choices acc).length
  match Ballot.leader (Ballot.tallies (Ballot.choices acc)) with
  | none => none
  | some (root, count) =>
    if totalSigners = 0 then none
    else if minUniqueIpsToTrust ≤ count ∧ minPercentageToTrust ≤ 100 * count / totalSigners then
      some root
    else none

end AichRootCorroboration

/-! ## Operations on the manifest -/

section

variable (md4 : Md4) (sha1 : Sha1)

def expectedMd4HashCount (fileSize : Nat) : Nat :=
  if fileSize = 0 then 0
  else
    Aich.saturateU16
      (fileSize / ed2kPartSize + if 0 < fileSize / ed2kPartSize then 1 else 0)

def validateMd4Hashset (fileHash : Md4Digest) (hashset : List Md4Digest) : Except PeerError Unit :=
  if hashset.isEmpty then .ok ()
  else if md4 (hashset.flatMap Vector.toList) ≠ fileHash then .error .md4HashsetMismatch
  else .ok ()

variable (m : Ed2kResumeManifest)

def storeMd4Hashset (hashset : List Md4Digest) : Except PeerError Ed2kResumeManifest :=
  if hashset.length ≠ expectedMd4HashCount m.fileSize then
    .error (.md4HashsetLength hashset.length (expectedMd4HashCount m.fileSize))
  else do
    validateMd4Hashset md4 m.fileHash hashset
    return { m with md4Hashset := hashset, md4HashsetAcquired := true }

def storeAichHashset (hashset : Ed2kAichHashset) : Except PeerError Ed2kResumeManifest :=
  if !agree m.aichRoot (some hashset.masterHash) then .error .aichRootConflict
  else
    match Aich.validateAichPartHashes sha1 m.fileSize hashset.masterHash hashset.partHashes with
    | .error e => .error (.aich e)
    | .ok () =>
      .ok { m with
        aichRoot := some hashset.masterHash
        aichHashset := hashset.partHashes
        aichHashsetAcquired := true }

/-- One observation of `record_network_aich_observations`: only IPv4 peers vote. -/
def recordObservation (acc : AichRootCorroboration) (observation : Sha1Digest × IpAddr) :
    AichRootCorroboration :=
  match observation.2 with
  | .v4 ip => acc.record observation.1 ip
  | .v6 _ => acc

def recordNetworkAichObservations (acc : AichRootCorroboration)
    (observations : List (Sha1Digest × IpAddr)) : Ed2kResumeManifest × AichRootCorroboration :=
  if observations.isEmpty ∨ m.aichRoot.isSome then (m, acc)
  else
    let acc := observations.foldl recordObservation acc
    match acc.trustedRoot with
    | some trusted => ({ m with aichRoot := some trusted }, acc)
    | none => (m, acc)

def manifestHasStructuralProgress : Bool :=
  m.completed || m.md4HashsetAcquired || m.aichHashsetAcquired || m.aichRoot.isSome ||
    !m.verifiedRanges.isEmpty || m.pieces.any fun piece => piece.bytesWritten ≠ 0

/-- `reconcile_job_metadata` without a display name: an unknown size is adopted, a known one is
    never changed. -/
def reconcileJobMetadata (fileSize : Option Nat) : Except PeerError Ed2kResumeManifest :=
  match fileSize with
  | none => .ok m
  | some 0 => .ok m
  | some size =>
    if m.fileSize = 0 then
      if manifestHasStructuralProgress m then .error (.adoptSizeAfterProgress size)
      else
        .ok { m with
          fileSize := size
          pieces := (List.range (Transfer.pieceCount size m.pieceSize)).map Ed2kPieceState.empty }
    else if m.fileSize ≠ size then .error (.changeSize m.fileSize size)
    else .ok m

/-! ## Sessions -/

structure PeerSession where
  ip : IpAddr
  requestFileIdentifier : Ed2kFileIdentifier
  manifest : Ed2kResumeManifest
  pending : List SessionOp

/-- The manifest, the votes on its AICH root, and the sessions that write to both. -/
structure TrustSystem where
  manifest : Ed2kResumeManifest
  corroboration : AichRootCorroboration
  sessions : List PeerSession

/-- Sessions connect, receive and work off what they received; others vote. -/
inductive TrustEvent
  | connect (ip : IpAddr)
  | receive (index : Nat) (packet : Packet)
  | advance (index : Nat)
  | observe (observations : List (Sha1Digest × IpAddr))
  | close (index : Nat)

def TrustSystem.start : TrustSystem := ⟨m, ∅, []⟩

/-- What one operation of a handler leaves: manifest, accumulator and the session's own copies. -/
def runOp (s : TrustSystem) (session : PeerSession) :
    SessionOp → Except PeerError (Ed2kResumeManifest × AichRootCorroboration × PeerSession)
  | .reconcileJobMetadata fileSize => do
    let m ← reconcileJobMetadata s.manifest fileSize
    return (m, s.corroboration, { session with manifest := m })
  | .recordNetworkAichRoot root =>
    let recorded := recordNetworkAichObservations s.manifest s.corroboration
      (root.toList.map fun root => (root, session.ip))
    .ok (recorded.1, recorded.2, { session with manifest := recorded.1 })
  | .storeMd4Hashset hashset => do
    let m ← storeMd4Hashset md4 s.manifest hashset
    return (m, s.corroboration, { session with manifest := m })
  | .storeAichHashset hashset => do
    let m ← storeAichHashset sha1 s.manifest hashset
    return (m, s.corroboration, { session with manifest := m })
  | .rememberFileName =>
    .ok (s.manifest, s.corroboration, { session with manifest := s.manifest })
  | .refreshIdentifier =>
    .ok (s.manifest, s.corroboration,
      { session with requestFileIdentifier := .fromManifest session.manifest })
  | .checkAdvertisedRoot root =>
    if agree session.manifest.aichRoot root then .ok (s.manifest, s.corroboration, session)
    else .error .advertisedRootConflicts

def trustStep (s : TrustSystem) : TrustEvent → TrustSystem
  | .connect ip =>
    { s with sessions := s.sessions ++ [⟨ip, .fromManifest s.manifest, s.manifest, []⟩] }
  | .receive index packet =>
    match s.sessions[index]? with
    | some ⟨ip, id, m, []⟩ =>
      match handlePacket id m packet with
      | .ok ops => { s with sessions := s.sessions.set index ⟨ip, id, m, ops⟩ }
      | .error _ => { s with sessions := s.sessions.eraseIdx index }
    | _ => s
  | .advance index =>
    match s.sessions[index]? with
    | some ⟨ip, id, m, op :: ops⟩ =>
      match runOp md4 sha1 s ⟨ip, id, m, ops⟩ op with
      | .ok (manifest, corroboration, session) =>
        ⟨manifest, corroboration, s.sessions.set index session⟩
      | .error _ => { s with sessions := s.sessions.eraseIdx index }
    | _ => s
  | .observe observations =>
    let recorded := recordNetworkAichObservations s.manifest s.corroboration observations
    { s with manifest := recorded.1, corroboration := recorded.2 }
  | .close index => { s with sessions := s.sessions.eraseIdx index }

def TrustSystem.after (s : TrustSystem) (events : List TrustEvent) : TrustSystem :=
  Run.run (trustStep md4 sha1) s events

end

end EmuleBB.Peer
