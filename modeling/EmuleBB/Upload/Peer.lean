import EmuleBB.Wire

/-!
# Upload peers and their scores

Who an upload client is, how a waiter is ranked, and which newcomers the waiting queue refuses. Two
identities are **the same client** when their user hashes agree, or, when one of them has none, when
their endpoints do; that relation is not transitive. A queue entry is keyed by a narrower identity,
the file included, and the rest of what a peer says about itself travels with the key without being
part of it.
-/

namespace EmuleBB.Upload

open Peer

def isLowIdClientId (clientId : UInt32) : Bool := clientId ≠ 0 && clientId < 0x01000000

structure FirewallContext where
  weAreConnected : Bool
  weAreFirewalled : Bool
  peerOnSameServer : Bool
  deriving DecidableEq

/-- `Ed2kUploadPeerIdentity`, without its display and reask-framing fields. -/
structure PeerIdentity where
  ip : IpAddr
  tcpPort : UInt16
  udpPort : Option UInt16
  userHash : Option UserHash
  clientId : Option UInt32
  serverEndpoint : Option SocketAddr
  friendSlot : Bool
  identVerified : Bool
  identBadGuy : Bool
  gplEvildoer : Bool
  banned : Bool
  emuleVersion : UInt8
  isEmuleClient : Bool
  kadPort : UInt16
  supportsDirectUdpCallback : Bool
  firewallContext : FirewallContext
  deriving DecidableEq

def PeerIdentity.hasLowId (peer : PeerIdentity) : Bool := peer.clientId.any isLowIdClientId

def PeerIdentity.hasUserHash (peer : PeerIdentity) : Bool :=
  peer.userHash.any fun hash => hash ≠ zeroUserHash

def sameUploadClient (left right : PeerIdentity) : Bool :=
  match left.userHash, right.userHash with
  | some leftHash, some rightHash => leftHash = rightHash
  | _, _ => left.ip = right.ip && left.tcpPort = right.tcpPort

/-- A session is one of a peer for a file. -/
structure SessionKey where
  peer : PeerIdentity
  fileHash : Md4Digest
  deriving DecidableEq

structure KeyIdent where
  ip : IpAddr
  tcpPort : UInt16
  userHash : Option UserHash
  clientId : Option UInt32
  fileHash : Md4Digest
  deriving DecidableEq

def SessionKey.ident (key : SessionKey) : KeyIdent :=
  ⟨key.peer.ip, key.peer.tcpPort, key.peer.userHash, key.peer.clientId, key.fileHash⟩

def SessionKey.same (key other : SessionKey) : Bool := key.ident = other.ident

/-- How a peer that cannot be dialled is asked to connect. -/
inductive CallbackRoute
  | directUdp (endpoint : SocketAddr)
  | server (endpoint : SocketAddr) (sessionGeneration : Nat) (clientId : UInt32)
  deriving DecidableEq

def callbackRouteIsValidForPeer (route : CallbackRoute) (peer : PeerIdentity) : Bool :=
  peer.hasLowId &&
    match route with
    | .directUdp endpoint =>
      peer.supportsDirectUdpCallback && peer.udpPort = some endpoint.port
        && peer.ip = endpoint.ip && !endpoint.ip.isUnspecified && endpoint.port ≠ 0
    | .server endpoint _ clientId =>
      peer.serverEndpoint = some endpoint && peer.clientId = some clientId
        && isLowIdClientId clientId

def callbackRouteMatchesHello (route : CallbackRoute) (expected observed : PeerIdentity) : Bool :=
  match expected.userHash.filter (fun hash => hash ≠ zeroUserHash) with
  | some expectedHash => observed.userHash = some expectedHash
  | none =>
    match route with
    | .directUdp endpoint => observed.ip = endpoint.ip && observed.tcpPort = expected.tcpPort
    | .server endpoint _ clientId =>
      observed.serverEndpoint = some endpoint && observed.clientId = some clientId

/-- A client id string of the management interface, by what it can match: the hex user hash, or
    the `ip:port` endpoint. -/
inductive ClientSelector
  | userHash (hash : UserHash)
  | endpoint (ip : IpAddr) (tcpPort : UInt16)
  | other
  deriving DecidableEq

def uploadClientIdMatches (peer : PeerIdentity) : ClientSelector → Bool
  | .userHash hash => peer.userHash = some hash
  | .endpoint ip tcpPort => peer.ip = ip && peer.tcpPort = tcpPort
  | .other => false

theorem PeerIdentity.hasUserHash_iff {peer : PeerIdentity} :
    peer.hasUserHash = true ↔ ∃ hash, peer.userHash = some hash ∧ hash ≠ zeroUserHash := by
  unfold hasUserHash
  cases peer.userHash <;> simp

theorem sameUploadClient_iff {left right : PeerIdentity} (hl : left.hasUserHash = true)
    (hr : right.hasUserHash = true) :
    sameUploadClient left right = true ↔ left.userHash = right.userHash := by
  obtain ⟨l, hl, -⟩ := PeerIdentity.hasUserHash_iff.mp hl
  obtain ⟨r, hr, -⟩ := PeerIdentity.hasUserHash_iff.mp hr
  simp [sameUploadClient, hl, hr]

theorem userHash_of_matchesHello {route : CallbackRoute} {expected observed : PeerIdentity}
    (he : expected.hasUserHash = true)
    (h : callbackRouteMatchesHello route expected observed = true) :
    observed.userHash = expected.userHash := by
  obtain ⟨hash, hhash, hne⟩ := PeerIdentity.hasUserHash_iff.mp he
  have hfilter : expected.userHash.filter (fun hash => hash ≠ zeroUserHash) = some hash := by
    simp [hhash, Option.filter, hne]
  unfold callbackRouteMatchesHello at h
  rw [hfilter] at h
  rw [hhash]
  exact of_decide_eq_true h

/-! ## Scores

They are the source's `i128` integers, whose division truncates towards zero. -/

def defaultCreditScorePermille : Int := 1000
def friendSlotScoreBonus : Int := 1000000000
def oldClientEmuleVersionThreshold : UInt8 := 0x19
def lowIdScoreDivisor : Int := 2
def oldClientPenaltyNumerator : Int := 1
def oldClientPenaltyDenominator : Int := 2
def defaultLowRatioBonus : Int := 50
def defaultLowRatioThresholdPermille : Int := 500

structure ScoreModifiers where
  lowId : Bool
  identBadGuy : Bool
  gplEvildoer : Bool
  banned : Bool
  oldClient : Bool
  lowRatioBonus : Bool
  deriving DecidableEq

def ScoreModifiers.fromPeer (peer : PeerIdentity) (lowId : Bool)
    (allTimeUploadRatioPermille : Int) : ScoreModifiers where
  lowId := lowId
  identBadGuy := peer.identBadGuy
  gplEvildoer := peer.gplEvildoer
  banned := peer.banned
  oldClient := peer.isEmuleClient && peer.emuleVersion ≤ oldClientEmuleVersionThreshold
  lowRatioBonus := allTimeUploadRatioPermille < defaultLowRatioThresholdPermille

def ScoreModifiers.zeroesScore (modifiers : ScoreModifiers) : Bool :=
  modifiers.identBadGuy || modifiers.gplEvildoer || modifiers.banned

def friendSlotBonus (friendSlot : Bool) : Int := if friendSlot then friendSlotScoreBonus else 0

def scoreOf (waitingSeconds : Int) (friendSlot : Bool)
    (filePriorityScore creditScorePermille : Int) (modifiers : ScoreModifiers) : Int :=
  if modifiers.zeroesScore then 0
  else
    let score :=
      (waitingSeconds * filePriorityScore * creditScorePermille).tdiv defaultCreditScorePermille
    let score := if modifiers.lowRatioBonus then score + defaultLowRatioBonus * 10 else score
    let score := if modifiers.lowId then score.tdiv lowIdScoreDivisor else score
    let score :=
      if modifiers.oldClient then
        (score * oldClientPenaltyNumerator).tdiv oldClientPenaltyDenominator
      else score
    score + friendSlotBonus friendSlot

/-! ## Admission gates -/

def maxClientsPerIp : Nat := 3
def firewalledCallbackQueueThreshold : Nat := 50
def hardLimitMarginFloor : Nat := 800

def i128Max : Int := 2 ^ 127 - 1
def i128Min : Int := -2 ^ 127

/-- The saturating operations of `i128`. -/
def saturateI128 (value : Int) : Int := max i128Min (min i128Max value)

def hardQueueLimit (softQueueSize : Nat) : Nat :=
  softQueueSize + max softQueueSize hardLimitMarginFloor / 4

def rejectSoftQueueCandidate (waitingCount softQueueSize : Nat) (hasFriendSlot : Bool)
    (candidateCombinedScore averageCombinedScore : Int) : Bool :=
  hardQueueLimit softQueueSize ≤ waitingCount
    || (softQueueSize ≤ waitingCount && !hasFriendSlot
        && candidateCombinedScore < averageCombinedScore)

def combinedFilePrioAndCredit (filePriorityScore creditScorePermille : Int) : Int :=
  saturateI128 (filePriorityScore * creditScorePermille)

def rejectPerIpCap (existingSameIpClients : Nat) : Bool := maxClientsPerIp ≤ existingSameIpClients

def rejectFirewalledCallback (context : FirewallContext) (peerHasKadPort peerIsDownloadingFromUs
    peerIsFriend : Bool) (waitingCount : Nat) : Bool :=
  context.weAreConnected && context.weAreFirewalled && !peerHasKadPort && !peerIsDownloadingFromUs
    && !peerIsFriend && !context.peerOnSameServer
    && firewalledCallbackQueueThreshold < waitingCount

end EmuleBB.Upload
