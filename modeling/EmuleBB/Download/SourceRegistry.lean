import EmuleBB.Lib.FirstMatch
import EmuleBB.Lib.Run
import EmuleBB.Lib.Table
import EmuleBB.Wire

/-!
# The download source registry

The registry knows, peer by peer, for which files a peer is a source, and **which peers are
leased**: one bit per peer, which does not say for which file. The candidates age out, are removed
and are refreshed on their own, and a lease outlives them by design.

When a transfer is deleted, `release_file` takes the leases of the file to be those of the peers
that are left with no candidate at all. A peer whose only candidate aged out while it was engaged
for *another* file is among them (`released_for_a_stranger`). The leases given up are those of the
file exactly when every peer leased for another file is still known as a source of one
(`releasesOnlyOwn_iff`). **In a run that drops no candidate a lease rests on** every leased peer
stays known as a source of the file it is leased for, and so each deletion releases its
own leases only (`release_file_only_own`).
-/

namespace EmuleBB.Download

open Peer Table

/-! ## The registry -/

def candidateLivenessTtl : Duration := seconds (60 * 60)

def nnpReaskHold : Duration := seconds (2 * 29 * 60)

def nnpPurgeInterval : Duration := seconds 40

abbrev Endpoint := Ipv4Addr × UInt16

/-- A peer that has a file, as it was found. -/
structure FoundSource where
  ip : Ipv4Addr
  tcpPort : UInt16
  userHash : Option UserHash
  clientId : UInt32
  deriving DecidableEq

/-- A peer is the same peer while none of its four parts changes. -/
structure DownloadPeerKey where
  ip : Ipv4Addr
  tcpPort : UInt16
  userHash : Option UserHash
  clientId : UInt32
  deriving DecidableEq

namespace DownloadPeerKey

def fromSource (source : FoundSource) : DownloadPeerKey :=
  ⟨source.ip, source.tcpPort, source.userHash, source.clientId⟩

def endpoint (key : DownloadPeerKey) : Endpoint := (key.ip, key.tcpPort)

end DownloadPeerKey

open DownloadPeerKey

/-- A source for one file, and what its priority is computed from. -/
structure DownloadSourceCandidate where
  fileHash : String
  filePriority : Nat
  neededParts : Nat
  rareParts : Nat
  source : FoundSource
  lastSeen : Instant
  deriving DecidableEq

namespace DownloadSourceCandidate

def isStale (candidate : DownloadSourceCandidate) (now : Instant) : Bool :=
  candidateLivenessTtl < now - candidate.lastSeen

def score (candidate : DownloadSourceCandidate) : Nat × Nat × Nat :=
  (candidate.filePriority, candidate.rareParts, candidate.neededParts)

end DownloadSourceCandidate

def scoreLe (a b : Nat × Nat × Nat) : Bool :=
  a.1 < b.1 || a.1 = b.1 && (a.2.1 < b.2.1 || a.2.1 = b.2.1 && a.2.2 ≤ b.2.2)

/-- `max_by_key`: of equal scores the last one. -/
def bestCandidate : List DownloadSourceCandidate → Option DownloadSourceCandidate
  | [] => none
  | candidate :: rest =>
    some (rest.foldl (fun best next => if scoreLe best.score next.score then next else best)
      candidate)

structure PeerCandidates where
  key : DownloadPeerKey
  candidates : List DownloadSourceCandidate
  deriving DecidableEq

structure PairStamp where
  endpoint : Endpoint
  fileHash : String
  time : Instant
  deriving DecidableEq

def PairStamp.pair (stamp : PairStamp) : Endpoint × String := (stamp.endpoint, stamp.fileHash)

/-- The candidates of each peer, the peers that are leased, and the holds of peer and file. -/
structure DownloadSourceRegistry where
  peers : List PeerCandidates
  leasedPeers : List DownloadPeerKey
  lastAttemptedEndpoints : List PairStamp
  nnpHolds : List PairStamp
  lastNnpPurge : List (String × Instant)
  deriving DecidableEq

namespace DownloadSourceRegistry

def empty : DownloadSourceRegistry := ⟨[], [], [], [], []⟩

section

variable (r : DownloadSourceRegistry)

/-- `peers.get`, with no row read as an empty one. -/
def candidatesOf (key : DownloadPeerKey) : List DownloadSourceCandidate :=
  ((lookup (·.key) key r.peers).map (·.candidates)).getD []

/-- The candidate replaces the one of the same file. -/
def addCandidate (now : Instant) (candidate : DownloadSourceCandidate) : DownloadSourceRegistry :=
  let candidate := { candidate with lastSeen := now }
  let key := fromSource candidate.source
  let candidates := r.candidatesOf key
  let candidates :=
    if candidates.any (·.fileHash = candidate.fileHash) then
      FirstMatch.modifyFirst (·.fileHash = candidate.fileHash) (fun _ => candidate) candidates
    else candidates ++ [candidate]
  { r with peers := put (·.key) ⟨key, candidates⟩ r.peers }

def retainCandidates (keep : DownloadSourceCandidate → Bool) (peers : List PeerCandidates) :
    List PeerCandidates :=
  (peers.map fun row => { row with candidates := row.candidates.filter keep }).filter
    fun row => !row.candidates.isEmpty

def pruneStaleCandidates (now : Instant) : DownloadSourceRegistry :=
  let removed := (r.peers.flatMap (·.candidates)).filter (·.isStale now)
  let removed := removed.map fun candidate =>
    ((candidate.source.ip, candidate.source.tcpPort), candidate.fileHash)
  { r with
    peers := retainCandidates (fun candidate => !candidate.isStale now) r.peers
    nnpHolds := r.nnpHolds.filter fun stamp => !removed.contains stamp.pair }

/-- The peer is leased, if it is free and the file is its best candidate. -/
def leaseBestForFile (now : Instant) (retryCooldown : Duration) (source : FoundSource)
    (fileHash : String) : DownloadSourceRegistry × Option DownloadSourceCandidate :=
  let peerKey := fromSource source
  let endpoint := (source.ip, source.tcpPort)
  let r := { r with
    lastAttemptedEndpoints := r.lastAttemptedEndpoints.filter fun stamp =>
      now - stamp.time < retryCooldown }
  if r.lastAttemptedEndpoints.any fun stamp =>
      stamp.pair = (endpoint, fileHash) && now - stamp.time < retryCooldown then (r, none)
  else
    let r := { r with nnpHolds := r.nnpHolds.filter fun stamp => now - stamp.time < nnpReaskHold }
    if r.nnpHolds.any fun stamp => stamp.pair = (endpoint, fileHash) then (r, none)
    else
      match bestCandidate (r.candidatesOf peerKey) with
      | none => (r, none)
      | some candidate =>
        if candidate.fileHash ≠ fileHash then (r, none)
        else if peerKey ∈ r.leasedPeers then (r, none)
        else
          ({ r with
              leasedPeers := peerKey :: r.leasedPeers
              lastAttemptedEndpoints :=
                put PairStamp.pair ⟨endpoint, fileHash, now⟩ r.lastAttemptedEndpoints },
            some candidate)

def markNoNeededParts (now : Instant) (source : FoundSource) (fileHash : String) :
    DownloadSourceRegistry × Bool :=
  let peerKey := fromSource source
  if (r.candidatesOf peerKey).any (·.fileHash = fileHash) then
    ({ r with
        peers := update (·.key) peerKey (fun row =>
          { row with
            candidates := FirstMatch.modifyFirst (·.fileHash = fileHash)
              (fun candidate => { candidate with lastSeen := now }) row.candidates }) r.peers
        nnpHolds := put PairStamp.pair ⟨(source.ip, source.tcpPort), fileHash, now⟩
          r.nnpHolds }, true)
  else (r, false)

def tryNnpPurge (now : Instant) (fileHash : String) : DownloadSourceRegistry × Bool :=
  match lookup Prod.fst fileHash r.lastNnpPurge with
  | some (_, last) =>
    if now - last < nnpPurgeInterval then (r, false)
    else ({ r with lastNnpPurge := put Prod.fst (fileHash, now) r.lastNnpPurge }, true)
  | none => ({ r with lastNnpPurge := put Prod.fst (fileHash, now) r.lastNnpPurge }, true)

def removeCandidate (source : FoundSource) (fileHash : String) : DownloadSourceRegistry × Bool :=
  let peerKey := fromSource source
  match lookup (·.key) peerKey r.peers with
  | none => (r, false)
  | some row =>
    let candidates := row.candidates.filter (·.fileHash ≠ fileHash)
    let removed := candidates.length ≠ row.candidates.length
    let peers :=
      if candidates.isEmpty then remove (·.key) peerKey r.peers
      else update (·.key) peerKey (fun row => { row with candidates := candidates }) r.peers
    let nnpHolds :=
      if removed then
        remove PairStamp.pair ((source.ip, source.tcpPort), fileHash) r.nnpHolds
      else r.nnpHolds
    ({ r with peers := peers, nnpHolds := nnpHolds }, removed)

def releasePeer (source : FoundSource) : DownloadSourceRegistry :=
  { r with leasedPeers := r.leasedPeers.filter (· ≠ fromSource source) }

def releaseEndpoint (endpoint : Endpoint) : DownloadSourceRegistry :=
  { r with leasedPeers := r.leasedPeers.filter (·.endpoint ≠ endpoint) }

def containsPeer (peers : List PeerCandidates) (key : DownloadPeerKey) : Bool :=
  (lookup (·.key) key peers).isSome

/-- All candidates of the file go; a peer that is left with none loses its lease. -/
def releaseFile (fileHash : String) : DownloadSourceRegistry × List Endpoint :=
  let peers := retainCandidates (·.fileHash ≠ fileHash) r.peers
  ({ r with
      peers := peers
      nnpHolds := r.nnpHolds.filter (·.fileHash ≠ fileHash)
      lastNnpPurge := remove Prod.fst fileHash r.lastNnpPurge
      leasedPeers := r.leasedPeers.filter (containsPeer peers) },
    (r.leasedPeers.filter fun key => !containsPeer peers key).map (·.endpoint))

def resetLeases : DownloadSourceRegistry × List Endpoint :=
  ({ r with leasedPeers := [] }, r.leasedPeers.map (·.endpoint))

end

end DownloadSourceRegistry

namespace DownloadSourceRegistry

/-- The candidate that is chosen has the highest score. -/
theorem bestCandidate_spec {candidates : List DownloadSourceCandidate}
    {best : DownloadSourceCandidate} (h : bestCandidate candidates = some best) :
    best ∈ candidates ∧ ∀ other ∈ candidates, scoreLe other.score best.score = true := by
  cases candidates with
  | nil => cases h
  | cons first rest =>
    cases h
    induction rest generalizing first with
    | nil => simp [scoreLe]
    | cons next rest ih =>
      obtain ⟨hmem, hbest⟩ := ih (if scoreLe first.score next.score then next else first)
      rw [List.foldl_cons]
      grind [scoreLe]

/-- A lease attempt leaves the candidates alone, and leases the peer of the best one or nobody. -/
theorem leaseBestForFile_frame (r : DownloadSourceRegistry) (now : Instant)
    (retryCooldown : Duration) (source : FoundSource) (fileHash : String) :
    let after := r.leaseBestForFile now retryCooldown source fileHash
    after.1.peers = r.peers ∧
      ((after.2 = none ∧ after.1.leasedPeers = r.leasedPeers) ∨
        ∃ best ∈ r.candidatesOf (fromSource source), best.fileHash = fileHash ∧
          after.2 = some best ∧ after.1.leasedPeers = fromSource source :: r.leasedPeers) := by
  unfold leaseBestForFile
  dsimp only
  split
  · exact ⟨rfl, .inl ⟨rfl, rfl⟩⟩
  · split
    · exact ⟨rfl, .inl ⟨rfl, rfl⟩⟩
    · split
      · exact ⟨rfl, .inl ⟨rfl, rfl⟩⟩
      · next best hbest =>
        split
        · exact ⟨rfl, .inl ⟨rfl, rfl⟩⟩
        · next hfile =>
          split
          · exact ⟨rfl, .inl ⟨rfl, rfl⟩⟩
          · exact ⟨rfl, .inr ⟨best, (bestCandidate_spec hbest).1, not_not.mp hfile, rfl, rfl⟩⟩

theorem tryNnpPurge_frame (r : DownloadSourceRegistry) (now : Instant) (fileHash : String) :
    (r.tryNnpPurge now fileHash).1.peers = r.peers ∧
      (r.tryNnpPurge now fileHash).1.leasedPeers = r.leasedPeers := by
  unfold tryNnpPurge
  split
  · split <;> exact ⟨rfl, rfl⟩
  · exact ⟨rfl, rfl⟩

end DownloadSourceRegistry

/-! ## What each lease was granted for -/

/-- The registry, and the file each peer was last leased for. -/
structure SourceLeases where
  registry : DownloadSourceRegistry
  grantedFor : DownloadPeerKey → Option String

/-- The calls of the registry. -/
inductive RegistryOp where
  | addCandidate (now : Instant) (candidate : DownloadSourceCandidate)
  | pruneStaleCandidates (now : Instant)
  | leaseBestForFile (now : Instant) (retryCooldown : Duration) (source : FoundSource)
      (fileHash : String)
  | markNoNeededParts (now : Instant) (source : FoundSource) (fileHash : String)
  | tryNnpPurge (now : Instant) (fileHash : String)
  | removeCandidate (source : FoundSource) (fileHash : String)
  | releasePeer (source : FoundSource)
  | releaseEndpoint (endpoint : Endpoint)
  | releaseFile (fileHash : String)
  | resetLeases

def RegistryOp.dropsCandidates : RegistryOp → Bool
  | .pruneStaleCandidates _ | .removeCandidate .. | .releaseFile _ => true
  | _ => false

namespace SourceLeases

variable {key : DownloadPeerKey} {r : DownloadSourceRegistry} {fileHash : String}

def empty : SourceLeases := ⟨.empty, fun _ => none⟩

def step (s : SourceLeases) : RegistryOp → SourceLeases
  | .addCandidate now candidate => { s with registry := s.registry.addCandidate now candidate }
  | .pruneStaleCandidates now => { s with registry := s.registry.pruneStaleCandidates now }
  | .leaseBestForFile now retryCooldown source fileHash =>
    match s.registry.leaseBestForFile now retryCooldown source fileHash with
    | (registry, some _) =>
      ⟨registry, Function.update s.grantedFor (.fromSource source) (some fileHash)⟩
    | (registry, none) => { s with registry := registry }
  | .markNoNeededParts now source fileHash =>
    { s with registry := (s.registry.markNoNeededParts now source fileHash).1 }
  | .tryNnpPurge now fileHash => { s with registry := (s.registry.tryNnpPurge now fileHash).1 }
  | .removeCandidate source fileHash =>
    { s with registry := (s.registry.removeCandidate source fileHash).1 }
  | .releasePeer source => { s with registry := s.registry.releasePeer source }
  | .releaseEndpoint endpoint => { s with registry := s.registry.releaseEndpoint endpoint }
  | .releaseFile fileHash => { s with registry := (s.registry.releaseFile fileHash).1 }
  | .resetLeases => { s with registry := s.registry.resetLeases.1 }

/-- The peer is leased, and for this file. -/
def LeasedFor (s : SourceLeases) (key : DownloadPeerKey) (fileHash : String) : Prop :=
  key ∈ s.registry.leasedPeers ∧ s.grantedFor key = some fileHash

def SourceOf (r : DownloadSourceRegistry) (key : DownloadPeerKey) (asked : String → Prop) : Prop :=
  ∃ row ∈ r.peers, row.key = key ∧ ∃ candidate ∈ row.candidates, asked candidate.fileHash

/-- **Deleting the file releases its own leases only**: whatever leaves the lease set was granted
    for the file, and so was whatever is reported as cleared. -/
def ReleasesOnlyOwn (s : SourceLeases) (fileHash : String) : Prop :=
  (∀ key ∈ s.registry.leasedPeers, key ∉ (s.registry.releaseFile fileHash).1.leasedPeers →
    s.LeasedFor key fileHash) ∧
  ∀ endpoint ∈ (s.registry.releaseFile fileHash).2,
    ∃ key, key.endpoint = endpoint ∧ s.LeasedFor key fileHash ∧
      key ∉ (s.registry.releaseFile fileHash).1.leasedPeers

/-- **Every peer leased for another file is still known as a source** of some file other than the
    one that is deleted. -/
def OthersKnown (s : SourceLeases) (fileHash : String) : Prop :=
  ∀ key ∈ s.registry.leasedPeers, s.grantedFor key ≠ some fileHash →
    SourceOf s.registry key (· ≠ fileHash)

/-! ## When a deletion releases its own leases only -/

open DownloadSourceRegistry

theorem containsPeer_retain :
    containsPeer (retainCandidates (·.fileHash ≠ fileHash) r.peers) key = true ↔
      SourceOf r key (· ≠ fileHash) := by
  refine lookup_isSome.trans ⟨?_, ?_⟩
  · rintro ⟨row, hrow, rfl⟩
    obtain ⟨hmem, hsome⟩ := List.mem_filter.mp hrow
    obtain ⟨row', hrow', rfl⟩ := List.mem_map.mp hmem
    exact ⟨row', hrow', rfl, by simpa using hsome⟩
  · rintro ⟨row, hrow, rfl, hcandidate⟩
    exact ⟨_, List.mem_filter.mpr ⟨List.mem_map_of_mem hrow, by simpa using hcandidate⟩, rfl⟩

theorem mem_leased_releaseFile : key ∈ (r.releaseFile fileHash).1.leasedPeers ↔
      key ∈ r.leasedPeers ∧ SourceOf r key (· ≠ fileHash) := by
  rw [← containsPeer_retain]
  exact List.mem_filter

theorem releasesOnlyOwn_iff {s : SourceLeases} :
    s.ReleasesOnlyOwn fileHash ↔ s.OthersKnown fileHash := by
  constructor
  · intro ⟨hleases, _⟩ key hkey hother
    by_contra hunknown
    exact hother (hleases key hkey fun hkept => hunknown (mem_leased_releaseFile.mp hkept).2).2
  · intro hknown
    have hown : ∀ key ∈ s.registry.leasedPeers,
        key ∉ (s.registry.releaseFile fileHash).1.leasedPeers → s.LeasedFor key fileHash := by
      intro key hkey hgone
      refine ⟨hkey, ?_⟩
      by_contra hother
      exact hgone (mem_leased_releaseFile.mpr ⟨hkey, hknown key hkey hother⟩)
    refine ⟨hown, ?_⟩
    intro endpoint hendpoint
    obtain ⟨key, hkey, rfl⟩ := List.mem_map.mp hendpoint
    obtain ⟨hleased, hdropped⟩ := List.mem_filter.mp hkey
    have hgone : key ∉ (s.registry.releaseFile fileHash).1.leasedPeers := by
      rw [mem_leased_releaseFile, ← containsPeer_retain]
      simpa [hleased] using hdropped
    exact ⟨key, rfl, hown key hleased hgone, hgone⟩

/-! ## When every lease stays known -/

/-- The candidate that a lease of the peer for the file rests on is there. -/
def Backed (r : DownloadSourceRegistry) (key : DownloadPeerKey) (fileHash : String) : Prop :=
  ∃ candidate ∈ r.candidatesOf key, candidate.fileHash = fileHash

instance : Decidable (Backed r key fileHash) :=
  inferInstanceAs (Decidable (∃ candidate ∈ r.candidatesOf key, candidate.fileHash = fileHash))

/-- The operation is a prune, a remove or a deletion, it takes away the candidate that a lease rests
    on, and the lease stands. -/
def DropsBacking (s : SourceLeases) (op : RegistryOp) : Prop :=
  op.dropsCandidates = true ∧
    ∃ key ∈ s.registry.leasedPeers, key ∈ (s.step op).registry.leasedPeers ∧
      ∃ fileHash ∈ s.grantedFor key,
        Backed s.registry key fileHash ∧ ¬Backed (s.step op).registry key fileHash

instance (s : SourceLeases) (op : RegistryOp) : Decidable (s.DropsBacking op) :=
  inferInstanceAs (Decidable (_ ∧ ∃ key ∈ s.registry.leasedPeers, _ ∧
    ∃ fileHash ∈ s.grantedFor key, _ ∧ ¬_))

def LeasesBacked (s : SourceLeases) : Prop :=
  ∀ key ∈ s.registry.leasedPeers, ∃ fileHash, s.grantedFor key = some fileHash ∧
    Backed s.registry key fileHash

theorem candidatesOf_put {row : PeerCandidates} :
    candidatesOf { r with peers := put (·.key) row r.peers } key =
      if key = row.key then row.candidates else r.candidatesOf key := by
  unfold candidatesOf put
  split
  · next h =>
    have hnone : lookup (·.key) row.key (remove (·.key) row.key r.peers) = none := by
      simp [lookup_eq_none]
    simp only [lookup] at hnone
    simp [lookup, h, hnone]
  · next h =>
    have hsame : lookup (·.key) key (remove (·.key) row.key r.peers) =
        lookup (·.key) key r.peers := lookup_remove_of_ne h
    simp only [lookup] at hsame
    simp [lookup, hsame, Ne.symm h]

theorem Backed.of_peers {r' : DownloadSourceRegistry} (hpeers : r'.peers = r.peers)
    (h : Backed r key fileHash) : Backed r' key fileHash := by
  unfold Backed candidatesOf
  rw [hpeers]
  exact h

/-- The first candidate of a file may change, to one of the same file. -/
theorem modifyFirst_keeps_file {candidates : List DownloadSourceCandidate} {file : String}
    {f : DownloadSourceCandidate → DownloadSourceCandidate} {known : DownloadSourceCandidate}
    (hknown : known ∈ candidates) (hf : ∀ c, c.fileHash = file → (f c).fileHash = c.fileHash) :
    ∃ candidate ∈ FirstMatch.modifyFirst (·.fileHash = file) f candidates,
      candidate.fileHash = known.fileHash := by
  obtain hstays | hfound := FirstMatch.mem_modifyFirst_of_mem hknown
  · exact ⟨known, hstays, rfl⟩
  · have hfile : known.fileHash = file := by simpa using List.find?_some hfound
    exact ⟨f known, FirstMatch.mem_modifyFirst_of_find hfound, hf known hfile⟩

theorem Backed.addCandidate {now : Instant} {candidate : DownloadSourceCandidate}
    (h : Backed r key fileHash) : Backed (r.addCandidate now candidate) key fileHash := by
  obtain ⟨known, hknown, rfl⟩ := h
  unfold Backed DownloadSourceRegistry.addCandidate
  rw [candidatesOf_put]
  by_cases hkey : key = .fromSource candidate.source
  · subst hkey
    rw [if_pos rfl]
    dsimp only
    split
    · exact modifyFirst_keeps_file hknown (fun _ h => h.symm)
    · exact ⟨known, List.mem_append_left _ hknown, rfl⟩
  · rw [if_neg hkey]
    exact ⟨known, hknown, rfl⟩

theorem Backed.markNoNeededParts {now : Instant} {source : FoundSource} {file : String}
    (h : Backed r key fileHash) :
    Backed (r.markNoNeededParts now source file).1 key fileHash := by
  unfold DownloadSourceRegistry.markNoNeededParts
  dsimp only
  split
  · obtain ⟨known, hknown, rfl⟩ := h
    unfold Backed
    unfold candidatesOf at hknown ⊢
    dsimp only
    by_cases hkey : key = .fromSource source
    · subst hkey
      rw [lookup_update_self]
      · cases hrow : lookup (·.key) (fromSource source) r.peers with
        | none => simp [hrow] at hknown
        | some row => exact modifyFirst_keeps_file (by simpa [hrow] using hknown) fun _ _ => rfl
      · exact fun _ h => h
    · rw [lookup_update_of_ne _ hkey]
      · exact ⟨known, hknown, rfl⟩
      · exact fun _ h => h
  · exact h

/-- A lease after a step was there before, for the same file, or is backed by the candidate it was
    granted on. -/
theorem leased_step {s : SourceLeases} {op : RegistryOp}
    (h : key ∈ (s.step op).registry.leasedPeers) :
    (key ∈ s.registry.leasedPeers ∧ (s.step op).grantedFor key = s.grantedFor key) ∨
      ∃ fileHash, (s.step op).grantedFor key = some fileHash ∧
        Backed (s.step op).registry key fileHash := by
  cases op with
  | addCandidate | pruneStaleCandidates => exact .inl ⟨h, rfl⟩
  | markNoNeededParts now source fileHash =>
    refine .inl ⟨?_, rfl⟩
    simp only [step, DownloadSourceRegistry.markNoNeededParts] at h
    split at h <;> exact h
  | tryNnpPurge now fileHash => exact .inl ⟨(tryNnpPurge_frame ..).2 ▸ h, rfl⟩
  | removeCandidate source fileHash =>
    refine .inl ⟨?_, rfl⟩
    simp only [step, DownloadSourceRegistry.removeCandidate] at h
    split at h <;> exact h
  | releasePeer | releaseEndpoint | releaseFile =>
    exact .inl ⟨(List.mem_filter.mp h).1, rfl⟩
  | resetLeases => exact absurd h List.not_mem_nil
  | leaseBestForFile now retryCooldown source fileHash =>
    obtain ⟨hpeers, hleases⟩ :=
      s.registry.leaseBestForFile_frame now retryCooldown source fileHash
    simp only [step] at h ⊢
    generalize s.registry.leaseBestForFile now retryCooldown source fileHash = after at *
    obtain ⟨registry, answer⟩ := after
    dsimp only at hpeers hleases
    obtain ⟨rfl, hleases⟩ | ⟨best, hbest, hfile, rfl, hleases⟩ := hleases
    · exact .inl ⟨hleases ▸ h, rfl⟩
    · by_cases hkey : key = .fromSource source
      · subst hkey
        exact .inr ⟨fileHash, Function.update_self .., .of_peers hpeers ⟨best, hbest, hfile⟩⟩
      · refine .inl ⟨?_, Function.update_of_ne hkey ..⟩
        exact (List.mem_cons.mp (hleases ▸ h)).resolve_left hkey

theorem backed_step {s : SourceLeases} {op : RegistryOp} (hop : op.dropsCandidates = false)
    (h : Backed s.registry key fileHash) : Backed (s.step op).registry key fileHash := by
  cases op with
  | addCandidate => exact h.addCandidate
  | markNoNeededParts => exact h.markNoNeededParts
  | leaseBestForFile now retryCooldown source fileHash =>
    have hpeers := (s.registry.leaseBestForFile_frame now retryCooldown source fileHash).1
    simp only [step]
    generalize s.registry.leaseBestForFile now retryCooldown source fileHash = after at hpeers ⊢
    obtain ⟨registry, _ | best⟩ := after <;> exact h.of_peers hpeers
  | tryNnpPurge now fileHash => exact h.of_peers (s.registry.tryNnpPurge_frame now fileHash).1
  | releasePeer | releaseEndpoint | resetLeases => exact h
  | pruneStaleCandidates | removeCandidate | releaseFile => cases hop

theorem LeasesBacked.step {s : SourceLeases} {op : RegistryOp} (h : s.LeasesBacked)
    (hop : ¬s.DropsBacking op) : (s.step op).LeasesBacked := by
  intro key hkey
  obtain ⟨hleased, hsame⟩ | hgranted := leased_step hkey
  · obtain ⟨fileHash, hfor, hbacked⟩ := h key hleased
    refine ⟨fileHash, hsame.trans hfor, ?_⟩
    by_contra hdropped
    cases hdrops : op.dropsCandidates with
    | true => exact hop ⟨hdrops, key, hleased, hkey, fileHash, hfor, hbacked, hdropped⟩
    | false => exact hdropped (backed_step hdrops hbacked)
  · exact hgranted

theorem LeasesBacked.othersKnown {s : SourceLeases} (h : s.LeasesBacked) :
    s.OthersKnown fileHash := by
  intro key hkey hother
  obtain ⟨file, hfor, candidate, hcandidate, rfl⟩ := h key hkey
  unfold candidatesOf at hcandidate
  cases hrow : lookup (·.key) key s.registry.peers with
  | none => simp [hrow] at hcandidate
  | some row =>
    obtain ⟨hmem, hrowKey⟩ := mem_of_lookup hrow
    refine ⟨row, hmem, hrowKey, candidate, by simpa [hrow] using hcandidate, ?_⟩
    rintro rfl
    exact hother hfor

/-- **A deletion releases its own leases only**, after every run in which no prune, no remove and no
    deletion takes away the candidate that a standing lease rests on. -/
theorem release_file_only_own (ops : List RegistryOp)
    (hrun : Run.Along step (fun s op => ¬s.DropsBacking op) empty ops) (fileHash : String) :
    (Run.run step empty ops).ReleasesOnlyOwn fileHash := by
  have hbacked : (Run.run step empty ops).LeasesBacked :=
    hrun.invariant (fun _ _ h hop => h.step hop) fun _ h => absurd h List.not_mem_nil
  exact releasesOnlyOwn_iff.mpr hbacked.othersKnown

/-- The peer of file `b` is refreshed in time, so its lease outlives a prune and the deletion of
    file `a`. -/
theorem release_file_only_own_refreshed :
    let peer : FoundSource := ⟨⟨10, 0, 0, 1⟩, 4662, none, 7⟩
    let ops : List RegistryOp := [.addCandidate 0 ⟨"b", 1, 1, 1, peer, 0⟩,
      .leaseBestForFile 0 0 peer "b", .addCandidate (seconds 60) ⟨"b", 1, 1, 1, peer, 0⟩,
      .pruneStaleCandidates (seconds 3601)]
    (Run.run step empty ops).LeasedFor (.fromSource peer) "b" ∧
      (Run.run step empty ops).ReleasesOnlyOwn "a" :=
  ⟨⟨by decide +kernel, by decide +kernel⟩, release_file_only_own _ (by decide +kernel) "a"⟩

/-- A peer is leased for file `b`. An hour later its candidate is pruned while the lease stands, and
    the deletion of file `a`, which the peer never was a source of, takes the lease away and reports
    the endpoint: the next candidate for `b` is leased, and dialled, a second time. -/
theorem released_for_a_stranger : let peer : FoundSource := ⟨⟨10, 0, 0, 1⟩, 4662, none, 7⟩
    let candidate : DownloadSourceCandidate := ⟨"b", 1, 1, 1, peer, 0⟩
    let later := seconds 3601
    let s := Run.run step empty
      [.addCandidate 0 candidate, .leaseBestForFile 0 0 peer "b", .pruneStaleCandidates later]
    s.LeasedFor (.fromSource peer) "b" ∧
      (s.registry.releaseFile "a").2 = [(peer.ip, peer.tcpPort)] ∧
      (s.registry.releaseFile "a").1.leasedPeers = [] ∧
      (((s.registry.releaseFile "a").1.addCandidate later candidate).leaseBestForFile later 0 peer
        "b").2.isSome ∧
      ¬ s.ReleasesOnlyOwn "a" := by
  intro peer candidate later s
  have hleased : s.LeasedFor (.fromSource peer) "b" := ⟨by decide +kernel, by decide +kernel⟩
  have hgone : (s.registry.releaseFile "a").1.leasedPeers = [] := by decide +kernel
  refine ⟨hleased, by decide +kernel, hgone, by decide +kernel, fun howned => ?_⟩
  have hfor := (howned.1 _ hleased.1 (by rw [hgone]; exact List.not_mem_nil)).2
  exact absurd (Option.some.inj (hleased.2.symm.trans hfor)) (by decide)

end SourceLeases

open SourceLeases

/-! ## A held file and the peer's other files

`lease_best_for_file` asks whether the file is held, and then whether it is **the best of all the
peer's files**, held or not. So a held file that is the best keeps the peer from its other files
(`held_best_blocks_peer`), and nothing else does (`reengages_iff_best_free`). -/

namespace DownloadSourceRegistry

section

variable (r : DownloadSourceRegistry) (now : Instant) (retryCooldown : Duration)
  (source : FoundSource)

/-- The retry cooldown or the No-Needed-Parts hold of the file still runs. -/
def held (fileHash : String) : Bool :=
  let ours (stamp : PairStamp) : Bool := stamp.pair = ((source.ip, source.tcpPort), fileHash)
  (r.lastAttemptedEndpoints.any fun stamp => ours stamp && now - stamp.time < retryCooldown) ||
    r.nnpHolds.any fun stamp => ours stamp && now - stamp.time < nnpReaskHold

/-- The candidates of the peer that no hold excludes. -/
def freeCandidates : List DownloadSourceCandidate :=
  (r.candidatesOf (.fromSource source)).filter (!r.held now retryCooldown source ·.fileHash)

/-- A peer that is not leased is leased for the best of its files that are not held. -/
def Reengages : Prop :=
  .fromSource source ∉ r.leasedPeers → r.freeCandidates now retryCooldown source ≠ [] →
    ∃ best ∈ r.freeCandidates now retryCooldown source,
      (∀ other ∈ r.freeCandidates now retryCooldown source, scoreLe other.score best.score) ∧
      (r.leaseBestForFile now retryCooldown source best.fileHash).2 = some best

/-- The best of all the files is not held. -/
def BestFree : Prop :=
  .fromSource source ∉ r.leasedPeers → r.freeCandidates now retryCooldown source ≠ [] →
    ∀ best ∈ bestCandidate (r.candidatesOf (.fromSource source)),
      r.held now retryCooldown source best.fileHash = false

variable {r now retryCooldown source}

/-- **When the lease is granted, and to whom.** -/
theorem leaseBestForFile_eq_some {fileHash : String} {candidate : DownloadSourceCandidate} :
    (r.leaseBestForFile now retryCooldown source fileHash).2 = some candidate ↔
      r.held now retryCooldown source fileHash = false ∧ .fromSource source ∉ r.leasedPeers ∧
        bestCandidate (r.candidatesOf (.fromSource source)) = some candidate ∧
        candidate.fileHash = fileHash := by
  have hsame (attempted holds : List PairStamp) (key : DownloadPeerKey) : candidatesOf { r with
      lastAttemptedEndpoints := attempted, nnpHolds := holds } key = r.candidatesOf key := rfl
  -- asking the stamps that are retained is asking them all
  simp only [leaseBestForFile, held, List.any_filter, Bool.and_comm (decide (_ = _)),
    Bool.and_self_left, Bool.or_eq_false_iff, hsame]
  generalize r.lastAttemptedEndpoints.any _ = cooling
  generalize r.nnpHolds.any _ = parked
  cases cooling with
  | true => simp
  | false =>
    cases parked with
    | true => simp
    | false =>
      cases bestCandidate (r.candidatesOf (.fromSource source)) with
      | none => simp
      | some best => grind

end

/-- **An unleased peer is re-engaged exactly when the best of its files is not held.** -/
theorem reengages_iff_best_free (ops : List RegistryOp) (now : Instant) (retryCooldown : Duration)
    (source : FoundSource) :
    (Run.run step .empty ops).registry.Reengages now retryCooldown source ↔
      (Run.run step .empty ops).registry.BestFree now retryCooldown source := by
  generalize (Run.run step .empty ops).registry = r
  refine forall₂_congr fun hunleased hfree => ⟨fun h best hbest => ?_, fun h => ?_⟩
  · obtain ⟨chosen, -, -, hleased⟩ := h
    obtain ⟨hheld, -, hchosen, -⟩ := leaseBestForFile_eq_some.mp hleased
    cases hbest.symm.trans hchosen
    exact hheld
  · obtain ⟨best, hbest⟩ : ∃ best, bestCandidate (r.candidatesOf (.fromSource source)) =
      some best := by
      cases hlist : r.candidatesOf (.fromSource source) with
      | nil => simp [freeCandidates, hlist] at hfree
      | cons => exact ⟨_, rfl⟩
    obtain ⟨hmem, hscore⟩ := bestCandidate_spec hbest
    have hheld := h best hbest
    exact ⟨best, List.mem_filter.mpr ⟨hmem, by simp [hheld]⟩,
      fun other hother => hscore other (List.mem_filter.mp hother).1,
      leaseBestForFile_eq_some.mpr ⟨hheld, hunleased, hbest, rfl⟩⟩

/-- File `a` is held and scores higher than file `b`: the peer is leased for neither. -/
theorem held_best_blocks_peer : let peer : FoundSource := ⟨⟨10, 0, 0, 1⟩, 4662, none, 7⟩
    let r := (Run.run step .empty [.addCandidate 0 ⟨"a", 2, 1, 1, peer, 0⟩,
      .addCandidate 0 ⟨"b", 1, 1, 1, peer, 0⟩, .markNoNeededParts 0 peer "a"]).registry
    (r.freeCandidates 0 0 peer).map (·.fileHash) = ["b"] ∧ r.leasedPeers = [] ∧
      (r.leaseBestForFile 0 0 peer "a").2 = none ∧ (r.leaseBestForFile 0 0 peer "b").2 = none := by
  decide +kernel

end DownloadSourceRegistry

end EmuleBB.Download
