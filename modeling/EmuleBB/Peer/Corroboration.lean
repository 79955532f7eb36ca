import EmuleBB.Peer.Trust

/-!
# Which roots the network can install

The policy for network-learned roots, said about the votes alone: `Corroborated votes root` counts
signers by the first root they proposed. The accumulator refines it, and **every path through the
accumulator keeps it**. A hashset that arrives before any root is known does not go through the
accumulator, so one peer can install the root with it.
-/

namespace EmuleBB.Peer

open Ballot List AichRootCorroboration TrustSystem

open Transfer (Ed2kResumeManifest)

variable {root : Sha1Digest}

/-! ## The policy -/

/-- Enough signers proposed `root` first, and they are a large enough share of all signers. -/
def Corroborated (votes : List (Ipv4Addr × Sha1Digest)) (root : Sha1Digest) : Prop :=
  minUniqueIpsToTrust ≤ (supporters votes root).length ∧
    minPercentageToTrust * (voters votes).length ≤
      100 * (supporters votes root).length

instance (votes : List (Ipv4Addr × Sha1Digest)) (root : Sha1Digest) :
    Decidable (Corroborated votes root) := inferInstanceAs (Decidable (_ ∧ _))

def networkVotes (observations : List (Sha1Digest × IpAddr)) : List (Ipv4Addr × Sha1Digest) :=
  observations.filterMap fun observation =>
    match observation.2 with
    | .v4 ip => some (maskSignerIp ip, observation.1)
    | .v6 _ => none

theorem foldl_recordObservation (observations : List (Sha1Digest × IpAddr))
    (acc : AichRootCorroboration) :
    observations.foldl recordObservation acc =
      recordAll acc (networkVotes observations) := by
  induction observations generalizing acc with
  | nil => rfl
  | cons observation observations ih =>
    obtain ⟨root, ip⟩ := observation
    rw [foldl_cons, ih]
    cases ip with
    | v4 | v6 => rfl

/-- **The accumulator trusts exactly the corroborated root.** A root with such a share has more
    than half of the votes, so the order in which the tallies are compared does not matter. -/
theorem trustedRoot_cast_iff {votes : List (Ipv4Addr × Sha1Digest)} :
    trustedRoot (cast votes) = some root ↔
      Corroborated votes root := by
  unfold trustedRoot Corroborated
  rw [← length_choices_cast, ← count_choices_cast]
  generalize choices (cast votes) = cs
  simp only [minUniqueIpsToTrust, minPercentageToTrust]
  constructor
  · intro h
    split at h
    · cases h
    · rename_i leading count hleader
      obtain ⟨hmem, -⟩ := leader_eq_some hleader
      obtain ⟨-, hcount⟩ := mem_tallies.mp hmem
      simp only at hcount
      split at h
      · cases h
      · rename_i htotal
        obtain ⟨⟨hmin, hshare⟩, hsame⟩ := Option.ite_none_right_eq_some.mp h
        cases hsame
        rw [hcount] at hmin hshare
        exact ⟨hmin, (Nat.le_div_iff_mul_le (Nat.pos_of_ne_zero htotal)).mp hshare⟩
  · rintro ⟨hmin, hshare⟩
    have hleader := @leader_of_majority _ _ cs root (by omega)
    obtain ⟨hmem, -⟩ := leader_eq_some hleader
    have hpos : 0 < cs.length := length_pos_of_mem (mem_tallies.mp hmem).1
    rw [hleader]
    simp only
    rw [if_neg (Nat.ne_of_gt hpos)]
    exact if_pos ⟨hmin, (Nat.le_div_iff_mul_le hpos).mpr hshare⟩

/-! ## Votes of a run -/

def SessionOp.observations (ip : IpAddr) : SessionOp → List (Sha1Digest × IpAddr)
  | .recordNetworkAichRoot root => root.toList.map fun root => (root, ip)
  | _ => []

def observations (s : TrustSystem) : TrustEvent → List (Sha1Digest × IpAddr)
  | .observe observed => observed
  | .advance index =>
    match s.sessions[index]? with
    | some ⟨ip, _, _, op :: _⟩ => op.observations ip
    | _ => []
  | _ => []

def votesCast (s : TrustSystem) (e : TrustEvent) : List (Ipv4Addr × Sha1Digest) :=
  if s.manifest.aichRoot.isSome then [] else networkVotes (observations s e)

section

variable (md4 : Md4) (sha1 : Sha1)

/-- All votes of a run. -/
def votesAlong : TrustSystem → List TrustEvent → List (Ipv4Addr × Sha1Digest)
  | _, [] => []
  | s, e :: es => votesCast s e ++ votesAlong (trustStep md4 sha1 s e) es

end

def SessionOp.isStoreAichHashset : SessionOp → Bool
  | .storeAichHashset _ => true
  | _ => false

/-- A session stores a hashset under a root of its own, where no root is known. -/
def storesUncorroborated (s : TrustSystem) : TrustEvent → Bool
  | .advance index =>
    match s.sessions[index]? with
    | some ⟨_, _, _, op :: _⟩ => op.isStoreAichHashset && s.manifest.aichRoot.isNone
    | _ => false
  | _ => false

structure RootCorroborated (s : TrustSystem) (votes : List (Ipv4Addr × Sha1Digest)) : Prop where
  accumulator : s.corroboration = cast votes
  root : ∀ root, s.manifest.aichRoot = some root → Corroborated votes root

section Step

variable {md4 : Md4} {sha1 : Sha1} {s : TrustSystem}
  {votes : List (Ipv4Addr × Sha1Digest)} {m m' : Ed2kResumeManifest}

/-- Recording observations keeps the policy: a root is promoted only by the votes on record. -/
theorem RootCorroborated.record (h : RootCorroborated s votes)
    (observed : List (Sha1Digest × IpAddr))
    (sessions : List PeerSession) :
    RootCorroborated
      ⟨(recordNetworkAichObservations s.manifest s.corroboration observed).1,
        (recordNetworkAichObservations s.manifest s.corroboration observed).2, sessions⟩
      (votes ++ if s.manifest.aichRoot.isSome then [] else networkVotes observed) := by
  unfold recordNetworkAichObservations
  cases hroot : s.manifest.aichRoot with
  | some =>
    simp only [Option.isSome_some, or_true, if_true, append_nil]
    exact ⟨h.accumulator, fun r hr => h.root r hr⟩
  | none =>
    simp only [Option.isSome_none, Bool.false_eq_true, or_false, if_false]
    cases observed with
    | nil =>
      simp only [isEmpty_nil, if_true, networkVotes, filterMap_nil, append_nil]
      exact ⟨h.accumulator, fun r hr => h.root r hr⟩
    | cons first rest =>
      rw [foldl_recordObservation, h.accumulator, ← cast_append]
      cases htrusted : trustedRoot
          (cast (votes ++ networkVotes (first :: rest))) with
      | none => exact ⟨rfl, fun r hr => absurd (hroot.symm.trans hr) (by simp)⟩
      | some trusted =>
        refine ⟨rfl, fun r hr => ?_⟩
        cases hr
        exact trustedRoot_cast_iff.mp htrusted

theorem reconcileJobMetadata_aichRoot {fileSize : Option Nat}
    (h : reconcileJobMetadata m fileSize = .ok m') : m'.aichRoot = m.aichRoot := by
  unfold reconcileJobMetadata at h
  split at h
  · cases h
    rfl
  · cases h
    rfl
  · split at h
    · split at h
      · cases h
      · cases h
        rfl
    · split at h
      · cases h
      · cases h
        rfl

theorem storeMd4Hashset_aichRoot {hashset : List Md4Digest}
    (h : storeMd4Hashset md4 m hashset = .ok m') : m'.aichRoot = m.aichRoot := by
  unfold storeMd4Hashset at h
  split at h
  · cases h
  · obtain ⟨-, -, h⟩ := Except.bind_eq_ok.mp h
    cases h
    rfl

theorem storeAichHashset_aichRoot {hashset : Aich.Ed2kAichHashset}
    (hroot : m.aichRoot = some root) (h : storeAichHashset sha1 m hashset = .ok m') :
    m'.aichRoot = some root := by
  unfold storeAichHashset at h
  rw [hroot] at h
  split at h
  · cases h
  · rename_i hagree
    split at h
    · cases h
    · cases h
      have hsame : root = hashset.masterHash := by simpa [agree] using hagree
      rw [hsame]

section

variable (h : RootCorroborated s votes)

include h

theorem RootCorroborated.congr {s' : TrustSystem}
    (hroot : s'.manifest.aichRoot = s.manifest.aichRoot)
    (hacc : s'.corroboration = s.corroboration) : RootCorroborated s' votes :=
  ⟨hacc.trans h.accumulator, fun r hr => h.root r (hroot.symm.trans hr)⟩

theorem RootCorroborated.runOp {session session' : PeerSession} {op : SessionOp}
    {acc : AichRootCorroboration}
    (hguard : (op.isStoreAichHashset && s.manifest.aichRoot.isNone) = false)
    (hrun : Peer.runOp md4 sha1 s session op = .ok (m, acc, session'))
    (sessions : List PeerSession) : RootCorroborated ⟨m, acc, sessions⟩
      (votes ++ if s.manifest.aichRoot.isSome then []
        else networkVotes (op.observations session.ip)) := by
  -- only `recordNetworkAichRoot` votes; every other operation leaves accumulator and votes alone
  have hsame : op.observations session.ip = [] → acc = s.corroboration →
      m.aichRoot = s.manifest.aichRoot →
      RootCorroborated ⟨m, acc, sessions⟩
        (votes ++ if s.manifest.aichRoot.isSome then []
          else networkVotes (op.observations session.ip)) := by
    intro hnone hacc hroot
    have hvotes : (if s.manifest.aichRoot.isSome then []
        else networkVotes (op.observations session.ip)) = [] := by
      rw [hnone]
      exact ite_self _
    rw [hvotes, append_nil]
    exact h.congr hroot hacc
  cases op with
  | reconcileJobMetadata =>
    obtain ⟨m', hm, hrun⟩ := Except.bind_eq_ok.mp hrun
    cases hrun
    exact hsame rfl rfl (reconcileJobMetadata_aichRoot hm)
  | recordNetworkAichRoot =>
    cases hrun
    exact h.record _ sessions
  | storeMd4Hashset =>
    obtain ⟨m', hm, hrun⟩ := Except.bind_eq_ok.mp hrun
    cases hrun
    exact hsame rfl rfl (storeMd4Hashset_aichRoot hm)
  | storeAichHashset =>
    obtain ⟨m', hm, hrun⟩ := Except.bind_eq_ok.mp hrun
    cases hrun
    cases hroot : s.manifest.aichRoot with
    | none => exact absurd hguard (by simp [SessionOp.isStoreAichHashset, hroot])
    | some =>
      rw [hroot] at hsame
      exact hsame rfl rfl (storeAichHashset_aichRoot hroot hm)
  | rememberFileName | refreshIdentifier =>
    cases hrun
    exact hsame rfl rfl rfl
  | checkAdvertisedRoot =>
    simp only [Peer.runOp] at hrun
    split at hrun
    · cases hrun
      exact hsame rfl rfl rfl
    · cases hrun

theorem RootCorroborated.sessions {cast : List (Ipv4Addr × Sha1Digest)}
    (hcast : cast = []) (sessions : List PeerSession) :
    RootCorroborated { s with sessions := sessions } (votes ++ cast) := by
  rw [hcast, append_nil]
  exact h.congr rfl rfl

/-- **Every step keeps the policy**, a hashset stored while no root is known apart. -/
theorem RootCorroborated.step {e : TrustEvent} (hguard : storesUncorroborated s e = false) :
    RootCorroborated (trustStep md4 sha1 s e) (votes ++ votesCast s e) := by
  -- a step whose event hands over nothing casts nothing, whatever is known
  have hquiet : observations s e = [] → votesCast s e = [] := by
    intro hnone
    unfold votesCast
    rw [hnone]
    exact ite_self _
  cases e with
  | connect | close => exact h.sessions (hquiet rfl) _
  | observe observed => exact h.record observed s.sessions
  | receive =>
    simp only [trustStep]
    split
    · split
      · exact h.sessions (hquiet rfl) _
      · exact h.sessions (hquiet rfl) _
    · exact h.sessions (hquiet rfl) s.sessions
  | advance index =>
    cases hsession : s.sessions[index]? with
    | none =>
      simp only [trustStep, votesCast, observations, hsession] at hquiet ⊢
      exact h.sessions (hquiet trivial) s.sessions
    | some session =>
      obtain ⟨ip, id, m, pending⟩ := session
      cases pending with
      | nil =>
        simp only [trustStep, votesCast, observations, hsession] at hquiet ⊢
        exact h.sessions (hquiet trivial) s.sessions
      | cons op ops =>
        simp only [trustStep, votesCast, observations, storesUncorroborated, hsession]
          at hguard hquiet ⊢
        cases hrun : Peer.runOp md4 sha1 s ⟨ip, id, m, ops⟩ op with
        | ok => exact h.runOp hguard hrun _
        | error =>
          refine h.sessions (hquiet ?_) _
          -- an operation that fails is not one that votes
          cases op with
          | recordNetworkAichRoot => exact absurd hrun (by simp [Peer.runOp])
          | _ => rfl

theorem RootCorroborated.after {events : List TrustEvent}
    (hrun : Run.Along (trustStep md4 sha1) (fun s e => storesUncorroborated s e = false) s events) :
    RootCorroborated (s.after md4 sha1 events) (votes ++ votesAlong md4 sha1 s events) := by
  induction events generalizing s votes with
  | nil =>
    rw [votesAlong, append_nil]
    exact h
  | cons e events ih =>
    rw [votesAlong, ← append_assoc]
    exact ih (h.step hrun.1) hrun.2

end

end Step

/-- **A root learned from the network is corroborated.** Whatever the peers send and in whatever
    order the handlers run, a download that starts without a root has one only after enough signers
    proposed it first, as long as no hashset is stored before a root is known. -/
theorem network_root_corroborated (md4 : Md4) (sha1 : Sha1)
    (m : Ed2kResumeManifest) (hm : m.aichRoot = none) (events : List TrustEvent)
    (hrun : Run.Along (trustStep md4 sha1) (fun s e => storesUncorroborated s e = false)
      (.start m) events)
    (root : Sha1Digest)
    (hroot : ((start m).after md4 sha1 events).manifest.aichRoot = some root) :
    Corroborated (votesAlong md4 sha1 (.start m) events) root := by
  have hstart : RootCorroborated (.start m) [] :=
    ⟨rfl, fun r hr => absurd (hm.symm.trans hr) (by simp)⟩
  have hafter := hstart.after hrun
  exact hafter.root root hroot

/-! ## Two downloads -/

section Downloads

def zeroMd4 : Md4Digest := Vector.replicate 16 0

def zeroSha1 : Sha1Digest := Vector.replicate 20 0

def oneByteDownload : Ed2kResumeManifest where
  fileHash := zeroMd4
  fileSize := 1
  pieceSize := ed2kPartSize
  completed := false
  finalRehashPending := false
  md4HashsetAcquired := false
  md4Hashset := []
  aichHashsetAcquired := false
  aichRoot := none
  aichHashset := []
  verifiedRanges := []
  pieces := [Transfer.Ed2kPieceState.empty 0]
  payloadFingerprint := none

def tenSigners : List TrustEvent :=
  [.observe ((range 9).map fun i => (zeroSha1, .v4 ⟨10, UInt8.ofNat i, 0, 1⟩)),
    .connect (.v4 ⟨10, 9, 0, 1⟩), .receive 0 (.aichFileHashAns (replicate 36 0)), .advance 0]

/-- Nine votes, and the tenth from a session. -/
theorem network_root_corroborated_ten_signers :
    Run.Along (trustStep (fun _ => zeroMd4) (fun _ => zeroSha1))
        (fun s e => storesUncorroborated s e = false) (.start oneByteDownload) tenSigners ∧
      ((start oneByteDownload).after (fun _ => zeroMd4) (fun _ => zeroSha1)
        tenSigners).manifest.aichRoot = some zeroSha1 ∧
      Corroborated
        (votesAlong (fun _ => zeroMd4) (fun _ => zeroSha1) (.start oneByteDownload) tenSigners)
        zeroSha1 := by
  have hrun : Run.Along (trustStep (fun _ => zeroMd4) (fun _ => zeroSha1))
      (fun s e => storesUncorroborated s e = false) (.start oneByteDownload) tenSigners := by
    decide +kernel
  have hroot : ((start oneByteDownload).after (fun _ => zeroMd4) (fun _ => zeroSha1)
      tenSigners).manifest.aichRoot = some zeroSha1 := by decide +kernel
  exact ⟨hrun, hroot, network_root_corroborated _ _ oneByteDownload rfl tenSigners hrun _ hroot⟩

/-- One peer answers a hashset request: the file identifier, the flag of an AICH section, its
    master hash and no part hashes. -/
def hashsetFromOnePeer : List TrustEvent :=
  [.connect (.v4 ⟨10, 0, 0, 1⟩),
    .receive 0 (.hashsetAnswer2 ([1] ++ replicate 16 0 ++ [2] ++ replicate 22 0)),
    .advance 0]

/-- **One peer installs a root.** Its hashset is stored although nobody corroborated it. -/
theorem hashset_answer_installs_root :
    ((start oneByteDownload).after (fun _ => zeroMd4) (fun _ => zeroSha1)
        hashsetFromOnePeer).manifest.aichRoot = some zeroSha1 ∧
      ¬ Corroborated
        (votesAlong (fun _ => zeroMd4) (fun _ => zeroSha1) (.start oneByteDownload)
          hashsetFromOnePeer) zeroSha1 := by
  decide +kernel

end Downloads

end EmuleBB.Peer
