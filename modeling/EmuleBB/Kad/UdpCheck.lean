import EmuleBB.Kad.Firewall
import EmuleBB.Lib.Run

/-!
# The Kad UDP firewall check and the advertised port

The verdict of a round lives in the firewall state, the port it confirmed in the reachability
record, and **what a round confirms is what the next one expects**: its expected ports are the
internal port and the one advertised when it begins.

What a verdict rests on is right (`opensOnReplies`, `closesOnTests`): open is a positive reply on an
expected port or two helpers agreeing on another, firewalled is two failed tests. The advertised
port is not. A reply on an expected port carries no external port in its summary, so the packet
handler and the driver take the *internal* port to be confirmed and clear the one peers confirmed
before (`confirmed_port_forgotten`). The port advertised after an open round is the one reported
**exactly when** a reply on an expected external port finds that port in the NAT mapping
(`udp_rounds_follow_evidence_iff`).
-/

namespace EmuleBB.Kad

open Peer Run KadFirewallState

/-! ## Reachability -/

structure ReachabilitySnapshot where
  natMappedTcpPort : Option UInt16
  natMappedUdpPort : Option UInt16
  peerConfirmedUdpPort : Option UInt16
  deriving DecidableEq

def ReachabilitySnapshot.advertisedUdpPort (snapshot : ReachabilitySnapshot)
    (internalPort : UInt16) : UInt16 :=
  (snapshot.peerConfirmedUdpPort.or snapshot.natMappedUdpPort).getD internalPort

structure ReachabilityState where
  snapshot : ReachabilitySnapshot
  activeRuntimeGeneration : Option Nat

def nonzeroPort (port : Option UInt16) : Option UInt16 := port.filter fun port => port ≠ 0

structure RuntimeReachabilityWriter where
  runtimeGeneration : Nat

namespace RuntimeReachabilityWriter

section

variable (writer : RuntimeReachabilityWriter) (state : ReachabilityState)

def update (apply : ReachabilitySnapshot → ReachabilitySnapshot) : ReachabilityState :=
  if state.activeRuntimeGeneration ≠ some writer.runtimeGeneration then state
  else { state with snapshot := apply state.snapshot }

def setNatMappedPorts (tcpPort udpPort : Option UInt16) : ReachabilityState :=
  writer.update state fun snapshot =>
    { snapshot with
      natMappedTcpPort := nonzeroPort tcpPort
      natMappedUdpPort := nonzeroPort udpPort }

def setPeerConfirmedUdpPort (port : UInt16) : ReachabilityState :=
  writer.update state fun snapshot =>
    match nonzeroPort (some port) with
    | some port => { snapshot with peerConfirmedUdpPort := some port }
    | none => snapshot

def clearPeerConfirmedUdpPort : ReachabilityState :=
  writer.update state fun snapshot => { snapshot with peerConfirmedUdpPort := none }

def applyOpen (summary : UdpFirewallCheckSummary) : ReachabilityState :=
  match summary.externalUdpPort with
  | some port => writer.setPeerConfirmedUdpPort state port
  | none => writer.clearPeerConfirmedUdpPort state

def applyPacket :
    FirewallUdpPacketOutcome → ReachabilityState
  | .isOpen summary => writer.applyOpen state summary
  | .recorded | .ignored => state

def applyResult :
    Option UdpFirewallCheckSummary → ReachabilityState
  | some summary =>
    if summary.isOpen then writer.applyOpen state summary
    else writer.clearPeerConfirmedUdpPort state
  | none => state

end

end RuntimeReachabilityWriter

open RuntimeReachabilityWriter

/-! ## The rounds -/

/-- What the rounds and the NAT mapping report. -/
inductive UdpEvent
  | natMapped (tcpPort udpPort : Option UInt16)
  | beginRound (helperIps : List IpAddr) (startedAt : DateTime)
  | requestFailed (helperIp : IpAddr) (error : String)
  | testFailed (helperIp : IpAddr) (error : String)
  | reply (helperIp : IpAddr) (errorCode : UInt8) (incomingPort : UInt16) (observedAt : DateTime)
  | finish (completedAt : DateTime)
  | expire (now : DateTime)

/-- The firewall state, the snapshot others read, and the replies that were seen. -/
structure UdpChecks where
  firewall : KadFirewallState
  reachability : ReachabilityState
  writer : RuntimeReachabilityWriter
  /-- The positive replies since the round began, selected helpers' or not. -/
  positives : List (IpAddr × UInt16)
  /-- The failed tests since the round began. -/
  negatives : List IpAddr

namespace UdpChecks

variable {observedAt : DateTime}

def init : UdpChecks where
  firewall := .init
  reachability := ⟨⟨none, none, none⟩, some 1⟩
  writer := ⟨1⟩
  positives := []
  negatives := []

section

variable (internalUdpPort : UInt16) (checks : UdpChecks) (e : UdpEvent)

def advertised (internalUdpPort : UInt16) : UInt16 :=
  checks.reachability.snapshot.advertisedUdpPort internalUdpPort

def driverFailed (error : String) : UdpChecks :=
  { checks with
    firewall := checks.firewall.recordUdpCheckInconclusive
      ("Kad UDP firewall-check driver failed: " ++ error) }

/-- The first half of `run_kad_udp_firewall_check_round`, up to the requests. -/
def beginRound (helperIps : List IpAddr) (startedAt : DateTime) : UdpChecks :=
  if internalUdpPort = 0 then
    checks.driverFailed "Kad UDP bind port is unknown; cannot run firewall check"
  else
    let advertisedUdpPort := checks.advertised internalUdpPort
    let externalUdpPort := if advertisedUdpPort ≠ internalUdpPort then advertisedUdpPort else 0
    if helperIps = [] then
      { checks with
        firewall := checks.firewall.recordUdpCheckInconclusive
          "no eligible UDP firewall-check helpers available" }
    else
      let started :=
        checks.firewall.beginUdpCheck helperIps [internalUdpPort, externalUdpPort] startedAt
      if started.1 then { checks with firewall := started.2, positives := [], negatives := [] }
      else
        driverFailed { checks with firewall := started.2 }
          ("could not begin Kad UDP firewall-check round: " ++ started.2.lastError.getD "")

def roundEnd : UdpEvent → Option UdpFirewallCheckSummary
  | .reply helperIp errorCode incomingPort observedAt =>
    match (checks.firewall.recordFirewallUdpPacket helperIp errorCode incomingPort
      observedAt).1 with
    | .isOpen summary => some summary
    | .recorded | .ignored => none
  | .finish completedAt => (checks.firewall.finishUdpCheck completedAt).1
  | _ => none

def step : UdpEvent → UdpChecks
  | .natMapped tcpPort udpPort =>
    { checks with
      reachability := checks.writer.setNatMappedPorts checks.reachability tcpPort udpPort }
  | .beginRound helperIps startedAt => beginRound internalUdpPort checks helperIps startedAt
  | .requestFailed helperIp error =>
    { checks with firewall := checks.firewall.recordHelperRequestFailed helperIp error }
  | .testFailed helperIp error =>
    { checks with
      firewall := checks.firewall.recordHelperTestFailed helperIp error
      negatives := helperIp :: checks.negatives }
  | .reply helperIp errorCode incomingPort observedAt =>
    let packet :=
      checks.firewall.recordFirewallUdpPacket helperIp errorCode incomingPort observedAt
    { checks with
      firewall := packet.2
      reachability := checks.writer.applyPacket checks.reachability packet.1
      positives :=
        if errorCode = 0 then (helperIp, incomingPort) :: checks.positives else checks.positives }
  | .finish completedAt =>
    let finished := checks.firewall.finishUdpCheck completedAt
    { checks with
      firewall := finished.2
      reachability := checks.writer.applyResult checks.reachability finished.1 }
  | .expire now =>
    let expired := checks.firewall.expireUdpVerificationIfStale now
    { checks with
      firewall := expired.2
      reachability :=
        if expired.1 then checks.writer.clearPeerConfirmedUdpPort checks.reachability
        else checks.reachability }

/-! ## The law and the condition -/

/-- **Open rests on replies**: a positive reply of a selected helper on an expected port, or on
    another port that a different selected helper has reported in this round. -/
def OpensOnReplies : Prop :=
  ∀ summary, checks.roundEnd e = some summary → summary.isOpen = true →
    ∃ round helperIp port observedAt, checks.firewall.activeRound = some round
      ∧ e = .reply helperIp 0 port observedAt ∧ helperIp ∈ round.helperOutcomes.helpers
      ∧ (port ∈ round.expectedPorts
        ∨ port ∉ round.expectedPorts ∧ ∃ other ∈ round.helperOutcomes.helpers, other ≠ helperIp
            ∧ (other, port) ∈ checks.positives)

/-- **Firewalled rests on two failed tests** of different selected helpers. -/
def ClosesOnTests : Prop :=
  ∀ summary, checks.roundEnd e = some summary → summary.isOpen = false →
    ∃ round, checks.firewall.activeRound = some round
      ∧ ∃ first ∈ round.helperOutcomes.helpers, ∃ second ∈ round.helperOutcomes.helpers,
          first ≠ second ∧ first ∈ checks.negatives ∧ second ∈ checks.negatives

def AdvertisesReported : Prop :=
  ∀ helperIp errorCode port observedAt, e = .reply helperIp errorCode port observedAt →
    (checks.roundEnd e).isSome → port ≠ internalUdpPort →
      (step internalUdpPort checks e).advertised internalUdpPort = port

/-- The verdict and the advertised port have their evidence. -/
structure FollowsEvidence (internalUdpPort : UInt16) (checks : UdpChecks) (e : UdpEvent) :
    Prop where
  opens : checks.OpensOnReplies e
  closes : checks.ClosesOnTests e
  advertises : AdvertisesReported internalUdpPort checks e

/-- A helper of the round confirms the internal port, or the one the NAT maps. -/
def NatMapped : Prop :=
  ∀ helperIp port observedAt, e = .reply helperIp 0 port observedAt →
    ∀ round, checks.firewall.activeRound = some round →
      helperIp ∈ round.helperOutcomes.helpers → port ∈ round.expectedPorts →
        port ≠ internalUdpPort →
          checks.reachability.snapshot.natMappedUdpPort = some port

end

/-! ## What the firewall calls do to the round -/

section Firewall

variable {state : KadFirewallState} {round : UdpFirewallCheckRound} {helperIp : IpAddr}

def ClosedOpen (packet : FirewallUdpPacketOutcome × KadFirewallState) (port : Option UInt16) :
    Prop :=
  ∃ summary, packet.1 = .isOpen summary ∧ summary.isOpen = true ∧ summary.externalUdpPort = port
    ∧ packet.2.activeRound = none

theorem closedOpen_finishOpen :
    ClosedOpen (state.finishOpen round observedAt) round.discoveredExternalUdpPort :=
  ⟨_, rfl, rfl, rfl, rfl⟩

inductive PacketEffect (round : UdpFirewallCheckRound) (helperIp : IpAddr) (errorCode : UInt8)
    (port : UInt16) (packet : FirewallUdpPacketOutcome × KadFirewallState) : Prop
  | expected (hcode : errorCode = 0) (hport : port ∈ round.expectedPorts)
      (hopen : ClosedOpen packet round.discoveredExternalUdpPort)
  | corroborated (hcode : errorCode = 0) (hport : port ∉ round.expectedPorts) (hzero : port ≠ 0)
      (htwo : 2 ≤ (insert helperIp (round.discoveredPortReporters port)).card)
      (hopen : ClosedOpen packet (some port))
  | reported (hcode : errorCode = 0) (hport : port ∉ round.expectedPorts)
      (hrecorded : packet.1 = .recorded)
      (hround : packet.2.activeRound = some
        { round with
          helperOutcomes := round.helperOutcomes.set helperIp .wrongPort
          discoveredPortReporters := Function.update round.discoveredPortReporters port
            (insert helperIp (round.discoveredPortReporters port)) })
  | cancelled (outcome : HelperOutcome) (hport : errorCode = 0 → port ∉ round.expectedPorts)
      (hrecorded : packet.1 = .recorded)
      (houtcome : outcome = .wrongPort ∨ outcome = .remoteError)
      (hround : packet.2.activeRound = some
        { round with helperOutcomes := round.helperOutcomes.set helperIp outcome })

theorem packet_effect (hround : state.activeRound = some round)
    (hhelper : helperIp ∈ round.helperOutcomes.helpers) (errorCode : UInt8) (port : UInt16)
    (observedAt : DateTime) :
    PacketEffect round helperIp errorCode port
      (state.recordFirewallUdpPacket helperIp errorCode port observedAt) := by
  unfold recordFirewallUdpPacket
  simp only [hround, not_not.mpr hhelper, if_false]
  split
  · rename_i hexpected
    exact .expected hexpected.1 hexpected.2 closedOpen_finishOpen
  · rename_i hunexpected
    have hport : errorCode = 0 → port ∉ round.expectedPorts := fun hcode hport =>
      hunexpected ⟨hcode, hport⟩
    split
    · rename_i hpositive
      split
      · rename_i htwo
        exact .corroborated hpositive.1 (hport hpositive.1) hpositive.2 htwo
          closedOpen_finishOpen
      · exact .reported hpositive.1 (hport hpositive.1) rfl rfl
    · refine .cancelled _ hport rfl ?_ rfl
      split
      · exact .inl rfl
      · exact .inr rfl

theorem packet_ignored (errorCode : UInt8) (port : UInt16) (observedAt : DateTime)
    (h : ∀ round, state.activeRound = some round → helperIp ∉ round.helperOutcomes.helpers) :
    state.recordFirewallUdpPacket helperIp errorCode port observedAt = (.ignored, state) := by
  unfold recordFirewallUdpPacket
  cases hround : state.activeRound with
  | none => rfl
  | some round => simp only [h round hround, not_false_eq_true, if_true]

theorem finish_effect (hround : state.activeRound = some round)
    (hunsettled : ∀ ip ∈ round.helperOutcomes.helpers,
      round.helperOutcomes.outcome ip ≠ .succeeded) (completedAt : DateTime) :
    state.finishUdpCheck completedAt = (none, state)
      ∨ (state.finishUdpCheck completedAt).2.activeRound = none
        ∧ ∀ summary, (state.finishUdpCheck completedAt).1 = some summary →
            summary.isOpen = false ∧ 2 ≤ (round.helperOutcomes.ofOutcome .testFailed).card := by
  unfold finishUdpCheck
  simp only [hround]
  split
  · exact .inl rfl
  · split
    · -- a helper that succeeded would have ended the round
      rename_i hsome
      obtain ⟨ip, hip, hsucceeded⟩ := hsome
      exact absurd hsucceeded (hunsettled ip hip)
    · split
      · exact .inr ⟨rfl, nofun⟩
      · split
        · exact .inr ⟨rfl, nofun⟩
        · rename_i hmany
          refine .inr ⟨by simp [finalizeUdpRound], ?_⟩
          intro summary hsummary
          simp only [finalizeUdpRound, Option.some.injEq] at hsummary
          subst hsummary
          exact ⟨rfl, Nat.not_lt.mp hmany⟩

end Firewall

/-! ## The round is backed by what arrived -/

structure Backed (positives : List (IpAddr × UInt16)) (negatives : List IpAddr)
    (round : UdpFirewallCheckRound) : Prop where
  reporters : ∀ port ip, ip ∈ round.discoveredPortReporters port →
    ip ∈ round.helperOutcomes.helpers ∧ (ip, port) ∈ positives
  failed : ∀ ip ∈ round.helperOutcomes.helpers,
    round.helperOutcomes.outcome ip = .testFailed → ip ∈ negatives
  unsettled : ∀ ip ∈ round.helperOutcomes.helpers, round.helperOutcomes.outcome ip ≠ .succeeded
  undiscovered : round.discoveredExternalUdpPort = none

structure Evidence (checks : UdpChecks) : Prop where
  backed : ∀ round, checks.firewall.activeRound = some round →
    Backed checks.positives checks.negatives round
  live : checks.reachability.activeRuntimeGeneration = some checks.writer.runtimeGeneration

variable {checks : UdpChecks} {internalUdpPort : UInt16} {helperIp : IpAddr} {port : UInt16}
  {summary : UdpFirewallCheckSummary} {errorCode : UInt8} {outcome : HelperOutcome}

theorem evidence_init : Evidence init :=
  ⟨fun _ h => by simp [init, KadFirewallState.init] at h, rfl⟩

section Backed

variable {positives : List (IpAddr × UInt16)} {negatives : List IpAddr}
  {round : UdpFirewallCheckRound} {helperIp : IpAddr}

theorem backed_fresh (helperIps : List IpAddr) {expectedPorts : Finset UInt16}
    {startedAt : DateTime} : Backed positives negatives
      ⟨startedAt, expectedPorts, .select helperIps, fun _ => ∅, none⟩ where
  reporters := fun _ _ h => absurd h (by simp)
  failed := fun _ _ h => by simp [HelperOutcomes.select] at h
  unsettled := fun _ _ h => by simp [HelperOutcomes.select] at h
  undiscovered := rfl

section

variable (h : Backed positives negatives round)

include h

theorem Backed.mono {positives' : List (IpAddr × UInt16)}
    {negatives' : List IpAddr} (hpos : ∀ p ∈ positives, p ∈ positives')
    (hneg : ∀ ip ∈ negatives, ip ∈ negatives') : Backed positives' negatives' round where
  reporters := fun port ip hip => (h.reporters port ip hip).imp_right (hpos _)
  failed := fun ip hip hfailed => hneg ip (h.failed ip hip hfailed)
  unsettled := h.unsettled
  undiscovered := h.undiscovered

theorem Backed.set
    (hsucceeded : outcome ≠ .succeeded) (hfailed : outcome = .testFailed → helperIp ∈ negatives) :
    Backed positives negatives
      { round with helperOutcomes := round.helperOutcomes.set helperIp outcome } where
  reporters := h.reporters
  failed := by
    intro ip hip hout
    by_cases heq : ip = helperIp
    · subst heq
      exact hfailed (by simpa [HelperOutcomes.set] using hout)
    · exact h.failed ip hip (by simpa [HelperOutcomes.set, heq] using hout)
  unsettled := by
    intro ip hip
    by_cases heq : ip = helperIp
    · subst heq
      simpa [HelperOutcomes.set] using hsucceeded
    · simpa [HelperOutcomes.set, heq] using h.unsettled ip hip
  undiscovered := h.undiscovered

theorem Backed.report {port : UInt16}
    (hhelper : helperIp ∈ round.helperOutcomes.helpers) (hreply : (helperIp, port) ∈ positives) :
    Backed positives negatives
      { round with
        discoveredPortReporters := Function.update round.discoveredPortReporters port
          (insert helperIp (round.discoveredPortReporters port)) } where
  reporters := by
    intro port' ip hip
    dsimp only at hip
    by_cases heq : port' = port
    · subst heq
      rw [Function.update_self, Finset.mem_insert] at hip
      rcases hip with rfl | hip
      · exact ⟨hhelper, hreply⟩
      · exact h.reporters port' ip hip
    · rw [Function.update_of_ne heq] at hip
      exact h.reporters port' ip hip
  failed := h.failed
  unsettled := h.unsettled
  undiscovered := h.undiscovered

end

end Backed

/-! ## The steps keep the evidence -/

@[simp] theorem update_generation {writer : RuntimeReachabilityWriter} {state : ReachabilityState}
    {apply : ReachabilitySnapshot → ReachabilitySnapshot} :
    (writer.update state apply).activeRuntimeGeneration = state.activeRuntimeGeneration := by
  unfold update
  split <;> rfl

@[simp] theorem applyOpen_generation {writer : RuntimeReachabilityWriter}
    {state : ReachabilityState} :
    (writer.applyOpen state summary).activeRuntimeGeneration = state.activeRuntimeGeneration := by
  unfold applyOpen
  split <;> exact update_generation

@[simp] theorem applyPacket_generation (writer : RuntimeReachabilityWriter)
    (state : ReachabilityState) (outcome : FirewallUdpPacketOutcome) :
    (writer.applyPacket state outcome).activeRuntimeGeneration = state.activeRuntimeGeneration := by
  cases outcome with
  | isOpen => exact applyOpen_generation
  | recorded | ignored => rfl

@[simp] theorem applyResult_generation (writer : RuntimeReachabilityWriter)
    (state : ReachabilityState) (summary : Option UdpFirewallCheckSummary) :
    (writer.applyResult state summary).activeRuntimeGeneration = state.activeRuntimeGeneration := by
  unfold applyResult
  split
  · split
    · exact applyOpen_generation
    · exact update_generation
  · rfl

theorem Evidence.of_no_round (h : Evidence checks) {firewall : KadFirewallState}
    (hnone : firewall.activeRound = none) : Evidence { checks with firewall } :=
  ⟨fun round hround => by simp [hnone] at hround, h.live⟩

theorem Evidence.beginRound (h : Evidence checks) (helperIps : List IpAddr) (startedAt : DateTime) :
    Evidence (beginRound internalUdpPort checks helperIps startedAt) := by
  unfold UdpChecks.beginRound
  split
  · exact h.of_no_round rfl
  · dsimp only
    generalize (if checks.advertised internalUdpPort ≠ internalUdpPort then
      checks.advertised internalUdpPort else 0) = externalUdpPort
    split
    · exact h.of_no_round rfl
    · split
      · rename_i hstarted
        refine ⟨?_, h.live⟩
        intro round hround
        unfold beginUdpCheck at hstarted hround
        dsimp only at hstarted hround
        split_ifs at hstarted hround
        cases hround
        exact backed_fresh helperIps
      · exact h.of_no_round rfl

theorem Backed.helperOutcome {state : KadFirewallState} {positives : List (IpAddr × UInt16)}
    {negatives : List IpAddr}
    (h : ∀ round, state.activeRound = some round → Backed positives negatives round)
    (hsucceeded : outcome ≠ .succeeded) (hfailed : outcome = .testFailed → helperIp ∈ negatives)
    (error : String) (round : UdpFirewallCheckRound)
    (hround : (state.recordHelperOutcome outcome helperIp error).activeRound = some round) :
    Backed positives negatives round := by
  unfold recordHelperOutcome at hround
  cases hactive : state.activeRound with
  | none =>
    rw [hactive] at hround
    exact h round hround
  | some active =>
    simp only [hactive] at hround
    split at hround
    · exact h round hround
    · cases hround
      exact (h active hactive).set hsucceeded hfailed

theorem Evidence.backed_reply (h : Evidence checks) {round : UdpFirewallCheckRound}
    (hround : checks.firewall.activeRound = some round) (helperIp : IpAddr) :
    Backed (step internalUdpPort checks (.reply helperIp errorCode port observedAt)).positives
      checks.negatives round := by
  apply (h.backed round hround).mono
  · intro p hp
    rw [step]
    split
    · exact List.mem_cons_of_mem _ hp
    · exact hp
  · exact fun _ hip => hip

theorem Evidence.reply (h : Evidence checks) (helperIp : IpAddr) (errorCode : UInt8)
    (port : UInt16) (observedAt : DateTime) :
    Evidence (step internalUdpPort checks (.reply helperIp errorCode port observedAt)) := by
  constructor
  · intro round' hround'
    have hround : (checks.firewall.recordFirewallUdpPacket helperIp errorCode port
        observedAt).2.activeRound = some round' := hround'
    by_cases hselected : ∃ round, checks.firewall.activeRound = some round
        ∧ helperIp ∈ round.helperOutcomes.helpers
    · obtain ⟨round, hactive, hhelper⟩ := hselected
      have hbacked : Backed (step internalUdpPort checks
          (.reply helperIp errorCode port observedAt)).positives checks.negatives round :=
        h.backed_reply hactive helperIp
      rcases packet_effect hactive hhelper errorCode port observedAt with
        ⟨-, -, summary, -, -, -, hnone⟩ | ⟨-, -, -, -, summary, -, -, -, hnone⟩
        | ⟨hcode, -, -, hafter⟩ | ⟨outcome, -, -, houtcome, hafter⟩
      · simp [hnone] at hround
      · simp [hnone] at hround
      · rw [hafter] at hround
        cases hround
        refine (hbacked.report hhelper ?_).set (by simp) (by simp)
        simp [step, hcode]
      · rw [hafter] at hround
        cases hround
        apply hbacked.set
        · rcases houtcome with rfl | rfl <;> simp
        · rcases houtcome with rfl | rfl <;> simp
    · rw [packet_ignored errorCode port observedAt fun round hactive hhelper =>
        hselected ⟨round, hactive, hhelper⟩] at hround
      exact h.backed_reply hround helperIp
  · rw [step]
    rw [applyPacket_generation]
    exact h.live

theorem Evidence.finish (h : Evidence checks) (completedAt : DateTime) :
    Evidence (step internalUdpPort checks (.finish completedAt)) := by
  refine ⟨?_, by simpa [step] using h.live⟩
  intro round' hround'
  have hafter : (checks.firewall.finishUdpCheck completedAt).2.activeRound = some round' := hround'
  cases hround : checks.firewall.activeRound with
  | none =>
    simp only [finishUdpCheck, hround] at hafter
    cases hafter
  | some round =>
    rcases finish_effect hround (h.backed round hround).unsettled completedAt with
      hsame | ⟨hnone, -⟩
    · rw [hsame] at hafter
      exact h.backed round' hafter
    · rw [hnone] at hafter
      cases hafter

/-- **Every step keeps the evidence.** -/
theorem Evidence.step (h : Evidence checks) (e : UdpEvent) :
    Evidence (step internalUdpPort checks e) := by
  cases e with
  | natMapped => exact ⟨h.backed, update_generation.trans h.live⟩
  | beginRound helperIps startedAt => exact h.beginRound helperIps startedAt
  | requestFailed helperIp error =>
    exact ⟨Backed.helperOutcome h.backed (by simp) (by simp) error, h.live⟩
  | testFailed helperIp error =>
    refine ⟨Backed.helperOutcome ?_ (by simp) (fun _ => List.mem_cons_self) error, h.live⟩
    intro round hround
    exact (h.backed round hround).mono (fun _ hp => hp) fun _ hip => List.mem_cons_of_mem _ hip
  | reply helperIp errorCode port observedAt => exact h.reply helperIp errorCode port observedAt
  | finish completedAt => exact h.finish completedAt
  | expire now =>
    have hround : (checks.firewall.expireUdpVerificationIfStale now).2.activeRound
        = checks.firewall.activeRound := by
      unfold expireUdpVerificationIfStale
      split
      · rfl
      · dsimp only
        split_ifs <;> rfl
    refine ⟨fun round hactive => h.backed round (hround ▸ hactive), ?_⟩
    rw [UdpChecks.step]
    split
    · exact update_generation.trans h.live
    · exact h.live

/-! ## The law at one step -/

theorem exists_other {reporters : Finset IpAddr} (htwo : 2 ≤ (insert helperIp reporters).card) :
    ∃ other ∈ reporters, other ≠ helperIp := by
  obtain ⟨other, hother, hne⟩ := Finset.exists_mem_ne htwo helperIp
  exact ⟨other, (Finset.mem_insert.mp hother).resolve_left hne, hne⟩

section

variable (h : Evidence checks)

include h

/-- How a reply ends a round: by a positive result of a selected helper, on an expected port or on
    one it corroborates. -/
theorem Evidence.roundEnd_reply
    (hend : checks.roundEnd (.reply helperIp errorCode port observedAt) = some summary) :
    errorCode = 0 ∧ summary.isOpen = true
      ∧ (checks.firewall.recordFirewallUdpPacket helperIp errorCode port observedAt).1
          = .isOpen summary
      ∧ ∃ round, checks.firewall.activeRound = some round
          ∧ helperIp ∈ round.helperOutcomes.helpers
          ∧ (port ∈ round.expectedPorts ∧ summary.externalUdpPort = none
            ∨ port ∉ round.expectedPorts ∧ port ≠ 0 ∧ summary.externalUdpPort = some port
              ∧ ∃ other ∈ round.discoveredPortReporters port, other ≠ helperIp) := by
  by_cases hselected : ∃ round, checks.firewall.activeRound = some round
      ∧ helperIp ∈ round.helperOutcomes.helpers
  · obtain ⟨round, hround, hhelper⟩ := hselected
    rcases packet_effect hround hhelper errorCode port observedAt with
      ⟨hcode, hport, ended, hout, hopen, hext, -⟩
      | ⟨hcode, hport, hzero, htwo, ended, hout, hopen, hext, -⟩
      | ⟨-, -, hrecorded, -⟩ | ⟨-, -, hrecorded, -, -⟩
    · simp only [roundEnd, hout, Option.some.injEq] at hend
      subst hend
      rw [(h.backed round hround).undiscovered] at hext
      exact ⟨hcode, hopen, hout, round, hround, hhelper, .inl ⟨hport, hext⟩⟩
    · simp only [roundEnd, hout, Option.some.injEq] at hend
      subst hend
      exact ⟨hcode, hopen, hout, round, hround, hhelper,
        .inr ⟨hport, hzero, hext, exists_other htwo⟩⟩
    · simp [roundEnd, hrecorded] at hend
    · simp [roundEnd, hrecorded] at hend
  · have hignored := packet_ignored errorCode port observedAt fun round hround hhelper =>
      hselected ⟨round, hround, hhelper⟩
    simp [roundEnd, hignored] at hend

/-- How a finish ends a round: as firewalled, on two failed tests. -/
theorem Evidence.roundEnd_finish {completedAt : DateTime}
    (hend : checks.roundEnd (.finish completedAt) = some summary) :
    summary.isOpen = false ∧ ∃ round, checks.firewall.activeRound = some round
      ∧ 2 ≤ (round.helperOutcomes.ofOutcome .testFailed).card := by
  cases hround : checks.firewall.activeRound with
  | none => simp [roundEnd, finishUdpCheck, hround] at hend
  | some round =>
    rcases finish_effect hround (h.backed round hround).unsettled completedAt with
      hsame | ⟨-, htests⟩
    · simp [roundEnd, hsame] at hend
    · exact ⟨(htests summary hend).1, round, rfl, (htests summary hend).2⟩

theorem Evidence.opensOnReplies {e : UdpEvent} : checks.OpensOnReplies e := by
  intro summary hend hopen
  cases e with
  | reply helperIp errorCode port observedAt =>
    obtain ⟨rfl, -, -, round, hround, hhelper, hports⟩ := h.roundEnd_reply hend
    refine ⟨round, helperIp, port, observedAt, hround, rfl, hhelper, ?_⟩
    rcases hports with ⟨hport, -⟩ | ⟨hport, -, -, other, hother, hne⟩
    · exact .inl hport
    · obtain ⟨hin, hreply⟩ := (h.backed round hround).reporters port other hother
      exact .inr ⟨hport, other, hin, hne, hreply⟩
  | finish =>
    rw [(h.roundEnd_finish hend).1] at hopen
    cases hopen
  | _ => cases hend

theorem Evidence.closesOnTests {e : UdpEvent} : checks.ClosesOnTests e := by
  intro summary hend hclosed
  cases e with
  | reply =>
    obtain ⟨-, hopen, -⟩ := h.roundEnd_reply hend
    rw [hclosed] at hopen
    cases hopen
  | finish =>
    obtain ⟨-, round, hround, htests⟩ := h.roundEnd_finish hend
    obtain ⟨first, hfirst, second, hsecond, hne⟩ := Finset.one_lt_card.mp htests
    obtain ⟨hin, hfailed⟩ := Finset.mem_filter.mp hfirst
    obtain ⟨hin', hfailed'⟩ := Finset.mem_filter.mp hsecond
    exact ⟨round, hround, first, hin, second, hin', hne,
      (h.backed round hround).failed first hin hfailed,
      (h.backed round hround).failed second hin' hfailed'⟩
  | _ => cases hend

/-! ## The advertised port -/

theorem Evidence.advertised_cleared (hext : summary.externalUdpPort = none) :
    (checks.writer.applyOpen checks.reachability summary).snapshot.advertisedUdpPort
        internalUdpPort
      = checks.reachability.snapshot.natMappedUdpPort.getD internalUdpPort := by
  simp [applyOpen, hext,
    clearPeerConfirmedUdpPort, update, h.live,
    ReachabilitySnapshot.advertisedUdpPort]

theorem Evidence.advertised_set (hext : summary.externalUdpPort = some port) (hzero : port ≠ 0) :
    (checks.writer.applyOpen checks.reachability summary).snapshot.advertisedUdpPort
      internalUdpPort = port := by
  simp [applyOpen, hext,
    setPeerConfirmedUdpPort, update, h.live,
    nonzeroPort, Option.filter, hzero, ReachabilitySnapshot.advertisedUdpPort]

end

/-- A reply that ends the round leaves what `applyOpen` leaves. -/
theorem advertised_reply
    (hout : (checks.firewall.recordFirewallUdpPacket helperIp errorCode port observedAt).1
      = .isOpen summary) :
    (step internalUdpPort checks (.reply helperIp errorCode port observedAt)).advertised
        internalUdpPort
      = (checks.writer.applyOpen checks.reachability summary).snapshot.advertisedUdpPort
          internalUdpPort := by
  rw [step]
  rw [hout]
  rfl

/-- **At one step the advertised port is the reported one exactly when the condition holds.** -/
theorem Evidence.advertisesReported_iff (h : Evidence checks) (e : UdpEvent) :
    AdvertisesReported internalUdpPort checks e ↔ NatMapped internalUdpPort checks e := by
  constructor
  · rintro hlaw helperIp port observedAt rfl round hround hhelper hport hne
    -- the reply is on an expected port, so it ends the round and clears the confirmed port
    rcases packet_effect hround hhelper 0 port observedAt with
      ⟨-, -, summary, hout, -, hext, -⟩ | ⟨-, hnot, -⟩ | ⟨-, hnot, -⟩ | ⟨-, hnot, -⟩
    · have hend : (checks.roundEnd (.reply helperIp 0 port observedAt)).isSome := by
        simp [roundEnd, hout]
      rw [(h.backed round hround).undiscovered] at hext
      have hadvertised := hlaw helperIp 0 port observedAt rfl hend hne
      rw [advertised_reply hout, h.advertised_cleared hext] at hadvertised
      cases hnat : checks.reachability.snapshot.natMappedUdpPort with
      | none =>
        rw [hnat] at hadvertised
        exact absurd hadvertised.symm hne
      | some =>
        rw [hnat] at hadvertised
        exact congrArg some hadvertised
    · exact absurd hport hnot
    · exact absurd hport hnot
    · exact absurd hport (hnot rfl)
  · rintro hnat helperIp errorCode port observedAt rfl hend hne
    obtain ⟨summary, hsummary⟩ := Option.isSome_iff_exists.mp hend
    obtain ⟨rfl, -, hout, round, hround, hhelper, hports⟩ := h.roundEnd_reply hsummary
    rw [advertised_reply hout]
    rcases hports with ⟨hport, hext⟩ | ⟨-, hzero, hext, -⟩
    · rw [h.advertised_cleared hext,
        hnat helperIp port observedAt rfl round hround hhelper hport hne]
      rfl
    · exact h.advertised_set hext hzero

/-- **The rounds follow the evidence just when the port is mapped.** -/
theorem Evidence.followsEvidence_iff (h : Evidence checks) {e : UdpEvent} :
    FollowsEvidence internalUdpPort checks e ↔ NatMapped internalUdpPort checks e := by
  rw [← h.advertisesReported_iff e]
  exact ⟨fun hlaw => hlaw.advertises, fun hadv => ⟨h.opensOnReplies, h.closesOnTests, hadv⟩⟩

/-- **The verdicts and the advertised port follow the helpers' evidence exactly when a confirmed
    external port is also the mapped one.** Over every sequence of rounds, replies, failures,
    finishes, expiries and mapping updates: each open verdict rests on its replies, each firewalled
    one on two failed tests, and the port reported is the port advertised, if and only if each
    positive reply on an expected port other than the internal one finds that port in the NAT
    mapping. -/
theorem udp_rounds_follow_evidence_iff (internalUdpPort : UInt16) (events : List UdpEvent) :
    Along (step internalUdpPort) (FollowsEvidence internalUdpPort) init events
      ↔ Along (step internalUdpPort) (NatMapped internalUdpPort) init events := by
  constructor
  · intro h
    exact h.along
      (fun _ e hevidence hlaw => ⟨hevidence.followsEvidence_iff.mp hlaw, hevidence.step e⟩)
      evidence_init
  · intro h
    exact h.along
      (fun _ e hevidence hnat => ⟨hevidence.followsEvidence_iff.mpr hnat, hevidence.step e⟩)
      evidence_init

def confirmedTwice : List UdpEvent :=
  let first := IpAddr.v4 ⟨203, 0, 113, 40⟩
  let second := IpAddr.v4 ⟨203, 0, 113, 41⟩
  [.beginRound [first, second] 0, .reply first 0 53000 1, .reply second 0 53000 2, .finish 3,
    .beginRound [first, second] (wallSeconds 3600)]

/-- **A confirmed port is forgotten**: the second confirmation of port 53000 ends its round open,
    and the node goes back to advertising the internal port. -/
theorem confirmed_port_forgotten : (run (step 4672) init confirmedTwice).advertised 4672 = 53000
      ∧ ¬ Along (step 4672) (FollowsEvidence 4672) init
          (confirmedTwice ++ [.reply (.v4 ⟨203, 0, 113, 40⟩) 0 53000 (wallSeconds 3601)]) := by
  refine ⟨by decide +kernel, ?_⟩
  intro h
  obtain ⟨-, hlast, -⟩ := along_append.mp h
  have hadvertised := hlast.advertises (.v4 ⟨203, 0, 113, 40⟩) 0 53000 (wallSeconds 3601) rfl
    (by decide +kernel) (by decide)
  revert hadvertised
  decide +kernel

end UdpChecks

end EmuleBB.Kad
