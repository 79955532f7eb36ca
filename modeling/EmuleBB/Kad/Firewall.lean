import Mathlib.Data.Finset.Card
import EmuleBB.Wire

/-!
# Kad firewall verification state

What helpers have told the node about its own reachability, in two halves that share little more
than the last error. **The TCP half** counts the helpers that connected back
(`OP_KAD_FWTCPCHECK_ACK`, or the older UDP acknowledgement) and settles the verdict at two. **The
UDP half** follows one round of helper probes to the node's UDP port.

Only the discovery of the external port by PONG replies is left out: nothing outside the tests calls
it.
-/

namespace EmuleBB.Kad

open Peer

/-- A point of the wall clock, in nanoseconds; it may step backwards. -/
abbrev DateTime := Int

def wallSeconds (n : Int) : Int := n * 1000000000

def tcpFirewallOpenThreshold : Nat := 2

def tcpFirewallCheckIpTtl : Int := wallSeconds 180

def tcpFirewallRecheckLimit : Nat := 4

def udpFirewallCheckClientsToAsk : Nat := 2

def udpVerificationInconclusiveRoundLimit : Nat := 2

def udpVerificationMaxAgeSecs : Int := 2 * 60 * 60 + 6 * 60

def firewallUdpPortDiscoveryReporters : Nat := 2

def saturatingSucc (n : Nat) : Nat := min (n + 1) 255

/-! ## The state -/

structure UdpFirewallCheckSummary where
  isOpen : Bool
  helpersSelected : Nat
  helpersRequested : Nat
  helpersSucceeded : Nat
  helpersFailed : Nat
  startedAt : DateTime
  completedAt : DateTime
  externalUdpPort : Option UInt16
  deriving DecidableEq

inductive HelperOutcome
  | pending
  | requestFailed
  | testFailed
  | remoteError
  | wrongPort
  | succeeded
  deriving DecidableEq

structure HelperOutcomes where
  helpers : Finset IpAddr
  outcome : IpAddr → HelperOutcome

namespace HelperOutcomes

def select (helperIps : List IpAddr) : HelperOutcomes := ⟨helperIps.toFinset, fun _ => .pending⟩

def set (outcomes : HelperOutcomes) (helperIp : IpAddr) (outcome : HelperOutcome) :
    HelperOutcomes :=
  { outcomes with outcome := Function.update outcomes.outcome helperIp outcome }

def ofOutcome (outcomes : HelperOutcomes) (outcome : HelperOutcome) : Finset IpAddr :=
  outcomes.helpers.filter fun ip => outcomes.outcome ip = outcome

end HelperOutcomes

structure UdpFirewallCheckRound where
  startedAt : DateTime
  expectedPorts : Finset UInt16
  helperOutcomes : HelperOutcomes
  /-- The helpers that reported a positive result on a port that is not an expected one. -/
  discoveredPortReporters : UInt16 → Finset IpAddr
  discoveredExternalUdpPort : Option UInt16

structure TcpFirewallCheckRound where
  activeHelpers : Finset IpAddr
  completedChecks : Nat

structure KadFirewallState where
  udpOpen : Bool
  udpVerified : Bool
  lastUdpCheckStartedAt : Option DateTime
  lastUdpCheckSucceededAt : Option DateTime
  lastUdpCheckFailedAt : Option DateTime
  lastHelperIp : Option IpAddr
  lastReportedPort : Option UInt16
  lastError : Option String
  tcpRecheckActive : Bool
  lastTcpCheckStartedAt : Option DateTime
  lastTcpCheckCompletedAt : Option DateTime
  lastReportedExternalIp : Option IpAddr
  tcpFirewalledVerdict : Option Bool
  udpVerifiedAt : Option DateTime
  udpInconclusiveRounds : Nat
  activeRound : Option UdpFirewallCheckRound
  activeTcpRound : Option TcpFirewallCheckRound
  discoveredExternalUdpPort : Option UInt16
  /-- The addresses asked for a check, with the time of the request. -/
  tcpFirewallCheckIps : IpAddr → Option DateTime
  tcpOpenAcks : Nat
  tcpFirewallLastState : Bool

def KadFirewallState.init : KadFirewallState where
  udpOpen := false
  udpVerified := false
  lastUdpCheckStartedAt := none
  lastUdpCheckSucceededAt := none
  lastUdpCheckFailedAt := none
  lastHelperIp := none
  lastReportedPort := none
  lastError := none
  tcpRecheckActive := false
  lastTcpCheckStartedAt := none
  lastTcpCheckCompletedAt := none
  lastReportedExternalIp := none
  tcpFirewalledVerdict := none
  udpVerifiedAt := none
  udpInconclusiveRounds := 0
  activeRound := none
  activeTcpRound := none
  discoveredExternalUdpPort := none
  tcpFirewallCheckIps := fun _ => none
  tcpOpenAcks := 0
  tcpFirewallLastState := false

inductive FirewallUdpPacketOutcome
  | isOpen (summary : UdpFirewallCheckSummary)
  | recorded
  | ignored

inductive FirewalledResponseOutcome
  | recorded
  | completed
  | ignored
  deriving DecidableEq

namespace KadFirewallState

/-! ## The TCP recheck -/

variable (state : KadFirewallState)

/-- Open a round, unless one is in flight: the verdict so far becomes the snapshot, and the acks are
    counted from zero. -/
def beginTcpRecheck (startedAt : DateTime) : KadFirewallState :=
  if state.activeTcpRound.isSome then state
  else
    { state with
      tcpFirewallLastState := state.tcpOpenAcks < tcpFirewallOpenThreshold
      tcpOpenAcks := 0
      tcpRecheckActive := true
      lastTcpCheckStartedAt := some startedAt
      activeTcpRound := some ⟨∅, 0⟩ }

/-- Reserve a helper: at most four may contribute to one round. -/
def tryBeginTcpFirewallProbe (helperIp : IpAddr) (startedAt : DateTime) : Bool × KadFirewallState :=
  match state.activeTcpRound with
  | none => (false, state)
  | some round =>
    if round.completedChecks ≥ tcpFirewallRecheckLimit
        ∨ round.activeHelpers.card ≥ tcpFirewallRecheckLimit
        ∨ helperIp ∈ round.activeHelpers then (false, state)
    else
      (true,
        { state with
          tcpRecheckActive := true
          lastTcpCheckStartedAt := some startedAt
          activeTcpRound :=
            some { round with activeHelpers := insert helperIp round.activeHelpers } })

def recordTcpFirewallProbeFailed (helperIp : IpAddr) (error : String) : KadFirewallState :=
  { state with
    activeTcpRound := state.activeTcpRound.map fun round =>
      { round with activeHelpers := round.activeHelpers.erase helperIp }
    lastHelperIp := some helperIp
    lastError := some error }

def isTcpFirewallCheckIp (ip : IpAddr) (now : DateTime) : Bool :=
  match state.tcpFirewallCheckIps ip with
  | none => false
  | some probedAt => now - probedAt < tcpFirewallCheckIpTtl

def pruneTcpFirewallCheckIps (now : DateTime) : KadFirewallState :=
  { state with
    tcpFirewallCheckIps := fun ip =>
      (state.tcpFirewallCheckIps ip).filter fun probedAt => now - probedAt < tcpFirewallCheckIpTtl }

def addTcpFirewallCheckIp (ip : IpAddr) (now : DateTime) : KadFirewallState :=
  let pruned := state.pruneTcpFirewallCheckIps now
  { pruned with tcpFirewallCheckIps := Function.update pruned.tcpFirewallCheckIps ip (some now) }

/-- An open ack counts when its sender was asked; the second one settles the verdict. -/
def recordTcpOpenAck (ip : IpAddr) (now : DateTime) : Bool × KadFirewallState :=
  if !state.isTcpFirewallCheckIp ip now then (false, state)
  else
    let counted : KadFirewallState :=
      { state with
        tcpOpenAcks := saturatingSucc state.tcpOpenAcks
        lastHelperIp := some ip
        lastTcpCheckCompletedAt := some now }
    if counted.tcpOpenAcks ≥ tcpFirewallOpenThreshold then
      (true,
        { counted with
          tcpFirewalledVerdict := some false
          tcpRecheckActive := false
          activeTcpRound := none
          lastError := none })
    else (true, counted)

/-- What the node reports about itself. While a round is in flight this is the snapshot. -/
def tcpFirewalled : Option Bool :=
  if state.tcpOpenAcks ≥ tcpFirewallOpenThreshold then some false
  else if state.activeTcpRound.isSome then
    state.tcpFirewalledVerdict.map fun _ => state.tcpFirewallLastState
  else state.tcpFirewalledVerdict

/-- A round that ends without two open acks finds the node firewalled. -/
def finishTcpRecheck (completedAt : DateTime) : KadFirewallState :=
  if state.tcpOpenAcks ≥ tcpFirewallOpenThreshold then state
  else if state.activeTcpRound.isNone ∧ state.lastTcpCheckStartedAt.isNone then state
  else
    { state with
      tcpFirewalledVerdict := some true
      tcpRecheckActive := false
      activeTcpRound := none
      lastTcpCheckCompletedAt := some completedAt }

/-- A `KADEMLIA_FIREWALLED_RES` reply: it frees its helper's slot, and the fourth ends the round. -/
def recordFirewalledResponse (helperIp reportedIp : IpAddr) (observedAt : DateTime) :
    FirewalledResponseOutcome × KadFirewallState :=
  match state.activeTcpRound with
  | none => (.ignored, state)
  | some round =>
    if helperIp ∉ round.activeHelpers then (.ignored, state)
    else
      let completedChecks := round.completedChecks + 1
      let recorded : KadFirewallState :=
        { state with
          tcpRecheckActive := completedChecks < tcpFirewallRecheckLimit
          lastHelperIp := some helperIp
          lastReportedExternalIp := some reportedIp
          lastTcpCheckCompletedAt := some observedAt
          lastError := none }
      if completedChecks ≥ tcpFirewallRecheckLimit then
        (.completed, { recorded with activeTcpRound := none })
      else
        (.recorded,
          { recorded with
            activeTcpRound := some ⟨round.activeHelpers.erase helperIp, completedChecks⟩ })

/-! ## The UDP check -/

def beginUdpCheck (helperIps : List IpAddr) (expectedPorts : List UInt16) (startedAt : DateTime) :
    Bool × KadFirewallState :=
  let helperOutcomes := HelperOutcomes.select helperIps
  if helperOutcomes.helpers = ∅ then
    (false, { state with lastError := some "no UDP firewall-check helpers available" })
  else
    let expectedPorts := (expectedPorts.filter fun port => port ≠ 0).toFinset
    if expectedPorts = ∅ then
      (false, { state with lastError := some "UDP firewall-check has no expected ports" })
    else
      (true,
        { state with
          lastUdpCheckStartedAt := some startedAt
          lastError := none
          activeRound := some ⟨startedAt, expectedPorts, helperOutcomes, fun _ => ∅, none⟩ })

def recordHelperOutcome (outcome : HelperOutcome) (state : KadFirewallState) (helperIp : IpAddr)
    (error : String) : KadFirewallState :=
  match state.activeRound with
  | none => state
  | some round =>
    if helperIp ∉ round.helperOutcomes.helpers then state
    else
      { state with
        activeRound :=
          some { round with helperOutcomes := round.helperOutcomes.set helperIp outcome }
        lastHelperIp := some helperIp
        lastError := some error }

def recordHelperRequestFailed := recordHelperOutcome .requestFailed

def recordHelperTestFailed := recordHelperOutcome .testFailed

def finalizeUdpRound (isOpen : Bool) (completedAt : DateTime) :
    Option UdpFirewallCheckSummary × KadFirewallState :=
  match state.activeRound with
  | none => (none, state)
  | some round =>
    let outcomes := round.helperOutcomes
    (some
      { isOpen
        helpersSelected := outcomes.helpers.card
        helpersRequested := (outcomes.helpers \ outcomes.ofOutcome .requestFailed).card
        helpersSucceeded := (outcomes.ofOutcome .succeeded).card
        helpersFailed := (outcomes.ofOutcome .testFailed).card
        startedAt := round.startedAt
        completedAt
        externalUdpPort := if isOpen then round.discoveredExternalUdpPort else none },
      { state with
        activeRound := none
        udpOpen := isOpen
        udpVerified := true
        udpVerifiedAt := some completedAt
        udpInconclusiveRounds := 0
        lastUdpCheckSucceededAt :=
          if isOpen then some completedAt else state.lastUdpCheckSucceededAt
        lastUdpCheckFailedAt :=
          if isOpen then state.lastUdpCheckFailedAt else some completedAt })

def finishOpen (round : UdpFirewallCheckRound) (observedAt : DateTime) :
    FirewallUdpPacketOutcome × KadFirewallState :=
  match finalizeUdpRound { state with activeRound := some round } true observedAt with
  | (some summary, state) => (.isOpen summary, { state with lastError := none })
  | (none, state) => (.ignored, state)

/-- A `KADEMLIA2_FIREWALLUDP` packet of a selected helper. A positive result on an expected port
    opens at once. On another port it needs a second helper that reports the same one. -/
def recordFirewallUdpPacket (helperIp : IpAddr) (errorCode : UInt8) (incomingPort : UInt16)
    (observedAt : DateTime) : FirewallUdpPacketOutcome × KadFirewallState :=
  match state.activeRound with
  | none => (.ignored, state)
  | some round =>
    if helperIp ∉ round.helperOutcomes.helpers then (.ignored, state)
    else
      let state : KadFirewallState :=
        { state with lastHelperIp := some helperIp, lastReportedPort := some incomingPort }
      let mark (outcome : HelperOutcome) : UdpFirewallCheckRound :=
        { round with helperOutcomes := round.helperOutcomes.set helperIp outcome }
      if errorCode = 0 ∧ incomingPort ∈ round.expectedPorts then
        state.finishOpen (mark .succeeded) observedAt
      else if errorCode = 0 ∧ incomingPort ≠ 0 then
        let reporters := insert helperIp (round.discoveredPortReporters incomingPort)
        let reported (outcome : HelperOutcome) : UdpFirewallCheckRound :=
          { mark outcome with
            discoveredPortReporters :=
              Function.update round.discoveredPortReporters incomingPort reporters }
        if reporters.card ≥ firewallUdpPortDiscoveryReporters then
          finishOpen { state with discoveredExternalUdpPort := some incomingPort }
            { reported .succeeded with discoveredExternalUdpPort := some incomingPort } observedAt
        else (.recorded, { state with activeRound := some (reported .wrongPort) })
      else
        (.recorded,
          { state with
            activeRound := some (mark (if errorCode = 0 then .wrongPort else .remoteError)) })

def recordUdpCheckInconclusive (error : String) : KadFirewallState :=
  { state with
    activeRound := none
    udpInconclusiveRounds := saturatingSucc state.udpInconclusiveRounds
    lastError := some error }

def finishUdpCheck (completedAt : DateTime) : Option UdpFirewallCheckSummary × KadFirewallState :=
  match state.activeRound with
  | none => (none, state)
  | some round =>
    let outcomes := round.helperOutcomes
    if ∀ ip ∈ outcomes.helpers, outcomes.outcome ip = .succeeded then (none, state)
    else if ∃ ip ∈ outcomes.helpers, outcomes.outcome ip = .succeeded then
      state.finalizeUdpRound true completedAt
    else if ∀ ip ∈ outcomes.helpers, outcomes.outcome ip = .requestFailed then
      (none, state.recordUdpCheckInconclusive "all UDP firewall-check TCP requests failed")
    else if (outcomes.ofOutcome .testFailed).card < udpFirewallCheckClientsToAsk then
      (none, state.recordUdpCheckInconclusive
        "UDP firewall-check timed out without enough helper replies")
    else
      finalizeUdpRound
        { state with lastError := some "UDP firewall-check timed out without a positive result" }
        false completedAt

def expireUdpVerificationIfStale (now : DateTime) : Bool × KadFirewallState :=
  if !state.udpVerified then (false, state)
  else
    let tooManyInconclusive :=
      state.udpInconclusiveRounds ≥ udpVerificationInconclusiveRoundLimit
    let tooOld := match state.udpVerifiedAt with
      | none => true
      | some verifiedAt =>
        decide (udpVerificationMaxAgeSecs ≤ (now - verifiedAt).tdiv (wallSeconds 1))
    if !tooManyInconclusive && !tooOld then (false, state)
    else
      (true,
        { state with
          udpVerified := false
          lastError :=
            some (if tooManyInconclusive then
              "Kad UDP verification expired after repeated inconclusive checks"
            else "Kad UDP verification exceeded its maximum age") })

end KadFirewallState

end EmuleBB.Kad
