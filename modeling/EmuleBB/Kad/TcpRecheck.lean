import EmuleBB.Kad.Firewall
import EmuleBB.Lib.Run

/-!
# The Kad TCP recheck

**Two independent helpers.** The code counts acks and authenticates their senders, and does not
compare them: the second ack of one helper counts like the first of another (`one_helper_opens`). A
verdict turns open on the acks of two helpers **exactly when** every ack that counts before the node
reports open comes from an address not yet counted in its round (`open_verdict_two_helpers_iff`).

**Firewalled only after listening.** The driver polls the *reported* verdict for an early exit. In
flight the report is a snapshot of the previous round, so after an open round the next one leaves
its window at the first poll and finds the node firewalled (`firewalled_without_listening`). A round
that begins while the node does not report open listens for its whole window
(`firewalled_only_after_window`).

`probes` and `acks` record what was asked and counted; the code does not keep that.
-/

namespace EmuleBB.Kad

open Peer Run KadFirewallState

/-! ## What the calls do to the verdict -/

namespace KadFirewallState

variable {state : KadFirewallState} {ip : IpAddr} {now : DateTime}

structure SameVerdict (before after : KadFirewallState) : Prop where
  acks : after.tcpOpenAcks = before.tcpOpenAcks
  verdict : after.tcpFirewalledVerdict = before.tcpFirewalledVerdict
  lastState : after.tcpFirewallLastState = before.tcpFirewallLastState
  inFlight : after.activeTcpRound.isSome → before.activeTcpRound.isSome

theorem sameVerdict_probe (startedAt : DateTime) :
    SameVerdict state (state.tryBeginTcpFirewallProbe ip startedAt).2
      ∧ (state.tryBeginTcpFirewallProbe ip startedAt).2.tcpFirewallCheckIps
          = state.tcpFirewallCheckIps := by
  unfold tryBeginTcpFirewallProbe
  cases hround : state.activeTcpRound with
  | none => exact ⟨⟨rfl, rfl, rfl, id⟩, rfl⟩
  | some =>
    dsimp only
    split
    · exact ⟨⟨rfl, rfl, rfl, id⟩, rfl⟩
    · exact ⟨⟨rfl, rfl, rfl, fun _ => by simp [hround]⟩, rfl⟩

theorem sameVerdict_firewalledResponse (reportedIp : IpAddr) :
    SameVerdict state (state.recordFirewalledResponse ip reportedIp now).2
      ∧ (state.recordFirewalledResponse ip reportedIp now).2.tcpFirewallCheckIps
          = state.tcpFirewallCheckIps := by
  unfold recordFirewalledResponse
  cases hround : state.activeTcpRound with
  | none => exact ⟨⟨rfl, rfl, rfl, id⟩, rfl⟩
  | some =>
    dsimp only
    split
    · exact ⟨⟨rfl, rfl, rfl, id⟩, rfl⟩
    · split
      · exact ⟨⟨rfl, rfl, rfl, fun h => by simp at h⟩, rfl⟩
      · exact ⟨⟨rfl, rfl, rfl, fun _ => by simp [hround]⟩, rfl⟩

theorem SameVerdict.trans {a b c : KadFirewallState} (hab : SameVerdict a b)
    (hbc : SameVerdict b c) : SameVerdict a c where
  acks := hbc.acks.trans hab.acks
  verdict := hbc.verdict.trans hab.verdict
  lastState := hbc.lastState.trans hab.lastState
  inFlight := fun h => hab.inFlight (hbc.inFlight h)

structure AckCounted (before after : KadFirewallState) : Prop where
  acks : after.tcpOpenAcks = saturatingSucc before.tcpOpenAcks
  checkIps : after.tcpFirewallCheckIps = before.tcpFirewallCheckIps
  lastState : after.tcpFirewallLastState = before.tcpFirewallLastState
  settled : 2 ≤ after.tcpOpenAcks →
    after.tcpFirewalledVerdict = some false ∧ after.activeTcpRound = none
  unsettled : after.tcpOpenAcks < 2 →
    after.tcpFirewalledVerdict = before.tcpFirewalledVerdict
      ∧ after.activeTcpRound = before.activeTcpRound

theorem recordTcpOpenAck_cases :
    (state.isTcpFirewallCheckIp ip now = false ∧ state.recordTcpOpenAck ip now = (false, state))
      ∨ (state.isTcpFirewallCheckIp ip now = true ∧ (state.recordTcpOpenAck ip now).1 = true
          ∧ AckCounted state (state.recordTcpOpenAck ip now).2) := by
  unfold recordTcpOpenAck
  cases hasked : state.isTcpFirewallCheckIp ip now with
  | false => exact .inl ⟨rfl, rfl⟩
  | true =>
    refine .inr ⟨rfl, ?_⟩
    by_cases hsettles : saturatingSucc state.tcpOpenAcks ≥ tcpFirewallOpenThreshold
    · rw [Bool.not_true]
      rw [if_pos hsettles]
      exact ⟨rfl, rfl, rfl, rfl, fun _ => ⟨rfl, rfl⟩, fun h => absurd hsettles (Nat.not_le.mpr h)⟩
    · rw [Bool.not_true]
      rw [if_neg hsettles]
      exact ⟨rfl, rfl, rfl, rfl, fun h => absurd h hsettles, fun _ => ⟨rfl, rfl⟩⟩

/-- Two open acks are an open report, whatever else the state says. -/
theorem tcpFirewalled_of_two_acks (h : 2 ≤ state.tcpOpenAcks) : state.tcpFirewalled = some false :=
  if_pos h

theorem tcpFirewalled_of_few_acks (h : state.tcpOpenAcks < 2) : state.tcpFirewalled =
      if state.activeTcpRound.isSome then
        state.tcpFirewalledVerdict.map fun _ => state.tcpFirewallLastState
      else state.tcpFirewalledVerdict :=
  if_neg (Nat.not_le.mpr h)

/-- An ack that is not the second leaves the report as it was. -/
theorem AckCounted.report {before after : KadFirewallState} (h : AckCounted before after)
    (hfew : after.tcpOpenAcks < 2) : after.tcpFirewalled = before.tcpFirewalled := by
  have hbefore : before.tcpOpenAcks < 2 := by
    have hacks := h.acks
    unfold saturatingSucc at hacks
    omega
  obtain ⟨hverdict, hround⟩ := h.unsettled hfew
  rw [tcpFirewalled_of_few_acks hfew, tcpFirewalled_of_few_acks hbefore, hverdict, hround,
    h.lastState]

end KadFirewallState

/-! ## The calls, with a record of what was asked and counted -/

/-- The calls on the firewall state. -/
inductive RecheckCall
  | begin (startedAt : DateTime)
  | probe (helperIp : IpAddr) (startedAt probedAt : DateTime)
  | probeFailed (helperIp : IpAddr) (error : String)
  | openAck (ip : IpAddr) (now : DateTime)
  | firewalledRes (helperIp reportedIp : IpAddr) (now : DateTime)
  | finish (completedAt : DateTime)

/-- The firewall state, and what was asked and counted. -/
structure Recheck where
  firewall : KadFirewallState
  /-- Every helper asked, with the time of the request. -/
  probes : List (IpAddr × DateTime)
  /-- Every ack counted since the last call that started a round, the latest first. -/
  acks : List (IpAddr × DateTime)

namespace Recheck

def init : Recheck := ⟨.init, [], []⟩

def report (recheck : Recheck) : Option Bool := recheck.firewall.tcpFirewalled

def call (recheck : Recheck) : RecheckCall → Recheck
  | .begin startedAt =>
    { recheck with
      firewall := recheck.firewall.beginTcpRecheck startedAt
      acks := if recheck.firewall.activeTcpRound.isSome then recheck.acks else [] }
  | .probe helperIp startedAt probedAt =>
    let probe := recheck.firewall.tryBeginTcpFirewallProbe helperIp startedAt
    if probe.1 then
      { recheck with
        firewall := probe.2.addTcpFirewallCheckIp helperIp probedAt
        probes := (helperIp, probedAt) :: recheck.probes }
    else { recheck with firewall := probe.2 }
  | .probeFailed helperIp error =>
    { recheck with firewall := recheck.firewall.recordTcpFirewallProbeFailed helperIp error }
  | .openAck ip now =>
    -- the TCP acknowledgement and the older UDP one are the same call
    let ack := recheck.firewall.recordTcpOpenAck ip now
    { recheck with
      firewall := ack.2
      acks := if ack.1 then (ip, now) :: recheck.acks else recheck.acks }
  | .firewalledRes helperIp reportedIp now =>
    -- the packet handler drops a reply that was not asked for
    if !recheck.firewall.isTcpFirewallCheckIp helperIp now then recheck
    else
      { recheck with
        firewall := (recheck.firewall.recordFirewalledResponse helperIp reportedIp now).2 }
  | .finish completedAt =>
    { recheck with firewall := recheck.firewall.finishTcpRecheck completedAt }

def FreshlyProbed (recheck : Recheck) (ack : IpAddr × DateTime) : Prop :=
  ∃ probedAt, (ack.1, probedAt) ∈ recheck.probes ∧ ack.2 - probedAt < wallSeconds 180

/-! ## The books agree with the code's counter -/

structure Accounted (recheck : Recheck) : Prop where
  counted : recheck.firewall.tcpOpenAcks = min recheck.acks.length 255
  probed : ∀ ip probedAt, recheck.firewall.tcpFirewallCheckIps ip = some probedAt →
    (ip, probedAt) ∈ recheck.probes
  fresh : ∀ ack ∈ recheck.acks, recheck.FreshlyProbed ack

variable {recheck : Recheck} {ip : IpAddr} {now : DateTime}

theorem accounted_init : Accounted init :=
  ⟨rfl, fun _ _ h => by simp [init, KadFirewallState.init] at h,
    fun _ h => absurd h (by simp [init])⟩

section

variable (h : Accounted recheck)

include h

theorem Accounted.of_same {firewall : KadFirewallState}
    (hacks : firewall.tcpOpenAcks = recheck.firewall.tcpOpenAcks)
    (hips : firewall.tcpFirewallCheckIps = recheck.firewall.tcpFirewallCheckIps) :
    Accounted { recheck with firewall } :=
  ⟨hacks.trans h.counted, fun ip t hip => h.probed ip t (by rw [← hips]; exact hip), h.fresh⟩

theorem Accounted.begin (startedAt : DateTime) : Accounted (recheck.call (.begin startedAt)) := by
  show Accounted ⟨recheck.firewall.beginTcpRecheck startedAt, recheck.probes, _⟩
  unfold beginTcpRecheck
  cases hround : recheck.firewall.activeTcpRound.isSome with
  | true => exact h
  | false => exact ⟨rfl, h.probed, fun _ hack => absurd hack (by simp)⟩

theorem Accounted.probe (startedAt probedAt : DateTime) :
    Accounted (recheck.call (.probe ip startedAt probedAt)) := by
  obtain ⟨hsame, hips⟩ :=
    @sameVerdict_probe recheck.firewall ip startedAt
  rw [call]
  split
  · refine ⟨hsame.acks.trans h.counted, ?_, ?_⟩
    · -- the table holds the helper just asked, and of the others those not pruned
      intro other t hother
      by_cases heq : other = ip
      · subst heq
        simp only [addTcpFirewallCheckIp, Function.update_self,
          Option.some.injEq] at hother
        subst hother
        exact List.mem_cons_self
      · simp only [addTcpFirewallCheckIp,
          pruneTcpFirewallCheckIps, Function.update_of_ne heq,
          Option.filter_eq_some_iff] at hother
        exact List.mem_cons_of_mem _ (h.probed other t (by rw [← hips]; exact hother.1))
    · intro ack hack
      obtain ⟨t, ht, hfresh⟩ := h.fresh ack hack
      exact ⟨t, List.mem_cons_of_mem _ ht, hfresh⟩
  · exact h.of_same hsame.acks hips

theorem freshlyProbed_of_asked (hasked : recheck.firewall.isTcpFirewallCheckIp ip now = true) :
    recheck.FreshlyProbed (ip, now) := by
  unfold isTcpFirewallCheckIp at hasked
  cases hip : recheck.firewall.tcpFirewallCheckIps ip with
  | none => simp [hip] at hasked
  | some probedAt =>
    rw [hip] at hasked
    exact ⟨probedAt, h.probed ip probedAt hip, of_decide_eq_true hasked⟩

theorem Accounted.openAck : Accounted (recheck.call (.openAck ip now)) := by
  rw [call]
  rcases @recordTcpOpenAck_cases recheck.firewall ip now with
    ⟨-, hack⟩ | ⟨hasked, hcounted, hack⟩
  · rw [hack]
    exact h
  · rw [hcounted]
    refine ⟨?_, fun other t hother => h.probed other t (by rw [← hack.checkIps]; exact hother), ?_⟩
    · show _ = min (recheck.acks.length + 1) 255
      rw [hack.acks, h.counted]
      unfold saturatingSucc
      omega
    · intro ack hmem
      rcases List.mem_cons.mp hmem with rfl | hmem
      · show recheck.FreshlyProbed (ip, now)
        exact freshlyProbed_of_asked h hasked
      · exact h.fresh ack hmem

/-- **Every call keeps the books.** -/
theorem Accounted.call (c : RecheckCall) : Accounted (recheck.call c) := by
  cases c with
  | begin startedAt => exact h.begin startedAt
  | probe helperIp startedAt probedAt => exact h.probe startedAt probedAt
  | probeFailed => exact h.of_same rfl rfl
  | openAck => exact h.openAck
  | firewalledRes helperIp reportedIp now =>
    rw [Recheck.call]
    split
    · exact h
    · obtain ⟨hsame, hips⟩ :=
        @sameVerdict_firewalledResponse recheck.firewall helperIp now reportedIp
      exact h.of_same hsame.acks hips
  | finish =>
    apply h.of_same
    · unfold finishTcpRecheck
      split_ifs <;> rfl
    · unfold finishTcpRecheck
      split_ifs <;> rfl

end

/-! ## Two independent helpers -/

/-- When an ack turns the report open, two different addresses have acked since the round began,
    each asked less than 180 seconds before its ack. -/
def OpensOnTwoHelpers (recheck : Recheck) (c : RecheckCall) : Prop :=
  ∀ ip now, c = .openAck ip now → recheck.report ≠ some false →
    (recheck.call c).report = some false →
      ∃ first ∈ (recheck.call c).acks, ∃ second ∈ (recheck.call c).acks, first.1 ≠ second.1
        ∧ (recheck.call c).FreshlyProbed first ∧ (recheck.call c).FreshlyProbed second

/-- An ack that counts is the first one of its sender. -/
def FirstOfSender (recheck : Recheck) : RecheckCall → Prop
  | .openAck ip now =>
    recheck.firewall.isTcpFirewallCheckIp ip now = true → recheck.report ≠ some false →
      ∀ ack ∈ recheck.acks, ack.1 ≠ ip
  | _ => True

/-- A node that does not report open has counted at most one ack. -/
theorem Accounted.acks_short (h : Accounted recheck) (hreport : recheck.report ≠ some false) :
    recheck.acks.length ≤ 1 := by
  by_contra hmany
  apply hreport
  apply tcpFirewalled_of_two_acks
  rw [h.counted]
  omega

/-- **The law holds of a call exactly when its ack is the first of its sender.** -/
theorem Accounted.opensOnTwoHelpers_iff (h : Accounted recheck) {c : RecheckCall} :
    recheck.OpensOnTwoHelpers c ↔ recheck.FirstOfSender c := by
  cases c with
  | openAck ip now =>
    rcases @recordTcpOpenAck_cases recheck.firewall ip now with
      ⟨hasked, hack⟩ | ⟨hasked, hcounted, hack⟩
    · -- a refused ack changes no report
      constructor
      · intro _ hyes
        rw [hasked] at hyes
        cases hyes
      · intro _ _ _ _ hreport hopen
        exact absurd (by simpa [Recheck.call, report, hack] using hopen) hreport
    · have hafter : Accounted (recheck.call (.openAck ip now)) := h.openAck
      have hacks : (recheck.call (.openAck ip now)).acks = (ip, now) :: recheck.acks := by
        simp [Recheck.call, hcounted]
      constructor
      · intro hlaw _ hreport ack hmem hsender
        have hpos := List.length_pos_of_mem hmem
        have hshort := h.acks_short hreport
        -- one ack was counted, so this is the second and opens
        have hopen : (recheck.call (.openAck ip now)).report = some false := by
          apply tcpFirewalled_of_two_acks
          rw [hafter.counted, hacks, List.length_cons]
          omega
        obtain ⟨first, hfirst, second, hsecond, hne, -⟩ := hlaw ip now rfl hreport hopen
        rw [hacks] at hfirst hsecond
        obtain ⟨only, honly⟩ := List.length_eq_one_iff.mp (Nat.le_antisymm hshort hpos)
        have hsame : ∀ a ∈ (ip, now) :: recheck.acks, a.1 = ip := by
          simp only [honly, List.mem_singleton] at hmem ⊢
          subst hmem
          simp [hsender]
        exact hne ((hsame first hfirst).trans (hsame second hsecond).symm)
      · intro hfirst ip' now' hcall hreport hopen
        obtain ⟨rfl, rfl⟩ := RecheckCall.openAck.inj hcall
        -- the report changed, so this ack was the second
        have hmany : 2 ≤ (recheck.call (.openAck ip now)).acks.length := by
          by_contra hfew
          apply hreport
          rw [← hopen]
          refine (hack.report ?_).symm
          have := hafter.counted
          simp only [Recheck.call] at this hfew
          omega
        rw [hacks] at hmany
        obtain ⟨ack, hmem⟩ := List.exists_mem_of_length_pos (Nat.lt_of_succ_lt_succ hmany)
        have hin : ack ∈ (recheck.call (.openAck ip now)).acks := by
          rw [hacks]
          exact List.mem_cons_of_mem _ hmem
        have hnew : (ip, now) ∈ (recheck.call (.openAck ip now)).acks := by
          rw [hacks]
          exact List.mem_cons_self
        exact ⟨ack, hin, (ip, now), hnew, hfirst hasked hreport ack hmem,
          hafter.fresh ack hin, hafter.fresh _ hnew⟩
  | _ => exact ⟨fun _ => trivial, fun _ _ _ hcall => by cases hcall⟩

/-- **An open verdict needs two independent helpers exactly when no helper is counted twice.** Over
    every sequence of calls, each ack that turns the report open has two different, freshly asked
    helpers behind it if and only if each ack that counts before the node reports open is the first
    of its sender in its round. -/
theorem open_verdict_two_helpers_iff (calls : List RecheckCall) :
    Along call OpensOnTwoHelpers init calls ↔ Along call FirstOfSender init calls := by
  constructor
  · intro h
    exact h.along
      (fun _ c hbooks hlaw => ⟨hbooks.opensOnTwoHelpers_iff.mp hlaw, hbooks.call c⟩)
      accounted_init
  · intro h
    exact h.along
      (fun _ c hbooks hfirst => ⟨hbooks.opensOnTwoHelpers_iff.mpr hfirst, hbooks.call c⟩)
      accounted_init

def helperAt (last : UInt8) : IpAddr := .v4 ⟨203, 0, 113, last⟩

def oneHelperTwice : List RecheckCall :=
  [.begin 0, .probe (helperAt 20) 0 0, .openAck (helperAt 20) (wallSeconds 1),
    .openAck (helperAt 20) (wallSeconds 2)]

/-- **One helper opens the verdict**: its second ack is the second ack. -/
theorem one_helper_opens : ¬ Along call OpensOnTwoHelpers init oneHelperTwice := by
  intro h
  obtain ⟨-, -, -, hlast, -⟩ := h
  obtain ⟨first, hfirst, second, hsecond, hne, -⟩ :=
    hlast (helperAt 20) (wallSeconds 2) rfl (by decide +kernel) (by decide +kernel)
  have hsame : ∀ ack ∈ (run call init oneHelperTwice).acks, ack.1 = helperAt 20 := by
    decide +kernel
  exact hne ((hsame first hfirst).trans (hsame second hsecond).symm)

end Recheck

open Recheck

/-! ## The driver -/

def kadTcpFirewallCheckResultWait : Duration := seconds 30

def pollInterval : Duration := millis 500

inductive RoundPhase
  | idle
  | asking (helpers : List IpAddr)
  | sending (helper : IpAddr) (rest : List IpAddr)
  /-- The result window opened at an instant, and the loop sleeps until another. -/
  | waiting (opened wakeAt : Instant)
  | finishing (opened : Instant)
  deriving DecidableEq

/-- The loop around the rounds. -/
structure Driver where
  recheck : Recheck
  now : Instant
  phase : RoundPhase

/-- The steps of the loop, and the acks between them. -/
inductive DriverEvent
  | elapse (duration : Duration)
  | beginRound (helpers : List IpAddr) (startedAt : DateTime)
  | ask (startedAt probedAt : DateTime)
  | sent (error : Option String)
  | openWindow
  | poll
  | finish (completedAt : DateTime)
  | openAck (ip : IpAddr) (now : DateTime)
  | firewalledRes (helperIp reportedIp : IpAddr) (now : DateTime)

namespace Driver

def init : Driver := ⟨.init, 0, .idle⟩

def report (driver : Driver) : Option Bool := driver.recheck.report

/-- One step. The firewall state is locked for each call, so acks and replies arrive between any two
    steps of the round; an event that does not fit the phase does nothing. -/
def step (driver : Driver) : DriverEvent → Driver
  | .elapse duration => { driver with now := driver.now + duration }
  | .beginRound helpers startedAt =>
    match driver.phase with
    | .idle =>
      -- no eligible helper: the round is skipped
      if helpers = [] then driver
      else
        { driver with
          recheck := driver.recheck.call (.begin startedAt)
          phase := .asking helpers }
    | _ => driver
  | .ask startedAt probedAt =>
    match driver.phase with
    | .asking (helper :: rest) =>
      { driver with
        recheck := driver.recheck.call (.probe helper startedAt probedAt)
        phase :=
          if (driver.recheck.firewall.tryBeginTcpFirewallProbe helper startedAt).1 then
            .sending helper rest
          else .asking rest }
    | _ => driver
  | .sent error =>
    match driver.phase with
    | .sending helper rest =>
      { driver with
        recheck := match error with
          | none => driver.recheck
          | some error => driver.recheck.call (.probeFailed helper error)
        phase := .asking rest }
    | _ => driver
  | .openWindow =>
    match driver.phase with
    | .asking [] => { driver with phase := .waiting driver.now driver.now }
    | _ => driver
  | .poll =>
    match driver.phase with
    | .waiting opened wakeAt =>
      if driver.now < wakeAt then driver
      else if driver.now < opened + kadTcpFirewallCheckResultWait then
        if driver.report = some false then { driver with phase := .finishing opened }
        else { driver with phase := .waiting opened (driver.now + pollInterval) }
      else { driver with phase := .finishing opened }
    | _ => driver
  | .finish completedAt =>
    match driver.phase with
    | .finishing _ =>
      { driver with recheck := driver.recheck.call (.finish completedAt), phase := .idle }
    | _ => driver
  | .openAck ip now => { driver with recheck := driver.recheck.call (.openAck ip now) }
  | .firewalledRes helperIp reportedIp now =>
    { driver with recheck := driver.recheck.call (.firewalledRes helperIp reportedIp now) }

/-- The round's window has passed, and fewer than two acks were counted since the round began. -/
def WindowPassed (driver : Driver) : Prop :=
  ∃ opened, driver.phase = .finishing opened
    ∧ opened + kadTcpFirewallCheckResultWait ≤ driver.now ∧ driver.recheck.acks.length < 2

/-- The report turns firewalled only in a finish after the window, and an open report is given up
    only then. -/
def ListensFirst (driver : Driver) (e : DriverEvent) : Prop :=
  (driver.report ≠ some true → (driver.step e).report = some true →
      (∃ completedAt, e = .finish completedAt) ∧ driver.WindowPassed)
    ∧ (driver.report = some false → (driver.step e).report ≠ some false → driver.WindowPassed)

/-- No round begins while the port is reported open. -/
def BeginsNotOpen (driver : Driver) : DriverEvent → Prop
  | .beginRound _ _ => driver.phase = .idle → driver.report ≠ some false
  | _ => True

/-- A condition on what a round begins with can be tested. -/
instance (driver : Driver) : (e : DriverEvent) → Decidable (driver.BeginsNotOpen e)
  | .beginRound _ _ =>
    inferInstanceAs (Decidable (driver.phase = .idle → driver.report ≠ some false))
  | .elapse _ | .ask _ _ | .sent _ | .openWindow | .poll | .finish _ | .openAck _ _
  | .firewalledRes _ _ _ => .isTrue trivial

/-! ## A round listens for its whole window -/

/-- How the verdict stands while rounds begin only from a report that is not open: **an open verdict
    is two acks**, and the snapshot of a round in flight says firewalled. -/
structure Settled (firewall : KadFirewallState) : Prop where
  openIff : firewall.tcpFirewalledVerdict = some false ↔ 2 ≤ firewall.tcpOpenAcks
  ended : 2 ≤ firewall.tcpOpenAcks → firewall.activeTcpRound = none
  snapshot : firewall.activeTcpRound.isSome → firewall.tcpFirewallLastState = true

variable {firewall firewall' : KadFirewallState} {driver : Driver} {recheck : Recheck}
  {c : RecheckCall} {e : DriverEvent}

section

variable (h : Settled firewall)

include h

/-- **Then the report is the stored verdict**, in flight or not. -/
theorem Settled.report_eq : firewall.tcpFirewalled = firewall.tcpFirewalledVerdict := by
  by_cases hacks : 2 ≤ firewall.tcpOpenAcks
  · rw [tcpFirewalled_of_two_acks hacks, h.openIff.mpr hacks]
  · rw [tcpFirewalled_of_few_acks (Nat.not_le.mp hacks)]
    split
    · rename_i hround
      have hclosed : firewall.tcpFirewalledVerdict ≠ some false := mt h.openIff.mp hacks
      rw [h.snapshot hround]
      revert hclosed
      rcases firewall.tcpFirewalledVerdict with _ | ⟨⟨⟩⟩ <;> simp
    · rfl

theorem Settled.of_same (hsame : firewall.SameVerdict firewall') : Settled firewall' where
  openIff := by rw [hsame.verdict, hsame.acks]; exact h.openIff
  ended := by
    intro hacks
    rw [hsame.acks] at hacks
    have hbefore := h.ended hacks
    by_contra hround
    have := hsame.inFlight (Option.isSome_iff_ne_none.mpr hround)
    simp [hbefore] at this
  snapshot := by
    intro hround
    rw [hsame.lastState]
    exact h.snapshot (hsame.inFlight hround)

theorem Settled.begin (hclosed : firewall.tcpFirewalled ≠ some false)
    (startedAt : DateTime) : Settled (firewall.beginTcpRecheck startedAt) := by
  unfold beginTcpRecheck
  split
  · exact h
  · rw [h.report_eq] at hclosed
    have hfew : firewall.tcpOpenAcks < 2 := Nat.not_le.mp (mt h.openIff.mpr hclosed)
    exact ⟨⟨fun hopen => absurd hopen hclosed, fun hmany => absurd hmany (by simp)⟩,
      fun hmany => absurd hmany (by simp), fun _ => decide_eq_true hfew⟩

theorem Settled.counted (hack : firewall.AckCounted firewall') : Settled firewall' := by
  by_cases hmany : 2 ≤ firewall'.tcpOpenAcks
  · obtain ⟨hverdict, hround⟩ := hack.settled hmany
    exact ⟨⟨fun _ => hmany, fun _ => hverdict⟩, fun _ => hround, fun h => by simp [hround] at h⟩
  · obtain ⟨hverdict, hround⟩ := hack.unsettled (Nat.not_le.mp hmany)
    have hfew : ¬ 2 ≤ firewall.tcpOpenAcks := by
      have := hack.acks
      unfold saturatingSucc at this
      omega
    refine ⟨⟨fun hopen => absurd (h.openIff.mp (hverdict ▸ hopen)) hfew, fun h => absurd h hmany⟩,
      fun h => absurd h hmany, fun hin => ?_⟩
    rw [hack.lastState]
    exact h.snapshot (hround ▸ hin)

end

theorem finish_cases (completedAt : DateTime) : firewall.finishTcpRecheck completedAt = firewall ∨
      (firewall.tcpOpenAcks < 2 ∧ (firewall.finishTcpRecheck completedAt).activeTcpRound = none
        ∧ (firewall.finishTcpRecheck completedAt).tcpFirewalledVerdict = some true
        ∧ (firewall.finishTcpRecheck completedAt).tcpOpenAcks = firewall.tcpOpenAcks) := by
  unfold finishTcpRecheck
  split
  · exact .inl rfl
  · rename_i hfew
    split
    · exact .inl rfl
    · exact .inr ⟨Nat.not_le.mp hfew, rfl, rfl, rfl⟩

theorem Settled.finish (h : Settled firewall) (completedAt : DateTime) :
    Settled (firewall.finishTcpRecheck completedAt) := by
  rcases @finish_cases firewall completedAt with heq | ⟨hfew, hround, hverdict, hacks⟩
  · rw [heq]
    exact h
  · refine ⟨?_, ?_, ?_⟩
    · rw [hverdict, hacks]
      exact ⟨fun h => by simp at h, fun h => absurd h (Nat.not_le.mpr hfew)⟩
    · exact fun _ => hround
    · intro hin
      rw [hround] at hin
      simp at hin

/-! ### The calls -/

/-- A call after which the verdict half is as before, or has counted an ack: it does not begin a
    round and does not finish one. -/
theorem inbound_or_probe (hbegin : ∀ t, c ≠ .begin t)
    (hfinish : ∀ t, c ≠ .finish t) : recheck.firewall.SameVerdict (recheck.call c).firewall
      ∨ recheck.firewall.AckCounted (recheck.call c).firewall := by
  cases c with
  | begin t => exact absurd rfl (hbegin t)
  | finish t => exact absurd rfl (hfinish t)
  | probe helperIp startedAt =>
    have hsame := (@sameVerdict_probe recheck.firewall helperIp startedAt).1
    rw [call]
    split
    · exact .inl (hsame.trans ⟨rfl, rfl, rfl, id⟩)
    · exact .inl hsame
  | probeFailed helperIp error =>
    exact .inl ⟨rfl, rfl, rfl, by simp [call, recordTcpFirewallProbeFailed]⟩
  | openAck ip now =>
    rcases @recordTcpOpenAck_cases recheck.firewall ip now with
      ⟨-, hack⟩ | ⟨-, -, hack⟩
    · left
      rw [call, hack]
      exact ⟨rfl, rfl, rfl, id⟩
    · exact .inr hack
  | firewalledRes helperIp reportedIp =>
    rw [call]
    split
    · exact .inl ⟨rfl, rfl, rfl, id⟩
    · exact .inl (sameVerdict_firewalledResponse reportedIp).1

theorem Settled.inbound (h : Settled recheck.firewall) (hbegin : ∀ t, c ≠ .begin t)
    (hfinish : ∀ t, c ≠ .finish t) : Settled (recheck.call c).firewall
      ∧ (2 ≤ recheck.firewall.tcpOpenAcks → 2 ≤ (recheck.call c).firewall.tcpOpenAcks)
      ∧ ((recheck.call c).firewall.tcpFirewalledVerdict = recheck.firewall.tcpFirewalledVerdict
          ∨ (recheck.call c).firewall.tcpFirewalledVerdict = some false) := by
  rcases inbound_or_probe hbegin hfinish with hsame | hack
  · exact ⟨h.of_same hsame, fun hmany => hsame.acks.symm ▸ hmany, .inl hsame.verdict⟩
  · refine ⟨h.counted hack, ?_, ?_⟩
    · intro hmany
      rw [hack.acks]
      unfold saturatingSucc
      omega
    · by_cases hmany : 2 ≤ (recheck.call c).firewall.tcpOpenAcks
      · exact .inr (hack.settled hmany).1
      · exact .inl (hack.unsettled (Nat.not_le.mp hmany)).1

/-! ### The steps -/

/-- The invariant of a run whose rounds begin while the node does not report open. **A round on its
    way to finish has sat out its window or has its two acks.** -/
structure Listening (driver : Driver) : Prop where
  accounted : driver.recheck.Accounted
  settled : Settled driver.recheck.firewall
  window : ∀ opened, driver.phase = .finishing opened →
    opened + kadTcpFirewallCheckResultWait ≤ driver.now
      ∨ 2 ≤ driver.recheck.firewall.tcpOpenAcks

theorem listening_init : Listening init :=
  ⟨accounted_init, ⟨by decide, fun h => absurd h (by decide), fun h => absurd h (by decide)⟩,
    fun _ h => by simp [init] at h⟩

/-- What one step comes to: the invariant is kept, and the stored verdict stays, turns open, or is
    settled by a finish after the window. -/
def Sound (driver : Driver) (e : DriverEvent) : Prop :=
  Listening (driver.step e)
    ∧ ((driver.step e).recheck.firewall.tcpFirewalledVerdict
          = driver.recheck.firewall.tcpFirewalledVerdict
        ∨ (driver.step e).recheck.firewall.tcpFirewalledVerdict = some false
        ∨ ((∃ completedAt, e = .finish completedAt) ∧ driver.WindowPassed))

section

variable (h : Listening driver)

include h

theorem Listening.sound_of_recheck (hrecheck : (driver.step e).recheck = driver.recheck)
    (hwindow : ∀ opened, (driver.step e).phase = .finishing opened →
      opened + kadTcpFirewallCheckResultWait ≤ (driver.step e).now
        ∨ 2 ≤ driver.recheck.firewall.tcpOpenAcks) : driver.Sound e := by
  refine ⟨⟨?_, ?_, ?_⟩, .inl (by rw [hrecheck])⟩
  · rw [hrecheck]
    exact h.accounted
  · rw [hrecheck]
    exact h.settled
  · rw [hrecheck]
    exact hwindow

theorem Listening.sound_of_eq (heq : driver.step e = driver) : driver.Sound e := by
  apply h.sound_of_recheck
  · rw [heq]
  · rw [heq]
    exact h.window

theorem Listening.sound_of_call (hbegin : ∀ t, c ≠ .begin t)
    (hfinish : ∀ t, c ≠ .finish t) (hrecheck : (driver.step e).recheck = driver.recheck.call c)
    (hnow : (driver.step e).now = driver.now)
    (hphase : ∀ opened, (driver.step e).phase = .finishing opened →
      driver.phase = .finishing opened) : driver.Sound e := by
  obtain ⟨hsettled, hacks, hverdict⟩ := h.settled.inbound hbegin hfinish
  refine ⟨⟨?_, ?_, ?_⟩, ?_⟩
  · rw [hrecheck]
    exact h.accounted.call c
  · rw [hrecheck]
    exact hsettled
  · intro opened hopened
    rw [hrecheck, hnow]
    exact (h.window opened (hphase opened hopened)).imp_right hacks
  · rw [hrecheck]
    exact hverdict.imp_right .inl

theorem Listening.beginRound (helpers : List IpAddr) (startedAt : DateTime)
    (hclosed : driver.phase = .idle → driver.report ≠ some false) :
    driver.Sound (.beginRound helpers startedAt) := by
  cases hphase : driver.phase with
  | idle =>
    by_cases hnone : helpers = []
    · exact h.sound_of_eq (by simp [step, hphase, hnone])
    · have hstep : driver.step (.beginRound helpers startedAt) =
          ⟨driver.recheck.call (.begin startedAt), driver.now, .asking helpers⟩ := by
        simp [step, hphase, hnone]
      rw [Sound, hstep]
      refine ⟨⟨h.accounted.call (.begin startedAt), h.settled.begin (hclosed hphase) startedAt,
        nofun⟩, .inl ?_⟩
      show (driver.recheck.firewall.beginTcpRecheck startedAt).tcpFirewalledVerdict = _
      unfold beginTcpRecheck
      split <;> rfl
  | _ => exact h.sound_of_eq (by simp [step, hphase])

theorem Listening.poll : driver.Sound .poll := by
  cases hphase : driver.phase with
  | waiting =>
    apply h.sound_of_recheck
    · simp only [step, hphase]
      split_ifs <;> rfl
    · intro opened' hfinishing
      simp only [step, hphase] at hfinishing ⊢
      split_ifs at hfinishing ⊢ with hsleeping hbefore hopen
      · rw [hphase] at hfinishing
        cases hfinishing
      · -- the poll sees an open report: settled, so two acks
        exact .inr (h.settled.openIff.mp (h.settled.report_eq ▸ hopen))
      · cases hfinishing
        exact .inl (Nat.not_lt.mp hbefore)
  | _ => exact h.sound_of_eq (by simp [step, hphase])

theorem Listening.finish (completedAt : DateTime) : driver.Sound (.finish completedAt) := by
  cases hphase : driver.phase with
  | finishing opened =>
    have hstep : driver.step (.finish completedAt) =
        ⟨driver.recheck.call (.finish completedAt), driver.now, .idle⟩ := by
      simp [step, hphase]
    rw [Sound, hstep]
    refine ⟨⟨h.accounted.call (.finish completedAt), h.settled.finish completedAt, nofun⟩, ?_⟩
    rcases @finish_cases driver.recheck.firewall completedAt with heq | ⟨hfew, -⟩
    · left
      show (driver.recheck.firewall.finishTcpRecheck completedAt).tcpFirewalledVerdict = _
      rw [heq]
    · right
      right
      have hcounted := h.accounted.counted
      refine ⟨⟨completedAt, rfl⟩, opened, hphase, ?_, by omega⟩
      exact (h.window opened hphase).resolve_right (Nat.not_le.mpr hfew)
  | _ => exact h.sound_of_eq (by simp [step, hphase])

/-- **Every step of such a run is sound.** -/
theorem Listening.sound (e : DriverEvent) (hguard : driver.BeginsNotOpen e) : driver.Sound e := by
  cases e with
  | elapse =>
    apply h.sound_of_recheck rfl
    intro opened hopened
    exact (h.window opened hopened).imp_left fun hle => Nat.le_trans hle (Nat.le_add_right _ _)
  | beginRound helpers startedAt => exact h.beginRound helpers startedAt hguard
  | ask startedAt probedAt =>
    rcases hphase : driver.phase with _ | ⟨_ | ⟨helper, rest⟩⟩ | _ | _ | _
    case asking.cons =>
      apply h.sound_of_call (c := .probe helper startedAt probedAt) nofun nofun
      · simp [step, hphase]
      · simp [step, hphase]
      · intro opened hopened
        simp only [step, hphase] at hopened
        split at hopened <;> cases hopened
    all_goals exact h.sound_of_eq (by simp [step, hphase])
  | sent error =>
    cases hphase : driver.phase with
    | sending helper =>
      cases error with
      | none =>
        apply h.sound_of_recheck
        · simp [step, hphase]
        · simp [step, hphase]
      | some error =>
        apply h.sound_of_call (c := .probeFailed helper error) nofun nofun
        · simp [step, hphase]
        · simp [step, hphase]
        · simp [step, hphase]
    | _ => exact h.sound_of_eq (by simp [step, hphase])
  | openWindow =>
    rcases hphase : driver.phase with _ | ⟨_ | ⟨helper, rest⟩⟩ | _ | _ | _
    case asking.nil =>
      apply h.sound_of_recheck
      · simp [step, hphase]
      · simp [step, hphase]
    all_goals exact h.sound_of_eq (by simp [step, hphase])
  | poll => exact h.poll
  | finish completedAt => exact h.finish completedAt
  | openAck ip now =>
    exact h.sound_of_call (c := .openAck ip now) nofun nofun rfl rfl fun _ hopened => hopened
  | firewalledRes helperIp reportedIp now =>
    exact h.sound_of_call (c := .firewalledRes helperIp reportedIp now) nofun nofun rfl rfl
      fun _ hopened => hopened

/-- A sound step listens first, since the report is the stored verdict on both sides of it. -/
theorem Listening.listensFirst (hsound : driver.Sound e) : driver.ListensFirst e := by
  obtain ⟨hnext, hverdict⟩ := hsound
  have hbefore : driver.report = driver.recheck.firewall.tcpFirewalledVerdict :=
    h.settled.report_eq
  have hafter : (driver.step e).report = (driver.step e).recheck.firewall.tcpFirewalledVerdict :=
    hnext.settled.report_eq
  rw [ListensFirst, hbefore, hafter]
  rcases hverdict with hsame | hopen | hpassed
  · rw [hsame]
    exact ⟨fun hne heq => absurd heq hne, fun heq hne => absurd heq hne⟩
  · rw [hopen]
    exact ⟨fun _ heq => by simp at heq, fun _ hne => absurd rfl hne⟩
  · exact ⟨fun _ _ => hpassed, fun _ _ => hpassed.2⟩

end

/-- **A recheck says firewalled only after listening**, as long as no round begins while the node
    reports open: in every run of rounds, probes, acks, replies and polls, the report turns
    firewalled only when a round finishes after its whole window with fewer than two acks, and an
    open report is not given up before that. -/
theorem firewalled_only_after_window (events : List DriverEvent)
    (h : Along step BeginsNotOpen init events) : Along step ListensFirst init events :=
  h.along
    (fun _ e hlistening hguard =>
      have hsound := hlistening.sound e hguard
      ⟨hlistening.listensFirst hsound, hsound.1⟩)
    listening_init

def askTwo (startedAt : DateTime) : List DriverEvent :=
  [.beginRound [helperAt 20, helperAt 21] startedAt, .ask startedAt startedAt,
    .sent none, .ask startedAt startedAt, .sent none, .openWindow]

def silentRound : List DriverEvent :=
  askTwo 0 ++ [.poll, .elapse (seconds 30), .poll, .finish (wallSeconds 30)]

/-- The silent round runs along the condition and ends firewalled. -/
theorem firewalled_only_after_window_silent :
    Along step BeginsNotOpen init silentRound ∧ (run step init silentRound).report = some true
      ∧ Along step ListensFirst init silentRound :=
  ⟨by decide +kernel, by decide +kernel,
    firewalled_only_after_window silentRound (by decide +kernel)⟩

def openThenRecheck : List DriverEvent :=
  askTwo 0 ++ [.openAck (helperAt 20) 1, .openAck (helperAt 21) 2, .poll,
    .finish (wallSeconds 1)] ++ askTwo (wallSeconds 3600) ++ [.poll]

/-- **Firewalled without listening**: the first poll of the round after an open one takes the
    snapshot for a new open verdict, and the finish, in the instant the window opened, turns the
    report from open to firewalled. -/
theorem firewalled_without_listening :
    ¬ Along step ListensFirst init (openThenRecheck ++ [.finish (wallSeconds 3600)]) := by
  intro h
  obtain ⟨-, hlast, -⟩ := along_append.mp h
  obtain ⟨opened, hphase, hpassed, -⟩ := (hlast.1 (by decide +kernel) (by decide +kernel)).2
  cases hphase
  exact absurd hpassed (by decide +kernel)

end Driver

end EmuleBB.Kad
