import Mathlib.Data.Rat.Defs
import Mathlib.Algebra.Order.Field.Rat
import EmuleBB.Lib.FirstMatch
import EmuleBB.Lib.Run
import EmuleBB.Wire

/-!
# The connection budget of the download coordinator

Every outgoing source connection takes a slot of one shared budget before it dials. The
coordinator keeps **two anonymous counters**, half-open and established; it is told that *a*
connection finished its handshake or that *a* connection closed, never which one. The system
below puts the connections themselves next to the counters.

The sum is always right. The split is not: a close is taken from the established counter whenever
that is not zero, so a dial that fails while another connection is up leaves its half-open slot
behind (`half_open_slot_left_behind`). The split is exact at every point of a run **exactly when**
no connection closes half-open while another is established (`budget_counts_exact_iff`).
-/

namespace EmuleBB.Transfer

/-! ## The coordinator -/

/-- The operations of `f64` that the coordinator uses. **No law of them is assumed**, so what is
    proved holds under the machine's rounding. -/
class F64 (F : Type) extends Add F, Sub F, Mul F, Div F, Max F, Min F, LT F, NatCast F,
    OfScientific F where
  decidableLT : DecidableLT F

attribute [reducible, instance] F64.decidableLT

/-- The limits of the connections, from the settings. -/
structure DownloadCoordinatorConfig where
  maxConnections : Nat
  maxConnectionsPerWindow : Nat
  connectionWindow : Duration
  maxHalfOpenConnections : Nat
  deriving DecidableEq

def connectionAverageSampleInterval : Duration := seconds 1

/-- The connections of the moment and of the window, and their average number. -/
structure DownloadCoordinator (F : Type) where
  config : DownloadCoordinatorConfig
  halfOpenConnections : Nat
  establishedConnections : Nat
  /-- When the connections of the current window were granted, oldest first. -/
  recentConnectionGrants : List Instant
  averageConnections : F
  connectionAverageSamples : Nat
  lastConnectionAverageSampleAt : Option Instant

namespace DownloadCoordinator

variable {F : Type}

section

variable (c : DownloadCoordinator F)

def setConfig (config : DownloadCoordinatorConfig) : DownloadCoordinator F :=
  { c with config := config }

def activeConnections : Nat :=
  c.halfOpenConnections + c.establishedConnections

def expireConnectionWindow (now : Instant) : DownloadCoordinator F :=
  { c with
    recentConnectionGrants :=
      c.recentConnectionGrants.dropWhile fun front => c.config.connectionWindow ≤ now - front }

def markConnectionEstablished : DownloadCoordinator F :=
  if 0 < c.halfOpenConnections then
    { c with
      halfOpenConnections := c.halfOpenConnections - 1
      establishedConnections := c.establishedConnections + 1 }
  else c

/-- The established bucket goes first, whichever kind of connection closed. -/
def releaseConnection : DownloadCoordinator F :=
  if 0 < c.establishedConnections then
    { c with establishedConnections := c.establishedConnections - 1 }
  else { c with halfOpenConnections := c.halfOpenConnections - 1 }

def concurrentCapReached : Bool :=
  c.config.maxConnections ≠ 0 && c.config.maxConnections ≤ c.activeConnections

def halfOpenCapReached : Bool :=
  c.config.maxHalfOpenConnections ≠ 0 && c.config.maxHalfOpenConnections ≤ c.halfOpenConnections

end

variable [F64 F]

def new (config : DownloadCoordinatorConfig) : DownloadCoordinator F where
  config := config
  halfOpenConnections := 0
  establishedConnections := 0
  recentConnectionGrants := []
  averageConnections := 0.0
  connectionAverageSamples := 0
  lastConnectionAverageSampleAt := none

section

variable (c : DownloadCoordinator F)

def sampleConnectionAverage (now : Instant) : DownloadCoordinator F :=
  if c.lastConnectionAverageSampleAt.any fun last =>
      now - last < connectionAverageSampleInterval then c
  else
    let samples := saturatingAdd c.connectionAverageSamples 1
    let weight : F := min (((samples : F) - 1.0) / (samples : F)) 0.99
    { c with
      connectionAverageSamples := samples
      averageConnections :=
        max (c.averageConnections * weight + (c.activeConnections : F) * (1.0 - weight)) 0.001
      lastConnectionAverageSampleAt := some now }

def effectiveConnectionWindowLimit : F :=
  let configured : F := c.config.maxConnectionsPerWindow
  let spikeSize : F := max ((c.activeConnections : F) - c.averageConnections) 1.0
  let spikeTolerance : F := 25.0 * configured / 10.0
  let modifier : F := if spikeTolerance < spikeSize then 0.0 else 1.0 - spikeSize / spikeTolerance
  configured * modifier

def windowCapReached : Bool :=
  c.config.maxConnectionsPerWindow ≠ 0 &&
    c.effectiveConnectionWindowLimit < (c.recentConnectionGrants.length : F)

/-- What an admission attempt brings up to date before it decides. -/
def refreshed (now : Instant) : DownloadCoordinator F :=
  (c.expireConnectionWindow now).sampleConnectionAverage now

/-- A connection is granted below all its limits. -/
def tryAcquireConnection (now : Instant) : DownloadCoordinator F × Bool :=
  let c := c.refreshed now
  if c.concurrentCapReached then (c, false)
  else if c.windowCapReached then (c, false)
  else if c.halfOpenCapReached then (c, false)
  else
    ({ c with
        halfOpenConnections := c.halfOpenConnections + 1
        recentConnectionGrants := c.recentConnectionGrants ++ [now] }, true)

end

end DownloadCoordinator

open DownloadCoordinator FirstMatch

/-! ## The connections the counters are about -/

/-- A connection that was granted and is not closed. -/
structure SourceConnection where
  id : Nat
  /-- The TCP connect and the hello handshake are complete. -/
  handshaked : Bool
  deriving DecidableEq

/-- The coordinator and the connections that hold a slot of it. A permit is linear: it is taken by
    a granted dial and given back by the close of that connection. -/
structure ConnectionBudget (F : Type) where
  coordinator : DownloadCoordinator F
  live : List SourceConnection
  /-- The next connection to be granted gets this number. -/
  nextId : Nat

/-- What becomes of connections. -/
inductive BudgetEvent where
  | dial (now : Instant)
  | handshake (id : Nat)
  | close (id : Nat)
  | setConfig (config : DownloadCoordinatorConfig)

namespace ConnectionBudget

variable {F : Type}

def lookup (s : ConnectionBudget F) (id : Nat) : Option SourceConnection :=
  s.live.find? (·.id == id)

def inFlight (s : ConnectionBudget F) : Nat := s.live.countP fun c => !c.handshaked

def handshaked (s : ConnectionBudget F) : Nat := s.live.countP (·.handshaked)

variable [F64 F] {s : ConnectionBudget F}

def new (config : DownloadCoordinatorConfig) : ConnectionBudget F where
  coordinator := .new config
  live := []
  nextId := 0

def step (s : ConnectionBudget F) : BudgetEvent → ConnectionBudget F
  | .dial now =>
    match s.coordinator.tryAcquireConnection now with
    | (coordinator, true) =>
      { s with
        coordinator := coordinator
        live := ⟨s.nextId, false⟩ :: s.live
        nextId := s.nextId + 1 }
    | (coordinator, false) => { s with coordinator := coordinator }
  | .handshake id =>
    match s.lookup id with
    | some ⟨_, false⟩ =>
      { s with
        coordinator := s.coordinator.markConnectionEstablished
        live := modifyFirst (·.id == id) (fun c => { c with handshaked := true }) s.live }
    | _ => s
  | .close id =>
    match s.lookup id with
    | some _ =>
      { s with
        coordinator := s.coordinator.releaseConnection
        live := s.live.eraseP (·.id == id) }
    | none => s
  | .setConfig config => { s with coordinator := s.coordinator.setConfig config }

def RefusedByHalfOpenCap (s : ConnectionBudget F) (now : Instant) : Prop :=
  (s.coordinator.tryAcquireConnection now).2 = false ∧
    (s.coordinator.refreshed now).concurrentCapReached = false ∧
    (s.coordinator.refreshed now).windowCapReached = false

/-- **The counters say the truth**, and the half-open cap acts on it. -/
structure Exact (s : ConnectionBudget F) : Prop where
  active : s.coordinator.activeConnections = s.live.length
  halfOpen : s.coordinator.halfOpenConnections = s.inFlight
  cap : ∀ now, s.RefusedByHalfOpenCap now →
    s.coordinator.config.maxHalfOpenConnections ≤ s.inFlight

/-- **Nothing fails to connect beside an established connection**: the event does not close a
    half-open connection while another live connection has completed its handshake. -/
def ClosesCleanly (s : ConnectionBudget F) (event : BudgetEvent) : Prop :=
  ∀ id, event = .close id → (s.lookup id).map (·.handshaked) = some false → s.handshaked = 0

/-! ## What the calls do to the counters -/

theorem refreshed_counts (c : DownloadCoordinator F) (now : Instant) :
    (c.refreshed now).halfOpenConnections = c.halfOpenConnections ∧
      (c.refreshed now).establishedConnections = c.establishedConnections ∧
      (c.refreshed now).config = c.config := by
  unfold refreshed sampleConnectionAverage
  split <;> exact ⟨rfl, rfl, rfl⟩

/-- A granted dial adds one half-open connection; a refused one counts nothing. -/
theorem tryAcquireConnection_counts (c : DownloadCoordinator F) (now : Instant) :
    (c.tryAcquireConnection now).1.halfOpenConnections =
        c.halfOpenConnections + (c.tryAcquireConnection now).2.toNat ∧
      (c.tryAcquireConnection now).1.establishedConnections = c.establishedConnections := by
  obtain ⟨hhalf, hest, -⟩ := refreshed_counts c now
  unfold tryAcquireConnection
  dsimp only
  split_ifs <;> simp [hhalf, hest]

theorem RefusedByHalfOpenCap.reached {now : Instant} (h : s.RefusedByHalfOpenCap now) :
    s.coordinator.config.maxHalfOpenConnections ≤ s.coordinator.halfOpenConnections := by
  obtain ⟨hrefused, hconcurrent, hwindow⟩ := h
  obtain ⟨hhalf, -, hconfig⟩ := refreshed_counts s.coordinator now
  have hcap : (s.coordinator.refreshed now).halfOpenCapReached = true := by
    by_contra hcap
    simp [tryAcquireConnection, hconcurrent, hwindow, hcap] at hrefused
  simp only [halfOpenCapReached, Bool.and_eq_true, decide_eq_true_eq, hhalf,
    hconfig] at hcap
  exact hcap.2

theorem exact_iff :
    s.Exact ↔ s.coordinator.activeConnections = s.live.length ∧
      s.coordinator.halfOpenConnections = s.inFlight := by
  refine ⟨fun h => ⟨h.active, h.halfOpen⟩, fun ⟨hactive, hhalf⟩ => ⟨hactive, hhalf, ?_⟩⟩
  intro now hrefused
  exact hhalf ▸ hrefused.reached

omit [F64 F] in
theorem length_live (s : ConnectionBudget F) : s.live.length = s.inFlight + s.handshaked := by
  rw [inFlight, handshaked, List.length_eq_countP_add_countP (fun c => !c.handshaked)]
  simp

/-- **What one event does** to the two counters and to the two kinds of live connections, and what
    the condition asks of it. Only the failed connect is asked anything. -/
inductive Effect (s s' : ConnectionBudget F) (event : BudgetEvent) : Prop
  | idle (clean : s.ClosesCleanly event)
      (half : s'.coordinator.halfOpenConnections = s.coordinator.halfOpenConnections)
      (est : s'.coordinator.establishedConnections = s.coordinator.establishedConnections)
      (flight : s'.inFlight = s.inFlight) (done : s'.handshaked = s.handshaked)
  | granted (clean : s.ClosesCleanly event)
      (half : s'.coordinator.halfOpenConnections = s.coordinator.halfOpenConnections + 1)
      (est : s'.coordinator.establishedConnections = s.coordinator.establishedConnections)
      (flight : s'.inFlight = s.inFlight + 1) (done : s'.handshaked = s.handshaked)
  | connected (clean : s.ClosesCleanly event)
      (calls : s'.coordinator = s.coordinator.markConnectionEstablished)
      (flight : s'.inFlight + 1 = s.inFlight) (done : s'.handshaked = s.handshaked + 1)
  | ended (clean : s.ClosesCleanly event)
      (calls : s'.coordinator = s.coordinator.releaseConnection)
      (flight : s'.inFlight = s.inFlight) (done : s'.handshaked + 1 = s.handshaked)
  | failed (clean : s.ClosesCleanly event ↔ s.handshaked = 0)
      (calls : s'.coordinator = s.coordinator.releaseConnection)
      (flight : s'.inFlight + 1 = s.inFlight) (done : s'.handshaked = s.handshaked)

theorem step_effect (s : ConnectionBudget F) (event : BudgetEvent) :
    Effect s (s.step event) event := by
  cases event with
  | dial now =>
    have hclean : s.ClosesCleanly (.dial now) := nofun
    obtain ⟨hhalf, hest⟩ := tryAcquireConnection_counts s.coordinator now
    rw [step]
    generalize s.coordinator.tryAcquireConnection now = result at hhalf hest
    obtain ⟨coordinator, granted⟩ := result
    cases granted with
    | true =>
      refine .granted hclean hhalf hest ?_ ?_ <;> simp [inFlight, handshaked]
    | false => exact .idle hclean hhalf hest rfl rfl
  | handshake id =>
    have hclean : s.ClosesCleanly (.handshake id) := nofun
    rw [step]
    split
    · rename_i c hfound
      have hflight := countP_modifyFirst
        (f := fun c : SourceConnection => { c with handshaked := true }) (fun c => !c.handshaked)
        hfound
      have hdone := countP_modifyFirst
        (f := fun c : SourceConnection => { c with handshaked := true }) (·.handshaked) hfound
      exact .connected hclean rfl (by simpa [inFlight] using hflight)
        (by simpa [handshaked] using hdone)
    · exact .idle hclean rfl rfl rfl rfl
  | close id =>
    rw [step]
    split
    · rename_i c hfound
      have hflight := countP_eraseP (fun c => !c.handshaked) hfound
      have hdone := countP_eraseP (·.handshaked) hfound
      obtain ⟨cid, _ | _⟩ := c
      · refine .failed ?_ rfl (by simpa [inFlight] using hflight)
          (by simpa [handshaked] using hdone)
        exact ⟨fun h => h id rfl (by rw [hfound]; rfl), fun h _ _ _ => h⟩
      · refine .ended ?_ rfl (by simpa [inFlight] using hflight) (by simpa [handshaked] using hdone)
        rintro _ ⟨⟩ hhalf
        rw [hfound] at hhalf
        cases hhalf
    · rename_i hfound
      refine .idle ?_ rfl rfl rfl rfl
      rintro _ ⟨⟩ hhalf
      rw [hfound] at hhalf
      cases hhalf
  | setConfig => exact .idle nofun rfl rfl rfl rfl

/-! ## When the counts are exact -/

/-- **The sum is always exact**, and the half-open counter never counts too few. -/
structure Sound (s : ConnectionBudget F) : Prop where
  active : s.coordinator.activeConnections = s.live.length
  atLeast : s.inFlight ≤ s.coordinator.halfOpenConnections

theorem sound_step (s : ConnectionBudget F) (event : BudgetEvent) (h : s.Sound) :
    (s.step event).Sound := by
  obtain ⟨hactive, hleast⟩ := h
  have hlen := s.length_live
  have hlen' := (s.step event).length_live
  unfold activeConnections at hactive
  suffices h : (s.step event).coordinator.activeConnections = (s.step event).live.length ∧
      (s.step event).inFlight ≤ (s.step event).coordinator.halfOpenConnections from ⟨h.1, h.2⟩
  unfold activeConnections
  cases step_effect s event with
  | idle | granted => omega
  | connected _ calls =>
    rw [calls]
    -- a live half-open connection is counted, so the call does not fall through
    rw [markConnectionEstablished, if_pos (by omega)]
    dsimp only
    omega
  | ended _ calls | failed _ calls =>
    rw [calls]
    unfold releaseConnection
    split <;> dsimp only <;> omega

/-- From an exact state, an event keeps the counts exact if and only if it meets the condition. -/
theorem exact_step_iff (s : ConnectionBudget F) (event : BudgetEvent) (h : s.Exact) :
    (s.step event).Exact ↔ s.ClosesCleanly event := by
  obtain ⟨hactive, hhalf⟩ := exact_iff.mp h
  have hactive' := (sound_step s event ⟨hactive, hhalf.ge⟩).active
  have hlen := s.length_live
  unfold activeConnections at hactive
  rw [exact_iff, and_iff_right hactive']
  cases step_effect s event with
  | idle clean | granted clean => simp only [clean, iff_true]; omega
  | connected clean calls =>
    simp only [clean, iff_true]
    rw [calls, markConnectionEstablished, if_pos (by omega)]
    dsimp only
    omega
  | ended clean calls =>
    simp only [clean, iff_true]
    rw [calls, releaseConnection, if_pos (by omega)]
    dsimp only
    omega
  | failed clean calls =>
    rw [clean, calls, releaseConnection]
    split <;> dsimp only <;> omega

/-- **When the budget's counts are exact.** In every run from a fresh coordinator, over any number
    of concurrent connections, the counters are exact and the half-open cap refuses a dial only for
    handshakes really in flight, at every point of the run, if and only if no connection closes
    half-open while another live connection is established. -/
theorem budget_counts_exact_iff (config : DownloadCoordinatorConfig) (events : List BudgetEvent) :
    (∀ pre, pre <+: events → (Run.run step (new (F := F) config) pre).Exact) ↔
      Run.Along step ClosesCleanly (new (F := F) config) events :=
  Run.along_iff_always exact_step_iff (exact_iff.mpr ⟨rfl, rfl⟩)

end ConnectionBudget

/-- Exact arithmetic is one reading of the machine's. -/
instance : F64 ℚ where
  decidableLT := inferInstance

/-- One connection is up, a second one fails to connect: its slot stays in the half-open counter.
    No handshake is in flight any more, and the cap of one half-open connection refuses the next
    dial. -/
theorem half_open_slot_left_behind :
    let s := Run.run ConnectionBudget.step (ConnectionBudget.new (F := ℚ) ⟨100, 0, seconds 5, 1⟩)
      [.dial 0, .handshake 0, .dial 1, .close 1]
    s.coordinator.halfOpenConnections = 1 ∧ s.inFlight = 0 ∧ s.live = [⟨0, true⟩] ∧
      (s.coordinator.tryAcquireConnection 2).2 = false ∧ ¬ s.Exact := by
  refine ⟨by decide, by decide, by decide, by decide, ?_⟩
  intro h
  cases h.halfOpen

end EmuleBB.Transfer
