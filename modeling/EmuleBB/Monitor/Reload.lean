import EmuleBB.Lib.Map
import EmuleBB.Lib.Run

/-!
# The detached reload and who waits for it

`reload_shared_directories_detached` sets the pending flag and swaps the running one; whoever wins
the running flag spawns a worker, which clears the pending flag, runs the job and, with nothing
pending, clears the running flag and looks once more. Every access to a flag is one step.

The hand-over between workers is sound. **The wait of a watcher reconciliation is not**: it reads
the running flag and then the pending one, and in between a worker may move the request from the one
to the other, so the rebuild runs beside the next batch (`wait_ends_before_its_job`). As long as the
running flag is still clear when the pending one is read, the wait ends after
its job (`reload_requests_served`).
-/

namespace EmuleBB.Monitor

open Function Run

/-- Where a call of `reload_shared_directories_detached` stands, and after it the wait loop of a
    reconciliation. `since` is the number of jobs that had begun when the request was made. -/
inductive Caller
  | idle
  | swapRunning (since : Nat) (waits : Bool)
  | readRunning (since : Nat)
  | readPending (since : Nat)
  | returned (since : Nat)
  deriving DecidableEq

/-- Where a worker of the reload stands, by its next step. -/
inductive Worker
  | gone
  | clearPending
  | beginJob
  | endJob (job : Nat)
  | readPending
  | clearRunning
  | readPendingAgain
  | swapRunning
  deriving DecidableEq

/-- The worker is the one that the running flag stands for. -/
def Worker.Holds : Worker → Prop
  | .clearPending | .beginJob | .endJob _ | .readPending | .clearRunning => True
  | .gone | .readPendingAgain | .swapRunning => False

/-- The two flags, the callers and the workers, and what was asked and done. -/
structure Reload where
  sharedReloadPending : Bool
  sharedReloadRunning : Bool
  callers : Nat → Caller
  workers : Nat → Worker
  /-- The number of jobs that have begun; the first is job 1. -/
  begun : Nat
  ended : List Nat
  /-- For each request, how many jobs had begun. -/
  requests : List Nat

namespace Reload

def init : Reload := ⟨false, false, fun _ => .idle, fun _ => .gone, 0, [], []⟩

/-- A call is made, by a reconciliation if it `waits`; a caller or a worker makes its next access.
    `spawned` is the place of the worker that a caller spawns if it wins the running flag. -/
inductive Event
  | call (caller : Nat) (waits : Bool)
  | caller (caller spawned : Nat)
  | worker (worker : Nat)

section

variable (s : Reload)

def setCaller (i : Nat) (c : Caller) : Reload :=
  { s with callers := update s.callers i c }

def setWorker (i : Nat) (w : Worker) : Reload :=
  { s with workers := update s.workers i w }

def request (i : Nat) (waits : Bool) : Reload :=
  match s.callers i with
  | .idle | .returned _ =>
    { s with sharedReloadPending := true, requests := s.begun :: s.requests }.setCaller i
      (.swapRunning s.begun waits)
  | _ => s

def callerStep (i spawned : Nat) : Reload :=
  match s.callers i with
  | .swapRunning since waits =>
    let s' := s.setCaller i (if waits then .readRunning since else .idle)
    if s.sharedReloadRunning then s'
    else if s.workers spawned = .gone then
      { s' with sharedReloadRunning := true }.setWorker spawned .clearPending
    else s
  | .readRunning since =>
    s.setCaller i (if s.sharedReloadRunning then .readRunning since else .readPending since)
  | .readPending since =>
    s.setCaller i (if s.sharedReloadPending then .readRunning since else .returned since)
  | .idle | .returned _ => s

/-- The access a worker makes at a point of its loop, and the point where it goes on. -/
def access : Worker → Reload × Worker
  | .gone => (s, .gone)
  | .clearPending => ({ s with sharedReloadPending := false }, .beginJob)
  | .beginJob => ({ s with begun := s.begun + 1 }, .endJob (s.begun + 1))
  | .endJob job => ({ s with ended := job :: s.ended }, .readPending)
  | .readPending => (s, if s.sharedReloadPending then .clearPending else .clearRunning)
  | .clearRunning => ({ s with sharedReloadRunning := false }, .readPendingAgain)
  | .readPendingAgain => (s, if s.sharedReloadPending then .swapRunning else .gone)
  | .swapRunning =>
    ({ s with sharedReloadRunning := true },
      if s.sharedReloadRunning then .gone else .clearPending)

def workerStep (i : Nat) : Reload :=
  (s.access (s.workers i)).1.setWorker i (s.access (s.workers i)).2

def step : Event → Reload
  | .call i waits => s.request i waits
  | .caller i spawned => s.callerStep i spawned
  | .worker i => s.workerStep i

/-- A wait that found the running flag clear finds it clear still when it reads the pending flag. -/
def Undisturbed : Event → Prop
  | .caller i _ => s.callers i matches .readPending _ → s.sharedReloadRunning = false
  | _ => True

instance (s : Reload) (e : Event) : Decidable (s.Undisturbed e) := by
  cases e <;> unfold Undisturbed <;> infer_instance

/-! ## What the flags mean -/

def Owed (since : Nat) : Prop :=
  s.sharedReloadPending = true ∨ (∃ job ∈ s.ended, since < job) ∨
    ∃ i, s.workers i = .beginJob ∨ ∃ job, s.workers i = .endJob job ∧ since < job

end

/-- **The running flag is held by one worker, and a pending request has somebody to see to it.** -/
structure Sound (s : Reload) : Prop where
  single : ∀ i j, (s.workers i).Holds → (s.workers j).Holds → i = j
  held : s.sharedReloadRunning = true ↔ ∃ i, (s.workers i).Holds
  tended : s.sharedReloadPending = true →
    (∃ i since waits, s.callers i = .swapRunning since waits) ∨ ∃ i, s.workers i ≠ .gone
  requested : ∀ since ∈ s.requests, since ≤ s.begun
  numbered : ∀ job ∈ s.ended, job ≤ s.begun
  working : ∀ i job, s.workers i = .endJob job → job ≤ s.begun
  owed : ∀ since ∈ s.requests, s.Owed since
  waiting : ∀ i since, s.callers i = .readRunning since ∨ s.callers i = .readPending since ∨
    (∃ waits, s.callers i = .swapRunning since waits) → since ∈ s.requests
  returned : ∀ i since, s.callers i = .returned since → ∃ job ∈ s.ended, since < job

variable {s : Reload}

/-- With both flags clear every request has been answered. -/
theorem Sound.answered (h : s.Sound) (hrunning : s.sharedReloadRunning = false)
    (hpending : s.sharedReloadPending = false) {since : Nat} (hmem : since ∈ s.requests) :
    ∃ job ∈ s.ended, since < job := by
  have hnobody : ∀ i, ¬(s.workers i).Holds := by
    intro i hi
    rw [h.held.mpr ⟨i, hi⟩] at hrunning
    cases hrunning
  obtain hset | hended | ⟨i, hi | ⟨job, hi, -⟩⟩ := h.owed since hmem
  · rw [hpending] at hset
    cases hset
  · exact hended
  · exact absurd (by rw [hi]; trivial) (hnobody i)
  · exact absurd (by rw [hi]; trivial) (hnobody i)

theorem Sound.request (h : s.Sound) (i : Nat) (waits : Bool) : (s.request i waits).Sound := by
  obtain ⟨hself, hother⟩ := update_spec s.callers i (.swapRunning s.begun waits)
  have hmade :
    ({ s with sharedReloadPending := true, requests := s.begun :: s.requests }.setCaller i
      (.swapRunning s.begun waits)).Sound := by
    refine { h with
      tended := fun _ => .inl ⟨i, s.begun, waits, hself⟩
      requested := List.forall_mem_cons.mpr ⟨Nat.le_refl _, h.requested⟩
      owed := fun _ _ => .inl rfl
      waiting := fun j since hj => ?_
      returned := fun j since hj => ?_ }
    · by_cases hji : j = i
      · subst hji
        simp only [setCaller, hself] at hj
        obtain hj | hj | ⟨_, hj⟩ := hj <;> cases hj
        exact List.mem_cons_self
      · simp only [setCaller, ← hother j hji] at hj
        exact List.mem_cons_of_mem _ (h.waiting j since hj)
    · by_cases hji : j = i
      · subst hji
        cases hself.symm.trans hj
      · exact h.returned j since ((hother j hji).trans hj)
  unfold Reload.request
  split
  · exact hmade
  · exact hmade
  · exact h

/-- Caller `i` goes on at `c`: a request it has yet to see to needs a worker by now. -/
theorem Sound.callerAt (h : s.Sound) {i : Nat} {c : Caller}
    (htended : s.callers i matches .swapRunning _ _ → ∃ j, s.workers j ≠ .gone)
    (hwaiting : ∀ since, c = .readRunning since ∨ c = .readPending since ∨
      (∃ waits, c = .swapRunning since waits) → since ∈ s.requests)
    (hreturned : ∀ since, c = .returned since → ∃ job ∈ s.ended, since < job) :
    (s.setCaller i c).Sound := by
  obtain ⟨hself, hother⟩ := update_spec s.callers i c
  refine { h with
    tended := fun hset => ?_, waiting := fun j since hj => ?_, returned := fun j since hj => ?_ }
  · obtain ⟨j, since, waits, hj⟩ | hworker := h.tended hset
    · by_cases hji : j = i
      · exact .inr (htended (by rw [← hji, hj]))
      · exact .inl ⟨j, since, waits, (hother j hji).symm.trans hj⟩
    · exact .inr hworker
  · by_cases hji : j = i
    · subst hji
      simp only [setCaller, hself] at hj
      exact hwaiting since hj
    · simp only [setCaller, ← hother j hji] at hj
      exact h.waiting j since hj
  · by_cases hji : j = i
    · subst hji
      exact hreturned since (hself.symm.trans hj)
    · exact h.returned j since ((hother j hji).trans hj)

/-- Whoever finds the running flag clear starts the one worker that holds it. -/
theorem Sound.spawn (h : s.Sound) (hclear : s.sharedReloadRunning = false) {spawned : Nat}
    (hgone : s.workers spawned = .gone) :
    ({ s with sharedReloadRunning := true }.setWorker spawned .clearPending).Sound := by
  obtain ⟨hself, hother⟩ := update_spec s.workers spawned .clearPending
  have hidle : ∀ j, ¬(s.workers j).Holds := by
    intro j hj
    rw [h.held.mpr ⟨j, hj⟩] at hclear
    cases hclear
  have hholder : ∀ j, (update s.workers spawned .clearPending j).Holds → j = spawned := by
    intro j hj
    by_contra hne
    exact hidle j (hother j hne ▸ hj)
  refine { h with
    single := fun j k hj hk => (hholder j hj).trans (hholder k hk).symm
    held := ⟨fun _ => ⟨spawned, by simp [setWorker, Worker.Holds]⟩, fun _ => rfl⟩
    tended := fun _ => .inr ⟨spawned, by simp [setWorker]⟩
    working := fun j job hj => ?_
    owed := fun since hmem => ?_ }
  · by_cases hne : j = spawned
    · subst hne
      cases hself.symm.trans hj
    · exact h.working j job ((hother j hne).trans hj)
  · -- no worker was at a job, so what is owed is pending or has been done
    obtain hset | hended | ⟨j, hj | ⟨job, hj, -⟩⟩ := h.owed since hmem
    · exact .inl hset
    · exact .inr (.inl hended)
    · exact absurd (by rw [hj]; trivial) (hidle j)
    · exact absurd (by rw [hj]; trivial) (hidle j)

theorem Sound.callerStep (h : s.Sound) (i spawned : Nat)
    (hundisturbed : s.Undisturbed (.caller i spawned)) : (s.callerStep i spawned).Sound := by
  unfold Reload.callerStep
  cases hi : s.callers i with
  | idle | returned => exact h
  | swapRunning since waits =>
    have hmem := h.waiting i since (.inr (.inr ⟨waits, hi⟩))
    dsimp only
    split
    case isTrue hset =>
      -- the worker that holds the flag sees to the request
      obtain ⟨j, hj⟩ := h.held.mp hset
      refine h.callerAt (fun _ => ⟨j, fun hgone => ?_⟩) (by grind) (by grind)
      rw [hgone] at hj
      exact hj
    case isFalse hclear =>
      split
      case isTrue hgone =>
        refine (h.spawn (Bool.not_eq_true _ ▸ hclear) hgone).callerAt
          (fun _ => ⟨spawned, ?_⟩) ?_ ?_
        · simp [setWorker]
        · simp only [setWorker]
          grind
        · grind
      case isFalse => exact h
  | readRunning since =>
    have hmem := h.waiting i since (.inl hi)
    refine h.callerAt (by simp [hi]) (by grind) (by grind)
  | readPending since =>
    have hrunning : s.sharedReloadRunning = false := hundisturbed (by rw [hi])
    have hmem := h.waiting i since (.inr (.inl hi))
    have hanswered := fun hpending => h.answered hrunning hpending hmem
    refine h.callerAt (by simp [hi]) (by grind) (by grind)

/-- Clearing the pending flag moves the request to the worker. -/
theorem Sound.owed_workerStep (h : s.Sound) (i : Nat) {since : Nat} (hmem : since ∈ s.requests) :
    (s.workerStep i).Owed since := by
  obtain ⟨hself, hother⟩ := update_spec s.workers i (s.access (s.workers i)).2
  have howed := h.owed since hmem
  have hle := h.requested since hmem
  unfold Reload.workerStep Owed at *
  cases hi : s.workers i <;> simp only [hi, setWorker, access] at hself hother ⊢ <;> grind

/-- A worker that leaves because the running flag is taken leaves the request to its holder. -/
theorem Sound.workerStep (h : s.Sound) (i : Nat) : (s.workerStep i).Sound := by
  obtain ⟨hself, hother⟩ := update_spec s.workers i (s.access (s.workers i)).2
  have howed : ∀ since ∈ s.requests, (s.workerStep i).Owed since := fun _ => h.owed_workerStep i
  obtain ⟨hsingle, hheld, htended, hrequested, hnumbered, hworking, -, hwaiting, hreturned⟩ := h
  unfold Reload.workerStep at *
  cases hi : s.workers i
  all_goals
    rw [hi] at hself hother howed
    refine ⟨?_, ?_, ?_, ?_, ?_, ?_, howed, hwaiting, ?_⟩
    all_goals
      clear howed hwaiting
      simp only [setWorker, access] at hself hother ⊢
    iterate 3
      on_goal 1 =>
        clear hrequested hnumbered hworking hreturned
        grind [Worker.Holds]
    all_goals
      clear hsingle hheld htended
      first | assumption | grind

theorem sound_init : init.Sound := by
  constructor <;> simp [init, Worker.Holds]

theorem Sound.step (h : s.Sound) (e : Event) (hundisturbed : s.Undisturbed e) :
    (s.step e).Sound := by
  cases e with
  | call i waits => exact h.request i waits
  | caller i spawned => exact h.callerStep i spawned hundisturbed
  | worker i => exact h.workerStep i

/-- **A requested reload runs, and the watcher waits for it**, in every interleaving in which no
    wait is overtaken between its two reads: one worker at a time holds the running flag; when no
    call and no worker is left, a job began after every request; and a wait has returned only after
    a job that began after its request has ended. -/
theorem reload_requests_served (es : List Event) (h : Along step Undisturbed init es) :
    let s := run step init es
    (∀ i j, (s.workers i).Holds → (s.workers j).Holds → i = j) ∧
      ((∀ i since waits, s.callers i ≠ .swapRunning since waits) → (∀ i, s.workers i = .gone) →
        ∀ since ∈ s.requests, since < s.begun) ∧
      ∀ i since, s.callers i = .returned since → ∃ job ∈ s.ended, since < job := by
  intro s
  have hs : s.Sound := h.invariant (fun s e hs he => hs.step e he) sound_init
  refine ⟨hs.single, fun hcallers hworkers since hmem => ?_, hs.returned⟩
  have hrunning : s.sharedReloadRunning = false := by
    rw [← Bool.not_eq_true, hs.held]
    rintro ⟨i, hi⟩
    rw [hworkers i] at hi
    exact hi
  have hpending : s.sharedReloadPending = false := by
    rw [← Bool.not_eq_true]
    intro hset
    obtain ⟨i, since, waits, hi⟩ | ⟨i, hi⟩ := hs.tended hset
    · exact hcallers i since waits hi
    · exact hi (hworkers i)
  obtain ⟨job, hjob, hlt⟩ := hs.answered hrunning hpending hmem
  exact lt_of_lt_of_le hlt (hs.numbered job hjob)

def handedOver : List Event :=
  [.call 0 false, .caller 0 0, .worker 0, .worker 0, .worker 0, .worker 0, .call 1 true,
    .caller 1 1,
    .worker 0]

/-- The worker takes the request over before the wait looks, and the wait sees the job through. -/
theorem reload_requests_served_waited :
    let es := handedOver ++ [.worker 0, .worker 0, .caller 1 1, .worker 0, .worker 0, .worker 0,
      .worker 0, .worker 0, .caller 1 1, .caller 1 1]
    Along step Undisturbed init es ∧ (run step init es).callers 1 = .returned 1 ∧
      ∃ job ∈ (run step init es).ended, 1 < job :=
  ⟨by decide, by decide, (reload_requests_served _ (by decide)).2.2 1 1 (by decide)⟩

/-- **A wait ends before the job it asked for.** It reads the running flag when the old worker has
    just cleared it, and the pending flag when the worker has taken the request over. -/
theorem wait_ends_before_its_job :
    let s :=
      run step init (handedOver ++ [.caller 1 1, .worker 0, .worker 0, .worker 0, .caller 1 1])
    s.callers 1 = .returned 1 ∧ (¬∃ job ∈ s.ended, 1 < job) ∧ s.workers 0 = .beginJob := by
  decide

end Reload

end EmuleBB.Monitor
