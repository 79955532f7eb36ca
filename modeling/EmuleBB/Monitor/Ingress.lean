import EmuleBB.Lib.KeepLast
import EmuleBB.Lib.Map
import EmuleBB.Lib.Run

/-!
# The watcher's ingress and its overflow latch

Watcher callbacks put actions into a bounded channel without blocking. A callback that finds the
channel full latches a reconciliation request, and callbacks that find the latch set send nothing.
The consumer takes a burst off the channel, looks at the latch, and either reconciles or applies the
coalesced burst. Loads, sends, receives and the latch's swap and store are single steps.

**The full channel and the latch are two cells.** Between the send that failed and the swap the
consumer may take the whole burst, see the latch clear and go back to waiting; then every later
change is dropped (`latch_set_with_nobody_left`). Nothing is lost as long as the latch is set only
while the consumer has something to receive or has yet to look (`overflow_loses_nothing`).
-/

namespace EmuleBB.Monitor

open Function Run KeepLast

/-- What a file event asks of the library. -/
inductive MonitorAction (Path : Type)
  | share (path : Path)
  | remove (path : Path)
  | rename (source target : Path)
  | reconcile
  deriving DecidableEq

variable {Path : Type}

def MonitorAction.entry : MonitorAction Path → Option (Path × Option Path)
  | .share path | .remove path => some (path, none)
  | .rename source target => some (source, some target)
  | .reconcile => none

variable [DecidableEq Path] {actions : List (MonitorAction Path)}

def superseded (actions : List (MonitorAction Path)) (action : MonitorAction Path) : Bool :=
  actions.any fun
    | .rename source target =>
      action = .share source || action = .remove source || action = .share target
    | _ => false

def coalesceActions (actions : List (MonitorAction Path)) : List (MonitorAction Path) :=
  if .reconcile ∈ actions then [.reconcile]
  else (keepLast MonitorAction.entry actions).filter fun action => !superseded actions action

/-- The last action of an entry is in the result unless a rename speaks for it. -/
theorem coalesceActions_ne_nil_of_mem {action : MonitorAction Path} (hmem : action ∈ actions)
    (h : ∀ last ∈ actions, last.entry = action.entry → superseded actions last = false) :
    coalesceActions actions ≠ [] := by
  unfold coalesceActions
  split
  · exact List.cons_ne_nil _ _
  · have hkept : action.entry ∈ (keepLast MonitorAction.entry actions).map MonitorAction.entry :=
      mem_map_keepLast.mpr (List.mem_map_of_mem hmem)
    obtain ⟨last, hlast, hentry⟩ := List.mem_map.mp hkept
    refine List.ne_nil_of_mem (List.mem_filter.mpr ⟨hlast, ?_⟩)
    rw [h last (mem_of_mem_keepLast hlast) hentry]
    rfl

/-- **A burst never coalesces to nothing**: a rename stays, and without one every path keeps its
    last intent. -/
theorem coalesceActions_ne_nil (h : actions ≠ []) : coalesceActions actions ≠ [] := by
  by_cases hrename : ∃ source target, .rename source target ∈ actions
  · obtain ⟨source, target, hmem⟩ := hrename
    refine coalesceActions_ne_nil_of_mem hmem fun last _ hentry => ?_
    rw [superseded, List.any_eq_false]
    intro other _
    cases last with
    | rename => cases other <;> simp
    | _ => cases hentry
  · obtain ⟨action, hmem⟩ := List.exists_mem_of_ne_nil actions h
    refine coalesceActions_ne_nil_of_mem hmem fun last _ _ => ?_
    rw [superseded, List.any_eq_false]
    intro other hother
    cases other with
    | rename source target => exact absurd ⟨source, target, hother⟩ hrename
    | _ => exact Bool.false_ne_true

/-! ## Callbacks and consumer -/

/-- What a callback of the watcher does next; an action carries the number under which it was handed
    over. -/
inductive Callback (Path : Type)
  | idle
  | loadLatch (actions : List (MonitorAction Path × Nat))
  | trySend (actions : List (MonitorAction Path × Nat))
  | swapLatch
  deriving DecidableEq

/-- What the consumer does next; `burst` are the numbers of the actions that were coalesced. -/
inductive Consumer (Path : Type)
  | recv
  | tryRecv (pending : List (MonitorAction Path × Nat))
  | loadLatch (pending : List (MonitorAction Path × Nat))
  | drain
  | storeLatch
  | reconcile
  | reconciling
  | apply (burst : List Nat) (rest : List (MonitorAction Path))
  | applying (burst : List Nat) (rest : List (MonitorAction Path))
  | stopped
  deriving DecidableEq

def Callback.holds : Callback Path → List Nat
  | .loadLatch actions | .trySend actions => actions.map Prod.snd
  | .idle | .swapLatch => []

def Consumer.holds : Consumer Path → List Nat
  | .tryRecv pending | .loadLatch pending => pending.map Prod.snd
  | .apply burst _ => burst
  | _ => []

def Consumer.looks : Consumer Path → Bool
  | .tryRecv _ | .loadLatch _ | .drain | .storeLatch => true
  | _ => false

/-- The bounded queue, the latch beside it, and where callbacks and consumer stand. -/
structure Ingress (Path : Type) where
  actionRx : List (MonitorAction Path × Nat)
  reconcileRequired : Bool
  callbacks : Nat → Callback Path
  consumer : Consumer Path
  /-- How many actions were handed to callbacks. -/
  handed : Nat
  /-- The actions after which a reconciliation, or an apply of a burst with them, began. -/
  covered : List Nat

namespace Ingress

def init : Ingress Path := ⟨[], false, fun _ => .idle, .recv, 0, []⟩

/-- The steps of callbacks and consumer. -/
inductive Event (Path : Type)
  | handOver (callback : Nat) (actions : List (MonitorAction Path))
  | callback (callback : Nat)
  | consumer
  | abort

def setCallback (s : Ingress Path) (i : Nat) (c : Callback Path) : Ingress Path :=
  { s with callbacks := update s.callbacks i c }

def handOver (s : Ingress Path) (i : Nat) (actions : List (MonitorAction Path)) : Ingress Path :=
  if s.callbacks i = .idle then
    { s with handed := s.handed + actions.length }.setCallback i
      (.loadLatch (actions.zipIdx s.handed))
  else s

def callbackStep (capacity : Nat) (s : Ingress Path) (i : Nat) : Ingress Path :=
  match s.callbacks i with
  | .idle => s
  | .loadLatch actions => s.setCallback i (if s.reconcileRequired then .idle else .trySend actions)
  | .trySend [] => s.setCallback i .idle
  | .trySend (action :: rest) =>
    if s.consumer = .stopped then s.setCallback i .idle
    else if s.actionRx.length < capacity then
      { s with actionRx := s.actionRx ++ [action] }.setCallback i (.trySend rest)
    else s.setCallback i .swapLatch
  | .swapLatch => { s with reconcileRequired := true }.setCallback i .idle

def consumerStep (s : Ingress Path) : Ingress Path :=
  match s.consumer, s.actionRx with
  | .recv, [] => s
  | .recv, action :: queue => { s with actionRx := queue, consumer := .tryRecv [action] }
  | .tryRecv pending, [] => { s with consumer := .loadLatch pending }
  | .tryRecv pending, action :: queue =>
    { s with actionRx := queue, consumer := .tryRecv (pending ++ [action]) }
  | .loadLatch pending, _ =>
    { s with
      consumer := if s.reconcileRequired then .drain
        else .apply (pending.map Prod.snd) (coalesceActions (pending.map Prod.fst)) }
  | .drain, [] => { s with consumer := .storeLatch }
  | .drain, _ :: queue => { s with actionRx := queue }
  | .storeLatch, _ => { s with reconcileRequired := false, consumer := .reconcile }
  | .reconcile, _ => { s with covered := List.range s.handed, consumer := .reconciling }
  | .reconciling, _ => { s with consumer := .recv }
  | .apply _ [], _ => { s with consumer := .recv }
  | .apply burst (_ :: rest), _ =>
    { s with covered := burst ++ s.covered, consumer := .applying burst rest }
  | .applying burst rest, _ => { s with consumer := .apply burst rest }
  | .stopped, _ => s

def step (capacity : Nat) (s : Ingress Path) : Event Path → Ingress Path
  | .handOver i actions => s.handOver i actions
  | .callback i => s.callbackStep capacity i
  | .consumer => s.consumerStep
  | .abort => { s with consumer := .stopped }

/-- The latch is set only while the consumer has something to receive or has yet to look. -/
def Heard (s : Ingress Path) : Event Path → Prop
  | .callback i => s.callbacks i = .swapLatch → s.actionRx ≠ [] ∨ s.consumer.looks = true
  | _ => True

instance (s : Ingress Path) (e : Event Path) : Decidable (s.Heard e) := by
  cases e <;> unfold Heard <;> infer_instance

/-! ## Where an action stands -/

def Coming (s : Ingress Path) : Prop :=
  s.reconcileRequired = true ∨ s.consumer = .drain ∨ s.consumer = .storeLatch ∨
    s.consumer = .reconcile ∨ ∃ i, s.callbacks i = .swapLatch

/-- **A set latch has somebody to take it, and an action is somewhere on its way until an apply has
    covered it.** -/
structure Sound (s : Ingress Path) : Prop where
  latched : s.reconcileRequired = true → s.actionRx ≠ [] ∨ s.consumer.looks = true
  accounted : ∀ n < s.handed, n ∈ s.covered ∨ n ∈ s.actionRx.map Prod.snd ∨ n ∈ s.consumer.holds ∨
    (∃ i, n ∈ (s.callbacks i).holds) ∨ s.Coming
  pending : ∀ pending, s.consumer = .tryRecv pending ∨ s.consumer = .loadLatch pending →
    pending ≠ []
  begun : ∀ burst, s.consumer = .apply burst [] ∨ (∃ rest, s.consumer = .applying burst rest) →
    ∀ n ∈ burst, n ∈ s.covered

variable {s : Ingress Path} {capacity : Nat}

omit [DecidableEq Path] in
/-- Callback `i` goes on at `c`: the others and the consumer stay where they are, so that only what
    `i` held, or is handed, has to be found again. -/
theorem Sound.callbackAt (h : s.Sound) {i handed : Nat} {c : Callback Path} {latch : Bool}
    {queue : List (MonitorAction Path × Nat)} (hqueue : s.actionRx ⊆ queue)
    (hlatch : s.reconcileRequired = true ∨ s.callbacks i = .swapLatch → latch = true)
    (hheard : latch = true → queue ≠ [] ∨ s.consumer.looks = true)
    (hheld : ∀ n < handed, (n < s.handed → n ∈ (s.callbacks i).holds) →
      n ∈ queue.map Prod.snd ∨ n ∈ c.holds ∨ latch = true ∨ c = .swapLatch) :
    ({ s with actionRx := queue, reconcileRequired := latch, handed }.setCallback i c).Sound := by
  obtain ⟨hself, hother⟩ := update_spec s.callbacks i c
  refine ⟨hheard, fun n hn => ?_, h.pending, h.begun⟩
  by_cases hmine : n < s.handed → n ∈ (s.callbacks i).holds
  · have hput := hheld n hn hmine
    simp only [setCallback, Coming]
    grind
  · obtain ⟨hold, hothers⟩ := Classical.not_imp.mp hmine
    have hfound := h.accounted n hold
    have hqueued := @List.map_subset _ _ _ _ Prod.snd hqueue n
    simp only [setCallback, Coming] at hfound ⊢
    grind

theorem Sound.handOver (h : s.Sound) (i : Nat) (actions : List (MonitorAction Path)) :
    (s.handOver i actions).Sound := by
  unfold Ingress.handOver
  split
  case isTrue hidle =>
    refine h.callbackAt (List.Subset.refl _) ?_ h.latched fun n hn hnew => .inr (.inl ?_)
    · rintro (hset | hswap)
      · exact hset
      · rw [hidle] at hswap
        cases hswap
    · have hle : s.handed ≤ n := by
        by_contra hlt
        have hheld := hnew (Nat.not_le.mp hlt)
        rw [hidle] at hheld
        cases hheld
      simpa [Callback.holds] using ⟨hle, hn⟩
  case isFalse => exact h

theorem Sound.callbackStep (h : s.Sound) (hrunning : s.consumer ≠ .stopped) (i : Nat)
    (hheard : s.Heard (.callback i)) : (s.callbackStep capacity i).Sound := by
  have hkeep : s.callbacks i ≠ .swapLatch →
      s.reconcileRequired = true ∨ s.callbacks i = .swapLatch → s.reconcileRequired = true :=
    fun hne hset => hset.resolve_right hne
  unfold Ingress.callbackStep
  cases hi : s.callbacks i with
  | idle => exact h
  | loadLatch actions =>
    refine h.callbackAt (List.Subset.refl _) (hkeep (by simp [hi])) h.latched fun n hn hmine => ?_
    have hheld := hmine hn
    rw [hi] at hheld
    -- what is not sent for the latch is seen to by the reconciliation
    cases hlatch : s.reconcileRequired with
    | true => exact .inr (.inr (.inl rfl))
    | false => exact .inr (.inl hheld)
  | trySend actions =>
    cases actions with
    | nil =>
      refine h.callbackAt (List.Subset.refl _) (hkeep (by simp [hi])) h.latched fun n hn hmine => ?_
      have hheld := hmine hn
      rw [hi] at hheld
      cases hheld
    | cons action rest =>
      simp only [if_neg hrunning]
      split
      · refine h.callbackAt (List.subset_append_left _ _) (hkeep (by simp [hi]))
          (fun _ => .inl (by simp)) fun n hn hmine => ?_
        have hheld := hmine hn
        rw [hi] at hheld
        obtain rfl | hrest := List.mem_cons.mp hheld
        · exact .inl (by simp)
        · exact .inr (.inl hrest)
      · exact h.callbackAt (List.Subset.refl _) (hkeep (by simp [hi])) h.latched
          fun _ _ _ => .inr (.inr (.inr rfl))
  | swapLatch =>
    exact h.callbackAt (List.Subset.refl _) (fun _ => rfl) (fun _ => hheard hi)
      fun _ _ _ => .inr (.inr (.inl rfl))

/-- What the consumer takes it holds until an apply begins; what it drops,
    a reconciliation covers. -/
theorem Sound.consumerStep (h : s.Sound) : s.consumerStep.Sound := by
  have hburst : ∀ pending, s.consumer = .loadLatch pending →
      coalesceActions (pending.map Prod.fst) ≠ [] := by
    intro pending hload
    exact coalesceActions_ne_nil (by simpa using h.pending pending (.inr hload))
  obtain ⟨hlatched, haccounted, hpending, hbegun⟩ := h
  unfold Coming at haccounted
  unfold Ingress.consumerStep
  split
  all_goals
    refine ⟨?_, fun n hn => ?_, ?_, ?_⟩
    on_goal 2 =>
      have hfound := haccounted n hn
      clear haccounted hburst
      unfold Coming
      grind [Consumer.holds]
    all_goals
      clear haccounted
      (try split) <;> simp_all [Consumer.looks]

/-- While the consumer runs, every step keeps it. -/
theorem Sound.step (h : s.consumer ≠ .stopped → s.Sound) (e : Event Path) (hheard : s.Heard e)
    (hrunning : (s.step capacity e).consumer ≠ .stopped) : (s.step capacity e).Sound := by
  have hbefore : s.consumer ≠ .stopped := by
    intro hstopped
    refine hrunning ?_
    cases e <;> simp only [Ingress.step, Ingress.handOver, Ingress.callbackStep,
      Ingress.consumerStep, setCallback] <;> grind
  cases e with
  | handOver i actions => exact (h hbefore).handOver i actions
  | callback i => exact (h hbefore).callbackStep hbefore i hheard
  | consumer => exact (h hbefore).consumerStep
  | abort => exact absurd rfl hrunning

/-- **Overflow loses no change**, in every interleaving in which the latch is set only while the
    consumer still listens: when no callback runs and the consumer waits on the empty channel, the
    latch is clear and every action that was handed over has been covered. -/
theorem overflow_loses_nothing (capacity : Nat) (es : List (Event Path))
    (h : Along (step capacity) Heard init es) :
    let s := run (step capacity) init es
    (∀ i, s.callbacks i = .idle) → s.consumer = .recv → s.actionRx = [] →
      s.reconcileRequired = false ∧ ∀ n < s.handed, n ∈ s.covered := by
  intro s hidle hrecv hempty
  have hsound : s.consumer ≠ .stopped → s.Sound :=
    h.invariant (fun s e hs he hrunning => Sound.step hs e he hrunning)
      fun _ => by constructor <;> simp [init]
  obtain ⟨hlatched, haccounted, -, -⟩ := hsound (by rw [hrecv]; nofun)
  have hclear : s.reconcileRequired = false := by
    rw [← Bool.not_eq_true]
    intro hset
    obtain hqueue | hlooks := hlatched hset
    · exact hqueue hempty
    · rw [hrecv] at hlooks
      cases hlooks
  refine ⟨hclear, fun n hn => ?_⟩
  have := haccounted n hn
  simpa [Coming, hempty, hrecv, hidle, hclear, Callback.holds, Consumer.holds] using this

/-- The queue is full with the first burst when the second one comes. -/
def full : List (Event Nat) :=
  [.handOver 0 [.share 7], .callback 0, .callback 0, .callback 0, .handOver 0 [.share 8],
    .callback 0,
    .callback 0]

def reconciled : List (Event Nat) := full ++ .callback 0 :: List.replicate 7 .consumer

/-- A burst that finds the queue full, and the reconciliation after it. -/
theorem overflow_loses_nothing_reconciled :
    let s := run (step 1) init reconciled
    Along (step 1) Heard init reconciled ∧ s.handed = 2 ∧ ∀ n < s.handed, n ∈ s.covered := by
  have hidle : ∀ i, (run (step 1) init reconciled).callbacks i = .idle := by
    intro i
    cases i <;> rfl
  exact ⟨by decide, rfl, (overflow_loses_nothing 1 reconciled (by decide) hidle rfl rfl).2⟩

/-- **The latch is set with nobody left to take it.** The consumer has applied the burst and waits
    when the callback sets the latch; what is handed over next is dropped. -/
theorem latch_set_with_nobody_left :
    let s := run (step 1) (init : Ingress Nat) (full ++ List.replicate 6 .consumer ++
      [.callback 0, .handOver 0 [.remove 9], .callback 0])
    s.callbacks 0 = .idle ∧ s.consumer = .recv ∧ s.actionRx = [] ∧ s.reconcileRequired = true ∧
      s.handed = 3 ∧ s.covered = [0] := by
  decide

end Ingress

end EmuleBB.Monitor
