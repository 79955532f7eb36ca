import Mathlib.Data.List.Basic

/-!
# Runs of a deterministic step function

A system is a step function on a state and an event; **a run is a list of events**. The events
are chosen freely, so quantifying over the list quantifies over every interleaving. `Along`
says that each event of a run meets a condition in the state it is taken in, and
`Along.invariant` is the one induction every safety theorem uses.
-/

namespace Run

variable {State Event : Type}

def run (step : State → Event → State) (s : State) (events : List Event) : State :=
  events.foldl step s

/-- Every event of the run meets `P` in the state it is taken in. -/
def Along (step : State → Event → State) (P : State → Event → Prop) : State → List Event → Prop
  | _, [] => True
  | s, e :: es => P s e ∧ Along step P (step s e) es

instance Along.decidable (step : State → Event → State) (P : State → Event → Prop)
    [∀ s e, Decidable (P s e)] : ∀ s es, Decidable (Along step P s es)
  | _, [] => .isTrue trivial
  | s, e :: es => @instDecidableAnd _ _ _ (Along.decidable step P (step s e) es)

section

variable {step : State → Event → State} {P Q : State → Event → Prop} {s : State} {es : List Event}
  {Inv : State → Prop}

@[simp] theorem run_nil : run step s [] = s := rfl

@[simp] theorem run_cons {e : Event} : run step s (e :: es) = run step (step s e) es := rfl

theorem run_append (xs ys : List Event) : run step s (xs ++ ys) = run step (run step s xs) ys := by
  simp [run, List.foldl_append]

@[simp] theorem along_nil : Along step P s [] := trivial

@[simp] theorem along_cons {e : Event} :
    Along step P s (e :: es) ↔ P s e ∧ Along step P (step s e) es := Iff.rfl

theorem along_append {xs ys : List Event} :
    Along step P s (xs ++ ys) ↔ Along step P s xs ∧ Along step P (run step s xs) ys := by
  induction xs generalizing s with
  | nil => simp
  | cons e es ih => simp [ih, and_assoc]

theorem along_true : Along step (fun _ _ => True) s es := by
  induction es generalizing s with
  | nil => trivial
  | cons e es ih => exact ⟨trivial, ih⟩

theorem Along.mono (hPQ : ∀ s e, P s e → Q s e) (h : Along step P s es) : Along step Q s es := by
  induction es generalizing s with
  | nil => trivial
  | cons e es ih => exact ⟨hPQ s e h.1, ih h.2⟩

/-- **The invariant rule.** What holds at the start and is kept by every step whose event meets
    the condition holds wherever a run along the condition ends. -/
theorem Along.invariant (hstep : ∀ s e, Inv s → P s e → Inv (step s e)) (h : Along step P s es)
    (h0 : Inv s) : Inv (run step s es) := by
  induction es generalizing s with
  | nil => exact h0
  | cons e es ih => exact ih h.2 (hstep s e h0 h.1)

theorem Along.along (hstep : ∀ s e, Inv s → P s e → Q s e ∧ Inv (step s e)) (h : Along step P s es)
    (h0 : Inv s) : Along step Q s es := by
  induction es generalizing s with
  | nil => trivial
  | cons e es ih => exact ⟨(hstep s e h0 h.1).1, ih h.2 (hstep s e h0 h.1).2⟩

theorem invariant (hstep : ∀ s e, Inv s → Inv (step s e)) (es : List Event) (h0 : Inv s) :
    Inv (run step s es) :=
  along_true.invariant (fun s e hi _ => hstep s e hi) h0

/-- **When a condition is exactly what an invariant needs.** If a step from a good state ends in a
    good one exactly when its event meets the condition, then a run stays good at every point
    exactly when it is along the condition. -/
theorem along_iff_always (hstep : ∀ s e, Inv s → (Inv (step s e) ↔ P s e)) (h0 : Inv s) :
    (∀ pre, pre <+: es → Inv (run step s pre)) ↔ Along step P s es := by
  induction es generalizing s with
  | nil =>
    refine ⟨fun _ => trivial, fun _ pre hpre => ?_⟩
    rw [List.prefix_nil.mp hpre]
    exact h0
  | cons e es ih =>
    constructor
    · intro h
      have hnext : Inv (step s e) := h [e] ⟨es, rfl⟩
      exact ⟨(hstep s e h0).mp hnext,
        (ih hnext).mp fun pre hpre => h (e :: pre) (List.cons_prefix_cons.mpr ⟨rfl, hpre⟩)⟩
    · rintro ⟨he, hes⟩ pre hpre
      obtain rfl | ⟨pre', rfl, hpre'⟩ := List.prefix_cons_iff.mp hpre
      · exact h0
      · exact (ih ((hstep s e h0).mpr he)).mpr hes pre' hpre'

theorem along_of_forall {P : Event → Prop} (h : ∀ e ∈ es, P e) :
    Along step (fun _ e => P e) s es := by
  induction es generalizing s with
  | nil => trivial
  | cons e es ih =>
    exact ⟨h e List.mem_cons_self, ih fun e' he' => h e' (List.mem_cons_of_mem _ he')⟩

end

end Run
