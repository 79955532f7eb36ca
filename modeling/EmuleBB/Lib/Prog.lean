import EmuleBB.Lib.Run
import Mathlib.Logic.Relation

/-!
# Programs that can be interrupted between their steps

A program over a shared state `σ` is a tree of **atomic steps**: each changes the state, and what
follows depends on the state it was taken in. Between two steps others may change the state as well,
and a crash may end the program. `Keeping` says what holds as long as others move only along `R`:
every step of the program keeps an invariant, and the program ends in `Q` or fails in `E`.

With `keeping_atomic`, what is known before a step is an assertion that others cannot break.
`ReadOnly` programs change nothing; instances find them where they are put together from such.
`Machine.lawful_run` turns the safety of every call into a law of every run of a machine that
makes such calls, one at a time, with crashes and others' actions in between.
-/

open Relation

inductive Prog (σ ε α : Type) where
  | ret (a : α)
  | fail (e : ε)
  | step (next : σ → σ) (rest : σ → Prog σ ε α)

namespace Prog

variable {σ ε α β : Type}

def bind : Prog σ ε α → (α → Prog σ ε β) → Prog σ ε β
  | ret a, f => f a
  | fail e, _ => fail e
  | step next rest, f => step next fun s => (rest s).bind f

instance : Monad (Prog σ ε) where
  pure := ret
  bind := bind

def atomic (f : σ → α × σ) : Prog σ ε α :=
  step (fun s => (f s).2) fun s => ret (f s).1

def read (f : σ → α) : Prog σ ε α := atomic fun s => (f s, s)

/-- An atomic transaction, which happens as a whole or fails and changes nothing. -/
def transact (f : σ → Except ε (α × σ)) : Prog σ ε α :=
  step
    (fun s =>
      match f s with
      | .ok out => out.2
      | .error _ => s)
    fun s =>
      match f s with
      | .ok out => ret out.1
      | .error e => fail e

def attempt : Prog σ ε α → Prog σ ε (Except ε α)
  | ret a => ret (.ok a)
  | fail e => ret (.error e)
  | step next rest => step next fun s => (rest s).attempt

/-! ## Safety -/

def Stable (R : σ → σ → Prop) (P : σ → Prop) : Prop := ∀ s s', P s → R s s' → P s'

variable {R : σ → σ → Prop} {I P : σ → Prop} {E : ε → σ → Prop} {Q Q' : α → σ → Prop} {s : σ}
  {t t' : Prog σ ε α} {f : α → Prog σ ε β} {a : α}

theorem Stable.star (h : Stable R P) {s s' : σ} (hs : P s) (hstar : ReflTransGen R s s') :
    P s' := by
  induction hstar with
  | refl => exact hs
  | tail _ hstep ih => exact h _ _ ih hstep

theorem Stable.and {P' : σ → Prop} (h : Stable R P) (h' : Stable R P') :
    Stable R fun s => P s ∧ P' s :=
  fun s s' hs hstep => ⟨h s s' hs.1 hstep, h' s s' hs.2 hstep⟩

theorem stable_const (p : Prop) : Stable R fun _ => p := fun _ _ hp _ => hp

/-- **Safety of a program from a state**: every step keeps `I`, and `I` holds at the end, with `Q`
    of the result or `E` of the failure. -/
def Keeping (R : σ → σ → Prop) (I : σ → Prop) (E : ε → σ → Prop) :
    Prog σ ε α → σ → (α → σ → Prop) → Prop
  | ret a, s, Q => I s ∧ Q a s
  | fail e, s, _ => I s ∧ E e s
  | step next rest, s, Q => ∀ s', ReflTransGen R s s' →
      I (next s') ∧ Keeping R I E (rest s') (next s') Q

theorem keeping_pure (h : I s) (hQ : Q a s) : Keeping R I E (pure a : Prog σ ε α) s Q := ⟨h, hQ⟩

theorem keeping_fail {e : ε} (h : I s) (hE : E e s) :
    Keeping R I E (fail e : Prog σ ε α) s Q := ⟨h, hE⟩

section

variable (h : Keeping R I E t s Q)

include h

theorem Keeping.mono (hQ : ∀ a s, I s → Q a s → Q' a s) : Keeping R I E t s Q' := by
  induction t generalizing s with
  | ret a => exact ⟨h.1, hQ a s h.1 h.2⟩
  | fail => exact h
  | step next rest ih =>
    intro s' hstar
    obtain ⟨hstep, hrest⟩ := h s' hstar
    exact ⟨hstep, ih s' hrest⟩

theorem Keeping.of_rely (hI : Stable R I) (hQ : ∀ a, Stable R (Q a)) (hE : ∀ e, Stable R (E e))
    {s' : σ} (hstep : R s s') : Keeping R I E t s' Q := by
  cases t with
  | ret a => exact (hI.and (hQ a)) s s' h hstep
  | fail e => exact (hI.and (hE e)) s s' h hstep
  | step => exact fun s'' hstar => h s'' (ReflTransGen.head hstep hstar)

theorem Keeping.bind {Q' : β → σ → Prop} (hf : ∀ a s, I s → Q a s → Keeping R I E (f a) s Q') :
    Keeping R I E (t >>= f) s Q' := by
  induction t generalizing s with
  | ret a => exact hf a s h.1 h.2
  | fail => exact h
  | step next rest ih =>
    intro s' hstar
    obtain ⟨hstep, hrest⟩ := h s' hstar
    exact ⟨hstep, ih s' hrest⟩

end

theorem Keeping.ret {g : α → β} (h : Keeping R I E t s fun _ => P) :
    Keeping R I E (t >>= fun a => pure (g a)) s fun _ => P :=
  h.bind fun _ _ hI hP => keeping_pure hI hP

/-- A step is taken in a state that others may have moved to, so what is known before it has to be
    stable. -/
theorem keeping_atomic {f : σ → α × σ} (hI : Stable R I) (hstable : Stable R P) (h : I s) (hP : P s)
    (hstep : ∀ s, I s → P s → I (f s).2 ∧ Q (f s).1 (f s).2) :
    Keeping R I E (atomic f) s Q := by
  intro s' hstar
  obtain ⟨hI, hQ⟩ := hstep s' (hI.star h hstar) (hstable.star hP hstar)
  exact ⟨hI, hI, hQ⟩

theorem keeping_transact {f : σ → Except ε (α × σ)} (hI : Stable R I) (hstable : Stable R P)
    (h : I s) (hP : P s) (hok : ∀ s a s', I s → P s → f s = .ok (a, s') → I s' ∧ Q a s')
    (herror : ∀ s e, I s → P s → f s = .error e → E e s) : Keeping R I E (transact f) s Q := by
  intro s' hstar
  have hs' := hI.star h hstar
  have hP' := hstable.star hP hstar
  dsimp only
  cases hf : f s' with
  | ok out =>
    obtain ⟨hI, hQ⟩ := hok s' out.1 out.2 hs' hP' hf
    exact ⟨hI, hI, hQ⟩
  | error e => exact ⟨hs', hs', herror s' e hs' hP' hf⟩

/-! ## Programs that only look -/

/-- Every step of the program, in whatever state it is taken, leaves the state as it is. -/
class inductive ReadOnly : Prog σ ε α → Prop where
  | ret (a : α) : ReadOnly (ret a)
  | fail (e : ε) : ReadOnly (fail e)
  | step {next : σ → σ} {rest : σ → Prog σ ε α} (hnext : ∀ s, next s = s)
      (hrest : ∀ s, ReadOnly (rest s)) : ReadOnly (step next rest)

attribute [instance] ReadOnly.ret ReadOnly.fail

instance : ReadOnly (pure a : Prog σ ε α) := .ret a

instance {f : σ → α} : ReadOnly (read f : Prog σ ε α) := .step (fun _ => rfl) fun _ => .ret _

instance ReadOnly.bind [h : ReadOnly t] [g : ∀ a, ReadOnly (f a)] : ReadOnly (t >>= f) := by
  induction h with
  | ret a => exact g a
  | fail e => exact .fail e
  | step hnext _ ih => exact .step hnext ih

instance [h : ReadOnly t] : ReadOnly t.attempt := by
  induction h with
  | ret | fail => exact .ret _
  | step hnext _ ih => exact .step hnext ih

instance {p : Prop} [Decidable p] [h : ReadOnly t] [h' : ReadOnly t'] :
    ReadOnly (if p then t else t') := by
  split
  · exact h
  · exact h'

theorem readOnly_transact {f : σ → Except ε (α × σ)} (h : ∀ s a s', f s = .ok (a, s') → s' = s) :
    ReadOnly (transact f) := by
  refine .step (fun s => ?_) fun s => ?_
  · cases hf : f s with
    | ok out => exact h s out.1 out.2 hf
    | error => rfl
  · cases hf : f s with
    | ok => exact .ret _
    | error => exact .fail _

theorem keeping_readOnly (ht : ReadOnly t) (hI : Stable R I) (hstable : Stable R P)
    (hE : ∀ e s, P s → E e s) (h : I s) (hP : P s) : Keeping R I E t s fun _ => P := by
  induction ht generalizing s with
  | ret => exact ⟨h, hP⟩
  | fail e => exact ⟨h, hE e s hP⟩
  | step hnext _ ih =>
    intro s' hstar
    have hs' := hI.star h hstar
    rw [hnext s']
    exact ⟨hs', ih s' hs' (hstable.star hP hstar)⟩

/-- **A look before the rest**: what is known and stable is known behind it. -/
theorem keeping_look [ht : ReadOnly t] {Q : β → σ → Prop} (hI : Stable R I) (hstable : Stable R P)
    (hE : ∀ e s, P s → E e s) (h : I s) (hP : P s)
    (hf : ∀ a s, I s → P s → Keeping R I E (f a) s Q) : Keeping R I E (t >>= f) s Q :=
  (keeping_readOnly ht hI hstable hE h hP).bind hf

def value : Prog σ ε α → σ → Except ε α
  | ret a, _ => .ok a
  | fail e, _ => .error e
  | step _ rest, s => (rest s).value s

@[simp] theorem value_pure (a : α) (s : σ) : (pure a : Prog σ ε α).value s = .ok a := rfl

@[simp] theorem value_fail (e : ε) (s : σ) : (fail e : Prog σ ε α).value s = .error e := rfl

@[simp] theorem value_read (f : σ → α) (s : σ) : (read f : Prog σ ε α).value s = .ok (f s) := rfl

theorem value_transact {f : σ → Except ε (α × σ)} {s : σ} (h : f s = .ok (a, s)) :
    (transact f).value s = .ok a := by
  show (match f s with
    | .ok out => (ret out.1 : Prog σ ε α)
    | .error e => fail e).value s = .ok a
  rw [h]
  rfl

theorem value_attempt (h : t.value s = .ok a) : t.attempt.value s = .ok (.ok a) := by
  induction t with
  | ret =>
    cases h
    rfl
  | fail => cases h
  | step next rest ih => exact ih s h

theorem value_bind (h : t.value s = .ok a) : (t >>= f).value s = (f a).value s := by
  induction t with
  | ret =>
    cases h
    rfl
  | fail => cases h
  | step next rest ih => exact ih s h

/-! ## Programs left alone -/

section

variable (hR : ∀ s s', ¬R s s')

include hR

theorem eq_of_alone {s' : σ} (hstar : ReflTransGen R s s') : s' = s := by
  induction hstar with
  | refl => rfl
  | tail _ hstep _ => exact absurd hstep (hR _ _)

theorem keeping_atomic_alone {f : σ → α × σ} (hI : I (f s).2) (hQ : Q (f s).1 (f s).2) :
    Keeping R I E (atomic f) s Q := by
  intro s' hstar
  rw [eq_of_alone hR hstar]
  exact ⟨hI, hI, hQ⟩

theorem keeping_transact_alone {f : σ → Except ε (α × σ)} {s' : σ}
    (hf : f s = .ok (a, s')) (hI : I s') (hQ : Q a s') :
    Keeping R I E (transact f) s Q := by
  intro s₁ hstar
  rw [eq_of_alone hR hstar]
  dsimp only
  rw [hf]
  exact ⟨hI, hI, hQ⟩

theorem keeping_value (ht : ReadOnly t) (hvalue : t.value s = .ok a) (h : I s) (hQ : Q a s) :
    Keeping R I E t s Q := by
  induction ht with
  | ret =>
    cases hvalue
    exact ⟨h, hQ⟩
  | fail => cases hvalue
  | step hnext _ ih =>
    intro s' hstar
    rw [eq_of_alone hR hstar, hnext s]
    exact ⟨h, ih s hvalue⟩

end

/-! ## Machines -/

structure Machine (σ ε α Call Act : Type) where
  program : Call → Prog σ ε α
  act : Act → σ → σ
  crashed : σ → σ

structure Running (σ ε α : Type) where
  world : σ
  task : Option (Prog σ ε α)

inductive Event (Call Act : Type) where
  /-- A call starts, unless one is running. -/
  | call (c : Call)
  /-- The running program takes a step, or ends. -/
  | tick
  | crash
  | other (a : Act)

namespace Machine

variable {Call Act : Type}

def step (m : Machine σ ε α Call Act) (s : Running σ ε α) : Event Call Act → Running σ ε α
  | .call c =>
    match s.task with
    | none => { s with task := some (m.program c) }
    | some _ => s
  | .tick =>
    match s.task with
    | none => s
    | some (ret _) => { s with task := none }
    | some (fail _) => { s with task := none }
    | some (.step next rest) => ⟨next s.world, some (rest s.world)⟩
  | .crash => ⟨m.crashed s.world, none⟩
  | .other a => { s with world := m.act a s.world }

/-- A return meets `Q` and a failure `E`. -/
def Lawful (Q : α → σ → Prop) (E : ε → σ → Prop) (s : Running σ ε α) :
    Event Call Act → Prop
  | .tick =>
    match s.task with
    | none => True
    | some (ret a) => Q a s.world
    | some (fail e) => E e s.world
    | some (.step _ _) => True
  | _ => True

/-- Calls are made where they may be made, and others do what they may do. -/
def Permitted (Pre : Call → σ → Prop) (May : σ → Act → Prop) (s : Running σ ε α) :
    Event Call Act → Prop
  | .call c => s.task.isNone → Pre c s.world
  | .other a => May s.world a
  | _ => True

instance (Pre : Call → σ → Prop) (May : σ → Act → Prop) [∀ c s, Decidable (Pre c s)]
    [∀ s a, Decidable (May s a)] (s : Running σ ε α) (event : Event Call Act) :
    Decidable (Permitted Pre May s event) :=
  match event with
  | .call c => inferInstanceAs (Decidable (s.task.isNone = true → Pre c s.world))
  | .other a => inferInstanceAs (Decidable (May s.world a))
  | .tick => inferInstanceAs (Decidable True)
  | .crash => inferInstanceAs (Decidable True)

/-- The program goes on as long as it likes. -/
theorem permitted_ticks (m : Machine σ ε α Call Act) (Pre : Call → σ → Prop) (May : σ → Act → Prop)
    (s : Running σ ε α) (n : Nat) :
    Run.Along m.step (Permitted Pre May) s (List.replicate n .tick) := by
  induction n generalizing s with
  | zero => trivial
  | succ n ih => exact ⟨trivial, ih _⟩

def Others (m : Machine σ ε α Call Act) (May : σ → Act → Prop) (s s' : σ) : Prop :=
  ∃ a, May s a ∧ s' = m.act a s

section

variable (m : Machine σ ε α Call Act) {Pre : Call → σ → Prop} {May : σ → Act → Prop} {I : σ → Prop}

def Sound (May : σ → Act → Prop) (I : σ → Prop) (Q : α → σ → Prop)
    (E : ε → σ → Prop) (s : Running σ ε α) : Prop :=
  I s.world ∧ ∀ t ∈ s.task, Keeping (m.Others May) I E t s.world Q

variable (hI : Stable (m.Others May) I) (hcrash : ∀ s, I s → I (m.crashed s))
  (hQ : ∀ a, Stable (m.Others May) (Q a)) (hE : ∀ e, Stable (m.Others May) (E e))
  (hcalls : ∀ c s, I s → Pre c s → Keeping (m.Others May) I E (m.program c) s Q)

include hI hcrash hQ hE hcalls

theorem sound_step (s : Running σ ε α) (event : Event Call Act) (h : m.Sound May I Q E s)
    (hpermitted : Permitted Pre May s event) :
    Lawful Q E s event ∧ m.Sound May I Q E (m.step s event) := by
  obtain ⟨world, task⟩ := s
  obtain ⟨hworld, htask⟩ := h
  cases event with
  | call c =>
    refine ⟨trivial, ?_⟩
    cases task with
    | none =>
      refine ⟨hworld, fun t ht => ?_⟩
      cases ht
      exact hcalls c world hworld (hpermitted rfl)
    | some => exact ⟨hworld, htask⟩
  | tick =>
    cases task with
    | none => exact ⟨trivial, hworld, htask⟩
    | some t =>
      have hsafe := htask t rfl
      cases t with
      | ret | fail => exact ⟨hsafe.2, hworld, nofun⟩
      | step =>
        obtain ⟨hstep, hrest⟩ := hsafe world ReflTransGen.refl
        refine ⟨trivial, hstep, fun t ht => ?_⟩
        cases ht
        exact hrest
  | crash => exact ⟨trivial, hcrash world hworld, nofun⟩
  | other a =>
    have hmove : m.Others May world (m.act a world) := ⟨a, hpermitted, rfl⟩
    refine ⟨trivial, hI _ _ hworld hmove, fun t ht => ?_⟩
    exact (htask t ht).of_rely hI hQ hE hmove

/-- **Safe calls make lawful runs.** An invariant that others and crashes keep, and that every
    permitted call keeps, carries the whole run and holds where it ends. -/
theorem lawful_run {w : σ} (hw : I w) {events : List (Event Call Act)}
    (h : Run.Along m.step (Permitted Pre May) ⟨w, none⟩ events) :
    Run.Along m.step (Lawful Q E) ⟨w, none⟩ events ∧
      I (Run.run m.step ⟨w, none⟩ events).world := by
  have hstep := m.sound_step hI hcrash hQ hE hcalls
  have hsound : m.Sound May I Q E ⟨w, none⟩ := ⟨hw, nofun⟩
  exact ⟨h.along hstep hsound, (h.invariant (fun s e hs hp => (hstep s e hs hp).2) hsound).1⟩

end

end Machine

end Prog
