import Mathlib.Data.List.Basic

/-!
# Programs that wait for bytes

A program that reads from a socket is a tree: it has returned, or it **waits** for at most so many
bytes and goes on with what it is handed. Its state is written at every wait, because that is all
that is left of the program when it is dropped there.

The socket hands over a piece of what is still on the wire: at least one byte while there is one, at
most what was asked for, and nothing only at the end. `pieceLen` turns an arbitrary number into the
length of such a piece, so that quantifying over numbers quantifies over every delivery.

`Ensures` is the weakest precondition of such a program over **every** delivery: what holds at each
wait, and what holds at the end, which comes once the bytes do (`Ensures.run`). `Keeps` is what
holds of the state alone, whatever the bytes are.
-/

inductive Reading (σ α : Type) : Type
  | done (s : σ) (result : α)
  | await (s : σ) (limit : Nat) (resume : List UInt8 → Reading σ α)

namespace Reading

variable {σ α β : Type} {limit : Nat} {f : σ → α → Reading σ β} {P : σ → Prop}

def bind : Reading σ α → (σ → α → Reading σ β) → Reading σ β
  | done s a, f => f s a
  | await s limit resume, f => await s limit fun bytes => (resume bytes).bind f

def pieceLen (limit n : Nat) : Nat := max 1 (min n limit)

theorem pieceLen_pos (limit n : Nat) : 0 < pieceLen limit n := by
  simp only [pieceLen]
  omega

theorem pieceLen_le (n : Nat) (h : 0 < limit) : pieceLen limit n ≤ limit := by
  simp only [pieceLen]
  omega

theorem length_piece_pos {wire : List UInt8} (limit n : Nat) (h : wire ≠ []) :
    0 < (wire.take (pieceLen limit n)).length := by
  have hwire : 0 < wire.length := List.length_pos_iff.mpr h
  have hpiece := pieceLen_pos limit n
  rw [List.length_take]
  omega

theorem length_piece_le (wire : List UInt8) (n : Nat) (h : 0 < limit) :
    (wire.take (pieceLen limit n)).length ≤ limit := by
  have hpiece := pieceLen_le n h
  rw [List.length_take]
  omega

/-- The run to the end when the pieces come in as `schedule` says: the state, the result and what is
    left on the wire. -/
def run : Reading σ α → (Nat → Nat) → List UInt8 → σ × α × List UInt8
  | done s a, _, wire => (s, a, wire)
  | await _ limit resume, schedule, wire =>
    run (resume (wire.take (pieceLen limit (schedule 0)))) (fun i => schedule (i + 1))
      (wire.drop (pieceLen limit (schedule 0)))

/-- `I` holds of the state and the wire at every wait, and `Q` at the end, however the bytes on the
    wire come in. -/
def Ensures (I : σ → List UInt8 → Prop) (Q : σ → α → List UInt8 → Prop) :
    Reading σ α → List UInt8 → Prop
  | done s a, wire => Q s a wire
  | await s limit resume, wire =>
    I s wire ∧ ∀ n, Ensures I Q (resume (wire.take (pieceLen limit n)))
      (wire.drop (pieceLen limit n))

variable {I I' : σ → List UInt8 → Prop} {Q Q' : σ → α → List UInt8 → Prop} {wire : List UInt8}
  {p : Reading σ α}

theorem Ensures.mono (hI : ∀ s wire, I s wire → I' s wire)
    (hQ : ∀ s a wire, Q s a wire → Q' s a wire) (h : Ensures I Q p wire) :
    Ensures I' Q' p wire := by
  induction p generalizing wire with
  | done s a => exact hQ s a wire h
  | await s limit resume ih =>
    obtain ⟨hs, hresume⟩ := h
    refine ⟨hI s wire hs, ?_⟩
    intro n
    exact ih _ (hresume n)

/-- **The rule of composition.** -/
theorem Ensures.bind {R : σ → β → List UInt8 → Prop}
    (h : Ensures I (fun s a wire => Ensures I R (f s a) wire) p wire) :
    Ensures I R (p.bind f) wire := by
  induction p generalizing wire with
  | done => exact h
  | await s limit resume ih =>
    obtain ⟨hs, hresume⟩ := h
    refine ⟨hs, ?_⟩
    intro n
    exact ih _ (hresume n)

theorem Ensures.run (h : Ensures I Q p wire) (schedule : Nat → Nat) :
    Q (p.run schedule wire).1 (p.run schedule wire).2.1 (p.run schedule wire).2.2 := by
  induction p generalizing wire schedule with
  | done => exact h
  | await s limit resume ih => exact ih _ (h.2 (schedule 0)) fun i => schedule (i + 1)

/-- The state satisfies `P` at every wait and at the end, whatever bytes come in. -/
def Keeps (P : σ → Prop) : Reading σ α → Prop
  | done s _ => P s
  | await s _ resume => P s ∧ ∀ bytes, Keeps P (resume bytes)

theorem Keeps.bind (h : Keeps P p) (hf : ∀ s a, P s → Keeps P (f s a)) : Keeps P (p.bind f) := by
  induction p with
  | done s a => exact hf s a h
  | await s limit resume ih =>
    obtain ⟨hs, hresume⟩ := h
    refine ⟨hs, ?_⟩
    intro bytes
    exact ih bytes (hresume bytes)

theorem Keeps.run (h : Keeps P p) (schedule : Nat → Nat) (wire : List UInt8) :
    P (p.run schedule wire).1 := by
  induction p generalizing wire schedule with
  | done => exact h
  | await s limit resume ih => exact ih _ (h.2 _) _ _

end Reading
