import Mathlib.Algebra.Group.Defs
import Mathlib.Data.List.AList
import Mathlib.Tactic.ByContra

/-!
# Saturating counters and keyed updates

Fixed-width counters that stop at a cap. **Saturation loses only what lies above the cap**, so
totals of counters with different caps are compared up to the smallest one: `CutAt c` is that
comparison, which adds up and under which a saturating sum is the sum.

A map of counters is updated by passes over a list of keys that are all different; `get_foldl` is
what such a pass leaves under each key, whatever order the list is in.
-/

/-- A counter that stops at `cap`. -/
structure Capped (cap : Nat) where
  val : Nat
  le : val ≤ cap
  deriving DecidableEq

namespace Capped

variable {cap : Nat}

def ofNat (cap n : Nat) : Capped cap := ⟨min n cap, Nat.min_le_right n cap⟩

def add (x y : Capped cap) : Capped cap := ofNat cap (x.val + y.val)

instance : Zero (Capped cap) := ⟨⟨0, Nat.zero_le cap⟩⟩

instance : Add (Capped cap) := ⟨add⟩

@[simp] theorem val_zero : (0 : Capped cap).val = 0 := rfl

@[simp] theorem val_ofNat (n : Nat) : (ofNat cap n).val = min n cap := rfl

@[simp] theorem val_add (x y : Capped cap) : (x + y).val = min (x.val + y.val) cap := rfl

theorem ext_val {x y : Capped cap} (h : x.val = y.val) : x = y := by
  cases x
  cases y
  cases h
  rfl

instance : AddZeroClass (Capped cap) where
  zero_add x := ext_val (by
    have hle := x.le
    simp only [val_add, val_zero]
    omega)
  add_zero x := ext_val (by
    have hle := x.le
    simp only [val_add, val_zero]
    omega)

/-! ## Comparison up to a cap -/

/-- `x` is `y`, or what is left of it after cuts at caps that are not below `c`. -/
def CutAt (c x y : Nat) : Prop := x ≤ y ∧ min y c ≤ x

namespace CutAt

variable {c x y z x' y' : Nat}

theorem refl (c x : Nat) : CutAt c x x := ⟨Nat.le_refl x, Nat.min_le_left x c⟩

theorem trans (h : CutAt c x y) (h' : CutAt c y z) : CutAt c x z := by
  obtain ⟨hle, hmin⟩ := h
  obtain ⟨hle', hmin'⟩ := h'
  exact ⟨by omega, by omega⟩

theorem add (h : CutAt c x y) (h' : CutAt c x' y') : CutAt c (x + x') (y + y') := by
  obtain ⟨hle, hmin⟩ := h
  obtain ⟨hle', hmin'⟩ := h'
  exact ⟨by omega, by omega⟩

theorem min_right (h : c ≤ cap) : CutAt c (min x cap) x := by
  refine ⟨Nat.min_le_left x cap, ?_⟩
  omega

theorem min_eq (h : CutAt c x y) : min x c = min y c := by
  obtain ⟨hle, hmin⟩ := h
  omega

end CutAt

theorem cutAt_val_add {c : Nat} (h : c ≤ cap) (x y : Capped cap) :
    CutAt c (x + y).val (x.val + y.val) :=
  CutAt.min_right h

end Capped

/-! ## Passes of keyed updates -/

namespace Keyed

variable {κ α β σ : Type} [DecidableEq κ]

/-- **One pass over distinct keys.** An update that changes its own key only, run over a list
    without repeated keys, leaves each listed key updated once and every other key alone. -/
theorem get_foldl {get : σ → κ → β} {update : σ → κ → α → σ} {change : α → β → β}
    (hget : ∀ s k a k', get (update s k a) k' = if k' = k then change a (get s k) else get s k')
    {entries : List (Sigma fun _ : κ => α)} (hkeys : entries.NodupKeys) (s : σ) (k : κ) :
    get (entries.foldl (fun s e => update s e.1 e.2) s) k =
      (entries.dlookup k).elim (get s k) fun a => change a (get s k) := by
  induction entries generalizing s with
  | nil => rfl
  | cons e entries ih =>
    obtain ⟨k', a⟩ := e
    obtain ⟨hfresh, hkeys⟩ := List.nodupKeys_cons.mp hkeys
    rw [List.foldl_cons, ih hkeys, hget]
    by_cases hk : k = k'
    · -- the key was just updated, so it does not come again
      subst hk
      rw [List.dlookup_eq_none.mpr hfresh, List.dlookup_cons_eq]
      exact if_pos rfl
    · rw [List.dlookup_cons_ne _ _ hk, if_neg hk]

omit [DecidableEq κ] in
/-- What no update touches, the pass does not touch. -/
theorem proj_foldl {proj : σ → β} {update : σ → κ → α → σ}
    (hproj : ∀ s k a, proj (update s k a) = proj s)
    (entries : List (Sigma fun _ : κ => α)) (s : σ) :
    proj (entries.foldl (fun s e => update s e.1 e.2) s) = proj s := by
  induction entries generalizing s with
  | nil => rfl
  | cons e entries ih => rw [List.foldl_cons, ih, hproj]

end Keyed

/-- A finite map of counters; a key that is not there counts nothing. -/
abbrev Counters (κ α : Type) := AList fun _ : κ => α

namespace Counters

variable {κ α : Type} [DecidableEq κ] [AddZeroClass α]

variable (m : Counters κ α)

def amount (k : κ) : α := (m.lookup k).getD 0

def bump (k : κ) (a : α) : Counters κ α := m.insert k (m.amount k + a)

def merge (n : Counters κ α) : Counters κ α := n.entries.foldl (fun m e => m.bump e.1 e.2) m

@[simp] theorem amount_empty (k : κ) : amount (∅ : Counters κ α) k = 0 := by
  simp [amount]

theorem amount_of_lookup {m : Counters κ α} {k : κ} {a : α} (h : m.lookup k = some a) :
    m.amount k = a := by
  rw [amount, h]
  rfl

theorem amount_bump (k : κ) (a : α) (k' : κ) :
    (m.bump k a).amount k' = if k' = k then m.amount k + a else m.amount k' := by
  unfold bump amount
  by_cases hk : k' = k
  · rw [if_pos hk, hk, AList.lookup_insert]
    rfl
  · rw [if_neg hk, AList.lookup_insert_ne hk]

theorem amount_erase (k k' : κ) : amount (m.erase k) k' = if k' = k then 0 else m.amount k' := by
  unfold amount
  by_cases hk : k' = k
  · rw [if_pos hk, hk, AList.lookup_erase]
    rfl
  · rw [if_neg hk, AList.lookup_erase_ne hk]

theorem amount_merge (n : Counters κ α) (k : κ) :
    (m.merge n).amount k = m.amount k + n.amount k := by
  have hpass := @Keyed.get_foldl κ α α _ _ amount bump (fun a b => b + a) amount_bump n.entries
    n.nodupKeys m k
  refine hpass.trans ?_
  show _ = m.amount k + (n.entries.dlookup k).getD 0
  cases n.entries.dlookup k with
  | none => exact (add_zero _).symm
  | some => rfl

end Counters
