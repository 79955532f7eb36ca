import Mathlib.Data.List.Perm.Basic
import Mathlib.Logic.Function.Basic

/-!
# An index of the positions of a list

A list whose records may carry a key, beside a map from keys to positions. The index is **exact**
when it answers a position for a key exactly if that position carries the key: a stale position, a
missing key and a key carried twice are all excluded by the one equivalence. Kept under an append,
and under removal by moving the last record into the hole, which patches the index at two keys.
-/

namespace SlotIndex

open List

variable {α κ : Type}

def Indexes (keys : List (Option κ)) (m : κ → Option Nat) : Prop :=
  ∀ k i, m k = some i ↔ keys[i]? = some (some k)

variable {keys : List (Option κ)} {m : κ → Option Nat} {k : κ} {i : Nat}

/-- A key the index does not know is nowhere in the list. -/
theorem Indexes.eq_none_iff (h : Indexes keys m) : m k = none ↔ some k ∉ keys := by
  rw [Option.eq_none_iff_forall_ne_some, mem_iff_getElem?, not_exists]
  exact forall_congr' fun i => not_congr (h k i)

theorem Indexes.nodup (h : Indexes keys m) : (keys.filterMap id).Nodup := by
  rw [List.Nodup, pairwise_filterMap, pairwise_iff_getElem]
  intro i j hi hj hij k hk k' hk' heq
  subst heq
  have hki : m k = some i := (h k i).mpr (by rw [getElem?_eq_getElem hi]; simpa using hk)
  have hkj : m k = some j := (h k j).mpr (by rw [getElem?_eq_getElem hj]; simpa using hk')
  have hsame : i = j := Option.some.inj (hki.symm.trans hkj)
  omega

theorem Indexes.snoc_none (h : Indexes keys m) : Indexes (keys ++ [none]) m := by
  intro k i
  rw [h k i, getElem?_append]
  split
  · rfl
  · rw [getElem?_eq_none (by omega)]
    cases i - keys.length <;> simp

variable [DecidableEq κ] {xs : List α}

theorem Indexes.snoc (h : Indexes keys m) (hk : m k = none) :
    Indexes (keys ++ [some k]) (Function.update m k (some keys.length)) := by
  intro k' i
  rw [getElem?_append]
  by_cases hkk : k' = k
  · subst hkk
    rw [Function.update_self]
    split
    · rename_i hi
      -- a fresh key is at no earlier position
      have hnot : keys[i]? ≠ some (some k') := fun hc => by simp [(h k' i).mpr hc] at hk
      simp only [hnot, iff_false, Option.some.injEq]
      omega
    · rw [getElem?_singleton]
      split <;> simp <;> omega
  · rw [Function.update_of_ne hkk, h k' i]
    split
    · rfl
    · rw [getElem?_eq_none (by omega), getElem?_singleton]
      split
      · simp [Ne.symm hkk]
      · simp

/-! ## Changing a record in place -/

theorem countP_set_add {x : α} (q : α → Bool) (y : α) (h : xs[i]? = some x) :
    (xs.set i y).countP q + (q x).toNat = xs.countP q + (q y).toNat := by
  obtain ⟨hi, rfl⟩ := List.getElem?_eq_some_iff.mp h
  have hset := (List.set_perm_cons_eraseIdx hi y).countP_eq q
  have hself := (List.getElem_cons_eraseIdx_perm hi).countP_eq q
  rw [List.countP_cons] at hset hself
  rw [hset, ← hself]
  cases q y <;> cases q xs[i] <;> simp

/-! ## Removal by moving the last record -/

def swapRemove (i : Nat) (xs : List α) : List α :=
  match xs.getLast? with
  | none => xs
  | some last => (xs.set i last).dropLast

theorem swapRemove_concat (xs : List α) (last : α) :
    swapRemove i (xs ++ [last]) = if i < xs.length then xs.set i last else xs := by
  rw [swapRemove, getLast?_concat]
  dsimp only
  split
  · rename_i hi
    rw [set_append_left _ _ hi, dropLast_concat]
  · rw [set_append_right _ _ (by omega)]
    cases i - xs.length <;> simp

theorem mem_of_mem_swapRemove {i : Nat} {x : α} (h : x ∈ swapRemove i xs) : x ∈ xs := by
  obtain rfl | ⟨ys, last, rfl⟩ := xs.eq_nil_or_concat'
  · exact h
  · rw [swapRemove_concat] at h
    split at h
    · obtain hx | rfl := mem_or_eq_of_mem_set h
      · exact mem_append_left _ hx
      · simp
    · exact mem_append_left _ h

theorem map_swapRemove {β : Type} (f : α → β) (i : Nat) (xs : List α) :
    (swapRemove i xs).map f = swapRemove i (xs.map f) := by
  obtain rfl | ⟨ys, last, rfl⟩ := xs.eq_nil_or_concat'
  · rfl
  · rw [swapRemove_concat, map_append, map_singleton, swapRemove_concat, length_map]
    split
    · rw [map_set]
    · rfl

theorem cons_swapRemove_perm {i : Nat} {x : α} (h : xs[i]? = some x) :
    (x :: swapRemove i xs).Perm xs := by
  obtain ⟨hi, rfl⟩ := List.getElem?_eq_some_iff.mp h
  refine .trans (.cons _ ?_) (List.getElem_cons_eraseIdx_perm hi)
  obtain rfl | ⟨ys, last, rfl⟩ := xs.eq_nil_or_concat'
  · cases hi
  rw [swapRemove_concat]
  split
  · rename_i hlt
    rw [List.eraseIdx_append_of_lt_length hlt]
    exact (List.set_perm_cons_eraseIdx hlt last).trans (List.perm_append_singleton _ _).symm
  · rw [List.length_append, List.length_singleton] at hi
    obtain rfl : i = ys.length := by omega
    rw [List.eraseIdx_append_of_length_le (Nat.le_refl _)]
    simp

def patch (m : κ → Option Nat) (k : κ) (i : Nat) : Option (Option κ) → κ → Option Nat
  | some (some moved) => Function.update (Function.update m k none) moved (some i)
  | _ => Function.update m k none

/-- **The patch keeps the index** over a removal by moving the last record. -/
theorem Indexes.swapRemove (h : Indexes keys m) (hk : m k = some i) :
    Indexes (swapRemove i keys) (patch m k i (SlotIndex.swapRemove i keys)[i]?) := by
  obtain rfl | ⟨ys, last, rfl⟩ := keys.eq_nil_or_concat'
  · cases (h k i).mp hk
  have hpos : ∀ k' j, m k' = some j ↔ ys[j]? = some (some k') ∨ j = ys.length ∧ last = some k' := by
    intro k' j
    rw [h k' j]
    grind
  -- a key has one position, and a position one key
  have hone : ∀ k' j j', m k' = some j → m k' = some j' → j = j' := by
    intro k' j j' hj hj'
    exact Option.some.inj (hj.symm.trans hj')
  rw [swapRemove_concat]
  by_cases hi : i < ys.length
  · -- the last record moved into the hole
    rw [if_pos hi, getElem?_set_self hi]
    intro k' j
    cases last with
    | none =>
      simp only [patch]
      grind [Function.update_apply]
    | some moved =>
      have hmoved : m moved = some ys.length := (hpos moved ys.length).mpr (.inr ⟨rfl, rfl⟩)
      simp only [patch]
      grind [Function.update_apply]
  · -- the record was the last one itself
    rw [if_neg hi, getElem?_eq_none (by omega)]
    intro k' j
    simp only [patch]
    grind [Function.update_apply]

end SlotIndex
