import Mathlib.Data.List.Basic
import Mathlib.Data.List.Nodup

/-!
# Keyed tables

A hash map is a list of records, told apart by a key that is part of the record; a program reads
and writes it through `lookup`, `update`, `remove` and `put`. The order of the list is the map's
iteration order, and a `put` goes to the end: the order says nothing. While **no key occurs
twice**, which every operation keeps, a lookup finds the one record of its key, and an update
changes a count by at most that record.
-/

namespace Table

open List

variable {α κ β : Type} [DecidableEq κ] {key : α → κ} {k : κ} {f : α → α} {xs : List α} {x y : α}

def lookup (key : α → κ) (k : κ) (xs : List α) : Option α := xs.find? fun x => key x = k

def update (key : α → κ) (k : κ) (f : α → α) (xs : List α) : List α :=
  xs.map fun x => if key x = k then f x else x

def remove (key : α → κ) (k : κ) (xs : List α) : List α := xs.filter fun x => key x ≠ k

def put (key : α → κ) (x : α) (xs : List α) : List α := remove key (key x) xs ++ [x]

/-! ## Members -/

theorem mem_of_lookup (h : lookup key k xs = some x) : x ∈ xs ∧ key x = k :=
  ⟨mem_of_find?_eq_some h, by simpa using find?_some h⟩

theorem lookup_of_mem (hxs : (xs.map key).Nodup) (hx : x ∈ xs) :
    lookup key (key x) xs = some x := by
  cases h : lookup key (key x) xs with
  | none => exact absurd (decide_eq_true rfl) (find?_eq_none.mp h x hx)
  | some =>
    obtain ⟨hy, hkey⟩ := mem_of_lookup h
    rw [inj_on_of_nodup_map hxs hy hx hkey]

theorem lookup_eq_none : lookup key k xs = none ↔ ∀ x ∈ xs, key x ≠ k := by
  simp [lookup]

theorem lookup_isSome : (lookup key k xs).isSome ↔ ∃ x ∈ xs, key x = k := by
  simp [lookup]

theorem mem_update : y ∈ update key k f xs ↔ ∃ x ∈ xs, y = if key x = k then f x else x := by
  simp [update, eq_comm]

theorem mem_update_cases (h : y ∈ update key k f xs) :
    (y ∈ xs ∧ key y ≠ k) ∨ ∃ x ∈ xs, key x = k ∧ y = f x := by
  obtain ⟨x, hx, rfl⟩ := mem_update.mp h
  by_cases hk : key x = k
  · exact .inr ⟨x, hx, hk, if_pos hk⟩
  · rw [if_neg hk]
    exact .inl ⟨hx, hk⟩

theorem mem_update_of_ne (hx : x ∈ xs) (hk : key x ≠ k) : x ∈ update key k f xs :=
  mem_update.mpr ⟨x, hx, (if_neg hk).symm⟩

theorem mem_update_self (hx : x ∈ xs) (hk : key x = k) : f x ∈ update key k f xs :=
  mem_update.mpr ⟨x, hx, (if_pos hk).symm⟩

@[simp] theorem mem_remove : x ∈ remove key k xs ↔ x ∈ xs ∧ key x ≠ k := by
  simp [remove]

@[simp] theorem mem_put : y ∈ put key x xs ↔ (y ∈ xs ∧ key y ≠ key x) ∨ y = x := by
  simp [put]

/-! ## Lookups after a change -/

theorem lookup_update_of_ne {j : κ} (hf : ∀ x, key x = k → key (f x) = k) (hjk : j ≠ k) :
    lookup key j (update key k f xs) = lookup key j xs := by
  unfold lookup update
  induction xs with
  | nil => rfl
  | cons x xs ih =>
    by_cases hk : key x = k
    · simpa [hk, hf x hk, Ne.symm hjk] using ih
    · simp only [map_cons, hk, if_false, find?_cons]
      cases decide (key x = j) with
      | true => rfl
      | false => exact ih

theorem lookup_update_self (hf : ∀ x, key x = k → key (f x) = k) :
    lookup key k (update key k f xs) = (lookup key k xs).map f := by
  unfold lookup update
  induction xs with
  | nil => rfl
  | cons x xs ih =>
    by_cases hk : key x = k
    · simp [hk, hf x hk]
    · simpa [hk] using ih

theorem lookup_remove_of_ne {j : κ} (hjk : j ≠ k) :
    lookup key j (remove key k xs) = lookup key j xs := by
  unfold lookup remove
  rw [find?_filter]
  congr 1
  funext x
  by_cases hj : key x = j
  · simp [hj, hjk]
  · simp [hj]

/-! ## One record per key -/

theorem nodup_remove (g : α → β) (h : (xs.map g).Nodup) : ((remove key k xs).map g).Nodup :=
  h.sublist (filter_sublist.map g)

theorem nodup_put (g : α → β) (h : (xs.map g).Nodup)
    (hx : ∀ y ∈ xs, key y ≠ key x → g y ≠ g x) : ((put key x xs).map g).Nodup := by
  rw [put, map_append, nodup_append]
  refine ⟨nodup_remove g h, nodup_singleton _, ?_⟩
  intro a ha b hb
  obtain ⟨y, hy, rfl⟩ := mem_map.mp ha
  obtain rfl : b = g x := by simpa using hb
  obtain ⟨hy, hk⟩ := mem_remove.mp hy
  exact hx y hy hk

theorem nodup_put_key (h : (xs.map key).Nodup) : ((put key x xs).map key).Nodup :=
  nodup_put key h fun _ _ hk => hk

/-! ## Counting -/

section Count

variable {p : α → Bool}

theorem countP_remove_le : (remove key k xs).countP p ≤ xs.countP p :=
  filter_sublist.countP_le

theorem countP_put_le : (put key x xs).countP p ≤ xs.countP p + (if p x then 1 else 0) := by
  rw [put, countP_append]
  have h := @countP_remove_le _ _ _ key (key x) xs p
  rw [countP_singleton]
  omega

/-- A record that is not counted does not weigh when it is removed. -/
theorem countP_remove_of_not (hx : ∀ x ∈ xs, key x = k → p x = false) :
    (remove key k xs).countP p = xs.countP p := by
  rw [remove, countP_filter]
  refine countP_congr fun x hxs => ?_
  by_cases hk : key x = k
  · simp [hk, hx x hxs hk]
  · simp [hk]

theorem countP_remove_lt (hx : x ∈ xs) (hp : p x = true) :
    (remove key (key x) xs).countP p < xs.countP p := by
  rw [countP_eq_countP_filter_add xs p fun y => decide (key y ≠ key x)]
  refine Nat.lt_add_of_pos_right (countP_pos_iff.mpr ⟨x, ?_, hp⟩)
  exact mem_filter.mpr ⟨hx, by simp⟩

theorem countP_update_of_not (hf : ∀ x ∈ xs, key x = k → p (f x) = false) :
    (update key k f xs).countP p = (remove key k xs).countP p := by
  rw [update, countP_map, remove, countP_filter]
  refine countP_congr fun x hx => ?_
  by_cases hk : key x = k
  · simp [hk, hf x hx hk]
  · simp [hk]

/-- An update that counts no record it did not count before does not raise the count. -/
theorem countP_update_le (hf : ∀ x ∈ xs, key x = k → p (f x) = true → p x = true) :
    (update key k f xs).countP p ≤ xs.countP p := by
  rw [update, countP_map]
  refine countP_mono_left fun x hx h => ?_
  by_cases hk : key x = k
  · exact hf x hx hk (by simpa [hk] using h)
  · simpa [hk] using h

/-- **An update raises a count by at most one.** -/
theorem countP_update_le_succ (h : (xs.map key).Nodup) :
    (update key k f xs).countP p ≤ xs.countP p + 1 := by
  induction xs with
  | nil => simp [update]
  | cons x xs ih =>
    rw [map_cons, nodup_cons] at h
    rw [update, map_cons, ← update, countP_cons, countP_cons]
    by_cases hk : key x = k
    · -- no record of the tail has this key
      have htail : ∀ y ∈ xs, key y ≠ k := fun y hy hyk =>
        h.1 (mem_map.mpr ⟨y, hy, hyk.trans hk.symm⟩)
      have hsame := @countP_update_le _ _ _ key k f xs p fun y hy hyk => absurd hyk (htail y hy)
      have hone : (if p (f x) then 1 else 0) ≤ 1 := by split <;> omega
      simp only [hk, if_true]
      omega
    · have := ih h.2
      simp only [hk, if_false]
      omega

end Count

end Table
