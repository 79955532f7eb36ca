import Mathlib.Data.List.Basic
import Mathlib.Data.List.Nodup

/-!
# Keeping the last record of each key

Deduplication where a later record wins. What is left has every key once, and of two parts put one
after the other **the second part keeps its own**: a record of the first part survives only under a
key the second does not have.
-/

namespace KeepLast

open List

variable {α κ : Type} [DecidableEq κ] {key : α → κ} {xs ys : List α} {x : α} {k : κ}

/-- The records that are the last of their key, in order. -/
def keepLast (key : α → κ) : List α → List α
  | [] => []
  | x :: xs => if key x ∈ xs.map key then keepLast key xs else x :: keepLast key xs

theorem keepLast_sublist : (keepLast key xs).Sublist xs := by
  induction xs with
  | nil => exact .slnil
  | cons x xs ih =>
    rw [keepLast]
    split
    · exact ih.cons x
    · exact ih.cons_cons x

theorem mem_of_mem_keepLast (h : x ∈ keepLast key xs) : x ∈ xs := keepLast_sublist.subset h

theorem mem_map_keepLast : k ∈ (keepLast key xs).map key ↔ k ∈ xs.map key := by
  induction xs with
  | nil => rfl
  | cons x xs ih =>
    rw [keepLast]
    split
    · rename_i hx
      rw [ih, map_cons, mem_cons, or_iff_right_of_imp]
      rintro rfl
      exact hx
    · rw [map_cons, map_cons, mem_cons, mem_cons, ih]

theorem nodup_map_keepLast : ((keepLast key xs).map key).Nodup := by
  induction xs with
  | nil => exact .nil
  | cons x xs ih =>
    rw [keepLast]
    split
    · exact ih
    · rename_i hx
      rw [map_cons, nodup_cons, mem_map_keepLast]
      exact ⟨hx, ih⟩

theorem mem_right_of_mem_keepLast (h : x ∈ keepLast key (xs ++ ys)) (hk : key x ∈ ys.map key) :
    x ∈ ys := by
  induction xs with
  | nil => exact mem_of_mem_keepLast h
  | cons y xs ih =>
    rw [cons_append, keepLast] at h
    split at h
    · exact ih h
    · rename_i hy
      obtain rfl | hx := mem_cons.mp h
      · exact absurd (by rw [map_append]; exact mem_append_right _ hk) hy
      · exact ih hx

theorem exists_right_of_mem (hx : x ∈ ys) :
    ∃ y ∈ keepLast key (xs ++ ys), key y = key x ∧ y ∈ ys := by
  have hk : key x ∈ (keepLast key (xs ++ ys)).map key := by
    rw [mem_map_keepLast, map_append]
    exact mem_append_right _ (mem_map_of_mem hx)
  obtain ⟨y, hy, hkey⟩ := mem_map.mp hk
  exact ⟨y, hy, hkey, mem_right_of_mem_keepLast hy (hkey ▸ mem_map_of_mem hx)⟩

end KeepLast
