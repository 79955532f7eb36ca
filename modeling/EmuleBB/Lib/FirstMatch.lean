import Mathlib.Data.List.Basic
import Mathlib.Data.List.Nodup

/-!
# Changing the first match

Tables are lists of records that are searched from the front: an update goes to the first record
that matches. What such an update does to the table's members, and to a key that tells the records
apart.
-/

namespace FirstMatch

variable {α κ : Type} {p : α → Bool} {f : α → α} {key : α → κ} {xs : List α} {x : α}

def modifyFirst (p : α → Bool) (f : α → α) : List α → List α
  | [] => []
  | x :: xs => if p x then f x :: xs else x :: modifyFirst p f xs

/-- **The list around the first match**: a change goes there, and nowhere if nothing matches. -/
theorem modifyFirst_cases (p : α → Bool) (f : α → α) (xs : List α) :
    (xs.find? p = none ∧ modifyFirst p f xs = xs) ∨
    ∃ as x bs, xs = as ++ x :: bs ∧ xs.find? p = some x ∧
      modifyFirst p f xs = as ++ f x :: bs ∧ xs.eraseP p = as ++ bs := by
  induction xs with
  | nil => exact .inl ⟨rfl, rfl⟩
  | cons x xs ih =>
    rw [modifyFirst, List.find?_cons, List.eraseP_cons]
    cases hp : p x with
    | true => exact .inr ⟨[], x, xs, rfl, rfl, rfl, rfl⟩
    | false =>
      obtain ⟨hfind, heq⟩ | ⟨as, y, bs, rfl, hfind, heq, herase⟩ := ih
      · exact .inl ⟨hfind, congrArg (x :: ·) heq⟩
      · exact .inr ⟨x :: as, y, bs, rfl, hfind, congrArg (x :: ·) heq, congrArg (x :: ·) herase⟩

theorem mem_modifyFirst {y : α} (h : y ∈ modifyFirst p f xs) :
    y ∈ xs ∨ ∃ x, xs.find? p = some x ∧ y = f x := by
  obtain ⟨-, heq⟩ | ⟨as, x, bs, rfl, hfind, heq⟩ := modifyFirst_cases p f xs <;> grind

theorem mem_modifyFirst_of_mem (hx : x ∈ xs) : x ∈ modifyFirst p f xs ∨ xs.find? p = some x := by
  obtain ⟨-, heq⟩ | ⟨as, y, bs, rfl, hfind, heq⟩ := modifyFirst_cases p f xs <;> grind

/-- A record that does not match stays. -/
theorem mem_modifyFirst_of_not (hx : x ∈ xs) (hp : p x = false) : x ∈ modifyFirst p f xs :=
  (mem_modifyFirst_of_mem hx).resolve_right fun hfind => by simp [List.find?_some hfind] at hp

theorem mem_modifyFirst_of_find (h : xs.find? p = some x) : f x ∈ modifyFirst p f xs := by
  obtain ⟨hnone, -⟩ | ⟨as, y, bs, -, hfind, heq⟩ := modifyFirst_cases p f xs <;> grind

theorem length_modifyFirst : (modifyFirst p f xs).length = xs.length := by
  obtain ⟨-, heq⟩ | ⟨as, x, bs, rfl, -, heq⟩ := modifyFirst_cases p f xs <;> simp [heq]

theorem countP_modifyFirst (q : α → Bool) (h : xs.find? p = some x) :
    (modifyFirst p f xs).countP q + (if q x then 1 else 0) =
      xs.countP q + (if q (f x) then 1 else 0) := by
  obtain ⟨hnone, -⟩ | ⟨as, y, bs, rfl, hfind, heq⟩ := modifyFirst_cases p f xs <;> grind

theorem countP_eraseP (q : α → Bool) (h : xs.find? p = some x) :
    (xs.eraseP p).countP q + (if q x then 1 else 0) = xs.countP q := by
  obtain ⟨hnone, -⟩ | ⟨as, y, bs, rfl, hfind, -, herase⟩ := modifyFirst_cases p id xs <;> grind

theorem modifyFirst_congr {g : α → α} (h : ∀ x, xs.find? p = some x → f x = g x) :
    modifyFirst p f xs = modifyFirst p g xs := by
  induction xs with
  | nil => rfl
  | cons x xs ih => grind [modifyFirst]

theorem modifyFirst_modifyFirst {g : α → α} (hf : ∀ x, p x = true → p (f x) = true) :
    modifyFirst p g (modifyFirst p f xs) = modifyFirst p (fun x => g (f x)) xs := by
  induction xs with
  | nil => rfl
  | cons x xs ih => grind [modifyFirst]

theorem find_modifyFirst_self (hf : ∀ x, p x = true → p (f x) = true) :
    (modifyFirst p f xs).find? p = (xs.find? p).map f := by
  induction xs with
  | nil => rfl
  | cons x xs ih => grind [modifyFirst]

theorem find_modifyFirst_of_not {q : α → Bool}
    (h : ∀ x, p x = true → q x = false ∧ q (f x) = false) :
    (modifyFirst p f xs).find? q = xs.find? q := by
  induction xs with
  | nil => rfl
  | cons x xs ih => grind [modifyFirst]

theorem modifyFirst_of_fixed (h : ∀ x ∈ xs, p x = true → f x = x) : modifyFirst p f xs = xs := by
  obtain ⟨-, heq⟩ | ⟨as, x, bs, rfl, hfind, heq⟩ := modifyFirst_cases p f xs <;> grind

theorem modifyFirst_eq_map [DecidableEq κ] {k : κ} (hp : ∀ x, p x = true ↔ key x = k)
    (hxs : (xs.map key).Nodup) :
    modifyFirst p f xs = xs.map fun x => if key x = k then f x else x := by
  induction xs with
  | nil => rfl
  | cons x xs ih =>
    rw [List.map_cons, List.nodup_cons] at hxs
    rw [modifyFirst, List.map_cons]
    by_cases hk : key x = k
    · rw [if_pos ((hp x).mpr hk), if_pos hk]
      have htail : xs.map (fun x => if key x = k then f x else x) = xs := by
        refine (List.map_congr_left fun y hy => if_neg fun hyk => ?_).trans (List.map_id' xs)
        exact hxs.1 (List.mem_map.mpr ⟨y, hy, hyk.trans hk.symm⟩)
      rw [htail]
    · rw [if_neg fun h => hk ((hp x).mp h), if_neg hk, ih hxs.2]

theorem map_modifyFirst (hf : ∀ x, key (f x) = key x) (xs : List α) :
    (modifyFirst p f xs).map key = xs.map key := by
  obtain ⟨-, heq⟩ | ⟨as, x, bs, rfl, -, heq⟩ := modifyFirst_cases p f xs <;> simp [heq, hf]

theorem nodup_modifyFirst {k : κ} (hf : ∀ x, key (f x) = k) (hxs : (xs.map key).Nodup)
    (hk : k ∉ xs.map key) : ((modifyFirst p f xs).map key).Nodup := by
  obtain ⟨-, heq⟩ | ⟨as, x, bs, rfl, -, heq⟩ := modifyFirst_cases p f xs
  · rw [heq]
    exact hxs
  · grind

theorem eq_of_key (hxs : (xs.map key).Nodup) {y : α} (hx : x ∈ xs) (hy : y ∈ xs)
    (h : key x = key y) : x = y :=
  List.inj_on_of_nodup_map hxs hx hy h

theorem nodup_filterMap {β : Type} {key' : β → κ} {g : α → Option β}
    (hg : ∀ x y, g x = some y → key' y = key x) (hxs : (xs.map key).Nodup) :
    ((xs.filterMap g).map key').Nodup := by
  refine hxs.sublist ?_
  clear hxs
  induction xs with
  | nil => exact List.Sublist.slnil
  | cons x xs ih =>
    rw [List.filterMap_cons]
    cases hx : g x with
    | none => exact ih.cons _
    | some y =>
      rw [List.map_cons, hg x y hx]
      exact ih.cons_cons _

end FirstMatch
