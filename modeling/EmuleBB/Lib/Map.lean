import Mathlib.Data.List.AList

/-!
# Maps read through their lookup

A hash map as Mathlib's association list without repeated keys. The order of its entries is the
iteration order and says nothing. **A map is reasoned about through `lookup` alone**: each operation
below has one lemma that says what every key holds afterwards.
-/

abbrev Map (κ ν : Type) := AList fun _ : κ => ν

namespace Map

variable {κ ν : Type} [DecidableEq κ] {m : Map κ ν} {k j : κ} {v : ν} {f : ν → ν} {p : κ → ν → Bool}

theorem lookup_insert (m : Map κ ν) (k j : κ) (v : ν) :
    (m.insert k v).lookup j = if j = k then some v else m.lookup j := by
  split
  · rename_i h
    subst h
    exact AList.lookup_insert m
  · rename_i h
    exact AList.lookup_insert_ne h

theorem lookup_erase (m : Map κ ν) (k j : κ) :
    (m.erase k).lookup j = if j = k then none else m.lookup j := by
  split
  · rename_i h
    subst h
    exact AList.lookup_erase j m
  · rename_i h
    exact AList.lookup_erase_ne h

theorem mem_entries : ⟨k, v⟩ ∈ m.entries ↔ m.lookup k = some v := AList.mem_lookup_iff.symm

def modify (m : Map κ ν) (k : κ) (f : ν → ν) : Map κ ν :=
  match m.lookup k with
  | some v => m.insert k (f v)
  | none => m

theorem lookup_modify :
    (m.modify k f).lookup j = if j = k then (m.lookup j).map f else m.lookup j := by
  unfold modify
  cases h : m.lookup k with
  | none =>
    by_cases hjk : j = k
    · subst hjk
      simp [h]
    · simp [hjk]
  | some =>
    by_cases hjk : j = k
    · subst hjk
      simp [h]
    · simp [hjk]

def keysWhere (m : Map κ ν) (p : κ → ν → Bool) : List κ :=
  (m.entries.filter fun entry => p entry.1 entry.2).map Sigma.fst

theorem mem_keysWhere : k ∈ m.keysWhere p ↔ ∃ v, m.lookup k = some v ∧ p k v = true := by
  constructor
  · intro h
    obtain ⟨⟨k', v⟩, hmem, rfl⟩ := List.mem_map.mp h
    obtain ⟨hentry, hp⟩ := List.mem_filter.mp hmem
    exact ⟨v, mem_entries.mp hentry, hp⟩
  · rintro ⟨v, hv, hp⟩
    exact List.mem_map.mpr ⟨⟨k, v⟩, List.mem_filter.mpr ⟨mem_entries.mpr hv, hp⟩, rfl⟩

omit [DecidableEq κ] in
theorem nodup_keysWhere : (m.keysWhere p).Nodup :=
  m.keys_nodup.sublist (List.filter_sublist.map Sigma.fst)

def eraseAll (m : Map κ ν) (ks : List κ) : Map κ ν := ks.foldl (fun m k => m.erase k) m

theorem lookup_eraseAll {ks : List κ} :
    (m.eraseAll ks).lookup j = if j ∈ ks then none else m.lookup j := by
  unfold eraseAll
  induction ks generalizing m with
  | nil => simp
  | cons k ks ih =>
    rw [List.foldl_cons, ih, lookup_erase]
    by_cases hk : j = k
    · simp [hk]
    · simp [hk]

def modifyAll (m : Map κ ν) (ks : List κ) (f : ν → ν) : Map κ ν :=
  ks.foldl (fun m k => m.modify k f) m

theorem lookup_modifyAll (m : Map κ ν) {ks : List κ} (hks : ks.Nodup) (f : ν → ν) (j : κ) :
    (m.modifyAll ks f).lookup j = if j ∈ ks then (m.lookup j).map f else m.lookup j := by
  unfold modifyAll
  induction ks generalizing m with
  | nil => simp
  | cons k ks ih =>
    obtain ⟨hk, hks⟩ := List.nodup_cons.mp hks
    rw [List.foldl_cons, ih _ hks, lookup_modify]
    by_cases hjk : j = k
    · subst hjk
      simp [hk]
    · simp [hjk]

end Map

/-- A table of parties in which one moves: what it does now, and that the others stay. -/
theorem Function.update_spec {ι β : Type} [DecidableEq ι] (f : ι → β) (i : ι) (v : β) :
    update f i v i = v ∧ ∀ j, j ≠ i → f j = update f i v j :=
  ⟨update_self i v f, fun _ hj => (update_of_ne hj v f).symm⟩
