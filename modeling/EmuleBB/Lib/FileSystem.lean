import EmuleBB.Lib.Map
import Mathlib.Data.Nat.Basic

/-!
# Files with an identity

A path leads to an **object**; the object keeps its identity when it is renamed, and a handle leads
to the object whatever becomes of the path. Every edit and every rename leaves a time stamp that was
never used before. A new object takes an identity that no path leads to (`InUse`).
-/

inductive FileKind where
  | regular
  | directory
  /-- A symbolic link, and the object it leads to, if any. -/
  | link (target : Option Nat)
  deriving DecidableEq

structure FileObject where
  kind : FileKind
  bytes : List UInt8
  modified : Nat
  changed : Nat

structure Stamp where
  identity : Nat
  size : Nat
  modified : Nat
  changed : Nat
  deriving DecidableEq

structure FileSystem (π : Type) where
  entries : Map π Nat
  objects : Nat → FileObject
  /-- Identities from here on are unused. -/
  next : Nat
  /-- So are the times from here on. -/
  clock : Nat

namespace FileSystem

variable {π : Type}

section

variable [DecidableEq π] (fs : FileSystem π)

def find (path : π) : Option Nat := fs.entries.lookup path

def stamp (id : Nat) : Stamp :=
  ⟨id, (fs.objects id).bytes.length, (fs.objects id).modified, (fs.objects id).changed⟩

def fingerprint (id : Nat) : Option Stamp :=
  if (fs.objects id).kind = .regular then some (fs.stamp id) else none

def create (path : π) (kind : FileKind) (bytes : List UInt8) : FileSystem π where
  entries := fs.entries.insert path fs.next
  objects := Function.update fs.objects fs.next ⟨kind, bytes, fs.clock, fs.clock⟩
  next := fs.next + 1
  clock := fs.clock + 1

def write (id : Nat) (bytes : List UInt8) : FileSystem π :=
  { fs with
    objects := Function.update fs.objects id
      { fs.objects id with bytes := bytes, modified := fs.clock, changed := fs.clock }
    clock := fs.clock + 1 }

def rename (source destination : π) (id : Nat) : FileSystem π :=
  { fs with
    entries := (fs.entries.erase source).insert destination id
    objects := Function.update fs.objects id { fs.objects id with changed := fs.clock }
    clock := fs.clock + 1 }

def remove (path : π) : FileSystem π := { fs with entries := fs.entries.erase path }

def enter (route : π → π) (entries : Map π Nat) (path : π) : Map π Nat :=
  match fs.find path with
  | some id => entries.insert (route path) id
  | none => entries

/-- What stands at the given paths stands elsewhere, each along `route`; no object is touched. -/
def relink (paths : List π) (route : π → π) : FileSystem π :=
  { fs with entries := paths.foldl (fs.enter route) (fs.entries.eraseAll paths) }

theorem find_create (path : π) (kind : FileKind) (bytes : List UInt8) (p : π) :
    (fs.create path kind bytes).find p = if p = path then some fs.next else fs.find p :=
  Map.lookup_insert _ _ _ _

theorem find_rename (source destination : π) (id : Nat) (p : π) :
    (fs.rename source destination id).find p =
      if p = destination then some id else if p = source then none else fs.find p := by
  show ((fs.entries.erase source).insert destination id).lookup p = _
  rw [Map.lookup_insert, Map.lookup_erase]
  rfl

theorem find_remove (path p : π) : (fs.remove path).find p = if p = path then none else fs.find p :=
  Map.lookup_erase _ _ _

theorem find_of_find_remove {fs : FileSystem π} {path p : π} {id : Nat}
    (h : (fs.remove path).find p = some id) : fs.find p = some id := by
  rw [find_remove] at h
  split at h
  · cases h
  · exact h

theorem find_relink {fs : FileSystem π} {paths : List π} {route : π → π} {p : π} {id : Nat}
    (h : (fs.relink paths route).find p = some id) :
    (∃ path ∈ paths, route path = p ∧ fs.find path = some id) ∨
      p ∉ paths ∧ fs.find p = some id := by
  -- along the paths, for any map that is filled on the way
  have hfold : ∀ (rest : List π) (entries : Map π Nat),
      (rest.foldl (fs.enter route) entries).lookup p = some id →
      (∃ path ∈ rest, route path = p ∧ fs.find path = some id) ∨ entries.lookup p = some id := by
    intro rest
    induction rest with
    | nil => exact fun _ hfind => .inr hfind
    | cons path rest ih =>
      intro entries hfind
      obtain ⟨later, hmem, hlater⟩ | hnow := ih _ hfind
      · exact .inl ⟨later, List.mem_cons_of_mem _ hmem, hlater⟩
      · unfold enter at hnow
        split at hnow
        · next hpath =>
          rw [Map.lookup_insert] at hnow
          split at hnow
          · next heq =>
            cases hnow
            exact .inl ⟨path, List.mem_cons_self, heq.symm, hpath⟩
          · exact .inr hnow
        · exact .inr hnow
  obtain hmoved | hold := hfold paths _ h
  · exact .inl hmoved
  · rw [Map.lookup_eraseAll] at hold
    split at hold
    · cases hold
    · next hp => exact .inr ⟨hp, hold⟩

end

/-! ## Identities in use -/

/-- No path leads to an identity that is unused. -/
def InUse [DecidableEq π] (fs : FileSystem π) : Prop :=
  ∀ path id, fs.find path = some id → id < fs.next

section

variable [DecidableEq π] {fs : FileSystem π}

theorem inUse_of_entries (h : ∀ entry ∈ fs.entries.entries, entry.2 < fs.next) : fs.InUse :=
  fun _ _ hfind => h _ (Map.mem_entries.mpr hfind)

theorem InUse.create (h : fs.InUse) (path : π) (kind : FileKind) (bytes : List UInt8) :
    (fs.create path kind bytes).InUse := by
  intro path' id hfind
  rw [find_create] at hfind
  split at hfind
  · cases hfind
    exact Nat.lt_succ_self _
  · exact Nat.lt_succ_of_lt (h path' id hfind)

theorem InUse.write (h : fs.InUse) (id : Nat) (bytes : List UInt8) : (fs.write id bytes).InUse := h

theorem InUse.rename (h : fs.InUse) {source destination : π} {id : Nat} (hknown : id < fs.next) :
    (fs.rename source destination id).InUse := by
  intro path id' hfind
  rw [find_rename] at hfind
  split at hfind
  · cases hfind
    exact hknown
  · split at hfind
    · cases hfind
    · exact h path id' hfind

theorem InUse.remove (h : fs.InUse) (path : π) : (fs.remove path).InUse :=
  fun path' id hfind => h path' id (find_of_find_remove hfind)

theorem InUse.relink (h : fs.InUse) {paths : List π} {route : π → π} :
    (fs.relink paths route).InUse := by
  intro path id hfind
  obtain ⟨source, -, -, hsource⟩ | ⟨-, hsame⟩ := find_relink hfind
  · exact h source id hsource
  · exact h path id hsame

end

/-! ## Objects -/

theorem objects_rename [DecidableEq π] (fs : FileSystem π) (source destination : π) (id id' : Nat) :
    ∃ time, (fs.rename source destination id).objects id' =
      { fs.objects id' with changed := time } := by
  by_cases heq : id' = id
  · subst heq
    exact ⟨fs.clock, Function.update_self _ _ _⟩
  · exact ⟨(fs.objects id').changed, Function.update_of_ne heq _ _⟩

theorem fingerprint_eq_some {fs : FileSystem π} {id : Nat} {seen : Stamp} :
    fs.fingerprint id = some seen ↔ (fs.objects id).kind = .regular ∧ fs.stamp id = seen := by
  unfold fingerprint
  split
  · next h => simp [h]
  · next h => simp [h]

end FileSystem
