import EmuleBB.Lib.Run
import Mathlib.Data.Finset.Card
import Mathlib.Data.Finset.Dedup

/-!
# Invalidated shares on their way to core

A shared file that is no longer the verified one is withdrawn and reported. A report is
**scheduled** until core acknowledges it, and a second one for its path and hash joins it. Meanwhile
it is pending or held by a lease, and a lease that is dropped puts it back in front.
-/

namespace EmuleBB.Monitor

open Run

structure Ed2kSharedSourceInvalidation (Path : Type) where
  fileHash : String
  sourcePath : Path
deriving DecidableEq

/-- `Ed2kSharedSourceInvalidationState`, and what the live leases hold. A scheduled key is the pair
    of an invalidation's two fields, so the set is one of invalidations. -/
structure InvalidationSignal (Path : Type) where
  pending : List (Ed2kSharedSourceInvalidation Path)
  scheduled : Finset (Ed2kSharedSourceInvalidation Path)
  leases : List (Ed2kSharedSourceInvalidation Path)

def sharedSourceInvalidationCapacity : Nat := 256

namespace InvalidationSignal

variable {Path : Type} [DecidableEq Path] {s : InvalidationSignal Path}

def init : InvalidationSignal Path := ⟨[], ∅, []⟩

/-- A key that is scheduled is not scheduled again; a full signal refuses. -/
def enqueue (s : InvalidationSignal Path) (key : Ed2kSharedSourceInvalidation Path) :
    Bool × InvalidationSignal Path :=
  if key ∈ s.scheduled then (true, s)
  else if s.scheduled.card ≥ sharedSourceInvalidationCapacity then (false, s)
  else (true, { s with scheduled := insert key s.scheduled, pending := s.pending ++ [key] })

/-- A lease that is acknowledged or dropped is named by what it holds. -/
inductive Event (Path : Type)
  | enqueue (key : Ed2kSharedSourceInvalidation Path)
  | tryRecv
  | acknowledge (key : Ed2kSharedSourceInvalidation Path)
  | drop (key : Ed2kSharedSourceInvalidation Path)

def step (s : InvalidationSignal Path) : Event Path → InvalidationSignal Path
  | .enqueue key => (s.enqueue key).2
  | .tryRecv =>
    match s.pending with
    | [] => s
    | key :: pending => { s with pending, leases := key :: s.leases }
  | .acknowledge key =>
    if key ∈ s.leases then
      { s with scheduled := s.scheduled.erase key, leases := s.leases.erase key }
    else s
  | .drop key =>
    if key ∈ s.leases then
      { s with pending := key :: s.pending, leases := s.leases.erase key }
    else s

/-- The keys that wait or are leased. -/
def held (s : InvalidationSignal Path) : List (Ed2kSharedSourceInvalidation Path) :=
  s.pending ++ s.leases

/-- **What a step does to the keys**: it moves them about, adds one, or acknowledges one. -/
theorem step_cases (s : InvalidationSignal Path) (e : Event Path) :
    ((s.step e).held.Perm s.held ∧ (s.step e).scheduled = s.scheduled) ∨
    (∃ key ∉ s.scheduled, s.scheduled.card < sharedSourceInvalidationCapacity ∧
      (s.step e).held.Perm (key :: s.held) ∧ (s.step e).scheduled = insert key s.scheduled) ∨
    ∃ key ∈ s.leases, e = .acknowledge key ∧ s.held.Perm (key :: (s.step e).held) ∧
      (s.step e).scheduled = s.scheduled.erase key := by
  have hleased {key} (h : key ∈ s.leases) :
    s.held.Perm (key :: (s.pending ++ s.leases.erase key)) :=
    ((List.perm_cons_erase h).append_left s.pending).trans List.perm_middle
  cases e with
  | enqueue key =>
    simp only [step, enqueue]
    split
    · exact .inl ⟨.refl _, rfl⟩
    · next hnew =>
      split
      · exact .inl ⟨.refl _, rfl⟩
      · next hroom =>
        refine .inr (.inl ⟨key, hnew, Nat.not_le.mp hroom, ?_, rfl⟩)
        rw [held, List.append_assoc]
        exact List.perm_middle
  | tryRecv =>
    simp only [step]
    split
    · exact .inl ⟨.refl _, rfl⟩
    · next hpending =>
      refine .inl ⟨?_, rfl⟩
      simp only [held, hpending]
      exact List.perm_middle
  | acknowledge key =>
    simp only [step]
    split
    · next hkey => exact .inr (.inr ⟨key, hkey, rfl, hleased hkey, rfl⟩)
    · exact .inl ⟨.refl _, rfl⟩
  | drop key =>
    simp only [step]
    split
    · next hkey => exact .inl ⟨(hleased hkey).symm, rfl⟩
    · exact .inl ⟨.refl _, rfl⟩

/-- What is scheduled is what is held, once each. -/
structure Sound (s : InvalidationSignal Path) : Prop where
  nodup : s.held.Nodup
  scheduled : ∀ key, key ∈ s.scheduled ↔ key ∈ s.held
  bounded : s.scheduled.card ≤ sharedSourceInvalidationCapacity

theorem Sound.step (h : Sound s) (e : Event Path) : Sound (s.step e) := by
  obtain ⟨hheld, heq⟩ | ⟨key, hnew, hroom, hheld, heq⟩ | ⟨key, -, -, hheld, heq⟩ := step_cases s e
  · exact ⟨hheld.nodup_iff.mpr h.nodup, fun key => by rw [heq, h.scheduled, hheld.mem_iff],
      heq ▸ h.bounded⟩
  · refine ⟨hheld.nodup_iff.mpr (h.nodup.cons ((h.scheduled key).not.mp hnew)), fun j => ?_, ?_⟩
    · rw [heq, Finset.mem_insert, h.scheduled, hheld.mem_iff, List.mem_cons]
    · rw [heq, Finset.card_insert_of_notMem hnew]
      exact hroom
  · obtain ⟨hgone, hrest⟩ := List.nodup_cons.mp (hheld.nodup_iff.mp h.nodup)
    refine ⟨hrest, fun j => ?_, heq ▸ Finset.card_erase_le.trans h.bounded⟩
    rw [heq, Finset.mem_erase, h.scheduled, hheld.mem_iff, List.mem_cons]
    exact ⟨fun hj => hj.2.resolve_left hj.1, fun hj => ⟨ne_of_mem_of_not_mem hj hgone, .inr hj⟩⟩

theorem Sound.run (h : Sound s) (es : List (Event Path)) :
    Sound (run InvalidationSignal.step s es) :=
  @invariant _ _ _ _ Sound (fun _ e h => h.step e) es h

/-- **Invalidations are coalesced and never lost.** In every state that any calls lead to, the
    scheduled keys are those pending and those leased, each in one place and once, at most 256; and
    what an accepted `enqueue` reports is pending or leased until a lease for it is acknowledged. -/
theorem invalidations_never_lost (es : List (Event Path)) :
    let s := run step init es
    s.scheduled = s.pending.toFinset ∪ s.leases.toFinset ∧ s.pending.Disjoint s.leases ∧
      s.pending.Nodup ∧ s.scheduled.card ≤ 256 ∧
      ∀ key, (s.enqueue key).1 = true → ∀ later,
        Along step (fun s e => ¬(e = .acknowledge key ∧ key ∈ s.leases)) (s.enqueue key).2 later →
        key ∈ (run step (s.enqueue key).2 later).held := by
  intro s
  have hs : Sound s := Sound.run (s := init)
    ⟨.nil, fun key => by simp [init, held], Nat.zero_le _⟩ es
  obtain ⟨hpending, -, hdisjoint⟩ := List.nodup_append'.mp hs.nodup
  refine ⟨?_, hdisjoint, hpending, hs.bounded, fun key haccepted later hlater => ?_⟩
  · ext key
    simp [hs.scheduled, held]
  · have hscheduled : key ∈ (s.enqueue key).2.scheduled := by
      revert haccepted
      unfold enqueue
      split
      · next hkey => exact fun _ => hkey
      · split
        · exact Bool.noConfusion
        · exact fun _ => Finset.mem_insert_self _ _
    refine (((hs.step (.enqueue key)).run later).scheduled key).mp ?_
    refine @Along.invariant _ _ _ _ _ _ (fun s => key ∈ s.scheduled) (fun s e hkey he => ?_)
      hlater hscheduled
    obtain ⟨-, heq⟩ | ⟨j, -, -, -, heq⟩ | ⟨j, hj, rfl, -, heq⟩ := step_cases s e
    · exact heq ▸ hkey
    · exact heq ▸ Finset.mem_insert_of_mem hkey
    · rw [heq]
      refine Finset.mem_erase.mpr ⟨?_, hkey⟩
      rintro rfl
      exact he ⟨rfl, hj⟩

end InvalidationSignal

end EmuleBB.Monitor
