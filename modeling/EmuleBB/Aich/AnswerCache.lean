import EmuleBB.Lib.Run
import EmuleBB.Lib.Table
import EmuleBB.Wire
import Mathlib.Algebra.BigOperators.Group.List.Basic
import Mathlib.Algebra.Ring.Nat
import Mathlib.Data.Finset.Basic

/-!
# The cache of AICH answers

A peer's request for the recovery data of a part is answered from a cache, or computed with the lock
let go and stored. A guard keeps the key **in flight** meanwhile, so that nobody else computes it,
and gives it up however the call ends. The lookup, the store and the end of the guard are the steps
of a call, and the steps of any number of calls interleave. What the metadata store says in between
is the answer that is stored, or that the guard ends without one.

**The books are kept in every state that is reached** (`answer_cache_accounted`): the cache evicts
by its queue and subtracts what the map gives back, so the two have to hold the same keys, each
once. They do since a key is stored only by a call that found it missing, and no other
call holds its guard.
-/

namespace EmuleBB.Aich

open Run

/-- Master hash, file size and part. -/
abbrev Key := Sha1Digest × UInt64 × UInt16

/-- A `Vec<u8>`, with the memory it takes. -/
structure CachedVec where
  bytes : List UInt8
  capacity : Nat

def CachedVec.cost (answer : CachedVec) : Nat := answer.capacity + 256

def byteLimit : Nat := 64 * 1024 * 1024

structure AnswerCache where
  ready : List (Key × CachedVec)
  order : List Key
  inflight : Finset Key
  bytes : Nat

namespace AnswerCache

variable {c : AnswerCache}

def init : AnswerCache := ⟨[], [], ∅, 0⟩

/-- `error` is the end of the call with this answer: the cached one, or none while the key is in
    flight. -/
def lookup (c : AnswerCache) (key : Key) : Except (Option CachedVec) AnswerCache :=
  match Table.lookup Prod.fst key c.ready with
  | some entry => .error (some entry.2)
  | none =>
    if key ∈ c.inflight then .error none
    else .ok { c with inflight := insert key c.inflight }

/-- The loop that makes room for an answer, over the keys of `order`. -/
def evict (cost : Nat) (c : AnswerCache) : List Key → AnswerCache
  | [] => { c with order := [] }
  | old :: order =>
    if c.bytes + cost > byteLimit then
      match Table.lookup Prod.fst old c.ready with
      | some entry => evict cost { c with
          ready := Table.remove Prod.fst old c.ready, bytes := c.bytes - entry.2.cost } order
      | none => evict cost c order
    else { c with order := old :: order }

/-- The last part of `answer`. An answer larger than the whole budget is not kept. -/
def store (c : AnswerCache) (key : Key) (answer : CachedVec) : AnswerCache :=
  if answer.cost ≤ byteLimit then
    let c := evict answer.cost c c.order
    { c with
      bytes := c.bytes + answer.cost
      order := c.order ++ [key]
      ready := Table.put Prod.fst (key, answer) c.ready }
  else c

/-- The end of the guard, `Inflight::drop`. -/
def release (c : AnswerCache) (key : Key) : AnswerCache :=
  { c with inflight := c.inflight.erase key }

/-- Queue, map and byte count agree, within the limit. -/
structure Booked (c : AnswerCache) : Prop where
  order : c.order = c.ready.map Prod.fst
  nodup : c.order.Nodup
  bytes : c.bytes = (c.ready.map (·.2.cost)).sum
  limit : c.bytes ≤ byteLimit

/-- **The eviction takes entries off the front until there is room**: an empty cache has it. -/
theorem evict_spec {cost : Nat} (hcost : cost ≤ byteLimit) {order : List Key}
    (horder : order = c.ready.map Prod.fst) (hnodup : order.Nodup)
    (hbytes : c.bytes = (c.ready.map (·.2.cost)).sum) :
    let c' := evict cost c order
    c'.order = c'.ready.map Prod.fst ∧ c'.order.Sublist order ∧
      c'.bytes = (c'.ready.map (·.2.cost)).sum ∧ c'.bytes + cost ≤ byteLimit ∧
      c'.inflight = c.inflight := by
  induction order generalizing c with
  | nil =>
    have hready : c.ready = [] := List.map_eq_nil_iff.mp horder.symm
    rw [hready, List.map_nil, List.sum_nil] at hbytes
    exact ⟨horder, .refl _, by simp [evict, hready, hbytes], by simpa [evict, hbytes], rfl⟩
  | cons old order ih =>
    obtain ⟨⟨key, answer⟩, rest, hready, rfl, rfl⟩ := List.map_eq_cons_iff.mp horder.symm
    obtain ⟨hnew, hrest⟩ := List.nodup_cons.mp hnodup
    rw [evict]
    split
    · have hfound : Table.lookup Prod.fst key c.ready = some (key, answer) := by
        simp [Table.lookup, hready]
      -- the front of the queue is the front of the map, and its key stands there once
      have hremove : Table.remove Prod.fst key c.ready = rest := by
        simp only [Table.remove, hready, List.filter_cons_of_neg, not_true_eq_false, ne_eq,
          decide_false, Bool.false_eq_true, not_false_eq_true]
        refine List.filter_eq_self.mpr fun entry hentry => decide_eq_true fun heq => hnew ?_
        exact List.mem_map.mpr ⟨entry, hentry, heq⟩
      simp only [hfound, hremove]
      obtain ⟨h₁, h₂, h₃⟩ := ih (c := { c with ready := rest, bytes := c.bytes - answer.cost }) rfl
        hrest (by simp [hbytes, hready])
      exact ⟨h₁, h₂.cons _, h₃⟩
    · next hroom => exact ⟨horder, .refl _, hbytes, Nat.not_lt.mp hroom, rfl⟩

/-- **Storing an answer for a key that is not there keeps the books.** -/
theorem Booked.store {key : Key} (h : c.Booked) (hkey : key ∉ c.order) (answer : CachedVec) :
    (c.store key answer).Booked ∧ (∀ k ∈ (c.store key answer).order, k = key ∨ k ∈ c.order) ∧
      (c.store key answer).inflight = c.inflight := by
  unfold AnswerCache.store
  split
  · next hcost =>
    obtain ⟨horder, hsub, hbytes, hroom, hinflight⟩ := evict_spec hcost h.order h.nodup h.bytes
    have hnew : key ∉ (evict answer.cost c c.order).order := fun hmem => hkey (hsub.subset hmem)
    have hput : Table.put Prod.fst (key, answer) (evict answer.cost c c.order).ready =
        (evict answer.cost c c.order).ready ++ [(key, answer)] := by
      rw [horder] at hnew
      rw [Table.put, Table.remove, List.filter_eq_self.mpr fun entry hentry => decide_eq_true ?_]
      exact fun heq => hnew (List.mem_map.mpr ⟨entry, hentry, heq⟩)
    refine ⟨⟨?_, ?_, ?_, hroom⟩, fun k hk => ?_, hinflight⟩
    · simp [hput, horder]
    · have hnodup := (h.nodup.sublist hsub).concat hnew
      rwa [List.concat_eq_append] at hnodup
    · simp [hput, hbytes]
    · simp only [List.mem_append, List.mem_singleton] at hk
      exact hk.symm.imp_right fun hk => hsub.subset hk
  · exact ⟨h, fun _ => .inr, rfl⟩

end AnswerCache

/-! ## Calls -/

/-- The cache, and the calls that hold a guard: each with its key, and whether it is
    past the store. -/
structure AnswerCalls where
  cache : AnswerCache
  calls : List (Key × Bool)

namespace AnswerCalls

/-- A step of a call, which is named by its key and by whether it is past the store. -/
inductive Event
  | lookup (key : Key)
  | store (key : Key) (answer : CachedVec)
  | release (key : Key) (stored : Bool)

variable {s : AnswerCalls}

def init : AnswerCalls := ⟨.init, []⟩

/-- A lookup starts a call, unless the answer is cached or the key in flight; the other two go on
    with one. -/
def step (s : AnswerCalls) : Event → AnswerCalls
  | .lookup key =>
    match s.cache.lookup key with
    | .error _ => s
    | .ok cache => ⟨cache, (key, false) :: s.calls⟩
  | .store key answer =>
    if (key, false) ∈ s.calls then
      ⟨s.cache.store key answer, (key, true) :: s.calls.erase (key, false)⟩
    else s
  | .release key stored =>
    if (key, stored) ∈ s.calls then ⟨s.cache.release key, s.calls.erase (key, stored)⟩ else s

/-- The books are kept, a key is in flight exactly while one call holds its guard, and what a call
    has yet to store is not in the cache. -/
structure Sound (s : AnswerCalls) : Prop where
  booked : s.cache.Booked
  calls : (s.calls.map Prod.fst).Nodup
  inflight : ∀ key, key ∈ s.cache.inflight ↔ key ∈ s.calls.map Prod.fst
  absent : ∀ key, (key, false) ∈ s.calls → key ∉ s.cache.order

theorem Sound.step (h : s.Sound) (e : Event) : (s.step e).Sound := by
  cases e with
  | lookup key =>
    simp only [AnswerCalls.step, AnswerCache.lookup]
    split
    · exact h
    · next hfound =>
      split at hfound
      · cases hfound
      · next hnone =>
        split at hfound
        · cases hfound
        · next hfree =>
          cases hfound
          refine ⟨⟨h.booked.order, h.booked.nodup, h.booked.bytes, h.booked.limit⟩, ?_,
            fun k => ?_, fun k hk => ?_⟩
          · exact List.nodup_cons.mpr ⟨(h.inflight key).not.mp hfree, h.calls⟩
          · rw [Finset.mem_insert, h.inflight, List.map_cons, List.mem_cons]
          · obtain heq | hk := List.mem_cons.mp hk
            · cases heq
              rw [h.booked.order, List.mem_map]
              rintro ⟨entry, hentry, heq⟩
              exact Table.lookup_eq_none.mp hnone entry hentry heq
            · exact h.absent k hk
  | store key answer =>
    simp only [AnswerCalls.step]
    split
    · next hcall =>
      have hkeys := (List.perm_cons_erase hcall).map Prod.fst
      obtain ⟨hbooked, horder, hinflight⟩ := h.booked.store (h.absent key hcall) answer
      refine ⟨hbooked, hkeys.nodup_iff.mp h.calls, fun k => ?_, fun k hk hmem => ?_⟩
      · exact hinflight ▸ (h.inflight k).trans hkeys.mem_iff
      · -- another call would store the same key only if both held its guard
        obtain ⟨hgone, -⟩ := List.nodup_cons.mp (hkeys.nodup_iff.mp h.calls)
        have hk : (k, false) ∈ s.calls.erase (key, false) := by simpa using hk
        obtain rfl | hold := horder k hmem
        · exact hgone (List.mem_map_of_mem hk)
        · exact h.absent k (List.mem_of_mem_erase hk) hold
    · exact h
  | release key stored =>
    simp only [AnswerCalls.step]
    split
    · next hcall =>
      have hkeys := (List.perm_cons_erase hcall).map Prod.fst
      obtain ⟨hgone, hrest⟩ := List.nodup_cons.mp (hkeys.nodup_iff.mp h.calls)
      refine ⟨⟨h.booked.order, h.booked.nodup, h.booked.bytes, h.booked.limit⟩, hrest, fun k => ?_,
        fun k hk => h.absent k (List.mem_of_mem_erase hk)⟩
      rw [AnswerCache.release, Finset.mem_erase, h.inflight, hkeys.mem_iff, List.map_cons,
        List.mem_cons]
      exact ⟨fun hk => hk.2.resolve_left hk.1, fun hk => ⟨ne_of_mem_of_not_mem hk hgone, .inr hk⟩⟩
    · exact h

theorem sound_init : init.Sound :=
  ⟨⟨rfl, .nil, rfl, Nat.zero_le _⟩, .nil, fun _ => by simp [init, AnswerCache.init],
    fun _ => by simp [init]⟩

/-- **The answer cache keeps its books.** In every state that any interleaving of calls leads to,
    the order lists the keys of the cache, each once; the bytes are those of the cached answers,
    within the limit; one call per key holds a guard; and no key is in flight when no
    call is left. -/
theorem answer_cache_accounted (events : List Event) :
    let s := run step init events
    s.cache.order = s.cache.ready.map Prod.fst ∧ s.cache.order.Nodup ∧
      s.cache.bytes = (s.cache.ready.map fun entry => entry.2.capacity + 256).sum ∧
      s.cache.bytes ≤ 64 * 1024 * 1024 ∧ (s.calls.map Prod.fst).Nodup ∧
      (s.calls = [] → s.cache.inflight = ∅) := by
  have h : (run step init events).Sound :=
    @invariant _ _ _ _ Sound (fun _ e h => h.step e) events sound_init
  refine ⟨h.booked.order, h.booked.nodup, h.booked.bytes, h.booked.limit, h.calls, fun hcalls => ?_⟩
  refine Finset.eq_empty_of_forall_notMem fun key => ?_
  rw [h.inflight, hcalls]
  exact List.not_mem_nil

end AnswerCalls

end EmuleBB.Aich
