import Mathlib.Data.List.Induction
import EmuleBB.Lib.PackedBits
import EmuleBB.Lib.Run
import EmuleBB.Lib.SlotIndex
import EmuleBB.Wire

/-!
# The shared catalog and its hash index

Beside the ordered list of shared files stand **an index** from a raw file hash to the position of
the entry a peer is served from, and **the number of completed files**. Some operations rebuild both
from the list, others patch them in place; removal moves the last entry, whatever it is,
into the hole.

Compatibility hints are in the list and never in the index, and so is an entry whose hash text does
not parse. `catalog_index_exact` is the law of the whole type: over every sequence of operations
that supplies no second non-hint entry for a hash, the derived structures say exactly what
the list says.
-/

namespace EmuleBB.Catalog

open SlotIndex List

/-! ## Entries -/

/-- Two characters under `u8::from_str_radix(_, 16)`, which takes a leading plus sign. -/
def byteFromHex (hi lo : Char) : Option UInt8 := do
  let high ← if hi = '+' then some 0 else PackedBits.hexValue hi
  let low ← PackedBits.hexValue lo
  return UInt8.ofNat (16 * high + low)

def bytesFromHex : List Char → Option (List UInt8)
  | [] => some []
  | [_] => none
  | hi :: lo :: rest => do
    let byte ← byteFromHex hi lo
    let bytes ← bytesFromHex rest
    return byte :: bytes

/-- Text whose characters are single bytes; on other text `from_str` may slice inside a character,
    which panics. -/
abbrev HashText := { chars : List Char // chars.all fun c => c.utf8Size = 1 }

/-- `Ed2kHash::from_str`. -/
def ed2kHashFromStr (text : HashText) : Option Md4Digest := do
  let bytes ← if text.1.length = 32 then bytesFromHex text.1 else none
  if h : bytes.length = 16 then return ⟨bytes.toArray, by simpa using h⟩ else none

/-- One shared file. The index reads the hash and two flags; `details` is everything else. -/
structure SharedEntry (δ : Type) where
  fileHash : HashText
  verifiedComplete : Bool
  compatibilityHint : Bool
  details : δ
  deriving DecidableEq

namespace SharedEntry

variable {δ : Type}

def entryHashKey (entry : SharedEntry δ) : Option Md4Digest := ed2kHashFromStr entry.fileHash

def indexKey (entry : SharedEntry δ) : Option Md4Digest :=
  if entry.compatibilityHint then none else entry.entryHashKey

def completed (entry : SharedEntry δ) : Bool := !entry.compatibilityHint && entry.verifiedComplete

end SharedEntry

open SharedEntry

/-! ## The catalog -/

/-- The shared files, an index into them by hash, and a count that is kept beside them. -/
structure IndexedSharedCatalog (δ : Type) where
  entries : List (SharedEntry δ)
  byHash : Md4Digest → Option Nat
  completedVerifiedCount : Nat

def orInsert (byHash : Md4Digest → Option Nat) (key : Md4Digest) (idx : Nat) :
    Md4Digest → Option Nat :=
  if (byHash key).isSome then byHash else Function.update byHash key (some idx)

namespace IndexedSharedCatalog

variable {δ : Type}

def empty : IndexedSharedCatalog δ := ⟨[], fun _ => none, 0⟩

def indexEntry (derived : (Md4Digest → Option Nat) × Nat) (item : SharedEntry δ × Nat) :
    (Md4Digest → Option Nat) × Nat :=
  let (entry, idx) := item
  if entry.compatibilityHint then derived
  else
    let count := derived.2 + entry.verifiedComplete.toNat
    match entry.entryHashKey with
    | some key => (orInsert derived.1 key idx, count)
    | none => (derived.1, count)

section

variable (c : IndexedSharedCatalog δ)

def rebuildIndex : IndexedSharedCatalog δ :=
  let derived := c.entries.zipIdx.foldl indexEntry (fun _ => none, 0)
  { c with byHash := derived.1, completedVerifiedCount := derived.2 }

def fromEntries (entries : List (SharedEntry δ)) : IndexedSharedCatalog δ :=
  rebuildIndex ⟨entries, fun _ => none, 0⟩

def push (entry : SharedEntry δ) : IndexedSharedCatalog δ :=
  let idx := c.entries.length
  let count :=
    if !entry.compatibilityHint && entry.verifiedComplete then c.completedVerifiedCount + 1
    else c.completedVerifiedCount
  let byHash :=
    if entry.compatibilityHint then c.byHash
    else
      match entry.entryHashKey with
      | some key => orInsert c.byHash key idx
      | none => c.byHash
  ⟨c.entries ++ [entry], byHash, count⟩

/-- The entries a closure keeps. The closure may carry state from one entry to the next, so its
    answer depends on the position as well. -/
def kept (keep : Nat → SharedEntry δ → Bool) (entries : List (SharedEntry δ)) :
    List (SharedEntry δ) :=
  (entries.zipIdx.filter fun item => keep item.2 item.1).map Prod.fst

def retain (keep : Nat → SharedEntry δ → Bool) : IndexedSharedCatalog δ :=
  rebuildIndex { c with entries := kept keep c.entries }

def replaceWith (entries : List (SharedEntry δ)) : IndexedSharedCatalog δ :=
  rebuildIndex { c with entries := entries }

def retainPushDedup (keep : Nat → SharedEntry δ → Bool) (newEntry : Option (SharedEntry δ))
    (dedup : List (SharedEntry δ) → List (SharedEntry δ)) : IndexedSharedCatalog δ :=
  rebuildIndex { c with entries := dedup (kept keep c.entries ++ newEntry.toList) }

def mutateAll (mutate : Nat → SharedEntry δ → SharedEntry δ) : IndexedSharedCatalog δ :=
  rebuildIndex { c with entries := c.entries.mapIdx mutate }

def entryByHash (hash : Md4Digest) : Option (SharedEntry δ) :=
  (c.byHash hash).bind fun idx => c.entries[idx]?

/-- An indexed position is a position of the list, or the source's `entries[idx]` would fail: see
    `Consistent`. -/
def updateByHash (hash : Md4Digest) (update : SharedEntry δ → SharedEntry δ) :
    IndexedSharedCatalog δ × Bool :=
  match c.byHash hash with
  | none => (c, false)
  | some idx =>
    match c.entries[idx]? with
    | none => (c, true)
    | some entry =>
      let count :=
        match entry.verifiedComplete, (update entry).verifiedComplete with
        | false, true => c.completedVerifiedCount + 1
        | true, false => c.completedVerifiedCount - 1
        | _, _ => c.completedVerifiedCount
      ({ c with
          entries := c.entries.set idx (update entry)
          completedVerifiedCount := count }, true)

def repairIndex (byHash : Md4Digest → Option Nat) (hash : Md4Digest) (idx : Nat)
    (entries : List (SharedEntry δ)) : Md4Digest → Option Nat :=
  let byHash := Function.update byHash hash none
  match entries[idx]? with
  | none => byHash
  | some moved =>
    if moved.compatibilityHint then byHash
    else
      match moved.entryHashKey with
      | some movedHash => Function.update byHash movedHash (some idx)
      | none => byHash

/-- The entry of a hash is put, replaced or taken out. -/
def upsertVerified (hash : Md4Digest) (newEntry : Option (SharedEntry δ)) :
    IndexedSharedCatalog δ :=
  match c.byHash hash, newEntry with
  | some idx, some entry =>
    let was := (c.entries[idx]?.map (·.verifiedComplete)).getD false
    { c with
      entries := c.entries.set idx entry
      completedVerifiedCount :=
        (c.completedVerifiedCount - was.toNat) + entry.verifiedComplete.toNat }
  | none, some entry =>
    ⟨c.entries ++ [entry], Function.update c.byHash hash (some c.entries.length),
      c.completedVerifiedCount + entry.verifiedComplete.toNat⟩
  | some idx, none =>
    let was := (c.entries[idx]?.map (·.verifiedComplete)).getD false
    let entries := swapRemove idx c.entries
    ⟨entries, repairIndex c.byHash hash idx entries, c.completedVerifiedCount - was.toNat⟩
  | none, none => c

end

/-! ## The law -/

/-- **The derived structures say what the list says**: the index answers a position exactly if the
    entry there is no hint and its text parses to the hash, and the count is the number of completed
    non-hint entries. -/
structure Consistent (c : IndexedSharedCatalog δ) : Prop where
  index : ∀ key idx, c.byHash key = some idx ↔
    ∃ entry, c.entries[idx]? = some entry ∧ entry.compatibilityHint = false ∧
      entry.entryHashKey = some key
  count : c.completedVerifiedCount = c.entries.countP (·.completed)

def DistinctHashes (entries : List (SharedEntry δ)) : Prop :=
  (entries.filterMap (·.indexKey)).Nodup

instance (entries : List (SharedEntry δ)) : Decidable (DistinctHashes entries) :=
  inferInstanceAs (Decidable (List.Nodup _))

end IndexedSharedCatalog

/-- What callers do to the catalog. -/
inductive CatalogOp (δ : Type) where
  | fromEntries (entries : List (SharedEntry δ))
  | push (entry : SharedEntry δ)
  | retain (keep : Nat → SharedEntry δ → Bool)
  | replaceWith (entries : List (SharedEntry δ))
  | retainPushDedup (keep : Nat → SharedEntry δ → Bool) (newEntry : Option (SharedEntry δ))
      (dedup : List (SharedEntry δ) → List (SharedEntry δ))
  | mutateAll (mutate : Nat → SharedEntry δ → SharedEntry δ)
  | updateByHash (hash : Md4Digest) (update : SharedEntry δ → SharedEntry δ)
  | upsertVerified (hash : Md4Digest) (newEntry : Option (SharedEntry δ))

namespace IndexedSharedCatalog

variable {δ : Type} {entry : SharedEntry δ} {c : IndexedSharedCatalog δ} {hash : Md4Digest}
  {idx : Nat} {entries : List (SharedEntry δ)} {key : Md4Digest}
  {update : SharedEntry δ → SharedEntry δ} {newEntry : Option (SharedEntry δ)}
  {byHash : Md4Digest → Option Nat}

def step (c : IndexedSharedCatalog δ) : CatalogOp δ → IndexedSharedCatalog δ
  | .fromEntries entries => .fromEntries entries
  | .push entry => c.push entry
  | .retain keep => c.retain keep
  | .replaceWith entries => c.replaceWith entries
  | .retainPushDedup keep newEntry dedup => c.retainPushDedup keep newEntry dedup
  | .mutateAll mutate => c.mutateAll mutate
  | .updateByHash hash update => (c.updateByHash hash update).1
  | .upsertVerified hash newEntry => c.upsertVerified hash newEntry

/-- **What the caller owes**: except through `upsert_verified`, it supplies no non-hint entry for a
    hash that another one holds; an update keeps the hash and the hint flag of the entry it is
    given; the entry of an upsert is a non-hint entry of the hash it is stored under. -/
def Supplied (c : IndexedSharedCatalog δ) : CatalogOp δ → Prop
  | .fromEntries entries => DistinctHashes entries
  | .push entry => DistinctHashes (c.entries ++ [entry])
  | .retain _ => True
  | .replaceWith entries => DistinctHashes entries
  | .retainPushDedup keep newEntry dedup =>
    DistinctHashes (dedup (kept keep c.entries ++ newEntry.toList))
  | .mutateAll mutate => DistinctHashes (c.entries.mapIdx mutate)
  | .updateByHash hash update =>
    ∀ entry ∈ c.entryByHash hash, (update entry).fileHash = entry.fileHash ∧
      (update entry).compatibilityHint = entry.compatibilityHint
  | .upsertVerified hash newEntry =>
    ∀ entry ∈ newEntry, entry.compatibilityHint = false ∧ entry.entryHashKey = some hash

/-- What the operation takes off the count, on `usize`. -/
def subtracted (c : IndexedSharedCatalog δ) : CatalogOp δ → Nat
  | .updateByHash hash update =>
    ((c.entryByHash hash).map fun entry =>
      (entry.verifiedComplete && !(update entry).verifiedComplete).toNat).getD 0
  | .upsertVerified hash _ =>
    ((c.entryByHash hash).map fun entry => entry.verifiedComplete.toNat).getD 0
  | _ => 0

/-! ### Lists of entries and what is derived from them -/

theorem indexKey_eq_some :
    entry.indexKey = some key ↔ entry.compatibilityHint = false ∧
      entry.entryHashKey = some key := by
  unfold indexKey
  cases entry.compatibilityHint <;> simp

theorem consistent_iff : c.Consistent ↔ Indexes (c.entries.map (·.indexKey)) c.byHash ∧
      c.completedVerifiedCount = c.entries.countP (·.completed) := by
  have hindex : (∀ key idx, c.byHash key = some idx ↔
      ∃ entry, c.entries[idx]? = some entry ∧ entry.compatibilityHint = false ∧
        entry.entryHashKey = some key) ↔ Indexes (c.entries.map (·.indexKey)) c.byHash := by
    simp only [Indexes, getElem?_map, Option.map_eq_some_iff, indexKey_eq_some]
  exact ⟨fun h => ⟨hindex.mp h.index, h.count⟩, fun h => ⟨hindex.mpr h.1, h.2⟩⟩

theorem mem_hashes :
    some key ∈ entries.map (·.indexKey) ↔ key ∈ entries.filterMap (·.indexKey) := by
  simp [mem_filterMap]

theorem DistinctHashes.sublist {entries entries' : List (SharedEntry δ)}
    (h : DistinctHashes entries)
    (hsub : entries'.Sublist entries) : DistinctHashes entries' :=
  List.Nodup.sublist (hsub.filterMap _) h

theorem kept_sublist {keep : Nat → SharedEntry δ → Bool} : (kept keep entries).Sublist entries := by
  have hsub := (filter_sublist (p := fun item => keep item.2 item.1)
    (l := entries.zipIdx)).map Prod.fst
  rwa [zipIdx_map_fst] at hsub

/-- The hashes of a consistent catalog are distinct: the index has one position for each. -/
theorem Consistent.distinct (h : c.Consistent) : DistinctHashes c.entries := by
  have hnodup := (consistent_iff.mp h).1.nodup
  rwa [filterMap_map] at hnodup

/-! ### One entry more -/

theorem Consistent.snoc (h : c.Consistent) (entry : SharedEntry δ)
    (hnew : DistinctHashes (c.entries ++ [entry])) : Consistent ⟨c.entries ++ [entry],
      (indexEntry (c.byHash, c.completedVerifiedCount) (entry, c.entries.length)).1,
      (indexEntry (c.byHash, c.completedVerifiedCount) (entry, c.entries.length)).2⟩ := by
  obtain ⟨hindex, hcount⟩ := consistent_iff.mp h
  rw [consistent_iff]
  rw [map_append, map_singleton, countP_append, countP_singleton]
  unfold indexEntry
  dsimp only
  cases hhint : entry.compatibilityHint with
  | true =>
    have hkey : entry.indexKey = none := by simp [indexKey, hhint]
    rw [hkey]
    exact ⟨hindex.snoc_none, by simp [hcount, completed, hhint]⟩
  | false =>
    have hcompleted : (if entry.completed = true then 1 else 0) = entry.verifiedComplete.toNat := by
      cases hverified : entry.verifiedComplete <;> simp [completed, hhint, hverified]
    rw [hcompleted, if_neg (by simp)]
    cases hkey : entry.entryHashKey with
    | none =>
      have hkey : entry.indexKey = none := by simp [indexKey, hhint, hkey]
      rw [hkey]
      exact ⟨hindex.snoc_none, by rw [hcount]⟩
    | some key =>
      have hkey : entry.indexKey = some key := indexKey_eq_some.mpr ⟨hhint, hkey⟩
      have hfresh : c.byHash key = none := by
        rw [hindex.eq_none_iff, mem_hashes]
        intro hmem
        rw [DistinctHashes, filterMap_append, nodup_append] at hnew
        exact hnew.2.2 key hmem key (by simp [hkey]) rfl
      rw [hkey]
      refine ⟨?_, by rw [hcount]⟩
      have hinsert : orInsert c.byHash key c.entries.length =
          Function.update c.byHash key (some c.entries.length) := by
        simp [orInsert, hfresh]
      change Indexes _ (orInsert c.byHash key c.entries.length)
      rw [hinsert]
      have hlen : c.entries.length = (c.entries.map (·.indexKey)).length := by simp
      rw [hlen]
      exact hindex.snoc hfresh

theorem consistent_empty : (empty : IndexedSharedCatalog δ).Consistent :=
  consistent_iff.mpr ⟨fun _ _ => by simp [empty], rfl⟩

/-- **A rebuild from scratch is consistent** when no hash occurs twice: by induction from the end,
    as the loop goes through the entries in order. -/
theorem consistent_rebuildIndex (h : DistinctHashes entries) {count : Nat} :
    (rebuildIndex ⟨entries, byHash, count⟩).Consistent := by
  induction entries using reverseRec with
  | nil => exact consistent_empty
  | append_singleton entries entry ih =>
    have hfront := ih (h.sublist (sublist_append_left _ _))
    have hsnoc := hfront.snoc entry h
    simpa [rebuildIndex, zipIdx_append, foldl_append] using hsnoc

theorem push_eq : c.push entry = ⟨c.entries ++ [entry],
      (indexEntry (c.byHash, c.completedVerifiedCount) (entry, c.entries.length)).1,
      (indexEntry (c.byHash, c.completedVerifiedCount) (entry, c.entries.length)).2⟩ := by
  unfold push indexEntry
  dsimp only
  cases entry.compatibilityHint <;> cases entry.entryHashKey <;>
    cases entry.verifiedComplete <;> simp

/-! ### One entry changed or removed -/

theorem Consistent.found (h : c.Consistent) (hidx : c.byHash hash = some idx) :
    ∃ entry, c.entries[idx]? = some entry ∧ entry.compatibilityHint = false ∧
      entry.entryHashKey = some hash ∧ c.entryByHash hash = some entry := by
  obtain ⟨entry, hat, hhint, hkey⟩ := (h.index hash idx).mp hidx
  exact ⟨entry, hat, hhint, hkey, by simp [entryByHash, hidx, hat]⟩

theorem Consistent.entryByHash_iff (h : c.Consistent) :
    c.entryByHash hash = some entry ↔ entry ∈ c.entries ∧ entry.compatibilityHint = false ∧
      entry.entryHashKey = some hash := by
  constructor
  · intro hfound
    obtain ⟨idx, hidx, hat⟩ := Option.bind_eq_some_iff.mp hfound
    obtain ⟨entry', hat', hhint, hkey⟩ := (h.index hash idx).mp hidx
    cases hat'.symm.trans hat
    exact ⟨mem_of_getElem? hat, hhint, hkey⟩
  · rintro ⟨hmem, hhint, hkey⟩
    obtain ⟨idx, hat⟩ := mem_iff_getElem?.mp hmem
    rw [entryByHash, (h.index hash idx).mpr ⟨entry, hat, hhint, hkey⟩]
    exact hat

/-- **The count covers what is taken off it**: a completed entry of the list is counted. -/
theorem Consistent.completed_le (h : c.Consistent) (hat : c.entries[idx]? = some entry) :
    entry.completed.toNat ≤ c.completedVerifiedCount := by
  rw [h.count]
  cases hc : entry.completed with
  | false => exact Nat.zero_le _
  | true => exact countP_pos_iff.mpr ⟨entry, mem_of_getElem? hat, hc⟩

theorem Consistent.set (h : c.Consistent) {count : Nat} {old new : SharedEntry δ}
    (hat : c.entries[idx]? = some old) (hkey : new.indexKey = old.indexKey)
    (hcount : count + old.completed.toNat = c.completedVerifiedCount + new.completed.toNat) :
    Consistent ⟨c.entries.set idx new, c.byHash, count⟩ := by
  obtain ⟨hindex, hold⟩ := consistent_iff.mp h
  refine consistent_iff.mpr ⟨?_, ?_⟩
  · -- the list of keys is the same list
    obtain ⟨hlt, rfl⟩ := List.getElem?_eq_some_iff.mp hat
    have hmap : (c.entries.set idx new).map (·.indexKey) = c.entries.map (·.indexKey) := by
      rw [List.map_set, hkey, ← List.map_set, List.set_getElem_self]
    rw [hmap]
    exact hindex
  · have hset := countP_set_add (·.completed) new hat
    dsimp only
    omega

theorem completed_of_indexed (h : entry.compatibilityHint = false) :
    entry.completed = entry.verifiedComplete := by
  simp [completed, h]

theorem consistent_updateByHash (h : c.Consistent) (hash : Md4Digest)
    (update : SharedEntry δ → SharedEntry δ) (hsupplied : c.Supplied (.updateByHash hash update)) :
    (c.updateByHash hash update).1.Consistent := by
  unfold updateByHash
  cases hidx : c.byHash hash with
  | none => exact h
  | some =>
    obtain ⟨entry, hat, hhint, hkey, hentry⟩ := h.found hidx
    obtain ⟨hsame, hflag⟩ := hsupplied entry hentry
    have hle := h.completed_le hat
    rw [completed_of_indexed hhint] at hle
    dsimp only
    rw [hat]
    refine h.set hat ?_ ?_
    · simp [indexKey, entryHashKey, hsame, hflag]
    · rw [completed_of_indexed hhint, completed_of_indexed (hflag.trans hhint)]
      cases hw : entry.verifiedComplete <;> cases hi : (update entry).verifiedComplete <;>
        simp [hw] at hle ⊢
      omega

theorem Consistent.entryByHash_updateByHash (h : c.Consistent) (hash : Md4Digest) :
    (c.updateByHash hash update).1.entryByHash key =
      if key = hash then (c.entryByHash hash).map update else c.entryByHash key := by
  unfold updateByHash
  cases hidx : c.byHash hash with
  | none =>
    show c.entryByHash key = _
    have hnone : c.entryByHash hash = none := by rw [entryByHash, hidx, Option.bind_none]
    split
    · next heq => rw [heq, hnone, Option.map_none]
    · rfl
  | some idx =>
    obtain ⟨entry, hat, -, hkey, hentry⟩ := h.found hidx
    dsimp only
    rw [hat]
    show (c.byHash key).bind (fun i => (c.entries.set idx (update entry))[i]?) = _
    split
    · next heq =>
      have hlt : idx < c.entries.length := (List.getElem?_eq_some_iff.mp hat).1
      rw [heq, hidx, Option.bind_some, List.getElem?_set_self hlt, hentry, Option.map_some]
    · next hne =>
      cases hother : c.byHash key with
      | none => rw [entryByHash, hother, Option.bind_none, Option.bind_none]
      | some i =>
        -- two hashes cannot share a position: the entry there has one hash
        have hi : idx ≠ i := by
          rintro rfl
          obtain ⟨entry', hat', -, hkey', -⟩ := h.found hother
          cases hat'.symm.trans hat
          exact hne (Option.some.inj (hkey'.symm.trans hkey))
        rw [entryByHash, hother, Option.bind_some, Option.bind_some, List.getElem?_set_ne hi]

theorem mem_updateByHash
    (h : entry ∈ (c.updateByHash hash update).1.entries) :
    entry ∈ c.entries ∨ ∃ old ∈ c.entries, update old = entry := by
  unfold updateByHash at h
  split at h
  · exact .inl h
  · split at h
    · exact .inl h
    · next old hat =>
      obtain hmem | heq := mem_or_eq_of_mem_set h
      · exact .inl hmem
      · exact .inr ⟨old, mem_of_getElem? hat, heq.symm⟩

theorem repairIndex_eq (hash : Md4Digest) :
    repairIndex byHash hash idx entries =
      patch byHash hash idx (entries.map (·.indexKey))[idx]? := by
  unfold repairIndex
  rw [getElem?_map]
  cases entries[idx]? with
  | none => rfl
  | some moved =>
    dsimp only [Option.map_some, indexKey]
    cases moved.compatibilityHint <;> cases moved.entryHashKey <;> rfl

theorem consistent_upsertVerified (h : c.Consistent) (hash : Md4Digest)
    (hsupplied : c.Supplied (.upsertVerified hash newEntry)) :
    (c.upsertVerified hash newEntry).Consistent := by
  unfold upsertVerified
  cases hidx : c.byHash hash with
  | none =>
    cases newEntry with
    | none => exact h
    | some entry =>
      obtain ⟨hhint, hkey⟩ := hsupplied entry rfl
      obtain ⟨hindex, hcount⟩ := consistent_iff.mp h
      have hsnoc := hindex.snoc hidx
      rw [← indexKey_eq_some.mpr ⟨hhint, hkey⟩] at hsnoc
      refine consistent_iff.mpr ⟨by simpa using hsnoc, ?_⟩
      dsimp only
      rw [countP_append, countP_singleton, completed_of_indexed hhint, hcount]
      cases entry.verifiedComplete <;> rfl
  | some =>
    obtain ⟨old, hat, hhint, hkey, -⟩ := h.found hidx
    have hle := h.completed_le hat
    rw [completed_of_indexed hhint] at hle
    cases newEntry with
    | some entry =>
      obtain ⟨hnewHint, hnewKey⟩ := hsupplied entry rfl
      dsimp only
      rw [hat]
      refine h.set hat ?_ ?_
      · rw [indexKey_eq_some.mpr ⟨hhint, hkey⟩, indexKey_eq_some.mpr ⟨hnewHint, hnewKey⟩]
      · rw [completed_of_indexed hhint, completed_of_indexed hnewHint]
        simp only [Option.map_some, Option.getD_some]
        omega
    | none =>
      obtain ⟨hindex, hcount⟩ := consistent_iff.mp h
      have hpatched := hindex.swapRemove hidx
      dsimp only
      rw [hat, repairIndex_eq]
      refine consistent_iff.mpr ⟨?_, ?_⟩
      · rw [map_swapRemove]
        exact hpatched
      · have hperm := (cons_swapRemove_perm hat).countP_eq (·.completed)
        rw [countP_cons, completed_of_indexed hhint] at hperm
        cases hv : old.verifiedComplete <;> simp [hv] at hperm ⊢ <;> omega

theorem mem_upsertVerified
    (h : entry ∈ (c.upsertVerified hash newEntry).entries) :
    entry ∈ c.entries ∨ entry ∈ newEntry := by
  unfold upsertVerified at h
  cases hidx : c.byHash hash <;> cases newEntry <;> simp only [hidx] at h
  case none.none => exact .inl h
  case none.some new =>
    obtain h | h := mem_append.mp h
    · exact .inl h
    · exact .inr (by rw [mem_singleton.mp h]; rfl)
  case some.none => exact .inl (mem_of_mem_swapRemove h)
  case some.some =>
    obtain h | rfl := mem_or_eq_of_mem_set h
    · exact .inl h
    · exact .inr rfl

/-! ### Whole runs -/

/-- **One operation keeps index and count true to the list.** -/
theorem consistent_step (c : IndexedSharedCatalog δ) (op : CatalogOp δ) (h : c.Consistent)
    (hsupplied : c.Supplied op) : (c.step op).Consistent := by
  cases op with
  | fromEntries entries | replaceWith entries => exact consistent_rebuildIndex hsupplied
  | push entry =>
    rw [step, push_eq]
    exact h.snoc entry hsupplied
  | retain keep =>
    exact consistent_rebuildIndex (h.distinct.sublist kept_sublist)
  | retainPushDedup | mutateAll => exact consistent_rebuildIndex hsupplied
  | updateByHash hash update => exact consistent_updateByHash h hash update hsupplied
  | upsertVerified hash newEntry => exact consistent_upsertVerified h hash hsupplied

/-- The count never goes below zero. -/
theorem Consistent.subtracted_le (h : c.Consistent) (op : CatalogOp δ) :
    c.subtracted op ≤ c.completedVerifiedCount := by
  have hfound : ∀ hash entry, c.entryByHash hash = some entry →
      entry.verifiedComplete.toNat ≤ c.completedVerifiedCount := by
    intro hash entry hentry
    obtain ⟨hmem, hhint, -⟩ := h.entryByHash_iff.mp hentry
    obtain ⟨idx, hat⟩ := mem_iff_getElem?.mp hmem
    simpa [completed_of_indexed hhint] using h.completed_le hat
  cases op with
  | updateByHash hash update =>
    cases hentry : c.entryByHash hash with
    | none => simp [subtracted, hentry]
    | some entry =>
      refine le_trans ?_ (hfound hash entry hentry)
      simp only [subtracted, hentry, Option.map_some, Option.getD_some]
      cases entry.verifiedComplete <;> cases (update entry).verifiedComplete <;> decide
  | upsertVerified hash =>
    cases hentry : c.entryByHash hash with
    | none => simp [subtracted, hentry]
    | some entry => simpa [subtracted, hentry] using hfound hash entry hentry
  | _ => exact Nat.zero_le _

/-- The entries an upsert of `hash` must leave alone: those of another hash, and the hints. -/
def others (hash : Md4Digest) (entries : List (SharedEntry δ)) : List (SharedEntry δ) :=
  entries.filter fun entry => entry.indexKey ≠ some hash

/-- **The entries of other files stay**, in some order. -/
theorem others_upsertVerified (h : c.Consistent) (hash : Md4Digest)
    (newEntry : Option (SharedEntry δ)) (hsupplied : c.Supplied (.upsertVerified hash newEntry)) :
    (others hash (c.upsertVerified hash newEntry).entries).Perm (others hash c.entries) := by
  unfold upsertVerified
  cases hidx : c.byHash hash with
  | none =>
    cases newEntry with
    | none => exact .refl _
    | some entry =>
      have hkey := indexKey_eq_some.mpr (hsupplied entry rfl)
      simp [others, List.filter_append, hkey]
  | some =>
    obtain ⟨old, hat, hhint, hkey, -⟩ := h.found hidx
    have hold := indexKey_eq_some.mpr ⟨hhint, hkey⟩
    cases newEntry with
    | some entry =>
      have hnew := indexKey_eq_some.mpr (hsupplied entry rfl)
      obtain ⟨hlt, rfl⟩ := List.getElem?_eq_some_iff.mp hat
      have hset := (List.set_perm_cons_eraseIdx hlt entry).filter (·.indexKey ≠ some hash)
      have hself := (List.getElem_cons_eraseIdx_perm hlt).filter (·.indexKey ≠ some hash)
      rw [List.filter_cons_of_neg (by simp [hnew])] at hset
      rw [List.filter_cons_of_neg (by simp [hold])] at hself
      exact hset.trans hself
    | none =>
      have hperm := (cons_swapRemove_perm hat).filter (·.indexKey ≠ some hash)
      rwa [List.filter_cons_of_neg (by simp [hold])] at hperm

/-- **The catalog's index is exact.** After every sequence of operations that supplies no second
    non-hint entry for a hash, the index and the count are those of the list; whatever operation
    comes next, its subtraction is covered by the count; and an upsert leaves every entry of another
    hash and every hint as it was, up to its position. -/
theorem catalog_index_exact (ops : List (CatalogOp δ)) (h : Run.Along step Supplied empty ops) :
    let c : IndexedSharedCatalog δ := Run.run step empty ops
    c.Consistent ∧ (∀ op, c.subtracted op ≤ c.completedVerifiedCount) ∧
      ∀ hash newEntry, c.Supplied (.upsertVerified hash newEntry) →
        (others hash (c.upsertVerified hash newEntry).entries).Perm (others hash c.entries) := by
  have hconsistent := h.invariant consistent_step consistent_empty
  exact ⟨hconsistent, hconsistent.subtracted_le, others_upsertVerified hconsistent⟩

/-- Two files are stored, beside a hint and an entry whose hash does not parse; the first file is
    then removed and the last entry, of no hash at all, moves into its place. -/
theorem catalog_index_exact_after_removal : let a : Md4Digest := .replicate 16 0xaa
    let b : Md4Digest := .replicate 16 0xbb
    let fileA : SharedEntry Unit := ⟨⟨.replicate 32 'a', by decide⟩, true, false, ()⟩
    let fileB : SharedEntry Unit := ⟨⟨.replicate 32 'B', by decide⟩, true, false, ()⟩
    let hintA : SharedEntry Unit := ⟨⟨.replicate 32 'a', by decide⟩, false, true, ()⟩
    let broken : SharedEntry Unit := ⟨⟨['?'], by decide⟩, true, false, ()⟩
    let c := Run.run step empty
      [.fromEntries [fileA, hintA], .upsertVerified b (some fileB), .push broken,
        .upsertVerified a none]
    c.entries = [broken, hintA, fileB] ∧ c.byHash b = some 2 ∧ c.byHash a = none ∧
      c.completedVerifiedCount = 2 ∧ c.Consistent := by
  intro a b fileA fileB hintA broken c
  refine ⟨by decide +kernel, by decide +kernel, by decide +kernel, by decide +kernel, ?_⟩
  refine (catalog_index_exact
    [.fromEntries [fileA, hintA], .upsertVerified b (some fileB), .push broken,
      .upsertVerified a none] ?_).1
  refine ⟨?_, ?_, ?_, ?_, trivial⟩
  · rw [Supplied]
    decide +kernel
  · rintro entry ⟨⟩
    exact ⟨rfl, by decide +kernel⟩
  · rw [Supplied]
    decide +kernel
  · exact nofun

end IndexedSharedCatalog

end EmuleBB.Catalog
