import EmuleBB.Catalog.Rebuild

/-!
# Uploaded bytes on their way into the catalog

A served fragment lands in a side map first; if the catalog's write lock is free at that moment the
parked bytes move on into the file's entry, and otherwise they wait for a later fragment or for the
flush at the end of a session. The flush looks at the side map under no lock, then waits for the
catalog, then looks again.

**No interleaving of the two loses a byte or counts one twice**: each moves whatever is parked at
the moment it holds both locks. A rebuild of the complete entries makes each entry anew from the
metadata store, which does not keep the bytes of the session. The counter is documented as one that
"may be rebuilt during a long session", and this is what that costs (`upload_counters_balance`): the
parked bytes survive a rebuild, **the counter starts again at zero**.
-/

namespace EmuleBB.Catalog

open IndexedSharedCatalog SharedCatalog List Metadata Run

/-! ## The code -/

/-- What an entry counts for its file. -/
structure UploadStats where
  allTimeUploadedBytes : Nat
  sessionUploadedBytes : Nat

/-- What a rebuild reads from the metadata store: the complete files with their lifetime bytes, and
    the downloads that can be served in part. -/
structure CatalogRows where
  complete : List (Md4Digest × Nat)
  inProgress : List Md4Digest

/-- `shared_entry_from_catalog_entry` and `Ed2kSharedEntry::from_manifest`: neither has bytes of
    this session to start from. -/
def CatalogRows.projected (rows : CatalogRows) : Metadata UploadStats where
  complete := rows.complete.map fun row => (row.1, ⟨row.2, 0⟩)
  inProgress := rows.inProgress.map fun hash => (hash, ⟨0, 0⟩)

/-- The catalog, and what was counted while it was locked. -/
structure UploadCounters where
  catalog : IndexedSharedCatalog UploadStats
  /-- `pending_catalog_upload`. -/
  pending : Md4Digest → Option Nat
  /-- Flushes past their first look, waiting for the catalog. -/
  flushing : List Md4Digest
  /-- Rebuilds that have read the store. -/
  snapshots : List CatalogRows

/-- Fragments, flushes and rebuilds, in the steps their locks leave. -/
inductive UploadEvent where
  /-- A fragment, and whether the `try_write` gets the lock. -/
  | credit (hash : Md4Digest) (delta : Nat) (locked : Bool)
  /-- The first look of a flush. -/
  | look (hash : Md4Digest)
  /-- The rest of it, under both locks. -/
  | flush (i : Nat)
  /-- The first step of `refresh_complete_shared_catalog`. -/
  | snapshot (rows : CatalogRows)
  /-- Its second step. -/
  | replace (i : Nat)

def creditEntry (amount : Nat) (entry : SharedEntry UploadStats) : SharedEntry UploadStats :=
  { entry with
    details :=
      { allTimeUploadedBytes := saturatingAdd entry.details.allTimeUploadedBytes amount
        sessionUploadedBytes := saturatingAdd entry.details.sessionUploadedBytes amount } }

namespace UploadCounters

def start (catalog : IndexedSharedCatalog UploadStats) : UploadCounters :=
  ⟨catalog, fun _ => none, [], []⟩

def accumulateAndTryFlushCatalogUpload (s : UploadCounters) (hash : Md4Digest) (delta : Nat)
    (locked : Bool) : UploadCounters :=
  let amount := saturatingAdd ((s.pending hash).getD 0) delta
  let s := { s with pending := Function.update s.pending hash (some amount) }
  if amount = 0 then s
  else if locked then
    { s with
      catalog := (s.catalog.updateByHash hash (creditEntry amount)).1
      pending := Function.update s.pending hash none }
  else s

/-- The part of `flush_pending_catalog_upload` before it waits for the catalog. -/
def lookForPending (s : UploadCounters) (hash : Md4Digest) : UploadCounters :=
  let hasPending := (s.pending hash).getD 0 > 0
  if hasPending then { s with flushing := s.flushing ++ [hash] } else s

/-- The part of `flush_pending_catalog_upload` under the locks. -/
def flushPendingCatalogUpload (s : UploadCounters) (hash : Md4Digest) : UploadCounters :=
  match s.pending hash with
  | none => s
  | some amount =>
    let s := { s with pending := Function.update s.pending hash none }
    if amount > 0 then
      { s with catalog := (s.catalog.updateByHash hash (creditEntry amount)).1 }
    else s

def step (s : UploadCounters) : UploadEvent → UploadCounters
  | .credit hash delta locked => s.accumulateAndTryFlushCatalogUpload hash delta locked
  | .look hash => s.lookForPending hash
  | .flush i =>
    match s.flushing[i]? with
    | none => s
    | some hash => { s with flushing := s.flushing.eraseIdx i }.flushPendingCatalogUpload hash
  | .snapshot rows => { s with snapshots := s.snapshots ++ [rows] }
  | .replace i =>
    match s.snapshots[i]? with
    | none => s
    | some rows =>
      { s with
        catalog := s.catalog.replaceWith (rebuilt rows.projected s.catalog.entries)
        snapshots := s.snapshots.eraseIdx i }

/-! ## The books -/

variable {file : Md4Digest} {s : UploadCounters}

/-- What the catalog shows for the session. -/
def sessionBytes (s : UploadCounters) (file : Md4Digest) : Nat :=
  ((s.catalog.entryByHash file).map fun entry => entry.details.sessionUploadedBytes).getD 0

/-- What waits to reach the catalog. -/
def parkedBytes (s : UploadCounters) (file : Md4Digest) : Nat := (s.pending file).getD 0

def creditedBy (file : Md4Digest) : UploadEvent → Nat
  | .credit hash delta _ => if hash = file then delta else 0
  | _ => 0

/-- What was sent of the file. -/
def credited (file : Md4Digest) (events : List UploadEvent) : Nat :=
  (events.map (creditedBy file)).sum

def resetBy (file : Md4Digest) (s : UploadCounters) : UploadEvent → Nat
  | .replace i => if i < s.snapshots.length then s.sessionBytes file else 0
  | _ => 0

/-- What rebuilds set back, entry by entry. -/
def reset (file : Md4Digest) : UploadCounters → List UploadEvent → Nat
  | _, [] => 0
  | s, event :: events => resetBy file s event + reset file (s.step event) events

/-- The rows of the rebuild still have the file. -/
def StaysShared (file : Md4Digest) (rows : CatalogRows) : Prop :=
  ∃ bytes, (file, bytes) ∈ rows.complete

/-- **The file is shared**: the catalog offers it complete, and so will every rebuild that has read
    the store. -/
structure Shares (s : UploadCounters) (file : Md4Digest) : Prop where
  consistent : s.catalog.Consistent
  text : CanonicalText s.catalog.entries
  offered : ∃ entry, s.catalog.entryByHash file = some entry ∧ entry.verifiedComplete = true
  snapshots : ∀ rows ∈ s.snapshots, StaysShared file rows

/-! ## One entry's counter -/

theorem saturatingAdd_of_le {a b : Nat} (h : a + b ≤ u64Max) : saturatingAdd a b = a + b :=
  Nat.min_eq_left h

def afterCredit (s : UploadCounters) (hash : Md4Digest) (amount : Nat) : UploadCounters :=
  { s with catalog := (s.catalog.updateByHash hash (creditEntry amount)).1 }

/-- A credit leaves the catalog in order, with the file still offered, and adds the amount to the
    file's counter if it is the file's. -/
theorem Shares.credit (h : s.Shares file) (hash : Md4Digest) (amount : Nat)
    (hfits : hash = file → s.sessionBytes file + amount ≤ u64Max) :
    (s.afterCredit hash amount).Shares file ∧
      (s.afterCredit hash amount).sessionBytes file =
        s.sessionBytes file + if hash = file then amount else 0 := by
  obtain ⟨entry, hentry, hcomplete⟩ := h.offered
  have hlookup : (s.afterCredit hash amount).catalog.entryByHash file = _ :=
    h.consistent.entryByHash_updateByHash hash
  have hsession : s.sessionBytes file = entry.details.sessionUploadedBytes := by
    rw [sessionBytes, hentry, Option.map_some, Option.getD_some]
  rw [hsession] at hfits ⊢
  have hconsistent : (s.afterCredit hash amount).catalog.Consistent :=
    consistent_updateByHash h.consistent hash _ fun entry _ => ⟨rfl, rfl⟩
  have htext : CanonicalText (s.afterCredit hash amount).catalog.entries := by
    intro entry hmem hhint
    obtain hold | ⟨old, hold, rfl⟩ := mem_updateByHash hmem
    · exact h.text entry hold hhint
    · exact h.text old hold hhint
  by_cases heq : hash = file
  · subst heq
    rw [if_pos rfl, hentry] at hlookup
    refine ⟨⟨hconsistent, htext, ⟨_, hlookup, hcomplete⟩, h.snapshots⟩, ?_⟩
    rw [if_pos rfl, sessionBytes, hlookup]
    exact saturatingAdd_of_le (hfits rfl)
  · rw [if_neg (Ne.symm heq), hentry] at hlookup
    refine ⟨⟨hconsistent, htext, ⟨_, hlookup, hcomplete⟩, h.snapshots⟩, ?_⟩
    rw [if_neg heq, sessionBytes, hlookup, Option.map_some, Option.getD_some, Nat.add_zero]

theorem Shares.replaced (h : s.Shares file) {rows : CatalogRows} (hrows : rows ∈ s.snapshots)
    (s' : UploadCounters) (hcatalog : s'.catalog =
      s.catalog.replaceWith (rebuilt rows.projected s.catalog.entries))
    (hsnapshots : s'.snapshots ⊆ s.snapshots) : s'.Shares file ∧ s'.sessionBytes file = 0 := by
  obtain ⟨bytes, hbytes⟩ := h.snapshots rows hrows
  have hmem : ((file, ⟨bytes, 0⟩) : Md4Digest × UploadStats) ∈ rows.projected.complete :=
    mem_map.mpr ⟨(file, bytes), hbytes, rfl⟩
  obtain ⟨file', hfile', htext, hrebuilt⟩ :=
    exists_complete_mem_rebuilt s.catalog.entries hmem
  obtain ⟨hcanonical, hdistinct⟩ := rebuilt_ok rows.projected h.text
  have hconsistent : s'.catalog.Consistent :=
    hcatalog ▸ consistent_rebuildIndex hdistinct
  have hentries : s'.catalog.entries = rebuilt rows.projected s.catalog.entries := by
    rw [hcatalog]
    rfl
  have hkey : (entryOf true file').entryHashKey = some file := by
    rw [SharedEntry.entryHashKey, entryOf, htext, ed2kHashFromStr_hexText]
  have hfound : s'.catalog.entryByHash file = some (entryOf true file') :=
    hconsistent.entryByHash_iff.mpr ⟨hentries ▸ hrebuilt, rfl, hkey⟩
  refine ⟨⟨hconsistent, hentries ▸ hcanonical, ⟨_, hfound, rfl⟩, fun rows' hrows' =>
    h.snapshots rows' (hsnapshots hrows')⟩, ?_⟩
  rw [sessionBytes, hfound]
  obtain ⟨row, -, rfl⟩ := mem_map.mp hfile'
  rfl

/-! ## One step -/

def park (s : UploadCounters) (hash : Md4Digest) (value : Option Nat) : UploadCounters :=
  { s with pending := Function.update s.pending hash value }

theorem Shares.park (h : s.Shares file) (hash : Md4Digest) (value : Option Nat) :
    (s.park hash value).Shares file :=
  ⟨h.consistent, h.text, h.offered, h.snapshots⟩

theorem parkedBytes_park (hash : Md4Digest) (value : Option Nat) :
    (s.park hash value).parkedBytes file =
      if hash = file then value.getD 0 else s.parkedBytes file := by
  show (Function.update s.pending hash value file).getD 0 = _
  rw [Function.update_apply]
  by_cases heq : hash = file
  · rw [if_pos heq, if_pos heq.symm]
  · rw [if_neg heq, if_neg (Ne.symm heq), parkedBytes]

/-- **A call takes in** some bytes for the file and gives none away. -/
def TakesIn (file : Md4Digest) (inflow : Nat) (s s' : UploadCounters) : Prop :=
  s'.Shares file ∧ s'.sessionBytes file + s'.parkedBytes file =
    s.sessionBytes file + s.parkedBytes file + inflow

section

variable (h : s.Shares file)

include h

/-- The whole of what is parked, `amount`, moves into the entry. `parked` is what the books have as
    parked so far, and `inflow` what is new in `amount`. -/
theorem Shares.takesIn_moved (hash : Md4Digest) {amount inflow : Nat}
    (hmine : hash = file → amount = s.parkedBytes file + inflow) (hother : hash ≠ file → inflow = 0)
    (hfits : s.sessionBytes file + s.parkedBytes file + inflow ≤ u64Max) :
    TakesIn file inflow s ((s.afterCredit hash amount).park hash none) := by
  have hroom : hash = file → s.sessionBytes file + amount ≤ u64Max := by
    intro heq
    rw [hmine heq, ← Nat.add_assoc]
    exact hfits
  obtain ⟨hshares, hsession⟩ := h.credit hash amount hroom
  refine ⟨hshares.park hash none, ?_⟩
  show (s.afterCredit hash amount).sessionBytes file + _ = _
  rw [hsession, parkedBytes_park]
  by_cases heq : hash = file
  · rw [if_pos heq, if_pos heq, hmine heq, Option.getD_none]
    omega
  · rw [if_neg heq, if_neg heq, hother heq]
    rfl

theorem Shares.takesIn_credit (hash : Md4Digest) (delta : Nat) (locked : Bool)
    (hfits : s.sessionBytes file + s.parkedBytes file +
      (if hash = file then delta else 0) ≤ u64Max) :
    TakesIn file (if hash = file then delta else 0) s
      (s.accumulateAndTryFlushCatalogUpload hash delta locked) := by
  generalize hinflow : (if hash = file then delta else 0) = inflow at hfits ⊢
  have hother : hash ≠ file → inflow = 0 := by
    intro hne
    rw [← hinflow, if_neg hne]
  have hmine : hash = file →
      saturatingAdd ((s.pending hash).getD 0) delta = s.parkedBytes file + inflow := by
    rintro rfl
    rw [← hinflow, if_pos rfl] at hfits ⊢
    exact saturatingAdd_of_le (le_trans (Nat.le_add_left _ _) (Nat.add_assoc _ _ _ ▸ hfits))
  unfold accumulateAndTryFlushCatalogUpload
  dsimp only
  generalize saturatingAdd ((s.pending hash).getD 0) delta = amount at hmine ⊢
  -- the fragment is parked in any case; with the lock the parked bytes move on
  have hpark : TakesIn file inflow s (s.park hash (some amount)) := by
    refine ⟨h.park _ _, ?_⟩
    show s.sessionBytes file + _ = _
    rw [parkedBytes_park]
    by_cases heq : hash = file
    · rw [if_pos heq, Option.getD_some, hmine heq, Nat.add_assoc]
    · rw [if_neg heq, hother heq, Nat.add_zero]
  split
  · exact hpark
  · split
    · rw [Function.update_idem]
      exact h.takesIn_moved hash hmine hother hfits
    · exact hpark

theorem Shares.takesIn_flush (hash : Md4Digest)
    (hfits : s.sessionBytes file + s.parkedBytes file ≤ u64Max) :
    TakesIn file 0 s (s.flushPendingCatalogUpload hash) := by
  unfold flushPendingCatalogUpload
  cases hpending : s.pending hash with
  | none => exact ⟨h, rfl⟩
  | some amount =>
    have hmine : hash = file → amount = s.parkedBytes file + 0 := by
      rintro rfl
      rw [parkedBytes, hpending, Option.getD_some, Nat.add_zero]
    dsimp only
    split
    · exact h.takesIn_moved hash hmine (fun _ => rfl) hfits
    · next hzero =>
      refine ⟨h.park _ _, ?_⟩
      show s.sessionBytes file + (s.park hash none).parkedBytes file = _
      rw [parkedBytes_park]
      by_cases heq : hash = file
      · have hnone : s.parkedBytes file = 0 := by
          have := hmine heq
          omega
        rw [if_pos heq, hnone, Option.getD_none]
      · rw [if_neg heq, Nat.add_zero]

/-- **One step balances**: what is in the books and what a replacement takes out of them is what
    was there and what is credited. -/
theorem Shares.step (event : UploadEvent)
    (hshared : ∀ rows, event = .snapshot rows → StaysShared file rows)
    (hfits : s.sessionBytes file + s.parkedBytes file + creditedBy file event ≤ u64Max) :
    (s.step event).Shares file ∧
      (s.step event).sessionBytes file + (s.step event).parkedBytes file + resetBy file s event =
        s.sessionBytes file + s.parkedBytes file + creditedBy file event := by
  cases event with
  | credit hash delta locked => exact h.takesIn_credit hash delta locked hfits
  | look hash =>
    rw [UploadCounters.step, lookForPending]
    split
    · exact ⟨⟨h.consistent, h.text, h.offered, h.snapshots⟩, rfl⟩
    · exact ⟨h, rfl⟩
  | flush i =>
    rw [UploadCounters.step]
    split
    · exact ⟨h, rfl⟩
    · next hash _ =>
      have h' : Shares { s with flushing := s.flushing.eraseIdx i } file :=
        ⟨h.consistent, h.text, h.offered, h.snapshots⟩
      exact h'.takesIn_flush hash hfits
  | snapshot rows =>
    refine ⟨⟨h.consistent, h.text, h.offered, fun rows' hrows' => ?_⟩, rfl⟩
    obtain hold | hnew := List.mem_append.mp hrows'
    · exact h.snapshots rows' hold
    · rw [List.mem_singleton.mp hnew]
      exact hshared rows rfl
  | replace i =>
    rw [UploadCounters.step, resetBy]
    cases hat : s.snapshots[i]? with
    | none =>
      refine ⟨h, ?_⟩
      rw [if_neg (Nat.not_lt.mpr (List.getElem?_eq_none_iff.mp hat))]
      rfl
    | some rows =>
      obtain ⟨hshares, hzero⟩ := h.replaced (List.mem_of_getElem? hat)
        { s with
          catalog := s.catalog.replaceWith (rebuilt rows.projected s.catalog.entries)
          snapshots := s.snapshots.eraseIdx i } rfl fun _ => List.mem_of_mem_eraseIdx
      refine ⟨hshares, ?_⟩
      rw [hzero, if_pos (List.getElem?_eq_some_iff.mp hat).1, Nat.zero_add, Nat.add_comm]
      rfl

/-! ## Runs -/

/-- By induction on the run: each step balances, and what is left of the credits still fits. -/
theorem run_balances {events : List UploadEvent}
    (hshared : ∀ rows, .snapshot rows ∈ events → StaysShared file rows)
    (hfits : s.sessionBytes file + s.parkedBytes file + credited file events ≤ u64Max) :
    (run step s events).sessionBytes file + (run step s events).parkedBytes file +
        reset file s events =
      s.sessionBytes file + s.parkedBytes file + credited file events := by
  induction events generalizing s with
  | nil => rfl
  | cons event events ih =>
    have hsum : credited file (event :: events) =
        creditedBy file event + credited file events := by
      rw [credited, credited, map_cons, sum_cons]
    obtain ⟨hnext, hbalance⟩ := h.step event
      (fun rows heq => hshared rows (heq ▸ mem_cons_self)) (by omega)
    have hrest := ih hnext (fun rows hrows => hshared rows (mem_cons_of_mem _ hrows))
      (by omega)
    rw [run_cons, reset]
    omega

end

/-- **No interleaving loses a fragment or counts one twice, and a rebuild starts the counter
    again.** For a file that is shared throughout, the bytes in its counter, those parked for it and
    those each replacement found in the counter and left out of the new entry are together all that
    was credited. -/
theorem upload_counters_balance {catalog : IndexedSharedCatalog UploadStats} {file : Md4Digest}
    (hshares : (start catalog).Shares file) (hfresh : (start catalog).sessionBytes file = 0)
    (events : List UploadEvent) (hshared : ∀ rows, .snapshot rows ∈ events → StaysShared file rows)
    (hfits : credited file events ≤ u64Max) :
    (run step (start catalog) events).sessionBytes file +
        (run step (start catalog) events).parkedBytes file +
        reset file (start catalog) events = credited file events := by
  have hparked : (start catalog).parkedBytes file = 0 := rfl
  have hrun := run_balances hshares hshared (by rw [hfresh, hparked]; omega)
  omega

def sampleFile : Md4Digest := Vector.replicate 16 7

def sampleEntries : List (SharedEntry UploadStats) :=
  [(sampleFile, ⟨0, 0⟩)].map (entryOf true)

def sampleCatalog : IndexedSharedCatalog UploadStats := .fromEntries sampleEntries

theorem sampleCatalog_shares : (start sampleCatalog).Shares sampleFile where
  consistent := consistent_rebuildIndex (by decide +kernel)
  text := canonicalText_entryOf
  offered := ⟨entryOf true (sampleFile, ⟨0, 0⟩), by rfl, rfl⟩
  snapshots := nofun

def parkedOverRebuild : List UploadEvent :=
  [.credit sampleFile 100 false, .look sampleFile, .snapshot ⟨[(sampleFile, 5)], []⟩, .replace 0,
    .flush 0]

/-- Bytes that are parked over a rebuild. -/
theorem upload_counters_balance_parked :
    (run step (start sampleCatalog) parkedOverRebuild).sessionBytes sampleFile +
        (run step (start sampleCatalog) parkedOverRebuild).parkedBytes sampleFile +
        reset sampleFile (start sampleCatalog) parkedOverRebuild =
      credited sampleFile parkedOverRebuild :=
  upload_counters_balance sampleCatalog_shares (by decide +kernel) parkedOverRebuild
    (by
      intro rows hrows
      simp only [parkedOverRebuild, mem_cons, reduceCtorEq, UploadEvent.snapshot.injEq,
        not_mem_nil, or_false, false_or] at hrows
      exact ⟨5, hrows ▸ mem_singleton_self _⟩)
    (by decide +kernel)

/-- A fragment goes straight into the entry, and a rebuild makes the entry anew: the counter says
    0 of the 100 bytes. -/
theorem rebuild_resets_counter :
    ∃ (catalog : IndexedSharedCatalog UploadStats) (file : Md4Digest) (events : List UploadEvent),
      (start catalog).Shares file ∧ (start catalog).sessionBytes file = 0 ∧
      (∀ rows, .snapshot rows ∈ events → StaysShared file rows) ∧
      credited file events ≤ u64Max ∧
      (run step (start catalog) events).sessionBytes file +
          (run step (start catalog) events).parkedBytes file ≠ credited file events := by
  refine ⟨sampleCatalog, sampleFile,
    [.credit sampleFile 100 true, .snapshot ⟨[(sampleFile, 5)], []⟩, .replace 0],
    sampleCatalog_shares, by decide +kernel, ?_, by decide +kernel, by decide +kernel⟩
  intro rows hrows
  simp only [mem_cons, reduceCtorEq, UploadEvent.snapshot.injEq, not_mem_nil, or_false,
    false_or] at hrows
  exact ⟨5, hrows ▸ mem_singleton_self _⟩

end UploadCounters

end EmuleBB.Catalog
