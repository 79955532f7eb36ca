import EmuleBB.Catalog.Index
import EmuleBB.Lib.KeepLast
import EmuleBB.Peer.Messages

/-!
# Rebuilding the catalog beside other changes

A change of one file **commits its metadata first and touches the catalog second**; a rebuild of all
complete entries takes a snapshot of the metadata first, under no lock, and replaces the catalog
second. `replace_catalog_hints` copies the verified entries under one lock and stores the copy under
another. Between the two steps of any of them every other step may run.

So a rebuild may store what the metadata said before a file changed: the change is undone until the
next rebuild (`rebuild_undoes_a_change`). The path that fills the catalog page by page takes each
file's lock and looks at its metadata again before it stores an entry; these two do not.
A replacement undoes nothing **when what it took is still what is there** (`rebuild_keeps_shares`).
-/

namespace EmuleBB.Catalog

open KeepLast Peer PackedBits List SharedEntry IndexedSharedCatalog Table

variable {δ : Type} {xs ys entries : List (SharedEntry δ)}

/-! ## Steps -/

/-- Of two entries with one hash text and one hint flag the later is kept. -/
def dedupeEntries (entries : List (SharedEntry δ)) : List (SharedEntry δ) :=
  let visit := fun (state : List (HashText × Bool) × List (SharedEntry δ)) entry =>
    let key := (entry.fileHash, entry.compatibilityHint)
    if key ∈ state.1 then state else (key :: state.1, state.2 ++ [entry])
  (entries.reverse.foldl visit ([], [])).2.reverse

theorem hexEncode_utf8Size {bytes : List UInt8} : ∀ c ∈ hexEncode bytes, c.utf8Size = 1 := by
  have hdigit : ∀ n < 16, (hexDigit n).utf8Size = 1 := by decide
  induction bytes with
  | nil => nofun
  | cons byte bytes ih =>
    have hlt : byte.toNat < 256 := byte.toNat_lt
    exact forall_mem_cons.mpr ⟨hdigit _ (by omega), forall_mem_cons.mpr ⟨hdigit _ (by omega), ih⟩⟩

def hexText (digest : Md4Digest) : HashText :=
  ⟨hexEncode digest.toList, by simpa using hexEncode_utf8Size⟩

/-- What the metadata store projects to entries: for a file, a complete entry (a local share or a
    finished download) and the entry of a download in progress that has verified parts. -/
structure Metadata (δ : Type) where
  complete : List (Md4Digest × δ)
  inProgress : List (Md4Digest × δ)

namespace Metadata

section

variable (m : Metadata δ) (hash : Md4Digest)

def completeOf : Option δ :=
  (lookup Prod.fst hash m.complete).map Prod.snd

def inProgressOf : Option δ :=
  (lookup Prod.fst hash m.inProgress).map Prod.snd

def entryOf (verifiedComplete : Bool) (file : Md4Digest × δ) : SharedEntry δ :=
  ⟨hexText file.1, verifiedComplete, false, file.2⟩

def view : Option (SharedEntry δ) :=
  match m.completeOf hash, m.inProgressOf hash with
  | some details, _ => some (entryOf true (hash, details))
  | none, some details => some (entryOf false (hash, details))
  | none, none => none

def store (value : Option δ) (files : List (Md4Digest × δ)) : List (Md4Digest × δ) :=
  match value with
  | some details => put Prod.fst (hash, details) files
  | none => remove Prod.fst hash files

def commit (complete inProgress : Option δ) : Metadata δ :=
  ⟨store hash complete m.complete, store hash inProgress m.inProgress⟩

end

end Metadata

open Metadata

def fromPopularHash (hint : HashText × δ) : Option (SharedEntry δ) :=
  (ed2kHashFromStr hint.1).map fun _ => ⟨hint.1, false, true, hint.2⟩

/-- Metadata, catalog, and the work that has read the one and not yet written the other. -/
structure SharedCatalog (δ : Type) where
  metadata : Metadata δ
  catalog : IndexedSharedCatalog δ
  /-- Changes of one file that committed and have not reached the catalog, with the entry (or none)
      their metadata asks for. -/
  committed : List (Md4Digest × Option (SharedEntry δ))
  /-- Rebuilds that have their snapshot. -/
  snapshots : List (Metadata δ)
  /-- Hint replacements that have their copy. -/
  copies : List (List (SharedEntry δ))

/-- The steps of changes and rebuilds, which interleave. -/
inductive CatalogEvent (δ : Type) where
  /-- The first step of a change of one file: a completion, a refresh or a removal. -/
  | commit (hash : Md4Digest) (complete inProgress : Option δ)
  /-- Its second step. -/
  | change (i : Nat)
  /-- The first step of `refresh_complete_shared_catalog`. -/
  | snapshot
  /-- Its second step. -/
  | replace (i : Nat)
  /-- The first step of `replace_catalog_hints`. -/
  | copy
  /-- Its second step. -/
  | replaceHints (i : Nat) (hints : List (HashText × δ))

namespace SharedCatalog

def rebuilt (snapshot : Metadata δ) (current : List (SharedEntry δ)) : List (SharedEntry δ) :=
  let retained := current.filter fun entry => entry.compatibilityHint || !entry.verifiedComplete
  dedupeEntries (snapshot.inProgress.map (entryOf false) ++ retained ++
    snapshot.complete.map (entryOf true))

def rehinted (copy : List (SharedEntry δ)) (hints : List (HashText × δ)) : List (SharedEntry δ) :=
  dedupeEntries (copy ++ hints.filterMap fromPopularHash)

def empty : SharedCatalog δ := ⟨⟨[], []⟩, .empty, [], [], []⟩

section

variable (s : SharedCatalog δ)

def step : CatalogEvent δ → SharedCatalog δ
  | .commit hash complete inProgress =>
    let metadata := s.metadata.commit hash complete inProgress
    { s with
      metadata := metadata
      committed := s.committed ++ [(hash, metadata.view hash)] }
  | .change i =>
    match s.committed[i]? with
    | none => s
    | some (hash, target) =>
      { s with
        catalog := s.catalog.upsertVerified hash target
        committed := s.committed.eraseIdx i }
  | .snapshot => { s with snapshots := s.snapshots ++ [s.metadata] }
  | .replace i =>
    match s.snapshots[i]? with
    | none => s
    | some snapshot =>
      { s with
        catalog := s.catalog.replaceWith (rebuilt snapshot s.catalog.entries)
        snapshots := s.snapshots.eraseIdx i }
  | .copy =>
    { s with
      copies := s.copies ++ [s.catalog.entries.filter fun entry => !entry.compatibilityHint] }
  | .replaceHints i hints =>
    match s.copies[i]? with
    | none => s
    | some copy =>
      { s with
        catalog := s.catalog.replaceWith (rehinted copy hints)
        copies := s.copies.eraseIdx i }

/-! ## The law -/

/-- The catalog offers the file as complete. -/
def OffersComplete (hash : Md4Digest) : Prop :=
  ∃ entry, s.catalog.entryByHash hash = some entry ∧ entry.verifiedComplete = true

def Absent (hash : Md4Digest) : Prop := s.catalog.entryByHash hash = none

/-- **Nothing is undone**: a file that is offered complete still is, and one that is absent still
    is, unless the metadata says otherwise by now. -/
def Keeps (s' : SharedCatalog δ) : Prop :=
  ∀ hash,
    (s.OffersComplete hash → (s.metadata.completeOf hash).isSome → s'.OffersComplete hash) ∧
      (s.Absent hash → s.metadata.view hash = none → s'.Absent hash)

/-- A rebuild takes no completed share away and brings none back. -/
def KeepsShares (event : CatalogEvent δ) : Prop :=
  match event with
  | .replace _ | .replaceHints _ _ => Keeps s (s.step event)
  | _ => True

/-- **What a replacement took is still what is there**: the snapshot says of every file what the
    metadata says now; the copy has the verified entries the catalog has now. -/
def StillCurrent : CatalogEvent δ → Prop
  | .replace i => ∀ snapshot ∈ s.snapshots[i]?, ∀ hash,
      snapshot.completeOf hash = s.metadata.completeOf hash ∧
        snapshot.inProgressOf hash = s.metadata.inProgressOf hash
  | .replaceHints i _ => ∀ copy ∈ s.copies[i]?, ∀ entry,
      entry ∈ copy ↔ entry ∈ s.catalog.entries ∧ entry.compatibilityHint = false
  | _ => True

end

end SharedCatalog

/-! ## Canonical text -/

theorem bytesFromHex_hexEncode (bytes : List UInt8) :
    bytesFromHex (hexEncode bytes) = some bytes := by
  induction bytes with
  | nil => rfl
  | cons byte bytes ih =>
    have hlt : byte.toNat < 256 := byte.toNat_lt
    have hplus : ∀ n < 16, hexDigit n ≠ '+' := by decide
    have hsum : 16 * (byte.toNat / 16) + byte.toNat % 16 = byte.toNat := Nat.div_add_mod _ _
    simp only [hexEncode, bytesFromHex, byteFromHex, ih,
      if_neg (hplus (byte.toNat / 16) (by omega)),
      hexValue_hexDigit (n := byte.toNat / 16) (by omega),
      hexValue_hexDigit (n := byte.toNat % 16) (by omega), Option.bind_eq_bind,
      Option.bind_some, Option.pure_def, hsum, UInt8.ofNat_toNat]

theorem length_hexEncode (bytes : List UInt8) : (hexEncode bytes).length = 2 * bytes.length := by
  induction bytes with
  | nil => rfl
  | cons byte bytes ih =>
    rw [hexEncode, length_cons, length_cons, length_cons, ih]
    omega

theorem ed2kHashFromStr_hexText (digest : Md4Digest) :
    ed2kHashFromStr (hexText digest) = some digest := by
  have hsize : (hexEncode digest.toList).length = 32 := by
    rw [length_hexEncode, Vector.length_toList]
  have hlen : digest.toList.length = 16 := Vector.length_toList
  have harray : digest.toList.toArray = digest.toArray := Array.toArray_toList
  simp [ed2kHashFromStr, hexText, hsize, bytesFromHex_hexEncode, hlen, harray]

def CanonicalText (entries : List (SharedEntry δ)) : Prop :=
  ∀ entry ∈ entries, entry.compatibilityHint = false → ∃ hash, entry.fileHash = hexText hash

theorem CanonicalText.append (hxs : CanonicalText xs) (hys : CanonicalText ys) :
    CanonicalText (xs ++ ys) := by
  intro entry hentry
  obtain h | h := mem_append.mp hentry
  · exact hxs entry h
  · exact hys entry h

theorem CanonicalText.subset (hys : CanonicalText ys) (hsub : xs ⊆ ys) : CanonicalText xs :=
  fun entry hentry => hys entry (hsub hentry)

theorem canonicalText_entryOf {complete : Bool} {files : List (Md4Digest × δ)} :
    CanonicalText (files.map (entryOf complete)) := by
  intro entry hentry _
  obtain ⟨file, -, rfl⟩ := mem_map.mp hentry
  exact ⟨file.1, rfl⟩

theorem CanonicalText.fileHash_eq (h : CanonicalText entries) {entry : SharedEntry δ}
    (hentry : entry ∈ entries) {hash : Md4Digest} (hkey : entry.indexKey = some hash) :
    entry.fileHash = hexText hash := by
  obtain ⟨hhint, hparse⟩ := indexKey_eq_some.mp hkey
  obtain ⟨hash', htext⟩ := h entry hentry hhint
  rw [entryHashKey, htext, ed2kHashFromStr_hexText] at hparse
  rw [htext, Option.some.inj hparse]

/-! ## Deduplication -/

def dedupeKey (entry : SharedEntry δ) : HashText × Bool := (entry.fileHash, entry.compatibilityHint)

/-- The loop from the back keeps the last of each key: the keys it has seen are those of the entries
    it has visited. -/
theorem dedupeEntries_eq : dedupeEntries entries = keepLast dedupeKey entries := by
  suffices h : ∀ entries : List (SharedEntry δ), ∃ seen deduped,
      entries.reverse.foldl (fun (state : List (HashText × Bool) × List (SharedEntry δ)) entry =>
        if (entry.fileHash, entry.compatibilityHint) ∈ state.1 then state
        else ((entry.fileHash, entry.compatibilityHint) :: state.1, state.2 ++ [entry])) ([], []) =
        (seen, deduped) ∧
      (∀ key, key ∈ seen ↔ key ∈ entries.map dedupeKey) ∧
      deduped.reverse = keepLast dedupeKey entries by
    obtain ⟨seen, deduped, hfold, -, hkept⟩ := h entries
    rw [dedupeEntries, hfold]
    exact hkept
  intro entries
  induction entries with
  | nil => exact ⟨[], [], rfl, by simp, rfl⟩
  | cons entry entries ih =>
    obtain ⟨seen, deduped, hfold, hseen, hkept⟩ := ih
    rw [reverse_cons, foldl_append, hfold, keepLast]
    by_cases hmem : dedupeKey entry ∈ entries.map dedupeKey
    · refine ⟨seen, deduped, if_pos ((hseen _).mpr hmem), fun key => ?_, ?_⟩
      · rw [hseen, map_cons, mem_cons, or_iff_right_of_imp]
        rintro rfl
        exact hmem
      · rw [if_pos hmem, hkept]
    · refine ⟨_, _, if_neg (mt (hseen _).mp hmem), fun key => ?_, ?_⟩
      · rw [mem_cons, hseen, map_cons, mem_cons]
        rfl
      · rw [if_neg hmem, reverse_append, hkept]
        rfl

theorem dedupe_ok (h : CanonicalText entries) : CanonicalText (dedupeEntries entries) ∧
      IndexedSharedCatalog.DistinctHashes (dedupeEntries entries) := by
  rw [dedupeEntries_eq]
  refine ⟨h.subset keepLast_sublist.subset, ?_⟩
  have hkeys : ((keepLast dedupeKey entries).map dedupeKey).Nodup := nodup_map_keepLast
  rw [List.Nodup, pairwise_map] at hkeys
  rw [IndexedSharedCatalog.DistinctHashes, List.Nodup, pairwise_filterMap]
  refine hkeys.imp_of_mem fun {a b} ha hb hne hash hkey hash' hkey' heq => hne ?_
  subst heq
  have htext := h.fileHash_eq (mem_of_mem_keepLast ha) hkey
  have htext' := h.fileHash_eq (mem_of_mem_keepLast hb) hkey'
  have hhint := (indexKey_eq_some.mp hkey).1
  have hhint' := (indexKey_eq_some.mp hkey').1
  rw [dedupeKey, dedupeKey, htext, htext', hhint, hhint']

namespace SharedCatalog

open IndexedSharedCatalog

variable {entry : SharedEntry δ} {snapshot m : Metadata δ} {file : Md4Digest × δ} {hash : Md4Digest}
  {current : List (SharedEntry δ)} {hints : List (HashText × δ)} {s : SharedCatalog δ} {i : Nat}

/-! ## What a replacement leaves -/

theorem rebuilt_ok (snapshot : Metadata δ) (h : CanonicalText current) :
    CanonicalText (rebuilt snapshot current) ∧ DistinctHashes (rebuilt snapshot current) :=
  dedupe_ok ((canonicalText_entryOf.append (h.subset filter_sublist.subset)).append
    canonicalText_entryOf)

theorem hint_of_fromPopularHash (h : entry ∈ hints.filterMap fromPopularHash) :
    entry.compatibilityHint = true := by
  obtain ⟨hint, -, hentry⟩ := mem_filterMap.mp h
  obtain ⟨_, -, rfl⟩ := Option.map_eq_some_iff.mp hentry
  rfl

theorem rehinted_ok {copy : List (SharedEntry δ)} (h : CanonicalText copy)
    (hints : List (HashText × δ)) :
    CanonicalText (rehinted copy hints) ∧ DistinctHashes (rehinted copy hints) := by
  refine dedupe_ok (h.append ?_)
  intro entry hentry hhint
  exact absurd (hint_of_fromPopularHash hentry) (by simp [hhint])

theorem mem_rebuilt (h : entry ∈ rebuilt snapshot current) :
    (∃ file ∈ snapshot.inProgress, entry = entryOf false file) ∨ entry ∈ current ∨
      ∃ file ∈ snapshot.complete, entry = entryOf true file := by
  rw [rebuilt, dedupeEntries_eq] at h
  have hmem := mem_of_mem_keepLast h
  simp only [mem_append, mem_map, mem_filter] at hmem
  obtain (⟨file, hfile, rfl⟩ | ⟨hcurrent, -⟩) | ⟨file, hfile, rfl⟩ := hmem
  · exact .inl ⟨file, hfile, rfl⟩
  · exact .inr (.inl hcurrent)
  · exact .inr (.inr ⟨file, hfile, rfl⟩)

/-- A complete entry of the snapshot wins over whatever else there is for its file. -/
theorem exists_complete_mem_rebuilt (current : List (SharedEntry δ))
    (h : file ∈ snapshot.complete) : ∃ file' ∈ snapshot.complete, hexText file'.1 = hexText file.1 ∧
      entryOf true file' ∈ rebuilt snapshot current := by
  have hmem : entryOf true file ∈ snapshot.complete.map (entryOf true) :=
    mem_map_of_mem h
  rw [rebuilt, dedupeEntries_eq]
  obtain ⟨entry, hentry, hkey, hright⟩ := @exists_right_of_mem _ _ _ dedupeKey _ _ _ hmem
  obtain ⟨file', hfile', rfl⟩ := mem_map.mp hright
  exact ⟨file', hfile', congrArg Prod.fst hkey, hentry⟩

theorem exists_mem_rebuilt (h : file ∈ snapshot.complete) :
    ∃ entry ∈ rebuilt snapshot current, entry.fileHash = hexText file.1 ∧
      entry.compatibilityHint = false ∧ entry.verifiedComplete = true := by
  obtain ⟨file', -, htext, hentry⟩ := exists_complete_mem_rebuilt current h
  exact ⟨_, hentry, htext, rfl, rfl⟩

/-! ## The invariant -/

/-- The index is exact, and every non-hint entry, in the catalog or on the way to it, carries the
    canonical text. -/
structure WellFormed (s : SharedCatalog δ) : Prop where
  consistent : s.catalog.Consistent
  text : CanonicalText s.catalog.entries
  targets : ∀ change ∈ s.committed, ∀ entry ∈ change.2,
    entry.compatibilityHint = false ∧ entry.fileHash = hexText change.1
  copied : ∀ copy ∈ s.copies, CanonicalText copy

theorem view_canonical (hash : Md4Digest) (h : entry ∈ m.view hash) :
    entry.compatibilityHint = false ∧ entry.fileHash = hexText hash := by
  unfold view at h
  split at h <;> cases h <;> exact ⟨rfl, rfl⟩

theorem wellFormed_empty : (empty : SharedCatalog δ).WellFormed where
  consistent := consistent_empty
  text := nofun
  targets := nofun
  copied := nofun

theorem wellFormed_step (event : CatalogEvent δ) (h : s.WellFormed) :
    (s.step event).WellFormed := by
  cases event with
  | commit hash =>
    refine ⟨h.consistent, h.text, fun change hchange => ?_, h.copied⟩
    obtain hold | hnew := mem_append.mp hchange
    · exact h.targets change hold
    · rw [mem_singleton.mp hnew]
      exact fun entry hentry => view_canonical hash hentry
  | change =>
    rw [step]
    split
    · exact h
    · rename_i hash target hat
      have htarget := h.targets (hash, target) (mem_of_getElem? hat)
      have hsupplied : s.catalog.Supplied (.upsertVerified hash target) := by
        intro entry hentry
        obtain ⟨hhint, htext⟩ := htarget entry hentry
        exact ⟨hhint, by rw [entryHashKey, htext, ed2kHashFromStr_hexText]⟩
      refine ⟨consistent_upsertVerified h.consistent hash hsupplied, ?_,
        fun change hchange => h.targets change (mem_of_mem_eraseIdx hchange), h.copied⟩
      intro entry hentry hhint
      obtain hold | hnew := mem_upsertVerified hentry
      · exact h.text entry hold hhint
      · exact ⟨hash, (htarget entry hnew).2⟩
  | snapshot => exact ⟨h.consistent, h.text, h.targets, h.copied⟩
  | replace =>
    rw [step]
    split
    · exact h
    · rename_i snapshot hat
      obtain ⟨htext, hdistinct⟩ := rebuilt_ok snapshot h.text
      exact ⟨consistent_rebuildIndex hdistinct, htext, h.targets, h.copied⟩
  | copy =>
    refine ⟨h.consistent, h.text, h.targets, fun copy hcopy => ?_⟩
    obtain hold | hnew := mem_append.mp hcopy
    · exact h.copied copy hold
    · rw [mem_singleton.mp hnew]
      exact h.text.subset filter_sublist.subset
  | replaceHints i hints =>
    rw [step]
    split
    · exact h
    · rename_i copy hat
      obtain ⟨htext, hdistinct⟩ := rehinted_ok (h.copied copy (mem_of_getElem? hat)) hints
      exact ⟨consistent_rebuildIndex hdistinct, htext, h.targets,
        fun copy hcopy => h.copied copy (mem_of_mem_eraseIdx hcopy)⟩

/-! ## When a replacement undoes nothing -/

theorem completeOf_isSome : (m.completeOf hash).isSome ↔ ∃ file ∈ m.complete, file.1 = hash := by
  rw [completeOf, Option.isSome_map, lookup_isSome]

theorem inProgressOf_isSome :
    (m.inProgressOf hash).isSome ↔ ∃ file ∈ m.inProgress, file.1 = hash := by
  rw [inProgressOf, Option.isSome_map, lookup_isSome]

theorem view_eq_none :
    m.view hash = none ↔ m.completeOf hash = none ∧ m.inProgressOf hash = none := by
  unfold view
  split <;> simp [*]

theorem hash_of_entryOf {complete : Bool}
    (h : (entryOf complete file).entryHashKey = some hash) : file.1 = hash := by
  rw [entryHashKey, entryOf, ed2kHashFromStr_hexText] at h
  exact Option.some.inj h

/-- **A rebuild from a current snapshot keeps every share.** -/
theorem keeps_replace (h : s.WellFormed) (hcurrent : s.StillCurrent (.replace i)) :
    Keeps s (s.step (.replace i)) := by
  have hwf := wellFormed_step (.replace i) h
  rw [step] at hwf ⊢
  split at hwf <;> rename_i hat
  · exact fun hash => ⟨fun hoffer _ => hoffer, fun habsent _ => habsent⟩
  rename_i snapshot
  have hsame := hcurrent snapshot hat
  refine fun hash => ⟨fun _ hcomplete => ?_, fun habsent hview => ?_⟩
  · rw [← (hsame hash).1, completeOf_isSome] at hcomplete
    obtain ⟨file, hfile, rfl⟩ := hcomplete
    obtain ⟨entry, hentry, htext, hhint, hdone⟩ := exists_mem_rebuilt hfile
    refine ⟨entry, hwf.consistent.entryByHash_iff.mpr ⟨hentry, hhint, ?_⟩, hdone⟩
    rw [entryHashKey, htext, ed2kHashFromStr_hexText]
  · rw [view_eq_none, ← (hsame hash).1, ← (hsame hash).2] at hview
    by_contra hpresent
    obtain ⟨entry, hfound⟩ := Option.ne_none_iff_exists'.mp hpresent
    obtain ⟨hentry, hhint, hkey⟩ := hwf.consistent.entryByHash_iff.mp hfound
    obtain ⟨file, hfile, rfl⟩ | hold | ⟨file, hfile, rfl⟩ := mem_rebuilt hentry
    · have hsome := inProgressOf_isSome.mpr ⟨file, hfile, hash_of_entryOf hkey⟩
      simp [hview.2] at hsome
    · have hbefore := h.consistent.entryByHash_iff.mpr ⟨hold, hhint, hkey⟩
      cases habsent.symm.trans hbefore
    · have hsome := completeOf_isSome.mpr ⟨file, hfile, hash_of_entryOf hkey⟩
      simp [hview.1] at hsome

/-- So does one that exchanges the hints. -/
theorem keeps_replaceHints (h : s.WellFormed) (hcurrent : s.StillCurrent (.replaceHints i hints)) :
    Keeps s (s.step (.replaceHints i hints)) := by
  have hwf := wellFormed_step (.replaceHints i hints) h
  rw [step] at hwf ⊢
  split at hwf <;> rename_i hat
  · exact fun hash => ⟨fun hoffer _ => hoffer, fun habsent _ => habsent⟩
  rename_i copy
  have hsame := hcurrent copy hat
  have hmem : ∀ entry, entry.compatibilityHint = false →
      (entry ∈ rehinted copy hints → entry ∈ copy) := by
    intro entry hhint hentry
    rw [rehinted, dedupeEntries_eq] at hentry
    obtain hcopy | hnew := mem_append.mp (mem_of_mem_keepLast hentry)
    · exact hcopy
    · exact absurd (hint_of_fromPopularHash hnew) (by simp [hhint])
  refine fun hash => ⟨?_, fun habsent _ => ?_⟩
  · rintro ⟨entry, hfound, hdone⟩ -
    obtain ⟨hentry, hhint, hkey⟩ := h.consistent.entryByHash_iff.mp hfound
    -- some entry of the same text is kept, and it is this one
    have hkept : dedupeKey entry ∈ (rehinted copy hints).map dedupeKey := by
      rw [rehinted, dedupeEntries_eq, mem_map_keepLast]
      exact mem_map_of_mem (mem_append_left _ ((hsame entry).mpr ⟨hentry, hhint⟩))
    obtain ⟨entry', hentry', hkey'⟩ := mem_map.mp hkept
    have htext' : entry'.fileHash = entry.fileHash := congrArg Prod.fst hkey'
    have hhint' : entry'.compatibilityHint = false := (congrArg Prod.snd hkey').trans hhint
    have hparse' : entry'.entryHashKey = some hash := by
      rw [entryHashKey, htext']
      exact hkey
    have hold := ((hsame entry').mp (hmem entry' hhint' hentry')).1
    have hfound' := h.consistent.entryByHash_iff.mpr ⟨hold, hhint', hparse'⟩
    obtain rfl : entry' = entry := Option.some.inj (hfound'.symm.trans hfound)
    exact ⟨entry', hwf.consistent.entryByHash_iff.mpr ⟨hentry', hhint, hkey⟩, hdone⟩
  · by_contra hpresent
    obtain ⟨entry, hfound⟩ := Option.ne_none_iff_exists'.mp hpresent
    obtain ⟨hentry, hhint, hkey⟩ := hwf.consistent.entryByHash_iff.mp hfound
    have hold := ((hsame entry).mp (hmem entry hhint hentry)).1
    cases habsent.symm.trans (h.consistent.entryByHash_iff.mpr ⟨hold, hhint, hkey⟩)

/-- **Replacements that are still current undo nothing.** In every interleaving of changes, rebuilds
    and hint replacements in which each replacement stores what is still current, no replacement
    takes back what a change of a file did to the catalog. -/
theorem rebuild_keeps_shares (events : List (CatalogEvent δ))
    (h : Run.Along step StillCurrent (empty : SharedCatalog δ) events) :
    Run.Along step KeepsShares (empty : SharedCatalog δ) events := by
  refine h.along (fun s event hwf hcurrent => ⟨?_, wellFormed_step event hwf⟩) wellFormed_empty
  cases event with
  | replace => exact keeps_replace hwf hcurrent
  | replaceHints => exact keeps_replaceHints hwf hcurrent
  | commit | change | snapshot | copy => trivial

/-- A share is stored, then a rebuild and a hint replacement run with nothing in between. -/
theorem rebuild_keeps_shares_undisturbed : let file : Md4Digest := .replicate 16 0xaa
    let s := Run.run step empty [.commit file (some ()) none, .change 0, .snapshot]
    s.KeepsShares (.replace 0) ∧ (s.step (.replace 0)).OffersComplete file := by
  intro file s
  have hkeeps := rebuild_keeps_shares
    [.commit file (some ()) none, .change 0, .snapshot, .replace 0]
    ⟨trivial, trivial, trivial, by rintro _ ⟨⟩ hash; exact ⟨rfl, rfl⟩, trivial⟩
  exact ⟨hkeeps.2.2.2.1, ⟨entryOf true (file, ()), by decide +kernel, rfl⟩⟩

/-- **A rebuild undoes a change** that commits and reaches the catalog after the snapshot: a new
    share is dropped, a withdrawn one comes back. A hint replacement drops a new share in the same
    way. The metadata still says what the change committed. -/
theorem rebuild_undoes_a_change : let file : Md4Digest := .replicate 16 0xaa
    let shared := Run.run step empty [.snapshot, .commit file (some ()) none, .change 0]
    let withdrawn := Run.run step empty
      [.commit file (some ()) none, .change 0, .snapshot, .commit file none none, .change 0]
    let hinted := Run.run step empty [.copy, .commit file (some ()) none, .change 0]
    (shared.OffersComplete file ∧ shared.metadata.completeOf file = some () ∧
        (shared.step (.replace 0)).Absent file ∧ ¬ shared.KeepsShares (.replace 0)) ∧
      (withdrawn.Absent file ∧ withdrawn.metadata.view file = none ∧
        (withdrawn.step (.replace 0)).OffersComplete file ∧ ¬ withdrawn.KeepsShares (.replace 0)) ∧
      (hinted.OffersComplete file ∧ hinted.metadata.completeOf file = some () ∧
        (hinted.step (.replaceHints 0 [])).Absent file ∧
        ¬ hinted.KeepsShares (.replaceHints 0 [])) := by
  intro file shared withdrawn hinted
  have hoffers : shared.OffersComplete file :=
    ⟨entryOf true (file, ()), by decide +kernel, rfl⟩
  have hdropped : (shared.step (.replace 0)).catalog.entryByHash file = none := by decide +kernel
  have hback : (withdrawn.step (.replace 0)).catalog.entryByHash file =
      some (entryOf true (file, ())) := by decide +kernel
  have hgone : withdrawn.catalog.entryByHash file = none := by decide +kernel
  have hview : withdrawn.metadata.view file = none := by decide +kernel
  have hhinted : hinted.OffersComplete file :=
    ⟨entryOf true (file, ()), by decide +kernel, rfl⟩
  have hlost : (hinted.step (.replaceHints 0 [])).catalog.entryByHash file = none := by
    decide +kernel
  have hsome : shared.metadata.completeOf file = some () := by decide +kernel
  have hsome' : hinted.metadata.completeOf file = some () := by decide +kernel
  refine ⟨⟨hoffers, hsome, hdropped, fun hkeeps => ?_⟩, ⟨hgone, hview, ⟨_, hback, rfl⟩,
    fun hkeeps => ?_⟩, ⟨hhinted, hsome', hlost, fun hkeeps => ?_⟩⟩
  · obtain ⟨entry, hfound, -⟩ := (hkeeps file).1 hoffers (by rw [hsome]; rfl)
    cases hdropped.symm.trans hfound
  · cases ((hkeeps file).2 hgone hview).symm.trans hback
  · obtain ⟨entry, hfound, -⟩ := (hkeeps file).1 hhinted (by rw [hsome']; rfl)
    cases hlost.symm.trans hfound

end SharedCatalog

end EmuleBB.Catalog
