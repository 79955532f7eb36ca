import EmuleBB.Transfer.Store
import EmuleBB.Transfer.Verified

/-!
# Dirty pieces

What the dirty set is for: **outside of it, the cached row of a piece is its durable row**. Every
write path must then either store in full or name its piece, and a checkpoint must write the rows
it names. The one gap is a checkpoint that fails part-way. It keeps the pieces that were dirty
before it, but the piece of the append that triggered it is not one of them yet, and its row may
already have been committed ahead of the cache.
-/

namespace EmuleBB.Transfer

open Ed2kPieceState TransferStore List Std.TreeSet StoreSystem

variable {md4 : Md4}

/-! ## Rows of a manifest -/

section Rows

variable {m c d : Ed2kResumeManifest} {i j : Nat} {p q : Ed2kPieceState} {dirty : Std.TreeSet Nat}

theorem findPiece_setPiece_ne (hij : j ≠ i) (hq : q.pieceIndex = i) :
    (m.setPiece i q).findPiece j = m.findPiece j := by
  show (modifyPieces i (fun _ => q) m.pieces).find? _ = _
  rw [modifyPieces_eq]
  refine FirstMatch.find_modifyFirst_of_not fun piece hpiece => ?_
  have hpiece : piece.pieceIndex = i := of_decide_eq_true hpiece
  simp [hpiece, hq, hij.symm]

def SameRows (c d : Ed2kResumeManifest) : Prop := ∀ j, c.findPiece j = d.findPiece j

structure RowsTracked (dirty : Std.TreeSet Nat) (c d : Ed2kResumeManifest) : Prop where
  isSome_eq : ∀ j, (c.findPiece j).isSome = (d.findPiece j).isSome
  clean : ∀ j, j ∉ dirty → c.findPiece j = d.findPiece j

theorem RowsTracked.of_same (h : SameRows c d) : RowsTracked dirty c d :=
  ⟨fun j => by rw [h j], fun j _ => h j⟩

/-- The rows differ in this piece at most. -/
structure OnlyPiece (i : Nat) (c m : Ed2kResumeManifest) : Prop where
  isSome_eq : ∀ j, (m.findPiece j).isSome = (c.findPiece j).isSome
  other : ∀ j, j ≠ i → m.findPiece j = c.findPiece j

theorem OnlyPiece.refl (i : Nat) (c : Ed2kResumeManifest) : OnlyPiece i c c :=
  ⟨fun _ => rfl, fun _ _ => rfl⟩

theorem onlyPiece_setPiece (hp : m.findPiece i = some p) (hq : q.pieceIndex = i) :
    OnlyPiece i m (m.setPiece i q) := by
  refine ⟨fun j => ?_, fun j hj => findPiece_setPiece_ne hj hq⟩
  by_cases hj : j = i
  · subst hj
    rw [findPiece_setPiece_self hp hq, hp]
    rfl
  · rw [findPiece_setPiece_ne hj hq]

theorem RowsTracked.insert (h : RowsTracked dirty c d) (honly : OnlyPiece i c m) :
    RowsTracked (dirty.insert i) m d := by
  refine ⟨fun j => (honly.isSome_eq j).trans (h.isSome_eq j), fun j hj => ?_⟩
  rw [mem_insert, not_or, Nat.compare_eq_eq] at hj
  rw [honly.other j (Ne.symm hj.1)]
  exact h.clean j hj.2

end Rows

/-! ## Committing rows -/

section Commit

variable {m d : Ed2kResumeManifest} {failAt : Option Nat} {rows : List Ed2kPieceState}

def attemptedRows (failAt : Option Nat) (indexes : List Nat) : List Nat :=
  match failAt with
  | none => indexes
  | some k => indexes.take k

theorem attemptedRows_cons (h : failAt ≠ some 0) (i : Nat) (indexes : List Nat) :
    attemptedRows failAt (i :: indexes) = i :: attemptedRows (failAt.map (· - 1)) indexes := by
  rcases failAt with _ | _ | k
  · rfl
  · exact absurd rfl h
  · rfl

theorem commitRows_cons (h : failAt ≠ some 0) (p : Ed2kPieceState) (rows : List Ed2kPieceState)
    (d : Ed2kResumeManifest) : commitRows failAt (p :: rows) (some d) =
      match d.findPiece p.pieceIndex with
      | none => (some d, .absent)
      | some _ => commitRows (failAt.map (· - 1)) rows
          (some (d.setPiece p.pieceIndex p)) := by
  rcases failAt with _ | _ | k
  · rfl
  · exact absurd rfl h
  · rfl

structure Committed (failAt : Option Nat) (m : Ed2kResumeManifest) (rows : List Ed2kPieceState)
    (d d' : Ed2kResumeManifest) (result : TransferStore.RowsResult) : Prop where
  isSome_eq : ∀ j, (d'.findPiece j).isSome = (d.findPiece j).isSome
  row : ∀ j, d'.findPiece j = d.findPiece j ∨
    d'.findPiece j = m.findPiece j ∧ j ∈ attemptedRows failAt (rows.map pieceIndex)
  updated : result = .updated → ∀ p ∈ rows, d'.findPiece p.pieceIndex = m.findPiece p.pieceIndex
  absent : result = .absent → ∃ p ∈ rows, d.findPiece p.pieceIndex = none
  failed : result = .failed → failAt.isSome

/-- **Row updates only ever bring a durable row up to the manifest's row**, and a list of updates
    that went through did so for each of its pieces. -/
theorem commitRows_committed (failAt : Option Nat)
    (hrows : ∀ p ∈ rows, m.findPiece p.pieceIndex = some p) (d : Ed2kResumeManifest) :
    ∃ d', (commitRows failAt rows (some d)).1 = some d' ∧
      Committed failAt m rows d d' (commitRows failAt rows (some d)).2 := by
  induction rows generalizing failAt d with
  | nil =>
    refine ⟨d, by simp [commitRows], fun _ => rfl, fun _ => .inl rfl, ?_, ?_, ?_⟩
    · exact fun _ p hp => absurd hp (by simp)
    · exact fun h => absurd h (by simp [commitRows])
    · exact fun h => absurd h (by simp [commitRows])
  | cons p rows ih =>
    by_cases hfail : failAt = some 0
    · subst hfail
      refine ⟨d, rfl, fun _ => rfl, fun _ => .inl rfl, ?_, ?_, fun _ => rfl⟩
      · exact fun h => absurd h (by simp [commitRows])
      · exact fun h => absurd h (by simp [commitRows])
    cases hfind : d.findPiece p.pieceIndex with
    | none =>
      rw [commitRows_cons hfail, hfind]
      refine ⟨d, rfl, fun _ => rfl, fun _ => .inl rfl, fun h => absurd h (by simp), ?_, ?_⟩
      · exact fun _ => ⟨p, mem_cons_self, hfind⟩
      · exact fun h => absurd h (by simp)
    | some =>
      rw [commitRows_cons hfail, hfind]
      have hp := hrows p mem_cons_self
      have honly := onlyPiece_setPiece (q := p) hfind rfl
      obtain ⟨d', hd', hdone⟩ := ih (failAt.map (· - 1))
        (fun r hr => hrows r (mem_cons_of_mem _ hr)) (d.setPiece p.pieceIndex p)
      -- the head row now is the manifest's, and later updates can only rewrite it as such
      have hhead : d'.findPiece p.pieceIndex = m.findPiece p.pieceIndex := by
        rcases hdone.row p.pieceIndex with h | h
        · rw [h, findPiece_setPiece_self hfind rfl, hp]
        · exact h.1
      refine ⟨d', hd', fun j => (hdone.isSome_eq j).trans (honly.isSome_eq j), fun j => ?_, ?_, ?_,
        fun hresult => by simpa using hdone.failed hresult⟩
      · by_cases hj : j = p.pieceIndex
        · refine .inr ⟨hj ▸ hhead, ?_⟩
          rw [map_cons, attemptedRows_cons hfail, hj]
          exact mem_cons_self
        · rcases hdone.row j with h | ⟨h, hmem⟩
          · exact .inl (h.trans (findPiece_setPiece_ne hj rfl))
          · refine .inr ⟨h, ?_⟩
            rw [map_cons, attemptedRows_cons hfail]
            exact mem_cons_of_mem _ hmem
      · intro hresult r hr
        rcases mem_cons.mp hr with rfl | hr
        · exact hhead
        · exact hdone.updated hresult r hr
      · intro hresult
        obtain ⟨r, hr, hnone⟩ := hdone.absent hresult
        refine ⟨r, mem_cons_of_mem _ hr, ?_⟩
        have hsome := honly.isSome_eq r.pieceIndex
        rw [hnone] at hsome
        exact Option.not_isSome_iff_eq_none.mp (by rw [← hsome]; simp)

theorem progressRows_eq_some {indexes : List Nat} (h : progressRows m indexes = some rows) :
    rows.map pieceIndex = indexes ∧ ∀ p ∈ rows, m.findPiece p.pieceIndex = some p := by
  induction indexes generalizing rows with
  | nil =>
    obtain rfl : [] = rows := by simpa [progressRows] using h
    exact ⟨rfl, fun p hp => absurd hp (by simp)⟩
  | cons i indexes ih =>
    unfold progressRows at h
    rw [mapM_cons] at h
    obtain ⟨p, hp, h⟩ := Option.bind_eq_some_iff.mp h
    obtain ⟨ps, hps, h⟩ := Option.bind_eq_some_iff.mp h
    obtain rfl : p :: ps = rows := by simpa using h
    have hi := pieceIndex_of_findPiece hp
    obtain ⟨hindexes, hrows⟩ := ih hps
    refine ⟨by rw [map_cons, hi, hindexes], fun r hr => ?_⟩
    rcases mem_cons.mp hr with rfl | hr
    · rw [hi, hp]
    · exact hrows r hr

end Commit

/-! ## The store keeps its pieces tracked -/

def StoreTracked (st : TransferStore) : Prop :=
  match st.manifestCache with
  | none => st.checkpointState = none
  | some c => ∃ d, st.durable = some d ∧ RowsTracked st.dirtyPieceIndexes c d

structure PersistedAs (st : TransferStore) (now : Nat) (m : Ed2kResumeManifest) : Prop where
  cache : st.manifestCache = some m
  checkpoint : st.checkpointState = some ⟨m.manifestProgressBytes, now, ∅⟩
  durable : ∃ d, st.durable = some d ∧ SameRows m d

section Store

variable {st : TransferStore} {call : StoreCall} {m c d : Ed2kResumeManifest} {i now : Nat}

theorem StoreTracked.of_cached (hcache : st.manifestCache = some c) (hdurable : st.durable = some d)
    (h : RowsTracked st.dirtyPieceIndexes c d) : StoreTracked st := by
  unfold StoreTracked
  rw [hcache]
  exact ⟨d, hdurable, h⟩

theorem StoreTracked.cached (h : StoreTracked st) (hcache : st.manifestCache = some c) :
    ∃ d, st.durable = some d ∧ RowsTracked st.dirtyPieceIndexes c d := by
  unfold StoreTracked at h
  rwa [hcache] at h

theorem PersistedAs.tracked (h : PersistedAs st now m) : StoreTracked st := by
  obtain ⟨d, hdurable, hsame⟩ := h.durable
  exact .of_cached h.cache hdurable (.of_same hsame)

theorem persistedAs_markManifestPersisted (hdurable : st.durable = some d)
    (hsame : SameRows m d) : PersistedAs (st.markManifestPersisted now m) now m :=
  ⟨rfl, rfl, d, hdurable, hsame⟩

/-- A full store that goes through persists; one that does not changes nothing. -/
theorem storeManifest_cases (st : TransferStore) (call : StoreCall) (m : Ed2kResumeManifest) :
    (st.storeManifest call m).2 = true ∧ PersistedAs (st.storeManifest call m).1 call.now m ∨
      st.storeManifest call m = (st, false) := by
  unfold storeManifest
  split
  · exact .inl ⟨rfl, persistedAs_markManifestPersisted rfl fun _ => rfl⟩
  · exact .inr rfl

theorem mem_insert_toList {dirty : Std.TreeSet Nat} {j : Nat} :
    j ∈ (dirty.insert i).toList ↔ j = i ∨ j ∈ dirty := by
  rw [mem_toList, mem_insert, Nat.compare_eq_eq, eq_comm]

/-- **A progress checkpoint of a manifest that differs from the cached one in piece `i`**: either
    it persists the manifest, or it leaves cache and dirty set alone and has brought some of the
    durable rows it named up to the manifest. -/
theorem storeManifestPieceProgress_cases (call : StoreCall) (hdurable : st.durable = some d)
    (h : RowsTracked st.dirtyPieceIndexes c d) (honly : OnlyPiece i c m) :
    ((st.storeManifestPieceProgress call m i).2 = true ∧
        PersistedAs (st.storeManifestPieceProgress call m i).1 call.now m) ∨
      ∃ d', st.storeManifestPieceProgress call m i = ({ st with durable := some d' }, false) ∧
        (∀ j, (d'.findPiece j).isSome = (d.findPiece j).isSome) ∧
        ∀ j, d'.findPiece j = d.findPiece j ∨ d'.findPiece j = m.findPiece j ∧
          ∃ k, call.failAt = some k ∧ j ∈ (st.dirtyPieceIndexes.insert i).toList.take k := by
  have hunchanged : st = { st with durable := some d } := by rw [← hdurable]
  unfold storeManifestPieceProgress
  cases hrows : progressRows m (st.dirtyPieceIndexes.insert i).toList with
  | none =>
    rcases storeManifest_cases st call m with hdone | hdone
    · exact .inl hdone
    · exact .inr ⟨d, by rw [hdone, ← hunchanged], fun _ => rfl, fun _ => .inl rfl⟩
  | some rows =>
    obtain ⟨hindexes, hrows⟩ := progressRows_eq_some hrows
    obtain ⟨d', hd', hdone⟩ := commitRows_committed call.failAt hrows d
    simp only [hdurable]
    generalize commitRows call.failAt rows (some d) = committed at hd' hdone
    obtain ⟨durable, result⟩ := committed
    obtain rfl : durable = some d' := hd'
    cases result with
    | updated =>
      refine .inl ⟨rfl, persistedAs_markManifestPersisted rfl fun j => ?_⟩
      by_cases hj : j ∈ rows.map pieceIndex
      · obtain ⟨p, hp, rfl⟩ := mem_map.mp hj
        exact (hdone.updated rfl p hp).symm
      · -- a piece that is neither dirty nor current
        rw [hindexes, mem_insert_toList, not_or] at hj
        rcases hdone.row j with hrow | hrow
        · rw [hrow, honly.other j hj.1, h.clean j hj.2]
        · exact hrow.1.symm
    | absent =>
      -- every row named has a cached row, hence a durable one
      obtain ⟨p, hp, hnone⟩ := hdone.absent rfl
      have hsome := (honly.isSome_eq p.pieceIndex).trans (h.isSome_eq p.pieceIndex)
      rw [hrows p hp, hnone] at hsome
      cases hsome
    | failed =>
      refine .inr ⟨d', rfl, hdone.isSome_eq, fun j => ?_⟩
      obtain ⟨k, hk⟩ := Option.isSome_iff_exists.mp (hdone.failed rfl)
      rcases hdone.row j with hrow | ⟨hrow, hmem⟩
      · exact .inl hrow
      · rw [hindexes, hk] at hmem
        exact .inr ⟨hrow, k, hk, hmem⟩

def RowsCovered (st : TransferStore) (call : StoreCall) (i : Nat) : Prop :=
  ∀ k, call.failAt = some k →
    i ∈ st.dirtyPieceIndexes ∨ i ∉ (st.dirtyPieceIndexes.insert i).toList.take k

theorem storeManifestPieceProgress_tracked (hcache : st.manifestCache = some c)
    (hdurable : st.durable = some d) (h : RowsTracked st.dirtyPieceIndexes c d)
    (honly : OnlyPiece i c m) (hcovered : RowsCovered st call i) :
    StoreTracked (st.storeManifestPieceProgress call m i).1 := by
  rcases storeManifestPieceProgress_cases call hdurable h honly with
    ⟨-, hdone⟩ | ⟨d', hdone, hsome, hrow⟩
  · exact hdone.tracked
  · rw [hdone]
    refine .of_cached (c := c) hcache rfl ⟨fun j => ?_, fun j hj => ?_⟩
    · rw [hsome j, h.isSome_eq j]
    · rcases hrow j with hrow | ⟨hrow, k, hk, hmem⟩
      · rw [hrow]
        exact h.clean j hj
      · -- a committed row is a dirty one, unless it is the current piece's
        rcases mem_insert_toList.mp (mem_of_mem_take hmem) with rfl | hdirty
        · rcases hcovered k hk with hin | hout
          · exact absurd hin hj
          · exact absurd hmem hout
        · exact absurd hdirty hj

theorem loadManifest_cases (st : TransferStore) (now : Nat) :
    (∃ c, st.manifestCache = some c ∧ st.loadManifest now = (st, some c)) ∨
      (st.manifestCache = none ∧ st.loadManifest now = (st, none)) ∨
      ∃ m, st.manifestCache = none ∧ (st.loadManifest now).2 = some m ∧
        st.durable = some m ∧ PersistedAs (st.loadManifest now).1 now m := by
  unfold loadManifest
  cases hcache : st.manifestCache with
  | some c => exact .inl ⟨c, rfl, rfl⟩
  | none =>
    refine .inr ?_
    cases hload : st.durable.bind manifestFromMetadata with
    | none => exact .inl ⟨rfl, rfl⟩
    | some m =>
      obtain ⟨d, hdurable, hmeta⟩ := Option.bind_eq_some_iff.mp hload
      have hd : m = d := by
        unfold manifestFromMetadata at hmeta
        split at hmeta
        · cases hmeta
        · split at hmeta
          · exact (Option.some.inj hmeta).symm
          · cases hmeta
      refine .inr ⟨m, rfl, rfl, by rw [hdurable, hd], ?_⟩
      exact persistedAs_markManifestPersisted hdurable fun j => by rw [hd]

/-- A load keeps the dirty set: on a miss there was none. -/
theorem loadManifest_tracked (h : StoreTracked st) : StoreTracked (st.loadManifest now).1 ∧
      (st.loadManifest now).1.dirtyPieceIndexes = st.dirtyPieceIndexes := by
  rcases loadManifest_cases st now with ⟨c, -, hload⟩ | ⟨-, hload⟩ | ⟨m, hcache, -, -, hdone⟩
  · rw [hload]
    exact ⟨h, rfl⟩
  · rw [hload]
    exact ⟨h, rfl⟩
  · refine ⟨hdone.tracked, ?_⟩
    unfold StoreTracked at h
    rw [hcache] at h
    unfold dirtyPieceIndexes
    rw [hdone.checkpoint, h]

theorem dirtyPieceIndexes_shouldCheckpointManifest (st : TransferStore) (now : Nat)
    (m : Ed2kResumeManifest) :
    (st.shouldCheckpointManifest now m).1.dirtyPieceIndexes = st.dirtyPieceIndexes := by
  unfold shouldCheckpointManifest checkpointEntry
  unfold dirtyPieceIndexes
  cases st.checkpointState <;> rfl

theorem dirtyPieceIndexes_noteDirtyPiece :
    (st.noteDirtyPiece now m i).dirtyPieceIndexes = st.dirtyPieceIndexes.insert i := by
  unfold noteDirtyPiece checkpointEntry
  unfold dirtyPieceIndexes
  cases st.checkpointState <;> rfl

/-- **Every way a write path ends keeps the pieces tracked**: it stores nothing, or everything, or
    checkpoints, or names its piece. -/
theorem persistWrite_tracked {done : WriteDone} (h : StoreTracked st)
    (hcache : st.manifestCache = some c)
    (hprogress : ∀ i, done.store = .progress i →
      OnlyPiece i c done.manifest ∧ RowsCovered st call i) :
    StoreTracked (st.persistWrite call done).1 := by
  unfold persistWrite
  cases hstore : done.store with
  | unchanged => exact h
  | full =>
    rcases storeManifest_cases st call done.manifest with ⟨-, hdone⟩ | hdone
    · exact hdone.tracked
    · simp only [hdone]
      exact h
  | progress i =>
    obtain ⟨honly, hcovered⟩ := hprogress i hstore
    obtain ⟨d, hdurable, hrows⟩ := h.cached hcache
    have hdirty := dirtyPieceIndexes_shouldCheckpointManifest st call.now done.manifest
    simp only
    split
    · refine storeManifestPieceProgress_tracked (c := c) hcache hdurable ?_ honly ?_
      · rw [hdirty]
        exact hrows
      · unfold RowsCovered
        rw [hdirty]
        exact hcovered
    · refine .of_cached (c := done.manifest) rfl hdurable ?_
      show RowsTracked (dirtyPieceIndexes
        ((st.shouldCheckpointManifest call.now done.manifest).1.noteDirtyPiece call.now
          done.manifest i)) done.manifest d
      rw [dirtyPieceIndexes_noteDirtyPiece, hdirty]
      exact hrows.insert honly

end Store

/-! ## Runs -/

/-- What a write path hands to the store: only its own piece has changed, and only that piece is
    reported as progress. A salvage write reports none. -/
theorem WriteEffect.onlyPiece {salvage : Bool} {payload : Option ByteSeq} {m : Ed2kResumeManifest}
    {i start j : Nat} {data : ByteSeq} {w : WriteStep} {done : WriteDone}
    (h : WriteEffect md4 salvage payload m i start data w) (hok : w.result = .ok done)
    (hstore : done.store = .progress j) :
    j = i ∧ salvage = false ∧ OnlyPiece i m done.manifest := by
  cases h with
  | refused | failed => cases hok
  | duplicate =>
    cases hok
    cases hstore
  | settled p q outcome m' hfound hlow hhigh heffect hnext =>
    cases hok
    have hindex : q.pieceIndex = i :=
      heffect.pieceIndex_eq.trans (pieceIndex_of_findPiece hfound)
    have honly := onlyPiece_setPiece hfound hindex
    refine ⟨?_, ?_, ?_⟩
    · simp only [writeStore] at hstore
      cases salvage with
      | true => cases hstore
      | false => cases outcome <;> simp_all [requestedBlockStore]
    · cases salvage with
      | true => exact absurd hstore (by simp [writeStore])
      | false => rfl
    · rcases hnext with rfl | ⟨rfl, -⟩
      · exact ⟨honly.isSome_eq, honly.other⟩
      · exact honly

/-- The append's checkpoint, if it fails, has not committed the row of a piece that was not dirty
    before. -/
def CheckpointCovered (s : StoreSystem) : StoreEvent → Prop
  | .append call i _ _ _ => RowsCovered s.store call i
  | _ => True

section Run

variable {s : StoreSystem} {call : StoreCall}

theorem writeThrough_tracked {write : Ed2kResumeManifest → WriteStep} (h : StoreTracked s.store)
    (hwrite : ∀ c done i, (write c).result = .ok done → done.store = .progress i →
      OnlyPiece i c done.manifest ∧ RowsCovered s.store call i) :
    StoreTracked (s.writeThrough call write).1.store := by
  obtain ⟨hload, hdirty⟩ := loadManifest_tracked h
  unfold writeThrough
  rcases hloaded : s.store.loadManifest call.now with ⟨st, loaded⟩
  rw [hloaded] at hload hdirty
  cases loaded with
  | none => exact hload
  | some c =>
    simp only
    have hcache : st.manifestCache = some c := by
      rcases loadManifest_cases s.store call.now with
        ⟨c', hc', heq⟩ | ⟨-, heq⟩ | ⟨m, -, hm, -, hdone⟩
      · simp_all
      · rw [hloaded] at heq
        cases heq
      · rw [hloaded] at hm hdone
        rw [hdone.cache, ← hm]
    cases hresult : (write c).result with
    | error => exact hload
    | ok done =>
      refine persistWrite_tracked hload hcache fun i hi => ?_
      obtain ⟨honly, hcovered⟩ := hwrite c done i hresult hi
      refine ⟨honly, ?_⟩
      unfold RowsCovered at hcovered ⊢
      rwa [hdirty]

theorem checkpointDirtyDownloadProgress_tracked (h : StoreTracked s.store) :
    StoreTracked (s.store.checkpointDirtyDownloadProgress call).1 := by
  unfold checkpointDirtyDownloadProgress
  cases hdirty : s.store.dirtyPieceIndexes.toList with
  | nil => exact h
  | cons i =>
    cases hcache : s.store.manifestCache with
    | none => exact h
    | some c =>
      obtain ⟨d, hdurable, hrows⟩ := h.cached hcache
      refine storeManifestPieceProgress_tracked hcache hdurable hrows (.refl i c) fun _ _ => ?_
      -- the piece it starts from is a dirty one
      refine .inl (mem_toList.mp ?_)
      rw [hdirty]
      exact mem_cons_self

theorem storeStep_tracked (s : StoreSystem) (e : StoreEvent) (h : StoreTracked s.store)
    (hcovered : CheckpointCovered s e) : StoreTracked (storeStep md4 s e).store := by
  cases e with
  | append call i start stop data =>
    refine writeThrough_tracked h fun c done j hok hstore => ?_
    obtain ⟨rfl, -, honly⟩ :=
      (appendPieceBlockInner_effect md4 call.ichEnabled s.payload c i start stop data).onlyPiece
        hok hstore
    exact ⟨honly, hcovered⟩
  | salvageWrite call part start stop data =>
    refine writeThrough_tracked h fun c done j hok hstore => ?_
    obtain ⟨-, hfalse, -⟩ :=
      (writeSalvageBlockUnfinalized_effect md4 call.ichEnabled s.payload c part start stop
        data).onlyPiece hok hstore
    cases hfalse
  | store call m =>
    rcases storeManifest_cases s.store call m with ⟨-, hdone⟩ | hdone
    · exact hdone.tracked
    · show StoreTracked (s.store.storeManifest call m).1
      rw [hdone]
      exact h
  | load call => exact (loadManifest_tracked h).1
  | checkpoint call => exact checkpointDirtyDownloadProgress_tracked h
  | restart => exact rfl

theorem storeTracked_run (payload : Option ByteSeq)
    (durable : Option Ed2kResumeManifest) {events : List StoreEvent}
    (h : Run.Along (storeStep md4) CheckpointCovered (.start payload durable) events) :
    StoreTracked ((start payload durable).after md4 events).store :=
  @Run.Along.invariant _ _ _ _ _ _ (fun s : StoreSystem => StoreTracked s.store) storeStep_tracked h
    rfl

end Run

/-- **Dirty-piece tracking loses nothing.** From a process start over any durable rows, along any
    run in which no append's checkpoint fails after committing the row of a piece that was not
    dirty before: every piece whose cached row differs from its durable row is in the dirty set,
    and a successful progress store, of the cached manifest or of one that differs from it in the
    piece it is called for, leaves the durable rows equal to the cached ones. -/
theorem dirty_pieces_tracked (md4 : Md4) (payload : Option ByteSeq)
    (durable : Option Ed2kResumeManifest) (events : List StoreEvent)
    (h : Run.Along (storeStep md4) CheckpointCovered (.start payload durable) events)
    (c : Ed2kResumeManifest) (st : TransferStore)
    (hst : st = ((start payload durable).after md4 events).store)
    (hcache : st.manifestCache = some c) :
    (∃ d, st.durable = some d ∧
      ∀ j, c.findPiece j ≠ d.findPiece j → j ∈ st.dirtyPieceIndexes) ∧
    (∀ call m i, OnlyPiece i c m → (st.storeManifestPieceProgress call m i).2 = true →
      ∃ d, (st.storeManifestPieceProgress call m i).1.manifestCache = some m ∧
        (st.storeManifestPieceProgress call m i).1.durable = some d ∧ SameRows m d) ∧
    ∀ call, (st.checkpointDirtyDownloadProgress call).2 = true →
      ∃ d, (st.checkpointDirtyDownloadProgress call).1.manifestCache = some c ∧
        (st.checkpointDirtyDownloadProgress call).1.durable = some d ∧ SameRows c d := by
  have htracked := storeTracked_run payload durable h
  rw [← hst] at htracked
  obtain ⟨d, hdurable, hrows⟩ := htracked.cached hcache
  have hprogress : ∀ call m i, OnlyPiece i c m →
      (st.storeManifestPieceProgress call m i).2 = true →
      ∃ d, (st.storeManifestPieceProgress call m i).1.manifestCache = some m ∧
        (st.storeManifestPieceProgress call m i).1.durable = some d ∧ SameRows m d := by
    intro call m i honly hok
    rcases storeManifestPieceProgress_cases call hdurable hrows honly with
      ⟨-, hdone⟩ | ⟨d', hdone, -⟩
    · obtain ⟨d', hd', hsame⟩ := hdone.durable
      exact ⟨d', hdone.cache, hd', hsame⟩
    · rw [hdone] at hok
      cases hok
  refine ⟨⟨d, hdurable, fun j hne => ?_⟩, hprogress, fun call hok => ?_⟩
  · by_contra hclean
    exact hne (hrows.clean j hclean)
  · unfold checkpointDirtyDownloadProgress at hok ⊢
    cases hdirty : st.dirtyPieceIndexes.toList with
    | nil =>
      refine ⟨d, hcache, hdurable, fun j => hrows.clean j fun hj => ?_⟩
      rw [← mem_toList, hdirty] at hj
      cases hj
    | cons i =>
      simp only [hdirty, hcache] at hok ⊢
      exact hprogress call c i (.refl i c) hok

/-! ## A checkpoint that fails after its own row -/

/-- Two appends of a thousand bytes to a transfer of two parts: one into the second part, which
    is only cached, and three seconds later one into the first part, whose checkpoint writes the
    rows of both parts and fails where `failAt` says. -/
def twoPartAppends (failAt : Option Nat) : List StoreEvent :=
  [.append ⟨0, false, none, true⟩ 1 ed2kPartSize (ed2kPartSize + 1000) ⟨1000, fun _ => 7⟩,
    .append ⟨3000, false, failAt, true⟩ 0 0 1000 ⟨1000, fun _ => 7⟩]

def twoPartStart : StoreSystem :=
  .start none (some (.new ⟨firstByteMd4 [7], 2 * ed2kPartSize, ed2kPartSize⟩))

/-- When the second append's checkpoint fails, the cache keeps the first append only. -/
theorem dirty_pieces_tracked_two_parts :
    1 ∈ (twoPartStart.after firstByteMd4 (twoPartAppends (some 0))).store.dirtyPieceIndexes := by
  have hcovered : Run.Along (storeStep firstByteMd4) CheckpointCovered twoPartStart
      (twoPartAppends (some 0)) := by
    refine ⟨fun k hk => absurd hk (by simp), fun k hk => .inr ?_, trivial⟩
    cases hk
    simp
  have hcached : ((twoPartStart.after firstByteMd4
      (twoPartAppends (some 0))).store.manifestCache).bind (·.findPiece 1) =
        some ⟨1, .missing, 1000, none, false⟩ := by decide +kernel
  have hstored : ((twoPartStart.after firstByteMd4
      (twoPartAppends (some 0))).store.durable).bind (·.findPiece 1) =
        some ⟨1, .missing, 0, none, false⟩ := by decide +kernel
  obtain ⟨c, hcache, hc⟩ := Option.bind_eq_some_iff.mp hcached
  obtain ⟨⟨d, hdurable, hdirty⟩, -⟩ := dirty_pieces_tracked firstByteMd4 none _
    (twoPartAppends (some 0)) hcovered c _ rfl hcache
  rw [show (start none _).after _ _ = twoPartStart.after firstByteMd4
    (twoPartAppends (some 0)) from rfl] at hdurable
  rw [hdurable, Option.bind_some] at hstored
  exact hdirty 1 (by rw [hc, hstored]; simp)

/-- When it fails at the second row instead, the row of the first part is durable with its
    thousand bytes, cached without them, and not dirty; a checkpoint that then succeeds does not
    bring the two together. -/
theorem failed_checkpoint_loses_its_piece :
    (twoPartStart.after firstByteMd4 (twoPartAppends (some 1))).store.manifestCache.bind
      (·.findPiece 0) = some ⟨0, .missing, 0, none, false⟩ ∧
    (twoPartStart.after firstByteMd4 (twoPartAppends (some 1))).store.durable.bind
      (·.findPiece 0) = some ⟨0, .missing, 1000, none, false⟩ ∧
    0 ∉ (twoPartStart.after firstByteMd4 (twoPartAppends (some 1))).store.dirtyPieceIndexes ∧
    (storeCall firstByteMd4 (twoPartStart.after firstByteMd4 (twoPartAppends (some 1)))
      (.checkpoint ⟨3000, false, none, true⟩)).2 = true ∧
    (storeStep firstByteMd4 (twoPartStart.after firstByteMd4 (twoPartAppends (some 1)))
      (.checkpoint ⟨3000, false, none, true⟩)).store.manifestCache.bind (·.findPiece 0) =
        some ⟨0, .missing, 0, none, false⟩ ∧
    (storeStep firstByteMd4 (twoPartStart.after firstByteMd4 (twoPartAppends (some 1)))
      (.checkpoint ⟨3000, false, none, true⟩)).store.durable.bind (·.findPiece 0) =
        some ⟨0, .missing, 1000, none, false⟩ := by
  decide +kernel

end EmuleBB.Transfer
