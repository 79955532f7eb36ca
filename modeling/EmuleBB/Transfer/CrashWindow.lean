import EmuleBB.Transfer.Dirty
import Mathlib.Algebra.BigOperators.Group.List.Basic
import Mathlib.Order.Interval.Finset.Nat

/-!
# The crash-loss window

How much a crash can lose: the bytes that the cached manifest counts as present and the durable
rows do not. The checkpoint policy compares **sums of contiguous prefixes**, which is the right
measure as long as every append goes to the end of a prefix. A block that lands past the prefix
is recorded in a bitmap only. It adds nothing to the sum, so it never brings a checkpoint closer.
-/

namespace EmuleBB.Transfer

open Ed2kPieceState PartBlockBitmap TransferStore StoreSystem

variable {md4 : Md4} {bitmap : PartBlockBitmap}

/-! ## Counting the bytes at risk -/

def Ed2kPieceState.countsByte (p : Ed2kPieceState) (partLen offset : Nat) : Bool :=
  decide (offset < p.bytesWritten) ||
    (p.resolveBlockBitmap partLen).elim false fun bitmap =>
      bitmap.isPresent (offset / ed2kEmblockSize)

/-- The bytes of one piece that the cached row counts as present and the durable row does not. -/
def unsavedInPiece (partLen : Nat) (cached : Ed2kPieceState) (durable : Option Ed2kPieceState) :
    Nat :=
  ((Finset.range partLen).filter fun offset =>
    cached.countsByte partLen offset ∧ ¬ durable.any (·.countsByte partLen offset)).card

/-- The bytes that a crash would lose. -/
def TransferStore.unsavedBytes (st : TransferStore) : Nat :=
  match st.manifestCache with
  | none => 0
  | some c =>
    (c.pieces.map fun p =>
      unsavedInPiece (c.pieceLen p.pieceIndex) p (st.durable.bind (·.findPiece p.pieceIndex))).sum

def RowBehind (cached durable : Ed2kPieceState) : Prop :=
  cached = durable ∨ cached.blockBitmap = none ∧ durable.blockBitmap = none ∧
    durable.bytesWritten ≤ cached.bytesWritten

section Count

variable {p q : Ed2kPieceState} {partLen offset : Nat}

theorem countsByte_of_none (h : p.blockBitmap = none) :
    p.countsByte partLen offset = true → offset < p.bytesWritten ∨ partLen ≤ offset := by
  unfold countsByte
  rw [resolveBlockBitmap_of_none h, Bool.or_eq_true, decide_eq_true_eq]
  rintro (hlt | hpresent)
  · exact .inl hlt
  · -- a present block of a prefix ends inside the written bytes
    obtain ⟨-, hle⟩ := isPresent_contiguousPrefix.mp hpresent
    have hoff := Nat.lt_div_mul_add ed2kEmblockSize_pos (a := offset)
    generalize offset / ed2kEmblockSize * ed2kEmblockSize = base at *
    generalize ed2kEmblockSize = e at *
    omega

/-- **The prefix sums measure what is at risk** when the durable row is behind the cached one. -/
theorem unsavedInPiece_add_le (h : RowBehind p q) :
    unsavedInPiece partLen p (some q) + q.bytesWritten ≤ p.bytesWritten := by
  unfold unsavedInPiece
  rcases h with rfl | ⟨hp, hq, hle⟩
  · simp
  · have hsub : ((Finset.range partLen).filter fun offset =>
        p.countsByte partLen offset ∧ ¬ (some q).any (·.countsByte partLen offset)) ⊆
        Finset.Ico q.bytesWritten p.bytesWritten := by
      intro offset hmem
      obtain ⟨hrange, hcounts, hnot⟩ := Finset.mem_filter.mp hmem
      rw [Finset.mem_range] at hrange
      rw [Finset.mem_Ico]
      refine ⟨?_, ?_⟩
      · by_contra hlt
        exact hnot (by simp [countsByte, Nat.lt_of_not_le hlt])
      · rcases countsByte_of_none hp hcounts with hlt | hge
        · exact hlt
        · omega
    have hcard := Finset.card_le_card hsub
    rw [Nat.card_Ico] at hcard
    omega

theorem countsByte_empty {i partLen offset : Nat} (h : offset < partLen) :
    (Ed2kPieceState.empty i).countsByte partLen offset = false := by
  rw [Bool.eq_false_iff]
  intro hcounts
  rcases countsByte_of_none (p := .empty i) rfl hcounts with hlt | hge
  · exact absurd hlt (Nat.not_lt_zero _)
  · exact absurd h (Nat.not_lt_of_le hge)

/-- A range that is cached and not durable is at risk as a whole. -/
theorem le_unsavedInPiece {partLen low high : Nat} {cached : Ed2kPieceState}
    {durable : Option Ed2kPieceState} (hhigh : high ≤ partLen)
    (hcached : ∀ offset, low ≤ offset → offset < high → cached.countsByte partLen offset = true)
    (hdurable : ∀ offset < partLen, durable.any (·.countsByte partLen offset) = false) :
    high - low ≤ unsavedInPiece partLen cached durable := by
  rw [← Nat.card_Ico]
  refine Finset.card_le_card fun offset hmem => ?_
  obtain ⟨hlow, hlt⟩ := Finset.mem_Ico.mp hmem
  have hin : offset < partLen := hlt.trans_le hhigh
  refine Finset.mem_filter.mpr ⟨Finset.mem_range.mpr hin, hcached offset hlow hlt, ?_⟩
  rw [hdurable offset hin]
  simp

end Count

/-! ## An append at the end of a prefix -/

section Prefix

variable {m : PartBlockBitmap} {k : Nat}

theorem PartBlockBitmap.leading_eq (h : ∀ i, m.isPresent i = true ↔ i < k) : m.leading = k := by
  rcases Nat.lt_trichotomy m.leading k with hlt | heq | hgt
  · have hpresent := (h m.leading).mpr hlt
    rw [not_isPresent_leading] at hpresent
    cases hpresent
  · exact heq
  · exact absurd ((h k).mp (isPresent_of_lt_leading hgt)) (lt_irrefl k)

theorem PartBlockBitmap.clean_of_isPresent_iff (h : ∀ i, m.isPresent i = true ↔ i < k) :
    m.presentBytes = m.contiguousPrefixBytes := by
  rw [m.presentBytes_split, leading_eq h]
  have hnone : (((List.range (m.blockCount - k)).map (k + ·)).filter m.isPresent) = [] := by
    refine List.filter_eq_nil_iff.mpr fun i hi => ?_
    obtain ⟨n, -, rfl⟩ := List.mem_map.mp hi
    rw [h]
    omega
  rw [hnone]
  rfl

/-- **A block that starts inside the prefix extends it.** The first missing block of a prefix is
    the only one that is both missing and starts at or below its end. -/
theorem isPresent_setPresent_contiguousPrefix {partLen bytesWritten idx : Nat}
    (hstart : idx * ed2kEmblockSize ≤ bytesWritten)
    (habsent : (contiguousPrefix partLen bytesWritten).isPresent idx = false)
    (hopen : ((contiguousPrefix partLen bytesWritten).setPresent idx).allPresent =
      false) (i : Nat) :
    ((contiguousPrefix partLen bytesWritten).setPresent idx).isPresent i = true ↔
      i < idx + 1 := by
  have hmul : ∀ a b : Nat, a < b → a * ed2kEmblockSize + ed2kEmblockSize ≤ b * ed2kEmblockSize := by
    intro a b hab
    have := Nat.mul_le_mul_right ed2kEmblockSize (Nat.succ_le_of_lt hab)
    rwa [Nat.succ_mul] at this
  have hidx : idx < (contiguousPrefix partLen bytesWritten).blockCount := by
    -- past the last block the prefix would be the whole part
    by_contra hge
    have hbeyond : partLen ≤ idx * ed2kEmblockSize := by
      have hnot : ¬ idx < blockCountFor partLen := by
        simpa [blockCount] using hge
      rw [lt_blockCountFor_iff] at hnot
      exact Nat.le_of_not_lt hnot
    have hall : (contiguousPrefix partLen bytesWritten).allPresent = true := by
      refine allPresent_iff.mpr fun j hj => ?_
      refine isPresent_contiguousPrefix.mpr
        ⟨by simpa [blockCount] using hj, ?_⟩
      exact (Nat.min_le_right _ _).trans (hbeyond.trans hstart)
    unfold setPresent at hopen
    rw [dif_pos (Nat.le_of_not_lt hge), hall] at hopen
    cases hopen
  have hidx' : idx < blockCountFor partLen := by simpa [blockCount] using hidx
  have hend : bytesWritten < min (idx * ed2kEmblockSize + ed2kEmblockSize) partLen := by
    by_contra hle
    have hpresent := isPresent_contiguousPrefix.mpr ⟨hidx', Nat.le_of_not_lt hle⟩
    rw [habsent] at hpresent
    cases hpresent
  rw [isPresent_setPresent hidx, Bool.or_eq_true, decide_eq_true_eq,
    isPresent_contiguousPrefix]
  rcases Nat.lt_trichotomy i idx with hlt | heq | hgt
  · have hprev := hmul i idx hlt
    have hcount : i < blockCountFor partLen := hlt.trans hidx'
    refine ⟨fun _ => by omega, fun _ => .inl ⟨hcount, ?_⟩⟩
    exact (Nat.min_le_left _ _).trans (hprev.trans hstart)
  · exact ⟨fun _ => by omega, fun _ => .inr heq.symm⟩
  · have hnext := hmul idx i hgt
    refine ⟨?_, fun h => by omega⟩
    rintro (⟨-, hle⟩ | heq)
    · generalize ed2kEmblockSize = e at *
      generalize idx * e = lo at *
      generalize i * e = hi at *
      omega
    · omega

end Prefix

theorem bytesWritten_missingWith {p : Ed2kPieceState} :
    (p.missingWith bitmap).bytesWritten = bitmap.contiguousPrefixBytes := rfl

theorem blockBitmap_missingWith_of_clean {p : Ed2kPieceState}
    (hclean : bitmap.presentBytes = bitmap.contiguousPrefixBytes) :
    (p.missingWith bitmap).blockBitmap = none := if_pos hclean

/-- **An append that starts at or below the end of a prefix leaves a prefix**, and not a shorter
    one, whenever it is reported as progress. -/
theorem PieceEffect.extends_prefix {file : ByteSeq} {m : Ed2kResumeManifest} {i j start len : Nat}
    {p q : Ed2kPieceState} {outcome : PieceWriteOutcome}
    (h : PieceEffect md4 false file m i start len p q outcome)
    (hstore : writeStore false i outcome = .progress j) (hbitmap : p.blockBitmap = none)
    (hinside : start ≤ m.pieceStart i + p.bytesWritten) :
    q.blockBitmap = none ∧ p.bytesWritten ≤ q.bytesWritten := by
  cases h with
  | verified | salvaged | gapped => exact absurd hstore (by simp [writeStore, requestedBlockStore])
  | advance => exact ⟨hbitmap, Nat.le_add_right _ _⟩
  | block bitmap idx outcome resolved startEq stopEq open_ absent =>
    rw [resolveBlockBitmap_of_none hbitmap] at resolved
    cases resolved
    have hstart : idx * ed2kEmblockSize ≤ p.bytesWritten := by
      have hlow : start = m.pieceStart i + idx * ed2kEmblockSize := startEq
      rw [hlow] at hinside
      exact Nat.le_of_add_le_add_left hinside
    have hpresent := isPresent_setPresent_contiguousPrefix hstart (absent rfl) open_
    have hclean := clean_of_isPresent_iff hpresent
    refine ⟨blockBitmap_missingWith_of_clean hclean, ?_⟩
    rw [bytesWritten_missingWith, contiguousPrefixBytes_eq,
      leading_eq hpresent, partLen_setPresent,
      partLen_contiguousPrefix, Nat.succ_mul]
    -- the block was missing, so the prefix did not reach its end
    have hidx : idx < blockCountFor (m.pieceLen i) := by
      have hself := isPresent_lt ((hpresent idx).mpr (Nat.lt_succ_self idx))
      simpa [blockCount] using hself
    by_contra hlt
    have hback := isPresent_contiguousPrefix.mpr
      ⟨hidx, (Nat.lt_of_not_le hlt).le⟩
    rw [absent rfl] at hback
    cases hback

/-! ## The window -/

def rowBytes (d : Ed2kResumeManifest) (j : Nat) : Nat :=
  ((d.findPiece j).map bytesWritten).getD 0

def RowsBehind (c d : Ed2kResumeManifest) : Prop :=
  ∀ j p, c.findPiece j = some p → ∃ q, d.findPiece j = some q ∧ RowBehind p q

/-- The invariant of the checkpoint policy for a cached manifest `c` over durable rows `d`. -/
structure Window (c d : Ed2kResumeManifest) (state : Ed2kManifestCheckpointState) : Prop where
  nodup : (c.pieces.map pieceIndex).Nodup
  behind : RowsBehind c d
  persisted : state.persistedBytesWritten = ((c.pieces.map pieceIndex).map (rowBytes d)).sum
  bounded : c.manifestProgressBytes < state.persistedBytesWritten + ed2kResumeCheckpointBytes

section Window

variable {c d m : Ed2kResumeManifest} {state : Ed2kManifestCheckpointState} {i now : Nat}

/-- **What is at risk stays below the checkpoint size.** -/
theorem Window.unsaved_lt {st : TransferStore} (h : Window c d state)
    (hcache : st.manifestCache = some c) (hdurable : st.durable = some d) :
    st.unsavedBytes < ed2kResumeCheckpointBytes := by
  have hsum : st.unsavedBytes + state.persistedBytesWritten ≤ c.manifestProgressBytes := by
    unfold unsavedBytes Ed2kResumeManifest.manifestProgressBytes
    rw [hcache, hdurable, h.persisted, List.map_map]
    rw [← List.sum_map_add]
    refine List.sum_le_sum fun p hp => ?_
    have hfind := Table.lookup_of_mem h.nodup hp
    obtain ⟨q, hq, hbehind⟩ := h.behind p.pieceIndex p hfind
    simp only [Option.bind_some, Function.comp_apply, rowBytes, hq, Option.map_some,
      Option.getD_some]
    exact unsavedInPiece_add_le hbehind
  have hbounded := h.bounded
  omega

theorem Window.of_persisted (hnodup : (m.pieces.map pieceIndex).Nodup) (hsame : SameRows m d) :
    Window m d ⟨m.manifestProgressBytes, now, ∅⟩ := by
  refine ⟨hnodup, fun j p hp => ⟨p, by rw [← hsame j, hp], .inl rfl⟩, ?_, ?_⟩
  · rw [List.map_map]
    refine congrArg List.sum (List.map_congr_left fun p hp => ?_)
    have hfind : m.findPiece p.pieceIndex = some p := Table.lookup_of_mem hnodup hp
    simp only [Function.comp_apply, rowBytes, ← hsame p.pieceIndex, hfind, Option.map_some,
      Option.getD_some]
  · show m.manifestProgressBytes < m.manifestProgressBytes + _
    exact Nat.lt_add_of_pos_right (Nat.mul_pos (by decide) ed2kEmblockSize_pos)

/-- `m` is `c` with at most the prefix of piece `i` made longer. -/
structure ExtendsPrefix (i : Nat) (c m : Ed2kResumeManifest) : Prop extends OnlyPiece i c m where
  grows : ∀ p q, c.findPiece i = some p → m.findPiece i = some q →
    p.blockBitmap = none ∧ q.blockBitmap = none ∧ p.bytesWritten ≤ q.bytesWritten

theorem RowsBehind.extend (h : RowsBehind c d) (hext : ExtendsPrefix i c m) : RowsBehind m d := by
  intro j q hq
  by_cases hj : j = i
  · subst hj
    obtain ⟨p, hp⟩ : ∃ p, c.findPiece j = some p := by
      have hsome := hext.isSome_eq j
      rw [hq] at hsome
      exact Option.isSome_iff_exists.mp hsome.symm
    obtain ⟨hpNone, hqNone, hle⟩ := hext.grows p q hp hq
    obtain ⟨r, hr, rfl | ⟨-, hrNone, hrle⟩⟩ := h j p hp
    · exact ⟨p, hr, .inr ⟨hqNone, hpNone, hle⟩⟩
    · exact ⟨r, hr, .inr ⟨hqNone, hrNone, hrle.trans hle⟩⟩
  · rw [hext.other j hj] at hq
    exact h j q hq

end Window

/-- Cache and row differ by less than a checkpoint, and where they differ the piece is dirty. -/
def WindowOpen (st : TransferStore) : Prop :=
  match st.manifestCache with
  | none => st.checkpointState = none ∧
      ∀ d, st.durable = some d → (d.pieces.map pieceIndex).Nodup
  | some c => ∃ d state, st.durable = some d ∧ st.checkpointState = some state ∧
      Window c d state ∧ RowsTracked state.dirtyPieceIndexes c d

section Store

variable {st : TransferStore} {call : StoreCall} {m c : Ed2kResumeManifest} {now : Nat}

theorem WindowOpen.of_cached {d : Ed2kResumeManifest} {state : Ed2kManifestCheckpointState}
    (hcache : st.manifestCache = some c) (hdurable : st.durable = some d)
    (hstate : st.checkpointState = some state) (hwindow : Window c d state)
    (hrows : RowsTracked state.dirtyPieceIndexes c d) : WindowOpen st := by
  unfold WindowOpen
  rw [hcache]
  exact ⟨d, state, hdurable, hstate, hwindow, hrows⟩

/-- What a cached manifest has over the durable one. -/
theorem WindowOpen.cached (h : WindowOpen st) (hcache : st.manifestCache = some c) :
    ∃ d state, st.durable = some d ∧ st.checkpointState = some state ∧
      Window c d state ∧ RowsTracked state.dirtyPieceIndexes c d := by
  unfold WindowOpen at h
  rwa [hcache] at h

theorem PersistedAs.windowOpen (h : PersistedAs st now m)
    (hnodup : (m.pieces.map pieceIndex).Nodup) : WindowOpen st := by
  obtain ⟨d, hdurable, hsame⟩ := h.durable
  exact .of_cached h.cache hdurable h.checkpoint (.of_persisted hnodup hsame) (.of_same hsame)

theorem loadManifest_windowOpen (h : WindowOpen st) : WindowOpen (st.loadManifest now).1 ∧
      ∀ c, (st.loadManifest now).2 = some c → (st.loadManifest now).1.manifestCache = some c := by
  rcases loadManifest_cases st now with
    ⟨c, hcache, hload⟩ | ⟨-, hload⟩ | ⟨m, hcache, hm, hdurable, hdone⟩
  · rw [hload]
    exact ⟨h, fun c' hc' => hcache.trans hc'⟩
  · rw [hload]
    exact ⟨h, fun c' hc' => absurd hc' (by simp)⟩
  · unfold WindowOpen at h
    rw [hcache] at h
    refine ⟨hdone.windowOpen (h.2 m hdurable), fun c' hc' => ?_⟩
    rw [hdone.cache, ← hm, hc']

/-- **Every way a successful write path ends keeps the store inside the window**: a full store and
    a checkpoint close it, and progress that is only cached is what the policy has just found to
    be below the threshold. -/
theorem persistWrite_windowOpen {done : WriteDone} (h : WindowOpen st)
    (hcache : st.manifestCache = some c) (hok : (st.persistWrite call done).2 = true)
    (hindices : done.manifest.pieces.map pieceIndex = c.pieces.map pieceIndex)
    (hprogress : ∀ i, done.store = .progress i → ExtendsPrefix i c done.manifest) :
    WindowOpen (st.persistWrite call done).1 := by
  obtain ⟨d, state, hdurable, hstate, hwindow, hrows⟩ := h.cached hcache
  have hnodup : (done.manifest.pieces.map pieceIndex).Nodup := by
    rw [hindices]
    exact hwindow.nodup
  unfold persistWrite at hok ⊢
  cases hstore : done.store with
  | unchanged => exact h
  | full =>
    rw [hstore] at hok
    rcases storeManifest_cases st call done.manifest with ⟨-, hdone⟩ | hdone
    · exact hdone.windowOpen hnodup
    · simp only [hdone] at hok
      cases hok
  | progress i =>
    have hext := hprogress i hstore
    have hentry : st.checkpointEntry call.now done.manifest = state := by
      unfold checkpointEntry
      rw [hstate, Option.getD_some]
    have hdirty := dirtyPieceIndexes_shouldCheckpointManifest st call.now done.manifest
    have hdirtyState : st.dirtyPieceIndexes = state.dirtyPieceIndexes := by
      unfold dirtyPieceIndexes
      rw [hstate]
    simp only [hstore] at hok ⊢
    split at hok
    · -- the threshold was reached
      rename_i hasked
      rw [if_pos hasked]
      have hrows' : RowsTracked
          (st.shouldCheckpointManifest call.now done.manifest).1.dirtyPieceIndexes c d := by
        rw [hdirty, hdirtyState]
        exact hrows
      have hdurable' : (st.shouldCheckpointManifest call.now done.manifest).1.durable = some d :=
        hdurable
      rcases storeManifestPieceProgress_cases call hdurable' hrows' hext.toOnlyPiece with
        ⟨-, hdone⟩ | ⟨d', hdone, -⟩
      · exact hdone.windowOpen hnodup
      · rw [hdone] at hok
        cases hok
    · rename_i hasked
      rw [if_neg hasked]
      have hbelow : done.manifest.manifestProgressBytes <
          state.persistedBytesWritten + ed2kResumeCheckpointBytes := by
        simp only [shouldCheckpointManifest, hentry, Bool.or_eq_true,
          decide_eq_true_eq, not_or] at hasked
        generalize ed2kResumeCheckpointBytes = bytes at *
        omega
      have hnoted : (((st.shouldCheckpointManifest call.now done.manifest).1.noteDirtyPiece
          call.now done.manifest i).cacheManifest done.manifest).checkpointState =
            some { state with dirtyPieceIndexes := state.dirtyPieceIndexes.insert i } := by
        simp only [cacheManifest, noteDirtyPiece,
          shouldCheckpointManifest, checkpointEntry, hstate,
          Option.getD_some]
      refine .of_cached rfl hdurable hnoted ?_ ?_
      · refine ⟨hnodup, hwindow.behind.extend hext, ?_, hbelow⟩
        rw [hindices]
        exact hwindow.persisted
      · exact hrows.insert hext.toOnlyPiece

end Store

/-! ## Runs of appends -/

/-- What a write path hands to the store as to the window: the same pieces, and for an append
    that starts at or below the end of a prefix, a prefix made longer. -/
theorem WriteEffect.extendsPrefix {salvage : Bool} {payload : Option ByteSeq}
    {m : Ed2kResumeManifest} {i start : Nat} {data : ByteSeq} {w : WriteStep} {done : WriteDone}
    (h : WriteEffect md4 salvage payload m i start data w) (hok : w.result = .ok done)
    (hinside : salvage = false → ∀ p, m.findPiece i = some p →
      p.blockBitmap = none ∧ start ≤ m.pieceStart i + p.bytesWritten) :
    done.manifest.pieces.map pieceIndex = m.pieces.map pieceIndex ∧
      ∀ j, done.store = .progress j → ExtendsPrefix j m done.manifest := by
  have honly := fun j => h.onlyPiece (j := j) hok
  cases h with
  | refused | failed => cases hok
  | duplicate =>
    cases hok
    exact ⟨rfl, fun j hj => absurd hj (by simp)⟩
  | settled p q outcome m' hfound hlow hhigh heffect hnext =>
    cases hok
    have hrows : m'.pieces = (m.setPiece i q).pieces := by
      rcases hnext with rfl | ⟨rfl, -⟩
      · exact pieces_refresh _
      · rfl
    refine ⟨?_, fun j hj => ?_⟩
    · rw [hrows]
      exact map_pieceIndex_setPiece hfound heffect.pieceIndex_eq
    · obtain ⟨rfl, rfl, honly⟩ := honly j hj
      refine ⟨honly, fun p' q' hp' hq' => ?_⟩
      cases hfound.symm.trans hp'
      have hindex := heffect.pieceIndex_eq.trans (pieceIndex_of_findPiece hfound)
      have hself := findPiece_setPiece_self hfound hindex
      obtain rfl : q = q' := by
        have hsame : m'.findPiece j = (m.setPiece j q).findPiece j := by
          unfold Ed2kResumeManifest.findPiece
          rw [hrows]
        exact Option.some.inj (hself.symm.trans (hsame.symm.trans hq'))
      obtain ⟨hbitmap, hstart⟩ := hinside rfl p hfound
      exact ⟨hbitmap, heffect.extends_prefix hj hbitmap hstart⟩

def startsInsidePrefix (m : Ed2kResumeManifest) (i start : Nat) : Bool :=
  (m.findPiece i).all fun p =>
    p.blockBitmap.isNone && decide (start ≤ m.pieceStart i + p.bytesWritten)

/-- The call succeeds, and an append goes to a piece without a bitmap and starts at or below the
    end of its prefix. Salvage writes, loads and checkpoints may come in between. -/
def inOrder (md4 : Md4) (s : StoreSystem) (e : StoreEvent) : Bool :=
  (storeCall md4 s e).2 &&
    match e with
    | .append call i start _ _ => (s.store.loadManifest call.now).2.all
      (startsInsidePrefix · i start)
    | .salvageWrite _ _ _ _ _ => true
    | .load _ => true
    | .checkpoint _ => true
    | .store _ _ => false
    | .restart => false

section Run

variable {s : StoreSystem} {call : StoreCall}

theorem writeThrough_windowOpen {write : Ed2kResumeManifest → WriteStep}
    (h : WindowOpen s.store) (hok : (s.writeThrough call write).2 = true)
    (hwrite : ∀ c done, (s.store.loadManifest call.now).2 = some c →
      (write c).result = .ok done →
      done.manifest.pieces.map pieceIndex = c.pieces.map pieceIndex ∧
        ∀ i, done.store = .progress i → ExtendsPrefix i c done.manifest) :
    WindowOpen (s.writeThrough call write).1.store := by
  obtain ⟨hload, hcached⟩ := loadManifest_windowOpen h
  unfold writeThrough at hok ⊢
  rcases hloaded : s.store.loadManifest call.now with ⟨st, loaded⟩
  rw [hloaded] at hload hcached hok hwrite
  cases loaded with
  | none => exact hload
  | some c =>
    simp only at hok hload ⊢
    cases hresult : (write c).result with
    | error => exact hload
    | ok done =>
      rw [hresult] at hok
      obtain ⟨hindices, hprogress⟩ := hwrite c done rfl hresult
      exact persistWrite_windowOpen hload (hcached c rfl) hok hindices hprogress

theorem storeStep_windowOpen (s : StoreSystem) (e : StoreEvent) (h : WindowOpen s.store)
    (horder : inOrder md4 s e = true) : WindowOpen (storeStep md4 s e).store := by
  obtain ⟨hok, horder⟩ := Bool.and_eq_true_iff.mp horder
  cases e with
  | append call i start stop data =>
    refine writeThrough_windowOpen h hok fun c done hloaded hresult => ?_
    exact (appendPieceBlockInner_effect md4 call.ichEnabled s.payload c i start stop
      data).extendsPrefix hresult fun _ p hp => by
        simpa [hloaded, startsInsidePrefix, hp] using horder
  | salvageWrite call part start stop data =>
    refine writeThrough_windowOpen h hok fun c done hloaded hresult => ?_
    exact (writeSalvageBlockUnfinalized_effect md4 call.ichEnabled s.payload c part start stop
      data).extendsPrefix hresult fun hfalse => absurd hfalse (by simp)
  | load call => exact (loadManifest_windowOpen h).1
  | store | restart => cases horder
  | checkpoint call =>
    simp only [storeCall] at hok
    show WindowOpen (s.store.checkpointDirtyDownloadProgress call).1
    unfold checkpointDirtyDownloadProgress at hok ⊢
    cases hdirty : s.store.dirtyPieceIndexes.toList with
    | nil => exact h
    | cons i =>
      simp only [hdirty] at hok ⊢
      cases hcache : s.store.manifestCache with
      | none => exact h
      | some c =>
        simp only [hcache] at hok ⊢
        obtain ⟨d, state, hdurable, hstate, hwindow, hrows⟩ := h.cached hcache
        have hrows' : RowsTracked s.store.dirtyPieceIndexes c d := by
          unfold dirtyPieceIndexes
          rw [hstate]
          exact hrows
        rcases storeManifestPieceProgress_cases call hdurable hrows' (.refl i c) with
          ⟨-, hdone⟩ | ⟨d', hdone, -⟩
        · exact hdone.windowOpen hwindow.nodup
        · rw [hdone] at hok
          cases hok

end Run

/-- **The crash-loss window is bounded** along any run of successful calls in which every append
    goes to a piece without a bitmap and starts at or below the end of its prefix: whatever has
    arrived, fewer bytes than one checkpoint are cached and not durable. The run starts from a
    process start over durable rows with distinct piece indexes. -/
theorem crash_window_bounded (md4 : Md4) (payload : Option ByteSeq)
    (m : Ed2kResumeManifest) (hnodup : (m.pieces.map pieceIndex).Nodup) (events : List StoreEvent)
    (h : Run.Along (storeStep md4) (inOrder md4 · ·) (.start payload (some m)) events) :
    ((start payload (some m)).after md4 events).store.unsavedBytes <
      ed2kResumeCheckpointBytes := by
  have hopen : WindowOpen ((start payload (some m)).after md4 events).store :=
    @Run.Along.invariant _ _ _ _ _ _ (fun s : StoreSystem => WindowOpen s.store)
      storeStep_windowOpen h
      ⟨rfl, fun d hd => by cases hd; exact hnodup⟩
  cases hcache : ((start payload (some m)).after md4 events).store.manifestCache with
  | none =>
    unfold unsavedBytes
    rw [hcache]
    exact Nat.mul_pos (by decide) ed2kEmblockSize_pos
  | some =>
    obtain ⟨d, state, hdurable, -, hwindow, -⟩ := hopen.cached hcache
    exact hwindow.unsaved_lt hcache hdurable

/-! ## Blocks past the prefix -/

def blockAppends (first count : Nat) : List StoreEvent :=
  (List.range count).map fun k =>
    .append ⟨3000 * k, false, none, true⟩ 0 ((first + k) * ed2kEmblockSize)
      ((first + k + 1) * ed2kEmblockSize) ⟨ed2kEmblockSize, fun _ => 7⟩

def tenBlocks : Ed2kResumeManifest :=
  .new ⟨firstByteMd4 [7], 10 * ed2kEmblockSize, ed2kPartSize⟩

/-- Two blocks, of the eight a checkpoint waits for. -/
theorem crash_window_bounded_two_blocks :
    ((start none (some tenBlocks)).after firstByteMd4
      (blockAppends 0 2)).store.unsavedBytes < ed2kResumeCheckpointBytes := by
  refine crash_window_bounded firstByteMd4 none tenBlocks (by decide +kernel) (blockAppends 0 2) ?_
  exact ⟨by decide +kernel, by decide +kernel, trivial⟩

def gappedRow : Ed2kPieceState := ⟨0, .missing, 0, some ['f', 'e', '0', '1'], false⟩

theorem countsByte_gappedRow {offset : Nat} (hlow : ed2kEmblockSize ≤ offset)
    (hhigh : offset < 9 * ed2kEmblockSize) :
    gappedRow.countsByte (10 * ed2kEmblockSize) offset = true := by
  have hblocks : ∀ k < 9, 1 ≤ k →
      ((gappedRow.resolveBlockBitmap (10 * ed2kEmblockSize)).elim false
        fun bitmap => bitmap.isPresent k) = true := by decide +kernel
  have hlt : offset / ed2kEmblockSize < 9 := (Nat.div_lt_iff_lt_mul ed2kEmblockSize_pos).mpr hhigh
  have hpos : 1 ≤ offset / ed2kEmblockSize := (Nat.one_le_div_iff ed2kEmblockSize_pos).mpr hlow
  unfold countsByte
  rw [hblocks _ hlt hpos, Bool.or_true]

/-- **The bound does not hold for blocks that arrive past the prefix.** Eight blocks after a
    missing first one, each of them three seconds after the last and each accepted, are all in the
    cache and none of them is durable. -/
theorem out_of_order_blocks_exceed_window :
    Run.Along (storeStep firstByteMd4) (fun s e => (storeCall firstByteMd4 s e).2 = true)
      (.start none (some tenBlocks)) (blockAppends 1 8) ∧
    ed2kResumeCheckpointBytes ≤ ((start none (some tenBlocks)).after firstByteMd4
      (blockAppends 1 8)).store.unsavedBytes := by
  refine ⟨⟨by decide +kernel, by decide +kernel, by decide +kernel, by decide +kernel,
    by decide +kernel, by decide +kernel, by decide +kernel, by decide +kernel, trivial⟩, ?_⟩
  generalize hst : ((start none (some tenBlocks)).after firstByteMd4
    (blockAppends 1 8)).store = st
  have hcached : st.manifestCache.map (fun c => (c.pieces, c.pieceLen 0)) =
      some ([gappedRow], 10 * ed2kEmblockSize) := by
    rw [← hst]
    decide +kernel
  have hstored : st.durable.bind (·.findPiece 0) = some (.empty 0) := by
    rw [← hst]
    decide +kernel
  obtain ⟨c, hcache, hc⟩ := Option.map_eq_some_iff.mp hcached
  obtain ⟨hpieces, hlen⟩ := Prod.mk.inj hc
  have hrow : st.unsavedBytes =
      unsavedInPiece (10 * ed2kEmblockSize) gappedRow (some (.empty 0)) := by
    unfold unsavedBytes
    rw [hcache, ← hlen, ← hstored]
    show (c.pieces.map _).sum = _
    rw [hpieces]
    rfl
  rw [hrow]
  have hbytes : ed2kResumeCheckpointBytes = 9 * ed2kEmblockSize - ed2kEmblockSize := by
    unfold ed2kResumeCheckpointBytes
    generalize ed2kEmblockSize = e
    omega
  rw [hbytes]
  refine le_unsavedInPiece (Nat.mul_le_mul_right _ (by decide)) ?_ ?_
  · exact fun offset hlow hhigh => countsByte_gappedRow hlow hhigh
  · exact fun offset hlt => countsByte_empty hlt

end EmuleBB.Transfer
