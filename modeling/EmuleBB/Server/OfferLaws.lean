import EmuleBB.Server.OfferPump

/-!
# What the offer-files pump guarantees

The laws are statements about the log of batches. The one notion behind them is that a file was
**sent in the form it has** (`SentInForm`): a batch sent the very entry, and every ranking since has
held it unchanged. The set of published hashes is exactly that, on the current ranking
(`Ready.published_iff`): the reconciliation with a new ranking keeps it so, and sending adds the
files of the batch. So no file goes out twice in one form and the pending count is exact. The budget
and the spacing of packets are laws of their own.
-/

namespace EmuleBB.Server

open OfferedFileEntry (fileHash)

variable {candidates : List OfferedFileEntry} {entry : OfferedFileEntry}

/-! ## The selection loop -/

section Scan

variable {alreadyPublished distinctPublished : Finset Md4Digest}
  {maxOfferFiles maxNewCandidates : Nat}

def Selectable (alreadyPublished distinctPublished : Finset Md4Digest)
    (maxNewCandidates newCandidates : Nat) (entry : OfferedFileEntry) : Prop :=
  entry.fileHash ∉ alreadyPublished ∧
    (entry.fileHash ∈ distinctPublished ∨ newCandidates < maxNewCandidates)

def newCount (distinctPublished : Finset Md4Digest) (entries : List OfferedFileEntry) : Nat :=
  entries.countP fun entry => entry.fileHash ∉ distinctPublished

/-- What the loop adds to the files it has: some of those ahead, in order and none published, within
    both limits; and none only if there is no room or none may be taken. -/
theorem scanOfferFiles_spec (files entries : List OfferedFileEntry) (newCandidates scanned : Nat) :
    ∃ picked, (scanOfferFiles alreadyPublished distinctPublished maxOfferFiles maxNewCandidates
        files entries newCandidates scanned).1 = entries ++ picked ∧
      picked.Sublist files ∧
      (∀ entry ∈ picked, entry.fileHash ∉ alreadyPublished) ∧
      newCount distinctPublished picked ≤ maxNewCandidates - newCandidates ∧
      picked.length ≤ maxOfferFiles - entries.length ∧
      (picked = [] → entries.length < maxOfferFiles → ∀ entry ∈ files,
        ¬ Selectable alreadyPublished distinctPublished maxNewCandidates newCandidates entry) := by
  induction files generalizing entries newCandidates scanned with
  | nil =>
    exact ⟨[], by simp [scanOfferFiles], by simp, by simp, by simp [newCount], by simp, by simp⟩
  | cons entry rest ih =>
    unfold scanOfferFiles
    split
    case isFalse hfull =>
      refine ⟨[], by simp, by simp, by simp, by simp [newCount], by simp, ?_⟩
      intro _ hroom
      exact absurd hroom hfull
    case isTrue hroom =>
      split
      case isTrue htaken =>
        obtain ⟨picked, hresult, hsub, hnew, hcount, hlen, _⟩ := ih (entries ++ [entry])
          (newCandidates + if entry.fileHash ∈ distinctPublished then 0 else 1) (scanned + 1)
        refine ⟨entry :: picked, ?_, hsub.cons_cons entry, ?_, ?_, ?_, nofun⟩
        · rw [hresult, List.append_assoc]
          rfl
        · intro e he
          rcases List.mem_cons.mp he with rfl | he
          · exact htaken.1
          · exact hnew e he
        · -- the file counts against the budget exactly when it is new
          unfold newCount at hcount ⊢
          by_cases hold : entry.fileHash ∈ distinctPublished
          · simpa [List.countP_cons, hold] using hcount
          · have hslot := htaken.2.resolve_left hold
            simp only [hold, if_false] at hcount
            simp only [List.countP_cons, hold, not_false_eq_true, decide_true, if_true]
            omega
        · simp only [List.length_append, List.length_cons, List.length_nil] at hlen ⊢
          omega
      case isFalse hskipped =>
        obtain ⟨picked, hresult, hsub, hnew, hcount, hlen, hempty⟩ :=
          ih entries newCandidates (scanned + 1)
        refine ⟨picked, hresult, hsub.cons entry, hnew, hcount, hlen, ?_⟩
        intro hnone hroom' e he
        rcases List.mem_cons.mp he with rfl | he
        · exact hskipped
        · exact hempty hnone hroom' e he

end Scan

/-! ## Rankings -/

def Ranking (ranked : List OfferedFileEntry) : Prop := (ranked.map fileHash).Nodup

theorem mem_rankedOfferFiles {seen : Finset Md4Digest}
    (h : entry ∈ rankedOfferFiles seen candidates) : entry.fileHash ∉ seen := by
  induction candidates generalizing seen with
  | nil => cases h
  | cons first candidates ih =>
    unfold rankedOfferFiles at h
    split at h
    case isTrue hseen => exact ih h
    case isFalse hnew =>
      rcases List.mem_cons.mp h with rfl | h
      · exact hnew
      · intro hmem
        exact ih h (Finset.mem_insert_of_mem hmem)

theorem ranking_rankedOfferFiles (seen : Finset Md4Digest) (candidates : List OfferedFileEntry) :
    Ranking (rankedOfferFiles seen candidates) := by
  induction candidates generalizing seen with
  | nil => exact List.nodup_nil
  | cons first candidates ih =>
    unfold rankedOfferFiles
    split
    case isTrue hseen => exact ih seen
    case isFalse hnew =>
      refine List.nodup_cons.mpr ⟨?_, ih _⟩
      intro hmem
      obtain ⟨entry, hentry, hhash⟩ := List.mem_map.mp hmem
      apply mem_rankedOfferFiles hentry
      rw [hhash]
      exact Finset.mem_insert_self _ _

section Ranking

variable {ranked : List OfferedFileEntry}

theorem Ranking.eq_of_hash (h : Ranking ranked) {a b : OfferedFileEntry} (ha : a ∈ ranked)
    (hb : b ∈ ranked) (heq : a.fileHash = b.fileHash) : a = b :=
  List.inj_on_of_nodup_map h ha hb heq

theorem byHash_eq_some_iff (h : Ranking ranked) {hash : Md4Digest} :
    byHash ranked hash = some entry ↔ entry ∈ ranked ∧ entry.fileHash = hash := by
  unfold byHash
  constructor
  · intro hfind
    have hmem := List.mem_of_find?_eq_some hfind
    have hhash := List.find?_some hfind
    exact ⟨List.mem_reverse.mp hmem, of_decide_eq_true hhash⟩
  · rintro ⟨hmem, rfl⟩
    cases hfind : ranked.reverse.find? fun e => decide (e.fileHash = entry.fileHash) with
    | none =>
      have hnone := List.find?_eq_none.mp hfind entry (List.mem_reverse.mpr hmem)
      simp at hnone
    | some =>
      have hfound := List.mem_reverse.mp (List.mem_of_find?_eq_some hfind)
      have hhash := List.find?_some hfind
      rw [h.eq_of_hash hfound hmem (of_decide_eq_true hhash)]

theorem sameOffer_iff {previous : List OfferedFileEntry} (hprevious : Ranking previous)
    (h : Ranking ranked) {hash : Md4Digest} :
    sameOffer previous ranked hash = true ↔
      ∃ entry, entry ∈ previous ∧ entry ∈ ranked ∧ entry.fileHash = hash := by
  unfold sameOffer
  constructor
  · intro hsame
    split at hsame
    case h_1 old new hold hnew =>
      obtain ⟨hmem, hhash⟩ := (byHash_eq_some_iff hprevious).mp hold
      obtain ⟨hmem', _⟩ := (byHash_eq_some_iff h).mp hnew
      rw [← of_decide_eq_true hsame] at hmem'
      exact ⟨old, hmem, hmem', hhash⟩
    case h_2 => cases hsame
  · rintro ⟨entry, hmem, hmem', rfl⟩
    rw [(byHash_eq_some_iff hprevious).mpr ⟨hmem, rfl⟩, (byHash_eq_some_iff h).mpr ⟨hmem', rfl⟩]
    exact decide_eq_true rfl

variable (h : Ranking ranked) {hashes : Finset Md4Digest}
  (hsub : ∀ hash ∈ hashes, ∃ entry ∈ ranked, entry.fileHash = hash)

include h hsub

theorem Ranking.length_filter_mem :
    (ranked.filter fun entry => entry.fileHash ∈ hashes).length = hashes.card := by
  have hnodup : ((ranked.filter fun entry => entry.fileHash ∈ hashes).map fileHash).Nodup :=
    h.sublist (List.filter_sublist.map _)
  have hset : ((ranked.filter fun entry => entry.fileHash ∈ hashes).map fileHash).toFinset =
      hashes := by
    ext hash
    simp only [List.mem_toFinset, List.mem_map, List.mem_filter, decide_eq_true_eq]
    constructor
    · rintro ⟨entry, ⟨_, hmem⟩, rfl⟩
      exact hmem
    · intro hmem
      obtain ⟨entry, hentry, rfl⟩ := hsub hash hmem
      exact ⟨entry, ⟨hentry, hmem⟩, rfl⟩
  rw [← hset, List.toFinset_card_of_nodup hnodup, List.length_map]
  simp only [hset]

theorem Ranking.length_filter_not_mem :
    (ranked.filter fun entry => entry.fileHash ∉ hashes).length + hashes.card = ranked.length := by
  rw [← h.length_filter_mem hsub]
  have hsplit := @List.length_eq_length_filter_add _ ranked
    fun entry => decide (entry.fileHash ∈ hashes)
  simp only [decide_not] at hsplit ⊢
  omega

end Ranking

/-! ## The log -/

/-- **The file was sent in the form it has**: the entry itself went out in some batch, and every
    ranking since has held it. -/
def SentInForm : List OfferBatch → OfferedFileEntry → Prop
  | [], _ => False
  | batch :: older, entry => entry ∈ batch.entries ∨ (entry ∈ batch.ranked ∧ SentInForm older entry)

instance SentInForm.decidable : ∀ log entry, Decidable (SentInForm log entry)
  | [], _ => .isFalse id
  | _ :: older, entry =>
    @instDecidableOr _ _ _ (@instDecidableAnd _ _ _ (SentInForm.decidable older entry))

def sentHashes (log : List OfferBatch) : Finset Md4Digest :=
  (log.flatMap fun batch => batch.entries.map fileHash).toFinset

@[simp] theorem sentHashes_cons (batch : OfferBatch) (log : List OfferBatch) :
    sentHashes (batch :: log) = (batch.entries.map fileHash).toFinset ∪ sentHashes log := by
  simp [sentHashes]

namespace OfferSession

variable {s : OfferSession} {batch : OfferBatch} {s' : OfferSession}

def softBudget (s : OfferSession) : Nat :=
  match s.pacing with
  | .negotiated policy => policy.softFiles
  | .legacy _ => serverOfferFileCandidateLimit s.serverSoftFiles
  | .awaitingCapability => 0

def Publishable (s : OfferSession) (entry : OfferedFileEntry) : Prop :=
  entry.fileHash ∉ s.publishedHashes ∧
    (entry.fileHash ∈ s.distinctPublishedHashes ∨ 0 < s.offerFilesNewCandidateLimit)

/-- **The laws of the pump**, over the log of an epoch. -/
structure PumpLaws (s : OfferSession) : Prop where
  /-- No packet is larger than the limit. -/
  packet_le : ∀ batch ∈ s.log, batch.entries.length ≤ s.offerFilesBatchLimit
  /-- The connection never offers more distinct files than its budget. -/
  budget : (sentHashes s.log).card ≤ s.softBudget
  /-- No file is sent twice in one form, nor in one packet. -/
  once : ∀ batch older, batch :: older <:+ s.log →
    (batch.entries.map fileHash).Nodup ∧ ∀ entry ∈ batch.entries, ¬ SentInForm older entry
  /-- What a batch reports as pending are the ranked files that were not sent in their form. -/
  pending : ∀ batch older, batch :: older <:+ s.log →
    batch.pending =
      (batch.ranked.filter fun entry => ¬ SentInForm (batch :: older) entry).length
  /-- A packet leaves the delay of every earlier one. -/
  spacing : ∀ later older, later :: older <:+ s.log → later.entries ≠ [] →
    ∀ earlier ∈ older, earlier.entries ≠ [] →
      earlier.sentAt + s.pacing.delay earlier.entries.length ≤ later.sentAt

/-- The pump stops when there is nothing left to publish. -/
def StopsOnlyWhenDone (s s' : OfferSession) : Prop :=
  0 < s'.offerFilesBatchLimit → s.publishRequested = true → s'.publishRequested = false →
    ∀ entry ∈ s'.rankedCatalog, ¬ s'.Publishable entry

/-- A catalog with the fingerprint of the one before is the one before. -/
def NoCollision (fingerprint : List OfferedFileEntry → UInt64) (s : OfferSession) :
    OfferEvent → Prop
  | .request _ => True
  | .sendDue _ candidates _ _ => s.refreshCatalog = true →
    s.catalogFingerprint = some (fingerprint (rankedOfferFiles ∅ candidates)) →
      s.rankedCatalog = rankedOfferFiles ∅ candidates

instance (fingerprint : List OfferedFileEntry → UInt64) (s : OfferSession) :
    ∀ e, Decidable (NoCollision fingerprint s e)
  | .request _ => .isTrue trivial
  | .sendDue _ candidates _ _ => inferInstanceAs (Decidable (s.refreshCatalog = true →
      s.catalogFingerprint = some (fingerprint (rankedOfferFiles ∅ candidates)) →
        s.rankedCatalog = rankedOfferFiles ∅ candidates))

/-! ## The next batch -/

structure Ready (s : OfferSession) : Prop where
  ranking : Ranking s.rankedCatalog
  published_ranked : ∀ hash ∈ s.publishedHashes, ∃ entry ∈ s.rankedCatalog, entry.fileHash = hash
  published_iff : ∀ entry ∈ s.rankedCatalog,
    (entry.fileHash ∈ s.publishedHashes ↔ SentInForm s.log entry)

structure BatchSpec (s : OfferSession) (entries : List OfferedFileEntry) : Prop where
  ranked : ∀ entry ∈ entries, entry ∈ s.rankedCatalog
  nodup : (entries.map fileHash).Nodup
  unpublished : ∀ entry ∈ entries, entry.fileHash ∉ s.publishedHashes
  length_le : entries.length ≤ s.offerFilesBatchLimit
  new_le : newCount s.distinctPublishedHashes entries ≤ s.offerFilesNewCandidateLimit
  empty : entries = [] → 0 < s.offerFilesBatchLimit →
    ∀ entry ∈ s.rankedCatalog, ¬ s.Publishable entry

theorem nextBatch_total : s.nextBatch.totalEntries = s.rankedCatalog.length := by
  unfold nextBatch rankedOfferFilesAtCursorWithBudget
  split <;> rfl

theorem nextBatch_spec (h : Ranking s.rankedCatalog) : BatchSpec s s.nextBatch.entries := by
  unfold nextBatch rankedOfferFilesAtCursorWithBudget
  split
  case isTrue hnothing =>
    refine ⟨by simp, by simp, by simp, by simp, by simp [newCount], ?_⟩
    intro _ hlimit entry hentry
    rcases hnothing with hempty | hzero
    · rw [List.isEmpty_iff.mp hempty] at hentry
      cases hentry
    · omega
  case isFalse hsome =>
    obtain ⟨picked, hresult, hsub, hnew, hcount, hlen, hempty⟩ :=
      @scanOfferFiles_spec s.publishedHashes s.distinctPublishedHashes
        (min s.offerFilesBatchLimit maxOfferFilesPerAdvertisement) s.offerFilesNewCandidateLimit
        (s.rankedCatalog.rotate (s.catalogCursor % s.rankedCatalog.length)) [] 0 0
    dsimp only
    rw [hresult, List.nil_append]
    refine ⟨?_, ?_, hnew, ?_, hcount, ?_⟩
    · intro entry hentry
      exact List.mem_rotate.mp (hsub.subset hentry)
    · have hrotated : ((s.rankedCatalog.rotate
          (s.catalogCursor % s.rankedCatalog.length)).map fileHash).Nodup := by
        rw [List.map_rotate, List.nodup_rotate]
        exact h
      exact hrotated.sublist (hsub.map _)
    · omega
    · intro hnone hlimit entry hentry
      apply hempty hnone
      · simp only [List.length_nil, maxOfferFilesPerAdvertisement]
        omega
      · exact List.mem_rotate.mpr hentry

/-! ## The refresh -/

structure Settled (s : OfferSession) : Prop extends Ready s where
  sent_ranked : ∀ entry, SentInForm s.log entry → entry ∈ s.rankedCatalog

theorem refreshed_eq (fingerprint : List OfferedFileEntry → UInt64)
    (candidates : List OfferedFileEntry) (s : OfferSession) :
    ∃ catalogFingerprint catalogCursor publishedHashes rankedCatalog refreshCatalog,
      s.refreshed fingerprint candidates =
        { s with
          catalogFingerprint := catalogFingerprint
          catalogCursor := catalogCursor
          publishedHashes := publishedHashes
          rankedCatalog := rankedCatalog
          refreshCatalog := refreshCatalog } := by
  unfold refreshed refresh
  split
  · split
    · exact ⟨_, _, _, _, _, rfl⟩
    · exact ⟨_, _, _, _, _, rfl⟩
  · exact ⟨_, _, _, _, _, rfl⟩

/-- **The reconciliation keeps the published set exact**: what stays in it is what was sent in the
    form the new ranking has. -/
theorem Ready.reconcile (h : Settled s) (hranking : Ranking s'.rankedCatalog)
    (hlog : s'.log = s.log) (hpublished : s'.publishedHashes =
      reconcileOfferFilesPublishedHashes s.rankedCatalog s'.rankedCatalog s.publishedHashes) :
    Ready s' := by
  have hmem : ∀ hash, hash ∈ s'.publishedHashes ↔ hash ∈ s.publishedHashes ∧
      ∃ entry, entry ∈ s.rankedCatalog ∧ entry ∈ s'.rankedCatalog ∧ entry.fileHash = hash := by
    intro hash
    rw [hpublished, reconcileOfferFilesPublishedHashes, Finset.mem_filter,
      sameOffer_iff h.ranking hranking]
  refine ⟨hranking, ?_, ?_⟩
  · intro hash hhash
    obtain ⟨_, entry, _, hentry, rfl⟩ := (hmem hash).mp hhash
    exact ⟨entry, hentry, rfl⟩
  · intro entry hentry
    rw [hlog, hmem]
    constructor
    · rintro ⟨hin, old, hold, hnew, heq⟩
      rw [hranking.eq_of_hash hnew hentry heq] at hold
      exact (h.published_iff entry hold).mp hin
    · intro hsent
      have hold := h.sent_ranked entry hsent
      exact ⟨(h.published_iff entry hold).mpr hsent, entry, hold, hentry, rfl⟩

theorem Settled.ready_refreshed (h : Settled s) {fingerprint : List OfferedFileEntry → UInt64}
    (hcollision : NoCollision fingerprint s (.sendDue 0 candidates 0 0)) :
    Ready (s.refreshed fingerprint candidates) := by
  unfold refreshed
  split
  case isFalse => exact h.toReady
  case isTrue hrefresh =>
    unfold refresh
    split
    case isTrue hchanged => exact Ready.reconcile h (ranking_rankedOfferFiles _ _) rfl rfl
    case isFalse hsame =>
      have hranked := hcollision hrefresh (not_not.mp hsame)
      rw [← hranked]
      exact ⟨h.ranking, h.published_ranked, h.published_iff⟩

/-! ## The batch in the log -/

section Batch

variable {s : OfferSession} {sendTime : Duration}

abbrev publishedAfter (s : OfferSession) : Finset Md4Digest :=
  s.publishedHashes ∪ (s.nextBatch.entries.map fileHash).toFinset

/-- The two outcomes of a send: nothing to send, or a packet. -/
theorem sendBatch_cases (s : OfferSession) (sendTime : Duration) :
    (s.nextBatch.entries = [] ∧ (s.sendBatch sendTime).1 = s ∧
      (s.sendBatch sendTime).2.entriesSent = 0) ∨
    (s.nextBatch.entries ≠ [] ∧
      (s.sendBatch sendTime).1 =
        { s with
          now := s.now + sendTime
          sentAt := some (s.now + sendTime)
          catalogCursor := s.nextBatch.nextCursor
          publishedHashes := s.publishedAfter
          distinctPublishedHashes :=
            s.distinctPublishedHashes ∪ (s.nextBatch.entries.map fileHash).toFinset } ∧
      (s.sendBatch sendTime).2.entriesSent = s.nextBatch.entries.length ∧
      (s.sendBatch sendTime).2.skippedDuplicateBatch = false) := by
  unfold sendBatch
  dsimp only
  split
  case isTrue hempty => exact .inl ⟨List.isEmpty_iff.mp hempty, rfl, rfl⟩
  case isFalse hsome => exact .inr ⟨fun h => hsome (List.isEmpty_iff.mpr h), rfl, rfl, rfl⟩

/-- The files of the batch are published and were not before. -/
theorem Ready.card_published (h : Ready s) :
    s.publishedAfter.card =
      s.publishedHashes.card + s.nextBatch.entries.length := by
  have hspec := nextBatch_spec h.ranking
  rw [Finset.card_union_of_disjoint, List.toFinset_card_of_nodup hspec.nodup, List.length_map]
  rw [Finset.disjoint_right]
  intro hash hhash
  obtain ⟨entry, hentry, rfl⟩ := List.mem_map.mp (List.mem_toFinset.mp hhash)
  exact hspec.unpublished entry hentry

theorem Ready.published_ranked_after (h : Ready s) :
    ∀ hash ∈ s.publishedAfter,
      ∃ entry ∈ s.rankedCatalog, entry.fileHash = hash := by
  intro hash hhash
  rcases Finset.mem_union.mp hhash with hold | hnew
  · exact h.published_ranked hash hold
  · obtain ⟨entry, hentry, rfl⟩ := List.mem_map.mp (List.mem_toFinset.mp hnew)
    exact ⟨entry, (nextBatch_spec h.ranking).ranked entry hentry, rfl⟩

theorem Ready.published_iff_after (h : Ready s)
    (hranked : batch.ranked = s.rankedCatalog) (hentries : batch.entries = s.nextBatch.entries)
    (hentry : entry ∈ s.rankedCatalog) :
    entry.fileHash ∈ s.publishedAfter ↔
      SentInForm (batch :: s.log) entry := by
  rw [Finset.mem_union, SentInForm, hranked, hentries, h.published_iff entry hentry]
  constructor
  · rintro (hold | hnew)
    · exact .inr ⟨hentry, hold⟩
    · obtain ⟨sent, hsent, heq⟩ := List.mem_map.mp (List.mem_toFinset.mp hnew)
      have hsame := h.ranking.eq_of_hash ((nextBatch_spec h.ranking).ranked sent hsent) hentry heq
      rw [hsame] at hsent
      exact .inl hsent
  · rintro (hnew | ⟨_, hold⟩)
    · exact .inr (List.mem_toFinset.mpr (List.mem_map_of_mem hnew))
    · exact .inl hold

/-- **The pending count is exact.** -/
theorem Ready.pending_eq (h : Ready s)
    (hranked : batch.ranked = s.rankedCatalog) (hentries : batch.entries = s.nextBatch.entries) :
    (s.sendBatch sendTime).2.pendingEntries =
      (s.rankedCatalog.filter fun entry => ¬ SentInForm (batch :: s.log) entry).length := by
  have hspec := nextBatch_spec h.ranking
  have hcount := h.ranking.length_filter_not_mem h.published_ranked_after
  have hfilter : (s.rankedCatalog.filter fun entry => ¬ SentInForm (batch :: s.log) entry) =
      s.rankedCatalog.filter fun entry =>
        entry.fileHash ∉ s.publishedAfter := by
    apply List.filter_congr
    intro entry hentry
    rw [decide_eq_decide, h.published_iff_after hranked hentries hentry]
  have hall : (s.nextBatch.entries.filter fun e => e.fileHash ∉ s.publishedHashes) =
      s.nextBatch.entries := by
    apply List.filter_eq_self.mpr
    intro entry hentry
    exact decide_eq_true (hspec.unpublished entry hentry)
  rw [h.card_published] at hcount
  rw [hfilter]
  unfold sendBatch
  dsimp only
  rw [hall, nextBatch_total]
  split
  case isTrue hempty =>
    have hnone : s.nextBatch.entries.length = 0 := by
      rw [List.isEmpty_iff.mp hempty, List.length_nil]
    dsimp only
    omega
  case isFalse hsome =>
    dsimp only
    omega

theorem card_union_le_newCount (hashes : Finset Md4Digest) (entries : List OfferedFileEntry) :
    ((entries.map fileHash).toFinset ∪ hashes).card ≤ hashes.card + newCount hashes entries := by
  have hsub : (entries.map fileHash).toFinset \ hashes ⊆
      ((entries.filter fun entry => entry.fileHash ∉ hashes).map fileHash).toFinset := by
    intro hash
    simp only [Finset.mem_sdiff, List.mem_toFinset, List.mem_map, List.mem_filter]
    rintro ⟨⟨entry, hentry, rfl⟩, hnew⟩
    exact ⟨entry, ⟨hentry, decide_eq_true hnew⟩, rfl⟩
  have hcard := (Finset.card_le_card hsub).trans (List.toFinset_card_le _)
  rw [List.length_map, ← List.countP_eq_length_filter] at hcard
  rw [← Finset.sdiff_union_self_eq_union, Nat.add_comm]
  exact (Finset.card_union_le _ _).trans (Nat.add_le_add_right hcard _)

theorem newCandidateLimit_le (s : OfferSession) :
    s.offerFilesNewCandidateLimit ≤ s.softBudget - s.distinctPublishedHashes.card := by
  unfold offerFilesNewCandidateLimit softBudget
  cases s.pacing with
  | negotiated => exact Nat.min_le_left _ _
  | legacy => exact Nat.le_refl _
  | awaitingCapability => exact Nat.zero_le _

end Batch

/-! ## The invariant of an epoch -/

/-- The laws, and what the session knows of the batches that went out. -/
structure Pumping (s : OfferSession) : Prop extends Settled s, PumpLaws s where
  distinct_eq : s.distinctPublishedHashes = sentHashes s.log
  /-- The delay of every packet ends no later than the delay of the last one. -/
  clock : ∀ batch ∈ s.log, batch.entries ≠ [] → ∃ sentAt, s.sentAt = some sentAt ∧
    batch.sentAt + s.pacing.delay batch.entries.length ≤
      sentAt + s.pacing.delay (max s.lastBatchEntries 1)
  /-- The next batch is not due before the delay of every packet is over. -/
  paced : ∀ batch ∈ s.log, batch.entries ≠ [] → ∀ due, s.nextPublishAt = some due →
    batch.sentAt + s.pacing.delay batch.entries.length ≤ due

theorem pumping_begin (pacing : OfferFilesPacingMode) (soft hard : Nat) (login : Bool)
    (now : Instant) : Pumping (begin pacing soft hard login now) where
  ranking := List.nodup_nil
  published_ranked := by simp [begin]
  published_iff := by simp [begin]
  sent_ranked := by simp [begin, SentInForm]
  packet_le := by simp [begin]
  budget := by simp [begin, sentHashes]
  once := by simp [begin]
  pending := by simp [begin]
  spacing := by simp [begin]
  distinct_eq := by simp [begin, sentHashes]
  clock := by simp [begin]
  paced := by simp [begin]

theorem PumpLaws.congr (h : PumpLaws s) (hpacing : s'.pacing = s.pacing)
    (hsoft : s'.serverSoftFiles = s.serverSoftFiles)
    (hhard : s'.serverHardFiles = s.serverHardFiles) (hlog : s'.log = s.log) : PumpLaws s' := by
  have hlimit : s'.offerFilesBatchLimit = s.offerFilesBatchLimit := by
    unfold offerFilesBatchLimit
    rw [hpacing, hhard]
  have hbudget : s'.softBudget = s.softBudget := by
    unfold softBudget
    rw [hpacing, hsoft]
  obtain ⟨h1, h2, h3, h4, h5⟩ := h
  exact ⟨by rwa [hlog, hlimit], by rwa [hlog, hbudget], by rwa [hlog], by rwa [hlog],
    by rwa [hlog, hpacing]⟩

def requestDue (s : OfferSession) : Instant :=
  match s.sentAt, s.pacing with
  | some sentAt, .legacy _ => sentAt + offerFilesLegacyMinInterval
  | some sentAt, .negotiated policy => sentAt + policy.nextBatchDelay (max s.lastBatchEntries 1)
  | _, _ => s.now

theorem requestDue_eq {sentAt : Instant} (hsent : s.sentAt = some sentAt)
    (hallowed : s.pacingAllowsPublication = true) :
    s.requestDue = sentAt + s.pacing.delay (max s.lastBatchEntries 1) := by
  unfold requestDue
  unfold pacingAllowsPublication at hallowed
  rw [hsent]
  cases hpacing : s.pacing with
  | awaitingCapability =>
    rw [hpacing] at hallowed
    cases hallowed
  | legacy | negotiated => rfl

/-- A request moves the time of the next batch, if at all, to no earlier than `requestDue`. -/
theorem request_cases (s : OfferSession) : ∃ nextPublishAt, s.requestOfferFilesPublish = { s with
          publishRequested := true
          refreshCatalog := true
          nextPublishAt := nextPublishAt } ∧
      (nextPublishAt = s.nextPublishAt ∨
        s.pacingAllowsPublication = true ∧ ∃ due, nextPublishAt = some due ∧
          s.requestDue ≤ due) := by
  unfold requestOfferFilesPublish
  dsimp only
  split
  case isTrue => exact ⟨_, rfl, .inl rfl⟩
  case isFalse hallowed =>
    have hallowed' : s.pacingAllowsPublication = true := by
      simpa [pacingAllowsPublication] using hallowed
    refine ⟨_, rfl, .inr ⟨hallowed', _, rfl, ?_⟩⟩
    cases s.nextPublishAt with
    | none => exact Nat.le_refl _
    | some => exact Nat.le_max_right _ _

/-- **A publish request keeps the invariant.** -/
theorem Pumping.request (h : Pumping s) : Pumping s.requestOfferFilesPublish := by
  obtain ⟨next, heq, hnext⟩ := s.request_cases
  rw [heq]
  exact {
    toSettled := ⟨⟨h.ranking, h.published_ranked, h.published_iff⟩, h.sent_ranked⟩
    toPumpLaws := h.toPumpLaws.congr rfl rfl rfl rfl
    distinct_eq := h.distinct_eq
    clock := h.clock
    paced := by
      intro batch hbatch hsome due hdue
      rcases hnext with rfl | ⟨hallowed, due', rfl, hle⟩
      · exact h.paced batch hbatch hsome due hdue
      · cases hdue
        obtain ⟨sentAt, hsent, hclock⟩ := h.clock batch hbatch hsome
        rw [requestDue_eq hsent hallowed] at hle
        exact Nat.le_trans hclock hle }

theorem Pumping.later (h : Pumping s) (after : Duration) :
    Pumping { s with now := s.now + after } where
  toSettled := ⟨⟨h.ranking, h.published_ranked, h.published_iff⟩, h.sent_ranked⟩
  toPumpLaws := h.toPumpLaws.congr rfl rfl rfl rfl
  distinct_eq := h.distinct_eq
  clock := h.clock
  paced := h.paced

/-! ## A batch keeps the invariant -/

structure Prepared (s : OfferSession) : Prop extends Ready s, PumpLaws s where
  distinct_eq : s.distinctPublishedHashes = sentHashes s.log
  clock : ∀ batch ∈ s.log, batch.entries ≠ [] → ∃ sentAt, s.sentAt = some sentAt ∧
    batch.sentAt + s.pacing.delay batch.entries.length ≤
      sentAt + s.pacing.delay (max s.lastBatchEntries 1)
  passed : ∀ batch ∈ s.log, batch.entries ≠ [] →
    batch.sentAt + s.pacing.delay batch.entries.length ≤ s.now

theorem due_le_now (h : s.offerFilesPublishDue = true) :
    ∃ due, s.nextPublishAt = some due ∧ due ≤ s.now := by
  unfold offerFilesPublishDue at h
  rw [Bool.and_eq_true] at h
  cases hnext : s.nextPublishAt with
  | none =>
    rw [hnext] at h
    cases h.2
  | some due =>
    rw [hnext] at h
    exact ⟨due, rfl, of_decide_eq_true h.2⟩

theorem Pumping.prepared (h : Pumping s) (hdue : s.offerFilesPublishDue = true)
    {fingerprint : List OfferedFileEntry → UInt64}
    (hcollision : NoCollision fingerprint s (.sendDue 0 candidates 0 0)) :
    Prepared (s.refreshed fingerprint candidates) := by
  have hready := h.toSettled.ready_refreshed hcollision
  obtain ⟨_, _, _, _, _, heq⟩ := s.refreshed_eq fingerprint candidates
  rw [heq] at hready ⊢
  obtain ⟨due, hnext, hle⟩ := due_le_now hdue
  exact {
    toReady := hready
    toPumpLaws := h.toPumpLaws.congr rfl rfl rfl rfl
    distinct_eq := h.distinct_eq
    clock := h.clock
    passed := by
      intro batch hbatch hsome
      exact Nat.le_trans (h.paced batch hbatch hsome due hnext) hle }

section Logged

variable {s : OfferSession} {sendTime finishTime : Duration}

def loggedBatch (s : OfferSession) (sendTime : Duration) : OfferBatch :=
  ⟨s.rankedCatalog, s.nextBatch.entries, (s.sendBatch sendTime).1.now,
    (s.sendBatch sendTime).2.pendingEntries⟩

theorem now_le_sendBatch (s : OfferSession) (sendTime : Duration) :
    s.now ≤ (s.sendBatch sendTime).1.now := by
  obtain ⟨_, hsame, _⟩ | ⟨_, hsent, _⟩ := s.sendBatch_cases sendTime
  · rw [hsame]
  · rw [hsent]
    exact Nat.le_add_right _ _

theorem Prepared.budget_cons (h : Prepared s) :
    (sentHashes (s.loggedBatch sendTime :: s.log)).card ≤ s.softBudget := by
  have hnew := (nextBatch_spec h.ranking).new_le
  have hcard := card_union_le_newCount s.distinctPublishedHashes s.nextBatch.entries
  have hlimit := s.newCandidateLimit_le
  have hbefore := h.budget
  rw [h.distinct_eq] at hcard hlimit hnew
  rw [sentHashes_cons]
  exact Nat.le_trans hcard (by omega)

theorem Prepared.laws_cons (h : Prepared s) :
    PumpLaws { s with log := s.loggedBatch sendTime :: s.log } where
  packet_le := by
    intro batch hbatch
    rcases List.mem_cons.mp hbatch with rfl | hbatch
    · exact (nextBatch_spec h.ranking).length_le
    · exact h.packet_le batch hbatch
  budget := h.budget_cons
  once := by
    intro batch older hsuffix
    rcases List.suffix_cons_iff.mp hsuffix with heq | hsuffix
    · cases heq
      have hspec := nextBatch_spec h.ranking
      refine ⟨hspec.nodup, ?_⟩
      intro entry hentry hsent
      exact hspec.unpublished entry hentry
        ((h.published_iff entry (hspec.ranked entry hentry)).mpr hsent)
    · exact h.once batch older hsuffix
  pending := by
    intro batch older hsuffix
    rcases List.suffix_cons_iff.mp hsuffix with heq | hsuffix
    · cases heq
      exact h.pending_eq rfl rfl
    · exact h.pending batch older hsuffix
  spacing := by
    intro later older hsuffix hsome earlier hearlier hsome'
    rcases List.suffix_cons_iff.mp hsuffix with heq | hsuffix
    · cases heq
      exact Nat.le_trans (h.passed earlier hearlier hsome') (s.now_le_sendBatch sendTime)
    · exact h.spacing later older hsuffix hsome earlier hearlier hsome'

/-- What finishing a batch writes: the size of the packet, if there was one, and when the next batch
    is due, if the pump goes on. -/
theorem finish_cases (s : OfferSession) (stats : OfferFilesPublishStats) :
    ∃ lastBatchEntries nextPublishAt, s.finishOfferFilesBatch stats =
        { s with
          lastBatchEntries := lastBatchEntries
          publishRequested := s.continuePump stats
          nextPublishAt := nextPublishAt } ∧
      lastBatchEntries = (if 0 < stats.entriesSent then stats.entriesSent
        else s.lastBatchEntries) ∧
      (nextPublishAt = none ∨ 0 < stats.entriesSent ∧
        nextPublishAt = some (s.now + s.pacing.delay stats.entriesSent)) := by
  unfold finishOfferFilesBatch
  by_cases hsent : 0 < stats.entriesSent
  · simp only [hsent, if_true]
    refine ⟨_, _, rfl, rfl, ?_⟩
    split
    · cases s.pacing with
      | negotiated | legacy => exact .inr ⟨trivial, rfl⟩
      | awaitingCapability => exact .inl rfl
    · exact .inl rfl
  · -- without a packet the pump stops
    have hstop : s.continuePump stats = false := by simp [continuePump, hsent]
    simp only [hsent, if_false]
    refine ⟨_, _, rfl, rfl, .inl ?_⟩
    rw [hstop]
    rfl

theorem sendBatch_fields (s : OfferSession) (sendTime : Duration) :
    (s.sendBatch sendTime).1.publishedHashes = s.publishedAfter ∧
    (s.sendBatch sendTime).1.distinctPublishedHashes =
      s.distinctPublishedHashes ∪ (s.nextBatch.entries.map fileHash).toFinset ∧
    (s.sendBatch sendTime).1.pacing = s.pacing ∧
    (s.sendBatch sendTime).1.serverSoftFiles = s.serverSoftFiles ∧
    (s.sendBatch sendTime).1.serverHardFiles = s.serverHardFiles ∧
    (s.sendBatch sendTime).1.rankedCatalog = s.rankedCatalog ∧
    (s.sendBatch sendTime).1.lastBatchEntries = s.lastBatchEntries := by
  obtain ⟨hempty, hsame, _⟩ | ⟨_, hsent, _⟩ := s.sendBatch_cases sendTime
  · simp [hsame, hempty]
  · simp [hsent]

theorem sentAt_of_sent (s : OfferSession) {sendTime : Duration}
    (h : 0 < (s.sendBatch sendTime).2.entriesSent) :
    (s.sendBatch sendTime).1.sentAt = some (s.sendBatch sendTime).1.now := by
  obtain ⟨_, _, hzero⟩ | ⟨_, hsent, _⟩ := s.sendBatch_cases sendTime
  · omega
  · rw [hsent]

/-- The clock behind a batch: a packet is the last one now, and every other has left its delay. -/
theorem Prepared.clock_after (h : Prepared s)
    (hbatch : batch ∈ s.loggedBatch sendTime :: s.log) (hsome : batch.entries ≠ []) :
    ∃ sentAt, (s.sendBatch sendTime).1.sentAt = some sentAt ∧
      batch.sentAt + s.pacing.delay batch.entries.length ≤ sentAt + s.pacing.delay
        (max (if 0 < (s.sendBatch sendTime).2.entriesSent then (s.sendBatch sendTime).2.entriesSent
          else s.lastBatchEntries) 1) := by
  obtain ⟨hempty, hsame, hzero⟩ | ⟨hfull, hsent, hentries, _⟩ := s.sendBatch_cases sendTime
  · rcases List.mem_cons.mp hbatch with rfl | hold
    · exact absurd hempty hsome
    · rw [hsame, hzero]
      exact h.clock batch hold hsome
  · have hpos : 0 < s.nextBatch.entries.length := List.length_pos_iff.mpr hfull
    rw [hsent, hentries, if_pos hpos, Nat.max_eq_left hpos]
    refine ⟨_, rfl, ?_⟩
    rcases List.mem_cons.mp hbatch with rfl | hold
    · simp only [loggedBatch, hsent]
      exact Nat.le_refl _
    · have hover := h.passed batch hold hsome
      exact Nat.le_trans hover (Nat.le_trans (Nat.le_add_right _ _) (Nat.le_add_right _ _))

/-- **A batch keeps the invariant.** -/
theorem Prepared.pumping (h : Prepared s) : Pumping { ({ (s.sendBatch sendTime).1 with
        now := (s.sendBatch sendTime).1.now + finishTime }.finishOfferFilesBatch
          (s.sendBatch sendTime).2) with log := s.loggedBatch sendTime :: s.log } := by
  obtain ⟨hpublished, hdistinct, hpacing, hsoft, hhard, hranked, hlast⟩ :=
    s.sendBatch_fields sendTime
  obtain ⟨last, next, heq, hlast', hnext⟩ := finish_cases { (s.sendBatch sendTime).1 with
    now := (s.sendBatch sendTime).1.now + finishTime } (s.sendBatch sendTime).2
  rw [heq]
  have hspec := nextBatch_spec h.ranking
  exact {
    ranking := hranked ▸ h.ranking
    published_ranked := by
      rw [hpublished, hranked]
      exact h.published_ranked_after
    published_iff := by
      rw [hpublished, hranked]
      intro entry hentry
      exact h.published_iff_after rfl rfl hentry
    sent_ranked := by
      intro entry hsent
      rw [hranked]
      rcases hsent with hnew | ⟨hold, _⟩
      · exact hspec.ranked entry hnew
      · exact hold
    toPumpLaws := (@Prepared.laws_cons s sendTime h).congr hpacing hsoft hhard rfl
    distinct_eq := by
      rw [hdistinct, sentHashes_cons, h.distinct_eq, Finset.union_comm]
      rfl
    clock := by
      intro batch hbatch hsome
      rw [hpacing, hlast', hlast]
      exact h.clock_after hbatch hsome
    paced := by
      intro batch hbatch hsome due hdue
      rcases hnext with hnone | ⟨hpos, hnext⟩
      · rw [hnone] at hdue
        cases hdue
      · rw [hnext] at hdue
        cases hdue
        obtain ⟨sentAt, hsentAt, hclock⟩ := h.clock_after hbatch hsome
        cases hsentAt.symm.trans (s.sentAt_of_sent hpos)
        rw [if_pos hpos, Nat.max_eq_left hpos] at hclock
        rw [hpacing]
        exact Nat.le_trans hclock (Nat.add_le_add_right (Nat.le_add_right _ _) _) }

theorem hasPublishable_eq_false {s : OfferSession} (h : s.hasPublishableOfferFiles = false) :
    ∀ entry ∈ s.rankedCatalog, ¬ s.Publishable entry := by
  intro entry hentry hpublishable
  obtain ⟨hnew, hbudget⟩ := hpublishable
  have hentry' := List.any_eq_false.mp h entry hentry
  rw [if_neg hnew] at hentry'
  rcases hbudget with hold | hslot
  · rw [if_pos hold] at hentry'
    exact hentry' rfl
  · split at hentry'
    · exact hentry' rfl
    · exact hentry' (decide_eq_true (Nat.ne_of_gt hslot))

theorem hasPublishable_of_stop {s : OfferSession} {stats : OfferFilesPublishStats}
    (hstop : s.continuePump stats = false) (hpending : 0 < stats.pendingEntries)
    (hlimit : 0 < s.offerFilesBatchLimit) (hskipped : stats.skippedDuplicateBatch = false)
    (hsent : 0 < stats.entriesSent) : s.hasPublishableOfferFiles = false := by
  simpa [continuePump, hpending, hlimit, hskipped, hsent] using hstop

/-- **The pump stops only when it is done**: a batch that does not go on had nothing left to
    publish. -/
theorem Prepared.stops_when_done (h : Prepared s) (hstop : ({ (s.sendBatch sendTime).1 with
      now := (s.sendBatch sendTime).1.now + finishTime }).continuePump (s.sendBatch sendTime).2 =
        false)
    (hlimit : 0 < s.offerFilesBatchLimit) :
    ∀ entry ∈ s.rankedCatalog, ¬ (s.sendBatch sendTime).1.Publishable entry := by
  have hspec := nextBatch_spec h.ranking
  obtain ⟨hempty, hsame, _⟩ | ⟨hfull, hsent, hentries, hskipped⟩ := s.sendBatch_cases sendTime
  · rw [hsame]
    exact hspec.empty hempty hlimit
  · have hpos : 0 < s.nextBatch.entries.length := List.length_pos_iff.mpr hfull
    intro entry hentry hpublishable
    -- a file that may be published is pending, so only the predicate itself can have stopped it
    have hpending : 0 < (s.sendBatch sendTime).2.pendingEntries := by
      rw [@Ready.pending_eq (s.loggedBatch sendTime) s sendTime h.toReady rfl rfl]
      apply List.length_pos_of_mem
      apply List.mem_filter.mpr
      refine ⟨hentry, decide_eq_true ?_⟩
      rw [← h.published_iff_after rfl rfl hentry, ← (s.sendBatch_fields sendTime).1]
      exact hpublishable.1
    have hlimit' : 0 < (s.sendBatch sendTime).1.offerFilesBatchLimit := by
      rw [hsent]
      exact hlimit
    have hnone := hasPublishable_of_stop hstop hpending hlimit' hskipped (hentries ▸ hpos)
    refine hasPublishable_eq_false hnone entry ?_ hpublishable
    rw [hsent]
    exact hentry

end Logged

/-! ## Whole epochs -/

section Step

variable {fingerprint : List OfferedFileEntry → UInt64} {s : OfferSession}

theorem Pumping.step (h : Pumping s) {e : OfferEvent} (hcollision : NoCollision fingerprint s e) :
    Pumping (s.step fingerprint e) := by
  cases e with
  | request after => exact (h.later after).request
  | sendDue after =>
    unfold OfferSession.step sendDueOfferFilesAdvertisement
    dsimp only
    split
    case isTrue => exact h.later after
    case isFalse hdue =>
      have hprepared := (h.later after).prepared (by simpa using hdue) hcollision
      exact hprepared.pumping

/-- **The pump stops only when it is done.** -/
theorem Pumping.stops (h : Pumping s) {e : OfferEvent} (hcollision : NoCollision fingerprint s e) :
    StopsOnlyWhenDone s (s.step fingerprint e) := by
  intro hlimit hrequested hstopped
  cases e with
  | request after =>
    obtain ⟨next, heq, _⟩ := request_cases { s with now := s.now + after }
    rw [OfferSession.step, heq] at hstopped
    cases hstopped
  | sendDue after candidates sendTime finishTime =>
    unfold OfferSession.step sendDueOfferFilesAdvertisement at hlimit hstopped ⊢
    dsimp only at hlimit hstopped ⊢
    split
    case isTrue hnotdue =>
      rw [if_pos hnotdue] at hstopped
      cases hrequested.symm.trans hstopped
    case isFalse hdue =>
      rw [if_neg hdue] at hlimit hstopped
      have hprepared := (h.later after).prepared (by simpa using hdue) hcollision
      generalize refreshed fingerprint candidates { s with now := s.now + after } = r at *
      obtain ⟨_, _, hpacing, _, hhard, hranked, _⟩ := r.sendBatch_fields sendTime
      obtain ⟨_, _, heq, _⟩ := finish_cases { (r.sendBatch sendTime).1 with
        now := (r.sendBatch sendTime).1.now + finishTime } (r.sendBatch sendTime).2
      rw [heq] at hlimit hstopped ⊢
      have hlimit' : 0 < r.offerFilesBatchLimit := by
        rwa [hpacing, hhard] at hlimit
      intro entry hentry hpublishable
      exact hprepared.stops_when_done hstopped hlimit' entry (hranked ▸ hentry) hpublishable

end Step

end OfferSession

open OfferSession

/-- **The offer-files pump publishes each file once, within its budget, and stops only when it is
    done.** In every state of every epoch, whatever the catalog holds at each batch: the laws hold
    of all batches so far, and no event stops the pump while a file may still be published. -/
theorem offer_files_pump_laws (fingerprint : List OfferedFileEntry → UInt64)
    (pacing : OfferFilesPacingMode) (serverSoftFiles serverHardFiles : Nat) (loginAccepted : Bool)
    (now : Instant) (events : List OfferEvent)
    (h : Run.Along (step fingerprint) (NoCollision fingerprint)
      (begin pacing serverSoftFiles serverHardFiles loginAccepted now) events) :
    PumpLaws (Run.run (step fingerprint)
      (begin pacing serverSoftFiles serverHardFiles loginAccepted now) events) ∧
    Run.Along (step fingerprint) (fun s e => StopsOnlyWhenDone s (s.step fingerprint e))
      (begin pacing serverSoftFiles serverHardFiles loginAccepted now) events := by
  have hbegin := pumping_begin pacing serverSoftFiles serverHardFiles loginAccepted now
  have hstep : ∀ s e, Pumping s → NoCollision fingerprint s e →
      StopsOnlyWhenDone s (s.step fingerprint e) ∧ Pumping (s.step fingerprint e) := by
    intro s e hs he
    exact ⟨hs.stops he, hs.step he⟩
  refine ⟨?_, h.along hstep hbegin⟩
  exact (h.invariant (fun s e hs he => (hstep s e hs he).2) hbegin).toPumpLaws

def smallFile (n : UInt8) : OfferedFileEntry :=
  ⟨Vector.replicate 16 n, "small.txt", 1, 5, true, 0, ⟨"", "", "", 0, 0, ""⟩⟩

def twoFiles : List OfferEvent :=
  [.sendDue 0 [smallFile 1, smallFile 2, smallFile 1] 0 0, .request (seconds 30),
    .sendDue 0 [smallFile 1, smallFile 2] 0 0, .sendDue (seconds 30) [smallFile 1, smallFile 2] 0 0]

def twoFilesSession : OfferSession := begin (.legacy "capability absent") 10 2 true 0

/-- Two files, in two batches a minute apart. -/
theorem offer_files_pump_laws_two_files :
    ((Run.run (step fun ranked => UInt64.ofNat ranked.length) twoFilesSession twoFiles).log.map
      fun batch => (batch.entries, batch.sentAt, batch.pending)) =
        [([smallFile 2], seconds 60, 0), ([smallFile 1], 0, 1)] ∧
    PumpLaws
      (Run.run (step fun ranked => UInt64.ofNat ranked.length) twoFilesSession twoFiles) := by
  refine ⟨by decide +kernel, ?_⟩
  exact (offer_files_pump_laws _ _ 10 2 true 0 twoFiles (by decide +kernel)).1

end EmuleBB.Server
