import EmuleBB.Transfer.Lease
import EmuleBB.Transfer.Verified

/-!
# Double booking and leased ranges

A lease always lies in one block and ends where the block ends (`BlockShaped`). Leases of
different blocks are therefore disjoint, and **two leases of the same block always overlap**: the
registry keeps them apart by their key alone, and the key contains the start. The start is the
block's resume point when the lease is taken, and `bytes_written` moves under a live lease, forwards
when a prefix is flushed and backwards when a block arrives out of order. Then the same block has
a second key, and a second peer gets it (`prefix_flush_double_books`).

As long as no lease has been left behind by its resume point, the registered leases are disjoint
(`registered_leases_disjoint`).
-/

namespace EmuleBB.Transfer

open Ed2kPieceState LeaseRegistry

/-! ## What a lease call can do -/

inductive LeaseOutcome (leases : LeaseRegistry) (m : Ed2kResumeManifest) :
    Option BlockLeaseToken → LeaseRegistry → Prop
  | nothing (leases' : LeaseRegistry) (owners : leases'.owners = leases.owners) :
      LeaseOutcome leases m none leases'
  | fresh (token : BlockLeaseToken) (leases' : LeaseRegistry) (owner : BlockLeaseOwner)
      (p : Ed2kPieceState) (bitmap : PartBlockBitmap) (b : Nat)
      (found : m.findPiece p.pieceIndex = some p) (missing : p.state ≠ .verified)
      (resolved : p.resolveBlockBitmap (m.pieceLen p.pieceIndex) = some bitmap)
      (block : b < bitmap.blockCount)
      (free : freeKey leases.owners m p bitmap b = some token.key)
      (owners : leases'.owners = leases.owners.insert token.key owner) :
      LeaseOutcome leases m (some token) leases'
  | takeover (token : BlockLeaseToken) (leases' : LeaseRegistry) (owner : BlockLeaseOwner)
      (held : token.key ∈ leases.owners)
      (owners : leases'.owners = leases.owners.insert token.key owner) :
      LeaseOutcome leases m (some token) leases'

section

variable {leases leases' : LeaseRegistry} {m : Ed2kResumeManifest} {request : LeaseRequest}
  {now pick i : Nat} {token : Option BlockLeaseToken}

theorem LeaseOutcome.of_owners {leases₀ : LeaseRegistry} (h : leases.owners = leases₀.owners)
    (hout : LeaseOutcome leases m token leases') : LeaseOutcome leases₀ m token leases' := by
  cases hout with
  | nothing leases' owners => exact .nothing _ (owners.trans h)
  | fresh token leases' owner p bitmap b found missing resolved block free owners =>
    rw [h] at free owners
    exact .fresh token leases' owner p bitmap b found missing resolved block free owners
  | takeover token leases' owner held owners =>
    rw [h] at held owners
    exact .takeover token leases' owner held owners

theorem LeaseRegistry.takeoverKey_mem {key : BlockKey}
    (h : leases.takeoverKey request now pick i = some key) : key ∈ leases.owners := by
  obtain ⟨entry, hentry, rfl⟩ := Option.map_eq_some_iff.mp h
  have hmem := (List.mem_filter.mp (List.mem_of_getElem? hentry)).1
  exact AList.mem_keys.mpr (List.mem_keys_of_mem hmem)

theorem LeaseRegistry.tryLeaseBlockInPiece_outcome
    (h : leases.tryLeaseBlockInPiece m i request now pick = .ok (token, leases')) :
    LeaseOutcome leases m token leases' := by
  unfold tryLeaseBlockInPiece at h
  cases hp : m.findPiece i with
  | none =>
    rw [hp] at h
    cases Except.ok.inj h
    exact .nothing _ rfl
  | some p =>
    have hindex := pieceIndex_of_findPiece hp
    rw [hp] at h
    simp only at h
    by_cases hv : p.state = .verified
    · rw [if_pos hv] at h
      cases Except.ok.inj h
      exact .nothing _ rfl
    rw [if_neg hv] at h
    cases hb : p.resolveBlockBitmap (m.pieceLen i) with
    | none => rw [hb] at h; cases h
    | some bitmap =>
      rw [hb] at h
      simp only at h
      cases hfree : (List.range bitmap.blockCount).findSome?
          (freeKey leases.owners m p bitmap) with
      | some key =>
        rw [hfree] at h
        cases Except.ok.inj h
        obtain ⟨b, hmem, hkey⟩ := List.exists_of_findSome?_eq_some hfree
        rw [← hindex] at hp hb
        exact .fresh _ _ _ p bitmap b hp hv hb (List.mem_range.mp hmem) hkey rfl
      | none =>
        rw [hfree] at h
        simp only at h
        split at h
        · cases Except.ok.inj h
          exact .nothing _ rfl
        split at h
        · rename_i key hkey
          cases Except.ok.inj h
          have hheld := takeoverKey_mem hkey
          exact .takeover _ _ _ hheld rfl
        · cases Except.ok.inj h
          exact .nothing _ rfl

theorem LeaseRegistry.leasePicked_outcome {frequency : List Nat} {turns : Nat}
    {eligible : List Bool}
    (h : leasePicked m frequency request now pick turns leases eligible =
      .ok (token, leases')) : LeaseOutcome leases m token leases' := by
  induction turns generalizing leases eligible with
  | zero =>
    cases Except.ok.inj h
    exact .nothing _ rfl
  | succ turns ih =>
    rw [leasePicked] at h
    cases hpick : pickNextMissingPart m eligible frequency with
    | none =>
      rw [hpick] at h
      cases Except.ok.inj h
      exact .nothing _ rfl
    | some =>
      rw [hpick] at h
      obtain ⟨⟨tried, after⟩, htry, h⟩ := Except.bind_eq_ok.mp h
      have hout := tryLeaseBlockInPiece_outcome htry
      simp only at h
      split at h
      · cases Except.ok.inj h
        exact hout
      · -- nothing was leased, so the next turn starts from the same owners
        rename_i hnone
        obtain rfl : tried = none := by simpa using hnone
        obtain ⟨_, howners⟩ := hout
        split at h
        · exact (ih h).of_owners howners
        · cases Except.ok.inj h
          exact .nothing _ howners

/-- **What `lease_next_download_block` can do.** -/
theorem LeaseRegistry.leaseNextDownloadBlock_outcome {call : LeaseCall}
    (h : leases.leaseNextDownloadBlock m call = .ok (token, leases')) :
    LeaseOutcome leases m token leases' := by
  unfold leaseNextDownloadBlock at h
  split at h
  · cases h
  obtain ⟨⟨preferred, after⟩, hpreferred, h⟩ := Except.bind_eq_ok.mp h
  have hfirst : LeaseOutcome leases m preferred after := by
    unfold leasePreferred at hpreferred
    split at hpreferred
    · split at hpreferred
      · exact tryLeaseBlockInPiece_outcome hpreferred
      · cases Except.ok.inj hpreferred
        exact .nothing _ rfl
    · cases Except.ok.inj hpreferred
      exact .nothing _ rfl
  simp only at h
  split at h
  · cases Except.ok.inj h
    exact hfirst
  rename_i hnone
  obtain rfl : preferred = none := by simpa using hnone
  obtain ⟨_, howners⟩ := hfirst
  obtain ⟨⟨picked, after'⟩, hpicked, h⟩ := Except.bind_eq_ok.mp h
  have hsecond := (leasePicked_outcome hpicked).of_owners howners
  split at h
  · cases Except.ok.inj h
    exact hsecond
  rename_i hnone'
  obtain rfl : picked = none := by simpa using hnone'
  obtain ⟨_, howners'⟩ := hsecond
  exact (leasePicked_outcome h).of_owners howners'

end

/-! ## The shape of a lease -/

def BlockShaped (m : Ed2kResumeManifest) (key : BlockKey) (b : Nat) : Prop :=
  b < blockCountFor (m.pieceLen key.pieceIndex) ∧
    m.pieceStart key.pieceIndex + b * ed2kEmblockSize ≤ key.start ∧ key.start < key.stop ∧
    key.stop = m.pieceStart key.pieceIndex +
      min (b * ed2kEmblockSize + ed2kEmblockSize) (m.pieceLen key.pieceIndex)

def KeysDisjoint (k k' : BlockKey) : Prop := k.stop ≤ k'.start ∨ k'.stop ≤ k.start

section

variable {m m' : Ed2kResumeManifest} {key k k' : BlockKey} {b b' : Nat}
  {owners : AList fun _ : BlockKey => BlockLeaseOwner} {p : Ed2kPieceState}
  {bitmap : PartBlockBitmap}

theorem BlockShaped.congr (h : BlockShaped m key b) (hsame : SameFile m m') :
    BlockShaped m' key b := by
  unfold BlockShaped
  rw [hsame.pieceStart, hsame.pieceLen]
  exact h

theorem BlockShaped.stop_le (h : BlockShaped m key b) :
    key.stop ≤ m.pieceStart key.pieceIndex + m.pieceLen key.pieceIndex := by
  obtain ⟨-, -, -, hstop⟩ := h
  omega

theorem BlockShaped.disjoint_of_piece (h : BlockShaped m k b) (h' : BlockShaped m k' b')
    (hne : k.pieceIndex ≠ k'.pieceIndex) : KeysDisjoint k k' := by
  have hapart := pieceRange_disjoint m hne
  have hstop := h.stop_le
  have hstop' := h'.stop_le
  obtain ⟨-, hstart, -⟩ := h
  obtain ⟨-, hstart', -⟩ := h'
  generalize b * ed2kEmblockSize = lo at hstart
  generalize b' * ed2kEmblockSize = lo' at hstart'
  rcases hapart with hapart | hapart
  · exact .inr (by omega)
  · exact .inl (by omega)

theorem BlockShaped.disjoint_of_block (h : BlockShaped m k b) (h' : BlockShaped m k' b')
    (heq : k.pieceIndex = k'.pieceIndex) (hne : b ≠ b') : KeysDisjoint k k' := by
  obtain ⟨-, hstart, -, hstop⟩ := h
  obtain ⟨-, hstart', -, hstop'⟩ := h'
  rw [heq] at hstart hstop
  rcases Nat.lt_or_gt_of_ne hne with hlt | hlt
  · have hmul := Nat.mul_le_mul_right ed2kEmblockSize (Nat.succ_le_of_lt hlt)
    rw [Nat.succ_mul] at hmul
    generalize ed2kEmblockSize = e at *
    exact .inl (by omega)
  · have hmul := Nat.mul_le_mul_right ed2kEmblockSize (Nat.succ_le_of_lt hlt)
    rw [Nat.succ_mul] at hmul
    generalize ed2kEmblockSize = e at *
    exact .inr (by omega)

theorem freeKey_eq_some (h : freeKey owners m p bitmap b = some key) :
    bitmap.isPresent b = false ∧ resumePoint p bitmap b < (bitmap.blockRange b).2 ∧
      key = ⟨p.pieceIndex, m.pieceStart p.pieceIndex + resumePoint p bitmap b,
        m.pieceStart p.pieceIndex + (bitmap.blockRange b).2⟩ ∧ key ∉ owners := by
  unfold freeKey at h
  split at h
  · cases h
  rename_i hmissing
  split at h
  · cases h
  simp only at h
  split at h
  · cases h
  rename_i hfree
  cases h
  exact ⟨by simpa using hmissing, by omega, rfl, hfree⟩

theorem blockShaped_of_freeKey
    (hresolved : p.resolveBlockBitmap (m.pieceLen p.pieceIndex) = some bitmap)
    (hblock : b < bitmap.blockCount) (h : freeKey owners m p bitmap b = some key) :
    BlockShaped m key b := by
  obtain ⟨-, hroom, rfl, -⟩ := freeKey_eq_some h
  have hlen := partLen_of_resolveBlockBitmap hresolved
  have hlow : b * ed2kEmblockSize ≤ resumePoint p bitmap b := Nat.le_max_left ..
  refine ⟨?_, ?_, ?_, ?_⟩
  · rw [← hlen]
    exact hblock
  · exact Nat.add_le_add_left hlow _
  · exact Nat.add_lt_add_left hroom _
  · rw [← hlen]
    rfl

end

/-! ## No double booking -/

def isCurrent (m : Ed2kResumeManifest) (key : BlockKey) : Bool :=
  match m.findPiece key.pieceIndex with
  | none => true
  | some p =>
    p.state = .verified ||
      match p.resolveBlockBitmap (m.pieceLen key.pieceIndex) with
      | none => true
      | some bitmap =>
        (List.range bitmap.blockCount).all fun b =>
          bitmap.isPresent b ||
            key.stop != m.pieceStart key.pieceIndex + (bitmap.blockRange b).2 ||
            key.start == m.pieceStart key.pieceIndex + resumePoint p bitmap b

/-- The condition on a run: **when a lease is asked for, no registered lease has been left behind
    by its resume point**. -/
def LeasesCurrent (s : LeaseSystem) (e : LeaseEvent) : Prop :=
  ∀ call, e = .lease call → s.leases.owners.keys.all (isCurrent s.transfer.manifest) = true

/-- Every lease lies in its block, and no two overlap. -/
structure Booked (m : Ed2kResumeManifest) (owners : AList fun _ : BlockKey => BlockLeaseOwner) :
    Prop where
  shaped : ∀ key ∈ owners, ∃ b, BlockShaped m key b
  disjoint : ∀ k ∈ owners, ∀ k' ∈ owners, k ≠ k' → KeysDisjoint k k'

section

variable {md4 : Md4} {sha1 : Sha1}
  {m m' : Ed2kResumeManifest} {owners owners' : AList fun _ : BlockKey => BlockLeaseOwner}
  {key : BlockKey} {p : Ed2kPieceState} {bitmap : PartBlockBitmap} {b : Nat}
  {owner : BlockLeaseOwner} {leases : LeaseRegistry} {token : BlockLeaseToken}

theorem isCurrent_start (h : isCurrent m key = true) (hp : m.findPiece key.pieceIndex = some p)
    (hmissing : p.state ≠ .verified)
    (hresolved : p.resolveBlockBitmap (m.pieceLen key.pieceIndex) = some bitmap)
    (hblock : b < bitmap.blockCount) (habsent : bitmap.isPresent b = false)
    (hstop : key.stop = m.pieceStart key.pieceIndex + (bitmap.blockRange b).2) :
    key.start = m.pieceStart key.pieceIndex + resumePoint p bitmap b := by
  unfold isCurrent at h
  rw [hp] at h
  simp only [hmissing, decide_false, Bool.false_or, hresolved] at h
  have hb := List.all_eq_true.mp h b (List.mem_range.mpr hblock)
  simpa [habsent, hstop] using hb

theorem Booked.congr (h : Booked m owners) (hsame : SameFile m m') : Booked m' owners where
  shaped key hkey := by
    obtain ⟨b, hb⟩ := h.shaped key hkey
    exact ⟨b, hb.congr hsame⟩
  disjoint := h.disjoint

theorem Booked.subset (h : Booked m owners) (hsub : ∀ key ∈ owners', key ∈ owners) :
    Booked m owners' where
  shaped key hkey := h.shaped key (hsub key hkey)
  disjoint k hk k' hk' := h.disjoint k (hsub k hk) k' (hsub k' hk')

theorem mem_of_mem_insert_mem (hkey : key ∈ owners) :
    ∀ k ∈ owners.insert key owner, k ∈ owners := by
  intro k hk
  rcases AList.mem_insert owners |>.mp hk with rfl | hk
  · exact hkey
  · exact hk

/-- **A fresh lease is disjoint from the registered ones**, when those are current: a lease of the
    same block would have had the same key. -/
theorem Booked.insert_fresh (h : Booked m owners) (hcurrent : ∀ k ∈ owners, isCurrent m k = true)
    (hp : m.findPiece p.pieceIndex = some p) (hmissing : p.state ≠ .verified)
    (hresolved : p.resolveBlockBitmap (m.pieceLen p.pieceIndex) = some bitmap)
    (hblock : b < bitmap.blockCount) (hfree : freeKey owners m p bitmap b = some key) :
    Booked m (owners.insert key owner) := by
  have hshaped := blockShaped_of_freeKey hresolved hblock hfree
  obtain ⟨habsent, hroom, hkey, hnew⟩ := freeKey_eq_some hfree
  have hapart : ∀ k ∈ owners, KeysDisjoint key k := by
    intro k hk
    obtain ⟨b', hb'⟩ := h.shaped k hk
    by_cases hpiece : key.pieceIndex = k.pieceIndex
    swap
    · exact hshaped.disjoint_of_piece hb' hpiece
    by_cases hbb : b = b'
    swap
    · exact hshaped.disjoint_of_block hb' hpiece hbb
    -- the same block: then the registered key is the new one
    subst hbb
    have hindex : p.pieceIndex = k.pieceIndex := by rw [← hpiece, hkey]
    have hstop : k.stop = m.pieceStart k.pieceIndex + (bitmap.blockRange b).2 := by
      have hlen := partLen_of_resolveBlockBitmap hresolved
      obtain ⟨-, -, -, hstop⟩ := hb'
      rw [hstop, PartBlockBitmap.blockRange, hlen, hindex]
    rw [hindex] at hp hresolved
    have hstart := isCurrent_start (hcurrent k hk) hp hmissing hresolved hblock habsent hstop
    have heq : k = key := by
      cases k
      simp_all
    exact absurd (heq ▸ hk) hnew
  constructor
  · intro k hk
    rcases AList.mem_insert owners |>.mp hk with rfl | hk
    · exact ⟨b, hshaped⟩
    · exact h.shaped k hk
  · intro k hk k' hk' hne
    have hcase := AList.mem_insert owners |>.mp hk
    have hcase' := AList.mem_insert owners |>.mp hk'
    rcases hcase with hold | hold
    · rcases hcase' with hold' | hold'
      · exact absurd (hold.trans hold'.symm) hne
      · rw [hold]
        exact hapart k' hold'
    · rcases hcase' with hold' | hold'
      · rw [hold']
        exact (hapart k hold).symm
      · exact h.disjoint k hold k' hold' hne

theorem Booked.outcome {leases' : LeaseRegistry} {token : Option BlockLeaseToken}
    (h : Booked m leases.owners) (hcurrent : ∀ k ∈ leases.owners, isCurrent m k = true)
    (hout : LeaseOutcome leases m token leases') : Booked m leases'.owners := by
  cases hout with
  | nothing leases' owners => rw [owners]; exact h
  | fresh token leases' owner p bitmap b found missing resolved block free owners =>
    rw [owners]
    exact h.insert_fresh hcurrent found missing resolved block free
  | takeover token leases' owner held owners =>
    rw [owners]
    exact h.subset (mem_of_mem_insert_mem held)

theorem mem_of_mem_release : ∀ k ∈ (leases.release token).owners, k ∈ leases.owners := by
  intro k hk
  unfold release at hk
  split at hk
  · split at hk
    · exact (AList.mem_erase.mp hk).2
    · exact hk
  · exact hk

theorem mem_of_mem_notePayload {bytes : Nat} :
    ∀ k ∈ (leases.notePayload token bytes).owners, k ∈ leases.owners := by
  intro k hk
  unfold notePayload at hk
  split at hk
  · rename_i owner hlookup
    split at hk
    · have hmem : token.key ∈ leases.owners := AList.lookup_isSome.mp (by rw [hlookup]; rfl)
      exact mem_of_mem_insert_mem hmem k hk
    · exact hk
  · exact hk

theorem Booked.step {s : LeaseSystem} {e : LeaseEvent}
    (h : Booked s.transfer.manifest s.leases.owners) (hguard : LeasesCurrent s e) :
    Booked (leaseStep md4 sha1 s e).transfer.manifest (leaseStep md4 sha1 s e).leases.owners := by
  cases e with
  | transfer event => exact h.congr (step_effect md4 sha1 s.transfer event).samePlan.toSameFile
  | lease call =>
    have hcurrent := List.all_eq_true.mp (hguard call rfl)
    simp only [leaseStep]
    split
    · rename_i token leases hcall
      exact h.outcome (fun k hk => hcurrent k hk) (leaseNextDownloadBlock_outcome hcall)
    · exact h
  | notePayload =>
    simp only [leaseStep]
    split
    · exact h.subset mem_of_mem_notePayload
    · exact h
  | drop =>
    simp only [leaseStep]
    split
    · exact h.subset mem_of_mem_release
    · exact h

end

/-- **No two registered leases share a byte**, in every run in which no registered lease has been
    left behind by the resume point of its block when the next lease is taken. Takeovers may
    happen: they keep the key. -/
theorem registered_leases_disjoint (md4 : Md4) (sha1 : Sha1)
    (job : Ed2kTransferJob) (md4Hashset : Option (List Md4Digest)) (aichRoot : Option Sha1Digest)
    (payload : Option ByteSeq) (ichEnabled : Bool) (events : List LeaseEvent)
    (hrun : Run.Along (leaseStep md4 sha1) LeasesCurrent
      (.start (.start job md4Hashset aichRoot payload ichEnabled)) events)
    (s : LeaseSystem)
    (hs : s = (LeaseSystem.start (.start job md4Hashset aichRoot payload ichEnabled)).after md4
      sha1 events)
    (k k' : BlockKey) (hk : k ∈ s.leases.owners) (hk' : k' ∈ s.leases.owners) (hne : k ≠ k') :
    k.stop ≤ k'.start ∨ k'.stop ≤ k.start := by
  have hstart : Booked (TransferSystem.start job md4Hashset aichRoot payload ichEnabled).manifest
      (∅ : AList fun _ : BlockKey => BlockLeaseOwner) :=
    ⟨fun key hkey => absurd hkey (AList.notMem_empty key),
      fun k hk => absurd hk (AList.notMem_empty k)⟩
  have hbooked : Booked s.transfer.manifest s.leases.owners := by
    rw [hs]
    exact @Run.Along.invariant _ _ _ _ _ _ (fun s => Booked s.transfer.manifest s.leases.owners)
      (fun s e h hguard => h.step hguard) hrun hstart
  exact hbooked.disjoint k hk k' hk' hne

def plainCall (peerAddr : Nat) : LeaseCall :=
  ⟨peerAddr, none, none, 0, 0, [], 0, 0⟩

def twoBlockStart : LeaseSystem :=
  .start (.start ⟨Vector.replicate 16 0, 368640, ed2kPartSize⟩ (some []) none none true)

def twoBlockAfter (events : List LeaseEvent) : LeaseSystem :=
  twoBlockStart.after firstByteMd4 (fun _ => Vector.replicate 20 0) events

/-- Two peers that lease the two blocks of a file. -/
theorem registered_leases_disjoint_two_peers :
    ∃ k k', k ∈ (twoBlockAfter [.lease (plainCall 1), .lease (plainCall 2)]).leases.owners ∧
      k' ∈ (twoBlockAfter [.lease (plainCall 1), .lease (plainCall 2)]).leases.owners ∧
      k ≠ k' ∧ (k.stop ≤ k'.start ∨ k'.stop ≤ k.start) := by
  have hfirst : (⟨0, 0, 184320⟩ : BlockKey) ∈ (twoBlockAfter [.lease (plainCall 1),
      .lease (plainCall 2)]).leases.owners := by decide +kernel
  have hsecond : (⟨0, 184320, 368640⟩ : BlockKey) ∈ (twoBlockAfter [.lease (plainCall 1),
      .lease (plainCall 2)]).leases.owners := by decide +kernel
  have hrun : Run.Along (leaseStep firstByteMd4 fun _ => Vector.replicate 20 0) LeasesCurrent
      twoBlockStart [.lease (plainCall 1), .lease (plainCall 2)] :=
    ⟨fun _ _ => by decide +kernel, fun _ _ => by decide +kernel, trivial⟩
  refine ⟨_, _, hfirst, hsecond, by decide, ?_⟩
  exact registered_leases_disjoint firstByteMd4 (fun _ => Vector.replicate 20 0)
    ⟨Vector.replicate 16 0, 368640, ed2kPartSize⟩ (some []) none none true _ hrun
    (twoBlockAfter [.lease (plainCall 1), .lease (plainCall 2)]) rfl _ _ hfirst hsecond (by decide)

/-- **A flushed prefix books the rest of its block twice.** The first peer holds the whole first
    block, and the 1000 bytes it has received are flushed; the second peer is given the rest of
    the block while the first lease is still registered. -/
theorem prefix_flush_double_books :
    ∃ k k', k ∈ (twoBlockAfter [.lease (plainCall 1),
        .transfer (.append 0 0 1000 ⟨1000, fun _ => 0⟩), .lease (plainCall 2)]).leases.owners ∧
      k' ∈ (twoBlockAfter [.lease (plainCall 1),
        .transfer (.append 0 0 1000 ⟨1000, fun _ => 0⟩), .lease (plainCall 2)]).leases.owners ∧
      k ≠ k' ∧ ¬(k.stop ≤ k'.start ∨ k'.stop ≤ k.start) :=
  ⟨⟨0, 0, 184320⟩, ⟨0, 1000, 184320⟩, by decide +kernel, by decide +kernel, by decide, by decide⟩

end EmuleBB.Transfer
