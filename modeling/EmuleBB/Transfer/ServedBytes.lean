import EmuleBB.Transfer.VerifiedReader

/-!
# Only authorised bytes are served

An answer for `[start, stop)` is authorised when it has the length that was asked for, lies inside
one verified range, and is made of bytes that a call read at those positions **and then accepted**:
the payload still showed its fingerprint, or the part had its hash.

A part goes into the cache after its hash was accepted. A complete payload is read *into the cache*:
the buffer is in place before the read is known to have succeeded. A rejected fingerprint clears it
again; **a failed read does not**, and the next request inside the buffer is answered from it
(`failed_read_is_served`). Requests that stay away from such a buffer get authorised bytes only
(`served_bytes_authorised`). The invariant, `Sound`, is that the cache is backed by accepted reads
unless it is the buffer of a failed one.
-/

namespace EmuleBB.Transfer

open List

variable {localFile : Option LocalFileInstance} {manifest : Option Ed2kResumeManifest}

/-! ## The law -/

def AcceptedRead.Has (read : AcceptedRead) (pos : Nat) (byte : UInt8) : Prop :=
  read.offset ≤ pos ∧ read.bytes[pos - read.offset]? = some byte

namespace Ed2kVerifiedRangeReader

variable (md4 : Md4) (r : Ed2kVerifiedRangeReader)

/-- **Accepted bytes**: the handle delivered them at the offset, and then the payload still showed
    the fingerprint it was verified with, or they are a part with the expected hash. -/
def Trusts (read : AcceptedRead) : Prop :=
  read.io.seeks read.offset = true ∧ read.bytes <+: read.io.delivers read.offset ∧
    match r.incompleteAuthority with
    | none => ∃ expected, r.expectedFingerprint = some expected ∧
        read.io.inspects = some (some expected)
    | some authority => ∃ part, read.offset = part * authority.pieceSize ∧
        authority.partHashes[part]? = some (md4 read.bytes)

def Backed (accepted : List AcceptedRead) (start : Nat) (bytes : List UInt8) : Prop :=
  ∀ i byte, bytes[i]? = some byte → ∃ read ∈ accepted, read.Has (start + i) byte

/-- **An authorised answer** for `[start, stop)`: as long as it was asked for, inside one verified
    range, and made of bytes accepted by this call or an earlier one. -/
structure Authorised (start stop : Nat) (bytes : List UInt8) : Prop where
  length : bytes.length = stop - start
  verified : ∃ range ∈ r.verifiedRanges, range.start ≤ start ∧ stop ≤ range.stop
  backed : Backed r.accepted start bytes
  trusted : ∀ read ∈ r.accepted, r.Trusts md4 read

/-- What the call serves, the reader was authorised to serve. -/
def ServesAuthorised (call : RangeRead) : Prop :=
  ∀ bytes, (r.readRangeWithReadAhead md4 call).2 = .ok (some bytes) →
    (r.step md4 call).Authorised md4 call.start call.stop bytes

/-- **The call stays away from the buffer of a failed read.** -/
def AvoidsFailedRead (call : RangeRead) : Prop :=
  r.spoiled = true →
    ¬(r.cacheStart ≤ call.start ∧ call.stop ≤ r.cacheStart + r.cache.length)

instance (call : RangeRead) : Decidable (r.AvoidsFailedRead call) :=
  inferInstanceAs (Decidable (_ → _))

variable {md4 r} {bytes part : List UInt8} {first last start stop : Nat}
  {accepted : List AcceptedRead} {io : PayloadIo} {authority : IncompletePayloadAuthority}
  {r' : Ed2kVerifiedRangeReader} {pieceIndex : Nat} {call : RangeRead}

/-! ## Slices and buffers -/

theorem slice_eq_some : slice bytes first last = some part ↔
      first ≤ last ∧ last ≤ bytes.length ∧ part = (bytes.drop first).take (last - first) := by
  unfold slice
  split
  · next h => simp [h, eq_comm]
  · next h =>
    simp only [reduceCtorEq, false_iff]
    rintro ⟨hle, hlen, -⟩
    exact h ⟨hle, hlen⟩

theorem length_of_slice (h : slice bytes first last = some part) : part.length = last - first := by
  obtain ⟨hle, hlen, rfl⟩ := slice_eq_some.mp h
  rw [length_take, length_drop]
  omega

theorem backed_nil : Backed accepted start [] :=
  fun i byte h => by simp at h

theorem Backed.mono {accepted' : List AcceptedRead} (h : Backed accepted start bytes)
    (hsub : accepted ⊆ accepted') : Backed accepted' start bytes := by
  intro i byte hbyte
  obtain ⟨read, hread, hhas⟩ := h i byte hbyte
  exact ⟨read, hsub hread, hhas⟩

theorem Backed.slice (h : Backed accepted start bytes)
    (hslice : slice bytes first last = some part) : Backed accepted (start + first) part := by
  obtain ⟨-, -, rfl⟩ := slice_eq_some.mp hslice
  intro i byte hbyte
  rw [getElem?_take] at hbyte
  split at hbyte
  · rw [getElem?_drop] at hbyte
    rw [Nat.add_assoc]
    exact h (first + i) byte hbyte
  · cases hbyte

theorem Backed.append {more : List UInt8} (h : Backed accepted start bytes)
    (hmore : Backed accepted (start + bytes.length) more) :
    Backed accepted start (bytes ++ more) := by
  intro i byte hbyte
  by_cases hi : i < bytes.length
  · rw [getElem?_append_left hi] at hbyte
    exact h i byte hbyte
  · rw [getElem?_append_right (Nat.not_lt.mp hi)] at hbyte
    have hrest := hmore (i - bytes.length) byte hbyte
    rwa [Nat.add_assoc, Nat.add_sub_cancel' (Nat.not_lt.mp hi)] at hrest

theorem backed_accepted (accepted : List AcceptedRead) (read : AcceptedRead) :
    Backed (accepted ++ [read]) read.offset read.bytes := by
  intro i byte hbyte
  refine ⟨read, mem_append_right _ (mem_singleton_self _), Nat.le_add_right _ _, ?_⟩
  rw [Nat.add_sub_cancel_left]
  exact hbyte

theorem length_buffer (pos wanted : Nat) : (io.buffer pos wanted).length = wanted := by
  rw [PayloadIo.buffer, length_take, length_append, length_replicate]
  omega

theorem buffer_delivered {pos wanted : Nat} (h : io.readsExact pos wanted = true) :
    io.buffer pos wanted <+: io.delivers pos := by
  rw [PayloadIo.buffer, take_append_of_le_length (of_decide_eq_true h)]
  exact take_prefix _ _

theorem readCachedRange_eq_some (h : r.readCachedRange start stop = some bytes) :
    r.cacheStart ≤ start ∧ stop ≤ r.cacheStart + r.cache.length ∧
      slice r.cache (start - r.cacheStart) (start - r.cacheStart + (stop - start)) =
        some bytes := by
  unfold readCachedRange at h
  dsimp only at h
  split at h
  · cases h
  · next hin =>
    have hend : saturatingAdd r.cacheStart r.cache.length ≤ r.cacheStart + r.cache.length :=
      Nat.min_le_left _ _
    exact ⟨by omega, by omega, h⟩

theorem Backed.readCachedRange (hcache : Backed accepted r.cacheStart r.cache)
    (h : r.readCachedRange start stop = some bytes) :
    bytes.length = stop - start ∧ Backed accepted start bytes := by
  obtain ⟨hstart, -, hslice⟩ := readCachedRange_eq_some h
  have hback := hcache.slice hslice
  rw [Nat.add_sub_cancel' hstart] at hback
  refine ⟨?_, hback⟩
  rw [length_of_slice hslice, Nat.add_sub_cancel_left]

/-! ## The invariant -/

/-- **The cache holds accepted bytes**, unless it is the buffer of a failed read. -/
structure Sound (md4 : Md4) (r : Ed2kVerifiedRangeReader) : Prop where
  fingerprint : r.incompleteAuthority = none → r.expectedFingerprint.isSome
  ranges : ∀ authority, r.incompleteAuthority = some authority →
    ∀ range ∈ r.verifiedRanges, range.stop ≤ authority.fileSize
  trusted : ∀ read ∈ r.accepted, r.Trusts md4 read
  cache : r.spoiled = false → Backed r.accepted r.cacheStart r.cache

structure SameAuthority (r r' : Ed2kVerifiedRangeReader) : Prop where
  fingerprint : r'.expectedFingerprint = r.expectedFingerprint
  incomplete : r'.incompleteAuthority = r.incompleteAuthority
  ranges : r'.verifiedRanges = r.verifiedRanges

theorem Sound.of_same (h : r.Sound md4) (hsame : SameAuthority r r')
    (htrusted : ∀ read ∈ r'.accepted, r.Trusts md4 read)
    (hcache : r'.spoiled = false → Backed r'.accepted r'.cacheStart r'.cache) : r'.Sound md4 where
  fingerprint hnone := by
    rw [hsame.fingerprint]
    exact h.fingerprint (hsame.incomplete ▸ hnone)
  ranges authority hauthority range hrange :=
    h.ranges authority (hsame.incomplete ▸ hauthority) range (hsame.ranges ▸ hrange)
  trusted read hread := by
    rw [Trusts, hsame.incomplete, hsame.fingerprint]
    exact htrusted read hread
  cache := hcache

theorem trusts_append {read : AcceptedRead} (h : ∀ read ∈ accepted, r.Trusts md4 read)
    (hread : r.Trusts md4 read) : ∀ read' ∈ accepted ++ [read], r.Trusts md4 read' := by
  intro read' hread'
  obtain hold | hnew := mem_append.mp hread'
  · exact h read' hold
  · rw [mem_singleton.mp hnew]
    exact hread

/-! ## Parts of an incomplete payload -/

theorem readPart_eq_ok (h : authority.readPart md4 io pieceIndex = .ok bytes) :
    bytes.length = expectedPieceLength authority.fileSize authority.pieceSize pieceIndex ∧
      io.seeks (pieceIndex * authority.pieceSize) = true ∧
      bytes <+: io.delivers (pieceIndex * authority.pieceSize) ∧
      authority.partHashes[pieceIndex]? = some (md4 bytes) := by
  unfold IncompletePayloadAuthority.readPart at h
  split at h
  · cases h
  · split at h
    · cases h
    · next expectedHash hexpected =>
      dsimp only at h
      split at h
      · cases h
      · split at h
        · cases h
        · next hseek =>
          split at h
          · cases h
          · next hread =>
            split at h
            · next hhash =>
              cases h
              simp only [Bool.not_eq_true', Bool.not_eq_false] at hseek hread
              exact ⟨length_buffer _ _, hseek, buffer_delivered hread, hhash ▸ hexpected⟩
            · cases h

def reached (start stop pieceSize pieceIndex : Nat) : Nat :=
  max start (min stop (pieceIndex * pieceSize))

theorem reached_succ {fileSize pieceSize : Nat} (hstop : stop ≤ fileSize)
    (hfirst : start < (pieceIndex + 1) * pieceSize) (hlast : pieceIndex * pieceSize < stop)
    (hlt : start < stop) :
    let pieceStart := pieceIndex * pieceSize
    let pieceEnd := pieceStart + expectedPieceLength fileSize pieceSize pieceIndex
    reached start stop pieceSize pieceIndex = pieceStart + (max start pieceStart - pieceStart) ∧
      reached start stop pieceSize (pieceIndex + 1) =
        reached start stop pieceSize pieceIndex +
          ((min stop pieceEnd - pieceStart) - (max start pieceStart - pieceStart)) := by
  unfold reached expectedPieceLength
  rw [Nat.succ_mul] at hfirst ⊢
  generalize pieceIndex * pieceSize = pieceStart at *
  omega

/-- The loop keeps the invariant, and an answer it completes is backed and of full length. By
    induction on the parts left; the answer so far reaches as far as the parts before take it. -/
theorem sound_serveParts (hlt : start < stop) (hstop : stop ≤ authority.fileSize)
    (hsize : 0 < authority.pieceSize) (count pieceIndex : Nat) (r : Ed2kVerifiedRangeReader)
    (response : List UInt8) (h : r.Sound md4) (hauthority : r.incompleteAuthority = some authority)
    (hfirst : start < (pieceIndex + 1) * authority.pieceSize)
    (hlast : pieceIndex + count = (stop - 1) / authority.pieceSize + 1)
    (hlength : start + response.length = reached start stop authority.pieceSize pieceIndex)
    (hback : Backed r.accepted start response) :
    let out := serveParts md4 authority io start stop count pieceIndex r response
    out.1.Sound md4 ∧ SameAuthority r out.1 ∧
      ∀ bytes, out.2 = .ok bytes → bytes.length = stop - start ∧
        Backed out.1.accepted start bytes := by
  induction count generalizing pieceIndex r response with
  | zero =>
    refine ⟨h, ⟨rfl, rfl, rfl⟩, fun bytes hbytes => ?_⟩
    cases hbytes
    have hpast : stop ≤ pieceIndex * authority.pieceSize := by
      have hend : stop - 1 < authority.pieceSize * ((stop - 1) / authority.pieceSize + 1) :=
        Nat.lt_mul_div_succ _ hsize
      rw [← hlast, Nat.add_zero, Nat.mul_comm] at hend
      omega
    refine ⟨?_, hback⟩
    unfold reached at hlength
    omega
  | succ count ih =>
    rw [serveParts]
    split
    · exact ⟨h.of_same ⟨rfl, rfl, rfl⟩ h.trusted fun _ => backed_nil, ⟨rfl, rfl, rfl⟩, nofun⟩
    · exact ⟨h, ⟨rfl, rfl, rfl⟩, nofun⟩
    · next pieceBytes hpart =>
      obtain ⟨hpartLength, hseeks, hdelivered, hhash⟩ := readPart_eq_ok hpart
      dsimp only
      generalize hread : AcceptedRead.mk (pieceIndex * authority.pieceSize) pieceBytes io = read
      have htrusts : r.Trusts md4 read := by
        subst hread
        refine ⟨hseeks, hdelivered, ?_⟩
        rw [hauthority]
        exact ⟨pieceIndex, rfl, hhash⟩
      have htrusted := trusts_append h.trusted htrusts
      have hgrown : r.accepted ⊆ r.accepted ++ [read] := subset_append_left _ _
      have hbytes : Backed (r.accepted ++ [read])
        (pieceIndex * authority.pieceSize) pieceBytes := by
        have hself := backed_accepted r.accepted read
        subst hread
        exact hself
      split
      · exact ⟨h.of_same ⟨rfl, rfl, rfl⟩ htrusted fun hclean => (h.cache hclean).mono hgrown,
          ⟨rfl, rfl, rfl⟩, nofun⟩
      · next part hslice =>
        have hindex : pieceIndex * authority.pieceSize < stop := by
          have hle : pieceIndex ≤ (stop - 1) / authority.pieceSize := by omega
          have hmul := (Nat.le_div_iff_mul_le hsize).mp hle
          omega
        obtain ⟨hhere, hnext⟩ := reached_succ hstop hfirst hindex hlt
        rw [hpartLength] at hslice
        have hpart := hbytes.slice hslice
        rw [← hhere, ← hlength] at hpart
        have hgrows : start < (pieceIndex + 1 + 1) * authority.pieceSize :=
          lt_of_lt_of_le hfirst (Nat.mul_le_mul_right _ (Nat.le_succ _))
        obtain ⟨hsound, hsame, hanswer⟩ := ih (pieceIndex + 1)
          { r with
            accepted := r.accepted ++ [read]
            cacheStart := pieceIndex * authority.pieceSize
            cache := pieceBytes
            diskReadBytes := saturatingAdd r.diskReadBytes pieceBytes.length
            spoiled := false }
          (response ++ part)
          (h.of_same ⟨rfl, rfl, rfl⟩ htrusted fun _ => hbytes) hauthority hgrows (by omega)
          (by rw [length_append, ← Nat.add_assoc, hlength, hnext, length_of_slice hslice])
          ((hback.mono hgrown).append hpart)
        exact ⟨hsound, ⟨hsame.fingerprint, hsame.incomplete, hsame.ranges⟩, hanswer⟩

def Serves (md4 : Md4) (r : Ed2kVerifiedRangeReader) (start stop : Nat)
    (out : Ed2kVerifiedRangeReader × Except RangeReadError (Option (List UInt8))) : Prop :=
  out.1.Sound md4 ∧ SameAuthority r out.1 ∧
    ∀ bytes, out.2 = .ok (some bytes) →
      bytes.length = stop - start ∧ Backed out.1.accepted start bytes

theorem serves_readCryptographicallyVerifiedRange (h : r.Sound md4)
    (hauthority : r.incompleteAuthority = some authority) (hstop : stop ≤ authority.fileSize) :
    Serves md4 r start stop
      (readCryptographicallyVerifiedRange md4 authority r start stop io) := by
  unfold readCryptographicallyVerifiedRange
  split
  · exact ⟨h, ⟨rfl, rfl, rfl⟩, nofun⟩
  · split
    · next heq =>
      refine ⟨h, ⟨rfl, rfl, rfl⟩, fun bytes hbytes => ?_⟩
      cases hbytes
      exact ⟨by rw [heq, Nat.sub_self]; rfl, backed_nil⟩
    · split
      · exact ⟨h, ⟨rfl, rfl, rfl⟩, nofun⟩
      · next hle hne hzero =>
        have hsize : 0 < authority.pieceSize := Nat.pos_of_ne_zero hzero
        have hlt : start < stop := by omega
        have hfirst : start < (start / authority.pieceSize + 1) * authority.pieceSize := by
          rw [Nat.mul_comm]
          exact Nat.lt_mul_div_succ start hsize
        have hbegin : start / authority.pieceSize * authority.pieceSize ≤ start :=
          Nat.div_mul_le_self _ _
        have hcount : start / authority.pieceSize ≤ (stop - 1) / authority.pieceSize :=
          Nat.div_le_div_right (by omega)
        have hparts := @sound_serveParts md4 start stop io authority hlt hstop hsize
          ((stop - 1) / authority.pieceSize + 1 - start / authority.pieceSize)
          (start / authority.pieceSize) r [] h hauthority hfirst (by omega)
          (by unfold reached; rw [length_nil]; omega) backed_nil
        dsimp only at hparts ⊢
        generalize serveParts md4 authority io start stop _ _ r [] = out at hparts ⊢
        obtain ⟨r', result⟩ := out
        obtain ⟨hsound, hsame, hanswer⟩ := hparts
        cases result with
        | error => exact ⟨hsound, hsame, nofun⟩
        | ok response =>
          refine ⟨hsound.of_same ⟨rfl, rfl, rfl⟩ hsound.trusted hsound.cache,
            ⟨hsame.fingerprint, hsame.incomplete, hsame.ranges⟩, fun bytes hbytes => ?_⟩
          cases hbytes
          exact hanswer response rfl

/-! ## A complete payload -/

theorem ensurePayloadIdentityUnchanged_eq_ok {expected : NativeFileFingerprint}
    (hexpected : r.expectedFingerprint = some expected)
    (h : r.ensurePayloadIdentityUnchanged io = .ok ()) : io.inspects = some (some expected) := by
  unfold ensurePayloadIdentityUnchanged at h
  rw [hexpected] at h
  dsimp only at h
  split at h
  · cases h
  · cases h
  · next current hcurrent =>
    split at h
    · next heq => rw [hcurrent, heq]
    · cases h

theorem serves_readCompletePayload (h : r.Sound md4) (hcomplete : r.incompleteAuthority = none)
    {rangeEnd : Nat} : Serves md4 r call.start call.stop (r.readCompletePayload call rangeEnd) := by
  obtain ⟨expected, hexpected⟩ := Option.isSome_iff_exists.mp (h.fingerprint hcomplete)
  unfold readCompletePayload
  dsimp only
  generalize min _ rangeEnd - call.start = wanted
  split
  · exact ⟨h, ⟨rfl, rfl, rfl⟩, nofun⟩
  · next hseek =>
    rw [Bool.not_eq_true', Bool.not_eq_false] at hseek
    split
    · -- the buffer of a read that failed: nothing is claimed of it
      exact ⟨h.of_same ⟨rfl, rfl, rfl⟩ h.trusted nofun, ⟨rfl, rfl, rfl⟩, nofun⟩
    · next hread =>
      rw [Bool.not_eq_true', Bool.not_eq_false] at hread
      split
      · exact ⟨h.of_same ⟨rfl, rfl, rfl⟩ h.trusted fun _ => backed_nil, ⟨rfl, rfl, rfl⟩, nofun⟩
      · next hunchanged =>
        generalize hnew :
          AcceptedRead.mk call.start (call.io.buffer call.start wanted) call.io = read
        have htrusts : r.Trusts md4 read := by
          subst hnew
          refine ⟨hseek, buffer_delivered hread, ?_⟩
          rw [hcomplete]
          exact ⟨expected, hexpected, ensurePayloadIdentityUnchanged_eq_ok hexpected hunchanged⟩
        have hbuffer : Backed (r.accepted ++ [read]) call.start
          (call.io.buffer call.start wanted) := by
          have hself := backed_accepted r.accepted read
          subst hnew
          exact hself
        refine ⟨h.of_same ⟨rfl, rfl, rfl⟩ (trusts_append h.trusted htrusts) fun _ => hbuffer,
          ⟨rfl, rfl, rfl⟩, fun bytes hbytes => ?_⟩
        exact Backed.readCachedRange hbuffer (Except.ok.inj hbytes)

/-! ## Calls and runs -/

theorem serves_readRangeWithReadAhead (h : r.Sound md4) (havoids : r.AvoidsFailedRead call) :
    Serves md4 r call.start call.stop (r.readRangeWithReadAhead md4 call) := by
  unfold readRangeWithReadAhead
  split
  · exact ⟨h, ⟨rfl, rfl, rfl⟩, nofun⟩
  · next range hfind =>
    split
    · next bytes hcached =>
      obtain ⟨hlow, hhigh, -⟩ := readCachedRange_eq_some hcached
      have hclean : r.spoiled = false :=
        Bool.eq_false_iff.mpr fun hspoiled => havoids hspoiled ⟨hlow, hhigh⟩
      refine ⟨h.of_same ⟨rfl, rfl, rfl⟩ h.trusted h.cache, ⟨rfl, rfl, rfl⟩, fun bytes' hbytes => ?_⟩
      cases hbytes
      exact Backed.readCachedRange (h.cache hclean) hcached
    · split
      · next authority hauthority =>
        have hin := find?_some hfind
        simp only [Bool.and_eq_true, decide_eq_true_eq] at hin
        have hend := h.ranges authority hauthority range (mem_of_find?_eq_some hfind)
        exact serves_readCryptographicallyVerifiedRange h hauthority (le_trans hin.2 hend)
      · next hcomplete => exact serves_readCompletePayload h hcomplete

theorem verified_of_answer (h : (r.readRangeWithReadAhead md4 call).2 = .ok (some bytes)) :
    ∃ range ∈ r.verifiedRanges, range.start ≤ call.start ∧ call.stop ≤ range.stop := by
  unfold readRangeWithReadAhead at h
  split at h
  · cases h
  · next range hfind =>
    have hin := find?_some hfind
    simp only [Bool.and_eq_true, decide_eq_true_eq] at hin
    exact ⟨range, mem_of_find?_eq_some hfind, hin⟩

/-- **One call**: if it stays away from the buffer of a failed read, its answer is authorised, and
    the invariant is kept. -/
theorem Sound.serve (h : r.Sound md4) (havoids : r.AvoidsFailedRead call) :
    r.ServesAuthorised md4 call ∧ (r.step md4 call).Sound md4 := by
  obtain ⟨hsound, hsame, hanswer⟩ := serves_readRangeWithReadAhead h havoids
  refine ⟨fun bytes hbytes => ?_, hsound⟩
  obtain ⟨hlength, hback⟩ := hanswer bytes hbytes
  obtain ⟨range, hrange, hin⟩ := verified_of_answer hbytes
  exact ⟨hlength, ⟨range, hsame.ranges ▸ hrange, hin⟩, hback, hsound.trusted⟩

end Ed2kVerifiedRangeReader

/-! ## A reader as it is opened -/

theorem range_stop_le_of_validateManifest {m : Ed2kResumeManifest} (h : validateManifest m = true) :
    ∀ range ∈ m.verifiedRanges, range.stop ≤ m.fileSize := by
  intro range hrange
  simp only [validateManifest, Bool.and_eq_true, all_eq_true, decide_eq_true_eq] at h
  exact (h.1.2 range hrange).2

theorem verifiedPayload_cases {ranges : List Ed2kSharedRange} {authority : VerifiedPayloadAuthority}
    {incomplete : Option IncompletePayloadAuthority}
    (h : verifiedPayload localFile manifest = .ok (some (ranges, authority, incomplete))) :
    (incomplete = none ∧ authority.requiresFingerprint = true) ∨
      ∃ m part, manifest = some m ∧ incomplete = some part ∧ ranges = m.verifiedRanges ∧
        part.fileSize = m.fileSize := by
  unfold verifiedPayload at h
  split at h
  · cases h
    exact .inl ⟨rfl, rfl⟩
  · cases h
  · next m =>
    split at h
    · cases h
    · split at h
      · cases h
        exact .inl ⟨rfl, rfl⟩
      · unfold IncompletePayloadAuthority.fromManifest at h
        split at h
        · cases h
          exact .inr ⟨m, _, rfl, rfl, rfl, rfl⟩
        · cases h

theorem sound_of_open {md4 : Md4}
    {opened : Option (Option NativeFileFingerprint)} {r : Ed2kVerifiedRangeReader}
    (h : openVerifiedRangeReader localFile manifest opened = .ok (some r))
    (hstored : ∀ m ∈ manifest, validateManifest m = true) : r.Sound md4 := by
  unfold openVerifiedRangeReader at h
  cases hpayload : verifiedPayload localFile manifest with
  | error =>
    rw [hpayload] at h
    cases h
  | ok payload =>
    rw [hpayload] at h
    cases payload with
    | none => cases h
    | some payload =>
      obtain ⟨ranges, authority, incomplete⟩ := payload
      dsimp only [Bind.bind, Except.bind] at h
      split at h
      · cases h
      · next hidentified =>
        split at h
        · cases h
          refine ⟨fun hnone => ?_, fun part hpart range hrange => ?_, nofun,
            fun _ => Ed2kVerifiedRangeReader.backed_nil⟩
          · obtain ⟨-, hrequires⟩ | ⟨_, _, -, hsome, -⟩ := verifiedPayload_cases hpayload
            · rw [hrequires, Bool.true_and, Option.isNone_iff_eq_none] at hidentified
              exact Option.ne_none_iff_isSome.mp hidentified
            · cases hnone.symm.trans hsome
          · obtain ⟨hnone, -⟩ | ⟨m, part', hm, hsome, hranges, hsize⟩ :=
              verifiedPayload_cases hpayload
            · cases hnone.symm.trans hpart
            · cases hsome.symm.trans hpart
              rw [hsize]
              exact range_stop_le_of_validateManifest (hstored m hm) range (hranges ▸ hrange)
        · cases h

namespace Ed2kVerifiedRangeReader

/-- **Uploads serve only authorised bytes.** In every sequence of calls on an opened reader, with
    the handle doing anything at any call, each answer is of full length, inside one verified range
    and made of accepted bytes, as long as no call lies inside the buffer of a read that failed. -/
theorem served_bytes_authorised (md4 : Md4)
    (localFile : Option LocalFileInstance) (manifest : Option Ed2kResumeManifest)
    (opened : Option (Option NativeFileFingerprint)) (r : Ed2kVerifiedRangeReader)
    (hopen : openVerifiedRangeReader localFile manifest opened = .ok (some r))
    (hstored : ∀ m ∈ manifest, validateManifest m = true) (calls : List RangeRead)
    (havoids : Run.Along (step md4) AvoidsFailedRead r calls) :
    Run.Along (step md4) (ServesAuthorised md4) r calls :=
  havoids.along (fun _ _ hsound havoid => hsound.serve havoid) (sound_of_open hopen hstored)

def samplePayload : NativeFileFingerprint := ⟨1, 10, 0, none⟩

def sampleMd4 : Md4 := fun _ => Vector.replicate 16 0

def sampleReader : Ed2kVerifiedRangeReader :=
  ⟨some samplePayload, none, [⟨0, 10⟩], 0, [], 0, 0, 0, [], false⟩

def deliver (bytes : List UInt8) : PayloadIo :=
  ⟨fun _ => true, fun _ => bytes, some (some samplePayload)⟩

/-- A read comes up short; the next request is for what follows, and one more is inside that. -/
def sampleCalls : List RangeRead :=
  [⟨0, 4, 0, deliver [1, 2]⟩, ⟨4, 8, 0, deliver [5, 6, 7, 8]⟩, ⟨5, 7, 0, deliver []⟩]

/-- A read after one that failed. -/
theorem served_bytes_authorised_past_failure :
    Run.Along (step sampleMd4) (ServesAuthorised sampleMd4) sampleReader sampleCalls :=
  served_bytes_authorised sampleMd4 (some ⟨10, samplePayload⟩) none (some (some samplePayload))
    sampleReader rfl nofun sampleCalls (by decide +kernel)

/-- The read of four bytes ends after two. Asked again, the reader answers from the buffer: the two
    bytes, and two zeros nobody ever read. -/
theorem failed_read_is_served :
    ¬∀ (localFile : Option LocalFileInstance) (manifest : Option Ed2kResumeManifest)
      (opened : Option (Option NativeFileFingerprint)) (r : Ed2kVerifiedRangeReader),
      openVerifiedRangeReader localFile manifest opened = .ok (some r) →
      (∀ m ∈ manifest, validateManifest m = true) →
      ∀ calls, Run.Along (step sampleMd4) (ServesAuthorised sampleMd4) r calls := by
  intro h
  obtain ⟨-, hagain, -⟩ := h (some ⟨10, samplePayload⟩) none (some (some samplePayload))
    sampleReader rfl nofun [⟨0, 4, 0, deliver [1, 2]⟩, ⟨0, 4, 0, deliver []⟩]
  obtain ⟨read, hread, -⟩ := (hagain [1, 2, 0, 0] (by decide +kernel)).backed 0 1 rfl
  cases hread

end Ed2kVerifiedRangeReader

end EmuleBB.Transfer
