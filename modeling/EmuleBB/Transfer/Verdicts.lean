import EmuleBB.Transfer.CorruptionBlackBox

/-!
# Verdicts of the corruption blackbox

A block that passes its check credits the senders recorded for its bytes, and one that fails is held
against them. The loop over the records clamps each one it reads to the range, stamps it, and
appends what is left of it at either end to the list it is going through.

**A verdict changes what is said of the bytes in its range, and of no others** (`Relabels`),
whatever the records are (`verdicts_relabel_range`). A corrupt range is one block at most: a longer
one is refused, and nothing is marked.
-/

namespace EmuleBB.Transfer

open Peer (Ipv4Addr)

/-- `mark_record_overlap_and_append_remainders`: the record's overlap with the range under the new
    status, and the remainders to be appended. -/
def CbbRecord.markRecordOverlap (relStart relEnd : Nat) (markedStatus : BbrStatus)
    (old : CbbRecord) :
    CbbRecord × List CbbRecord :=
  if relEnd < old.start ∨ old.finish < relStart then (old, [])
  else
    let markedStart := max old.start relStart
    let markedEnd := min old.finish relEnd
    (⟨markedStart, markedEnd, old.ip, markedStatus⟩,
      (if markedEnd < old.finish then [{ old with start := markedEnd + 1 }] else []) ++
      (if old.start < markedStart then [{ old with finish := markedStart - 1 }] else []))

/-- The records the loop has yet to do something to. -/
def CbbRecord.overlaps (relStart relEnd : Nat) (r : CbbRecord) : Bool :=
  r.start ≤ relEnd && relStart ≤ r.finish

theorem CbbRecord.countP_markRecordOverlap (relStart relEnd : Nat) (status : BbrStatus)
    (r : CbbRecord) :
    (r.markRecordOverlap relStart relEnd status).2.countP (·.overlaps relStart relEnd) = 0 ∧
      (r.markRecordOverlap relStart relEnd status).2.length ≤
        2 * if r.overlaps relStart relEnd then 1 else 0 := by
  unfold markRecordOverlap
  split
  · simp
  · rename_i h
    have hover : r.overlaps relStart relEnd = true := by simp [overlaps]; omega
    dsimp only
    rw [hover, List.countP_eq_zero]
    refine ⟨fun rest hrest => ?_, by split <;> split <;> simp⟩
    simp only [List.mem_append, List.mem_ite_nil_right, List.mem_singleton] at hrest
    rcases hrest with ⟨hlt, rfl⟩ | ⟨hlt, rfl⟩ <;> simp [overlaps] <;> omega

/-- The loop of a verdict, over the list it appends remainders to: what it has passed, and what is
    still ahead. A remainder lies outside the range, so the loop ends. -/
def markLoop (reads : BbrStatus → Bool) (relStart relEnd : Nat) (markedStatus : BbrStatus)
    (passed ahead : List CbbRecord) : List CbbRecord :=
  match ahead with
  | [] => passed
  | r :: rest =>
    if reads r.status then
      let marked := r.markRecordOverlap relStart relEnd markedStatus
      markLoop reads relStart relEnd markedStatus (passed ++ [marked.1]) (rest ++ marked.2)
    else markLoop reads relStart relEnd markedStatus (passed ++ [r]) rest
termination_by ahead.length + 2 * ahead.countP (·.overlaps relStart relEnd)
decreasing_by
  · have h := r.countP_markRecordOverlap relStart relEnd markedStatus
    simp only [List.length_append, List.countP_append, List.length_cons, List.countP_cons]
    omega
  · simp only [List.length_cons, List.countP_cons]
    omega

/-- The difference of two `u64`s, which wraps. -/
def wrappingSub (a b : Nat) : Nat := (a + (2 ^ 64 - b)) % 2 ^ 64

theorem wrappingSub_of_le {a b : Nat} (hle : b ≤ a) (ha : a < 2 ^ 64) :
    wrappingSub a b = a - b := by
  rw [wrappingSub]
  omega

/-- What `verified_data` and `corrupted_data` do alike, once the range has passed their checks. -/
def markData (reads : BbrStatus → Bool) (markedStatus : BbrStatus) (box : CorruptionBlackBox)
    (absStart absEnd : Nat) : CorruptionBlackBox :=
  let part := absStart / ed2kPartSize
  let partStart := part * ed2kPartSize
  let relEnd := wrappingSub absEnd partStart
  if ed2kPartSize ≤ relEnd then box
  else Function.update box part
    (markLoop reads (absStart - partStart) relEnd markedStatus [] (box part))

/-- Bytes of a part that was verified. -/
def verifiedData (box : CorruptionBlackBox) (absStart absEnd : Nat) : CorruptionBlackBox :=
  -- the sum is a `u64` and wraps
  if (absStart + ed2kPartSize) % 2 ^ 64 ≤ absEnd then box
  else markData (fun status => status = .none || status = .verified) .verified box absStart absEnd

/-- Bytes of a block that was found corrupt. -/
def corruptedData (box : CorruptionBlackBox) (absStart absEnd : Nat) : CorruptionBlackBox :=
  if ed2kEmblockSize ≤ wrappingSub absEnd absStart then box
  else markData (· = .none) .corrupted box absStart absEnd

/-! ### What a verdict says of each byte -/

section

variable {reads : BbrStatus → Bool} {relStart relEnd byte : Nat} {status : BbrStatus}

/-- One attribution of a byte after the verdict. -/
def relabel (reads : BbrStatus → Bool) (status : BbrStatus) (inside : Prop) [Decidable inside]
    (said : Ipv4Addr × BbrStatus) : Ipv4Addr × BbrStatus :=
  if inside ∧ reads said.2 then (said.1, status) else said

theorem CbbRecord.attributions_markRecordOverlap (r : CbbRecord) (byte : Nat) (status : BbrStatus)
    (hle : relStart ≤ relEnd) (hreads : reads r.status = true) :
    (attributions byte [(r.markRecordOverlap relStart relEnd status).1] ++
      (attributions byte (r.markRecordOverlap relStart relEnd status).2).map
        (relabel reads status (relStart ≤ byte ∧ byte ≤ relEnd))).Perm
    ((attributions byte [r]).map (relabel reads status (relStart ≤ byte ∧ byte ≤ relEnd))) := by
  unfold markRecordOverlap
  split
  · dsimp only
    rw [attributions_cons, attributions_nil]
    split_ifs <;> simp [relabel]
    omega
  · dsimp only
    simp only [attributions_append, apply_ite (attributions byte), attributions_cons,
      attributions_nil]
    by_cases hin : relStart ≤ byte ∧ byte ≤ relEnd
    · split_ifs <;> first | omega | simp [relabel, hin, hreads]
    · split_ifs <;> first | omega | simp [relabel, hin]

theorem attributions_markLoop (hle : relStart ≤ relEnd) (passed ahead : List CbbRecord) :
    (attributions byte (markLoop reads relStart relEnd status passed ahead)).Perm
      (attributions byte passed ++ (attributions byte ahead).map
        (relabel reads status (relStart ≤ byte ∧ byte ≤ relEnd))) := by
  fun_induction markLoop reads relStart relEnd status passed ahead with
  | case1 passed => simp [attributions]
  | case2 passed r rest hreads marked ih =>
    have hone := r.attributions_markRecordOverlap byte status hle hreads
    refine ih.trans ?_
    rw [← List.singleton_append (l := rest), attributions_append, attributions_append,
      attributions_append, List.map_append, List.map_append, List.append_assoc]
    refine .append_left _ (.trans ?_ (hone.append_right _))
    rw [List.append_assoc]
    exact .append_left _ List.perm_append_comm
  | case3 passed r rest hreads ih =>
    have hsame : (attributions byte [r]).map
        (relabel reads status (relStart ≤ byte ∧ byte ≤ relEnd)) = attributions byte [r] := by
      rw [attributions_cons, attributions_nil]
      split <;> simp [relabel, hreads]
    refine ih.trans (.of_eq ?_)
    rw [← List.singleton_append (l := rest), attributions_append, attributions_append,
      List.map_append, hsame, List.append_assoc]

/-- **The verdict says its status of exactly the bytes of the range that it reads**, and changes
    nothing else that is said of any byte. -/
def Relabels (reads : BbrStatus → Bool) (status : BbrStatus) (absStart absEnd : Nat)
    (before after : CorruptionBlackBox) : Prop :=
  ∀ part byte, (attributions byte (after part)).Perm ((attributions byte (before part)).map
    (relabel reads status (part = absStart / ed2kPartSize ∧
      absStart ≤ part * ed2kPartSize + byte ∧ part * ed2kPartSize + byte ≤ absEnd)))

/-- What the two have in common. -/
theorem relabels_markData {absStart absEnd : Nat} (hle : absStart ≤ absEnd)
    (hpart : absEnd / ed2kPartSize = absStart / ed2kPartSize) (hmax : absEnd < 2 ^ 64)
    (box : CorruptionBlackBox) :
    Relabels reads status absStart absEnd box (markData reads status box absStart absEnd) := by
  have hpos : 0 < ed2kPartSize := by decide
  have hstart := Nat.div_mul_le_self absStart ed2kPartSize
  have hend := Nat.lt_div_mul_add hpos (a := absEnd)
  rw [hpart] at hend
  unfold markData
  dsimp only
  rw [wrappingSub_of_le (hstart.trans hle) hmax, if_neg (by omega)]
  intro part byte
  by_cases h : part = absStart / ed2kPartSize
  · subst h
    rw [Function.update_self]
    refine (attributions_markLoop (by omega) [] _).trans (.of_eq ?_)
    refine (List.nil_append _).trans (List.map_congr_left fun said _ => ?_)
    unfold relabel
    refine if_congr (and_congr_left fun _ => ?_) rfl rfl
    omega
  · rw [Function.update_of_ne h]
    exact .of_eq (List.map_id'' (fun _ => if_neg fun hin => h hin.1.1) _).symm

end

/-- **Verdicts relabel exactly their range.** For all records and every range within a part, both
    loops end, and of every byte of every part they leave the same senders, under the new status
    where the byte lies in the range and its record was read. A corrupt range is one
    block at most. -/
theorem verdicts_relabel_range (box : CorruptionBlackBox) (absStart absEnd : Nat)
    (hle : absStart ≤ absEnd) (hpart : absEnd / ed2kPartSize = absStart / ed2kPartSize)
    (hmax : absEnd < 2 ^ 64) :
    (absStart + ed2kPartSize < 2 ^ 64 →
      Relabels (fun status => status = .none || status = .verified) .verified absStart absEnd box
        (verifiedData box absStart absEnd)) ∧
    (absEnd - absStart < ed2kEmblockSize →
      Relabels (· = .none) .corrupted absStart absEnd box (corruptedData box absStart absEnd)) := by
  constructor
  · intro hfits
    have hshort : ¬absStart + ed2kPartSize ≤ absEnd := by
      intro h
      have hnext := Nat.div_le_div_right (c := ed2kPartSize) h
      rw [Nat.add_div_right _ (by decide)] at hnext
      omega
    rw [verifiedData, Nat.mod_eq_of_lt hfits, if_neg hshort]
    exact relabels_markData hle hpart hmax box
  · intro hblock
    rw [corruptedData, wrappingSub_of_le hle hmax, if_neg (by omega)]
    exact relabels_markData hle hpart hmax box

def sender : Ipv4Addr := ⟨192, 0, 2, 1⟩

/-- The second of three recorded bytes is found good, or found corrupt. -/
theorem verdicts_relabel_middle_byte :
    let box : CorruptionBlackBox := fun _ => [⟨0, 2, sender, .none⟩]
    (Relabels (fun status => status = .none || status = .verified) .verified 1 1 box
        (verifiedData box 1 1) ∧
      Relabels (· = .none) .corrupted 1 1 box (corruptedData box 1 1)) ∧
    corruptedData box 1 1 0 =
      [⟨1, 1, sender, .corrupted⟩, ⟨2, 2, sender, .none⟩, ⟨0, 0, sender, .none⟩] := by
  intro box
  have hverdicts := verdicts_relabel_range box 1 1 le_rfl rfl (by decide)
  exact ⟨⟨hverdicts.1 (by decide), hverdicts.2 (by decide)⟩, by decide +kernel⟩

/-- **A range longer than a block is not marked corrupted**, though it lies in one part; and the
    last bytes a `u64` can address are not marked verified, since the check of
    their length wraps. -/
theorem refused_ranges_are_not_marked :
    (¬Relabels (· = .none) .corrupted 0 ed2kEmblockSize (fun _ => [⟨0, 0, sender, .none⟩])
      (corruptedData (fun _ => [⟨0, 0, sender, .none⟩]) 0 ed2kEmblockSize)) ∧
    ¬Relabels (fun status => status = .none || status = .verified) .verified u64Max u64Max
      (fun _ => [⟨0, ed2kPartSize, sender, .none⟩])
      (verifiedData (fun _ => [⟨0, ed2kPartSize, sender, .none⟩]) u64Max u64Max) := by
  constructor
  · rw [corruptedData, if_pos (by decide)]
    intro h
    have hperm := h 0 0
    revert hperm
    decide +kernel
  · rw [verifiedData, if_pos (by decide)]
    intro h
    have hperm := h (u64Max / ed2kPartSize) (u64Max % ed2kPartSize)
    revert hperm
    decide +kernel

end EmuleBB.Transfer
