import EmuleBB.Wire
import EmuleBB.Lib.FirstMatch
import EmuleBB.Lib.Run

/-!
# The corruption blackbox

Each received range is recorded against the address it came from, so that a block found corrupt can
be held against its sender. The records of a part are a list in no order: a new range deletes, trims
or splits the pending records it meets, and is then merged into one that it continues, or pushed.

A list of records is read through **what it says of each byte**: the senders and verdicts of the
records that cover it (`attributions`). A received range takes its bytes away from the pending
records and gives them to its sender (`Overwrites`), so that in a run every byte is recorded once,
for the last who sent it (`bytes_attributed_once`).

**One case is missed.** A range strictly inside a pending record of its own sender leaves that
record whole and is recorded beside it (`repeated_range_is_recorded_twice`).
-/

namespace EmuleBB.Transfer

open Run FirstMatch
open Peer (Ipv4Addr)

/-- The verdict on the bytes of a record. -/
inductive BbrStatus
  | none
  | verified
  | corrupted
  deriving DecidableEq

/-- A range of one part; its positions are relative to the part and inclusive on both ends. -/
structure CbbRecord where
  start : Nat
  finish : Nat
  ip : Ipv4Addr
  status : BbrStatus
  deriving DecidableEq

namespace CbbRecord

/-- Same sender and status, and exactly adjacent. -/
def canMerge (start finish : Nat) (ip : Ipv4Addr) (status : BbrStatus) (r : CbbRecord) : Bool :=
  r.ip = ip && r.status = status && (start = r.finish + 1 || finish + 1 = r.start)

/-- The record extended by an adjacent range, and whether it was. -/
def merge (start finish : Nat) (ip : Ipv4Addr) (status : BbrStatus) (r : CbbRecord) :
    CbbRecord × Bool :=
  if r.ip ≠ ip ∨ r.status ≠ status then (r, false)
  else if start = r.finish + 1 then ({ r with finish }, true)
  else if finish + 1 = r.start then ({ r with start }, true)
  else (r, false)

def covers (byte : Nat) (r : CbbRecord) : Bool := r.start ≤ byte && byte ≤ r.finish

end CbbRecord

/-- Who is recorded for a byte, and with which verdict. -/
def attributions (byte : Nat) (records : List CbbRecord) : List (Ipv4Addr × BbrStatus) :=
  (records.filter (·.covers byte)).map fun r => (r.ip, r.status)

theorem attributions_cons (byte : Nat) (r : CbbRecord) (records : List CbbRecord) :
    attributions byte (r :: records) =
      (if r.start ≤ byte ∧ byte ≤ r.finish then [(r.ip, r.status)] else []) ++
        attributions byte records := by
  by_cases h : r.start ≤ byte ∧ byte ≤ r.finish <;>
    simp [attributions, CbbRecord.covers, h]

theorem attributions_nil (byte : Nat) : attributions byte [] = [] := rfl

theorem attributions_append (byte : Nat) (xs ys : List CbbRecord) :
    attributions byte (xs ++ ys) = attributions byte xs ++ attributions byte ys := by
  simp [attributions]

/-- The records of each part, as far as any were made. -/
abbrev CorruptionBlackBox := Nat → List CbbRecord

/-! ## Received data -/

/-- What the loop over the old records leaves: the records, and the range that is still to be
    recorded, with its sender. -/
structure Overwritten where
  records : List CbbRecord
  relStart : Nat
  relEnd : Nat
  senderIp : Ipv4Addr

def Overwritten.keep (r : CbbRecord) (o : Overwritten) : Overwritten :=
  { o with records := r :: o.records }

/-- The loop over the records of the part, which looks at the pending ones. -/
def overwrite (relStart relEnd : Nat) (senderIp : Ipv4Addr) : List CbbRecord → Overwritten
  | [] => ⟨[], relStart, relEnd, senderIp⟩
  | r :: rest =>
    if r.status = .none then
      if relStart ≤ r.start ∧ r.finish ≤ relEnd then
        overwrite relStart relEnd senderIp rest
      else if r.start < relStart ∧ relEnd < r.finish then
        if senderIp ≠ r.ip then
          -- the new range takes the record's place, the head is pushed, and the loop ends with the
          -- tail still to be recorded, for the old sender
          ⟨{ r with start := relStart, finish := relEnd, ip := senderIp } :: rest ++
            [⟨r.start, relStart - 1, r.ip, .none⟩], relEnd + 1, r.finish, r.ip⟩
        else
          -- the sender's own record is left whole, and the range is recorded all the same
          (overwrite relStart relEnd senderIp rest).keep r
      else if relStart ≤ r.start ∧ r.start ≤ relEnd then
        (overwrite relStart relEnd senderIp rest).keep { r with start := relEnd + 1 }
      else if relStart ≤ r.finish ∧ r.finish ≤ relEnd then
        (overwrite relStart relEnd senderIp rest).keep { r with finish := relStart - 1 }
      else (overwrite relStart relEnd senderIp rest).keep r
    else (overwrite relStart relEnd senderIp rest).keep r

/-- Behind the loop: the first record the range continues is extended, or a new one is pushed. -/
def Overwritten.record (o : Overwritten) : List CbbRecord :=
  let merged := (o.records.find? (·.canMerge o.relStart o.relEnd o.senderIp .none)).any fun r =>
    (r.merge o.relStart o.relEnd o.senderIp .none).2
  let records := modifyFirst (·.canMerge o.relStart o.relEnd o.senderIp .none)
    (fun r => (r.merge o.relStart o.relEnd o.senderIp .none).1) o.records
  if merged then records else records ++ [⟨o.relStart, o.relEnd, o.senderIp, .none⟩]

/-- `received_data`; a call on a range that crosses into the next part calls itself for the rest,
    which then lies in one part. -/
def receivedDataCalls : Nat → CorruptionBlackBox → Nat → Nat → Ipv4Addr → CorruptionBlackBox
  | 0, box, _, _, _ => box
  | calls + 1, box, absStart, absEnd, ip =>
    if ed2kPartSize ≤ absEnd - absStart ∨ absEnd < absStart then box
    else
      let part := absStart / ed2kPartSize
      let partStart := part * ed2kPartSize
      let relEnd := absEnd - partStart
      let crosses := ed2kPartSize ≤ relEnd
      let box := if crosses then receivedDataCalls calls box (partStart + ed2kPartSize) absEnd ip
        else box
      let relEnd := if crosses then ed2kPartSize - 1 else relEnd
      Function.update box part (overwrite (absStart - partStart) relEnd ip (box part)).record

def receivedData : CorruptionBlackBox → Nat → Nat → Ipv4Addr → CorruptionBlackBox :=
  receivedDataCalls 2

/-! ### Who a byte belongs to -/

section

variable {relStart relEnd : Nat} {ip : Ipv4Addr} {records rest : List CbbRecord} {o : Overwritten}
  {r kept : CbbRecord}

def CbbRecord.Pending (r : CbbRecord) : Prop := r.status = .none ∧ r.start ≤ r.finish

/-- All records, with the one that is made of the left-over range. -/
def Overwritten.all (o : Overwritten) : List CbbRecord :=
  ⟨o.relStart, o.relEnd, o.senderIp, .none⟩ :: o.records

theorem attributions_perm {xs ys : List CbbRecord} (byte : Nat) (h : xs.Perm ys) :
    (attributions byte xs).Perm (attributions byte ys) := (h.filter _).map _

/-- **The range belongs to its sender**, and the other bytes to whom they belonged before. -/
structure Overwrites (relStart relEnd : Nat) (ip : Ipv4Addr) (records all : List CbbRecord) :
    Prop where
  pending : ∀ r ∈ all, r.Pending
  said : ∀ byte, (attributions byte all).Perm
    (if relStart ≤ byte ∧ byte ≤ relEnd then [(ip, .none)] else attributions byte records)

theorem Overwrites.keep (h : Overwrites relStart relEnd ip rest o.all) (hkept : kept.Pending)
    (heq : ∀ byte, attributions byte [kept] =
      if relStart ≤ byte ∧ byte ≤ relEnd then [] else attributions byte [r]) :
    Overwrites relStart relEnd ip (r :: rest) (o.keep kept).all := by
  have hswap : (o.keep kept).all.Perm (kept :: o.all) := .swap _ _ _
  refine ⟨fun t ht => ?_, fun byte => (attributions_perm byte hswap).trans ?_⟩
  · obtain rfl | ht := List.mem_cons.mp (hswap.mem_iff.mp ht)
    · exact hkept
    · exact h.pending t ht
  · have hsaid := h.said byte
    rw [← List.singleton_append, ← List.singleton_append (l := rest), attributions_append,
      attributions_append, heq]
    split_ifs at hsaid ⊢
    · exact hsaid
    · exact hsaid.append_left _

/-- **The loop takes the range's bytes from the pending records**, whichever way they overlap. Every
    byte has one record at most, so the one that is split in three was the only one. -/
theorem overwrites_overwrite (hle : relStart ≤ relEnd) (hpending : ∀ r ∈ records, r.Pending)
    (hone : ∀ byte, (attributions byte records).length ≤ 1)
    (hown : ∀ r ∈ records, r.ip = ip → ¬(r.start < relStart ∧ relEnd < r.finish)) :
    Overwrites relStart relEnd ip records (overwrite relStart relEnd ip records).all := by
  induction records with
  | nil =>
    refine ⟨List.forall_mem_singleton.mpr ⟨rfl, hle⟩, fun byte => .of_eq ?_⟩
    rw [overwrite, Overwritten.all, attributions_cons, attributions_nil, List.append_nil]
  | cons r rest ih =>
    rw [List.forall_mem_cons] at hpending hown
    obtain ⟨⟨hstatus, hr⟩, hpending⟩ := hpending
    have hone byte : (attributions byte [r]).length + (attributions byte rest).length ≤ 1 := by
      rw [← List.length_append, ← attributions_append]
      exact hone byte
    have ih := ih hpending (fun byte => by have := hone byte; omega) hown.2
    simp only [attributions_cons, attributions_nil, hstatus] at hone
    rw [overwrite, if_pos hstatus]
    split_ifs with hinside hnest hip hright hleft
    · refine ⟨ih.pending, fun byte => (ih.said byte).trans (.of_eq ?_)⟩
      rw [attributions_cons]
      split_ifs <;> first | omega | rfl
    · -- the record is split in three, and no other record covers its bytes
      refine ⟨fun t ht => ?_, fun byte => ?_⟩
      · simp only [Overwritten.all, List.mem_cons, List.mem_append, List.not_mem_nil,
          or_false] at ht
        obtain rfl | (rfl | ht) | rfl := ht
        · exact ⟨rfl, hnest.2⟩
        · exact ⟨hstatus, hle⟩
        · exact hpending t ht
        · exact ⟨rfl, Nat.le_sub_one_of_lt hnest.1⟩
      · have hone := hone byte
        simp only [Overwritten.all, List.cons_append, attributions_cons, attributions_append,
          attributions_nil, hstatus]
        generalize attributions byte rest = others at hone ⊢
        split_ifs at hone ⊢ <;> first | omega | simp
        simp only [List.append_nil, List.length_singleton] at hone
        exact List.length_eq_zero_iff.mp (by omega)
    · exact absurd hnest (hown.1 (not_not.mp hip).symm)
    all_goals
      refine ih.keep ⟨hstatus, by first | exact hr | dsimp only; omega⟩ fun byte => ?_
      simp only [attributions_cons, attributions_nil]
      split_ifs <;> first | omega | rfl

/-- A merge takes the range's bytes into a record of the same sender. -/
theorem CbbRecord.merge_spec (hle : relStart ≤ relEnd) (hr : r.Pending)
    (h : r.canMerge relStart relEnd ip .none = true) :
    ∃ merged : CbbRecord, r.merge relStart relEnd ip .none = (merged, true) ∧ merged.Pending ∧
      ∀ byte, attributions byte [merged] =
        attributions byte [⟨relStart, relEnd, ip, .none⟩, r] := by
  obtain ⟨hstatus, hrange⟩ := hr
  simp only [canMerge, Bool.and_eq_true, Bool.or_eq_true, decide_eq_true_eq] at h
  obtain ⟨⟨rfl, -⟩, hadjacent⟩ := h
  rw [merge, if_neg (by simp [hstatus])]
  split_ifs with hafter hbefore
  case neg => omega
  all_goals
    refine ⟨_, rfl, ⟨hstatus, by dsimp only; omega⟩, fun byte => ?_⟩
    simp only [attributions_cons, attributions_nil, hstatus]
    split_ifs <;> first | omega | rfl

/-- Merged or pushed, the range is recorded. -/
theorem Overwrites.record (h : Overwrites relStart relEnd ip records o.all) :
    Overwrites relStart relEnd ip records o.record := by
  have hpushed := h.pending _ List.mem_cons_self
  unfold Overwritten.record
  dsimp only
  obtain ⟨hfind, heq⟩ | ⟨as, r, bs, hrecords, hfind, heq, -⟩ := modifyFirst_cases
    (·.canMerge o.relStart o.relEnd o.senderIp .none)
    (fun r => (r.merge o.relStart o.relEnd o.senderIp .none).1) o.records
  · rw [hfind, heq]
    have hperm := List.perm_append_singleton ⟨o.relStart, o.relEnd, o.senderIp, .none⟩ o.records
    exact ⟨fun t ht => h.pending t (hperm.mem_iff.mp ht),
      fun byte => (attributions_perm byte hperm).trans (h.said byte)⟩
  · have hall : o.all.Perm (⟨o.relStart, o.relEnd, o.senderIp, .none⟩ :: r :: (as ++ bs)) :=
      .cons _ (hrecords ▸ List.perm_middle)
    obtain ⟨merged, hmerge, hpending, hsaid⟩ := CbbRecord.merge_spec hpushed.2
      (h.pending r (by simp [Overwritten.all, hrecords])) (List.find?_some hfind)
    rw [hfind, heq, Option.any_some, hmerge, if_pos rfl]
    have hperm : (as ++ merged :: bs).Perm (merged :: (as ++ bs)) := List.perm_middle
    refine ⟨fun t ht => ?_, fun byte => ?_⟩
    · obtain rfl | ht := List.mem_cons.mp (hperm.mem_iff.mp ht)
      · exact hpending
      · exact h.pending t (hall.mem_iff.mpr (List.mem_cons_of_mem _ (List.mem_cons_of_mem _ ht)))
    · refine (attributions_perm byte hperm).trans (.trans (.of_eq ?_)
        ((attributions_perm byte hall).symm.trans (h.said byte)))
      rw [← List.singleton_append, attributions_append, hsaid, ← attributions_append]
      rfl

end

/-! ### Runs -/

/-- A range that came in, with its sender. -/
structure Received where
  absStart : Nat
  absEnd : Nat
  ip : Ipv4Addr

/-- The blackbox, and the sender of the last range that covered each byte of the file. -/
structure Reception where
  box : CorruptionBlackBox
  lastSender : Nat → Option Ipv4Addr

namespace Reception

def init : Reception := ⟨fun _ => [], fun _ => none⟩

def step (s : Reception) (e : Received) : Reception where
  box := receivedData s.box e.absStart e.absEnd e.ip
  lastSender byte := if e.absStart ≤ byte ∧ byte ≤ e.absEnd then some e.ip else s.lastSender byte

/-- A range shorter than a part that no pending record of the same sender encloses. -/
def NotEnclosed (s : Reception) (e : Received) : Prop :=
  e.absStart ≤ e.absEnd ∧ e.absEnd - e.absStart < ed2kPartSize ∧
    ∀ r ∈ s.box (e.absStart / ed2kPartSize), r.ip = e.ip →
      ¬(e.absStart / ed2kPartSize * ed2kPartSize + r.start < e.absStart ∧
        e.absEnd < e.absStart / ed2kPartSize * ed2kPartSize + r.finish)

instance (s : Reception) (e : Received) : Decidable (NotEnclosed s e) :=
  inferInstanceAs (Decidable (_ ∧ _))

variable {s : Reception} {part : Nat} {ip : Ipv4Addr}

/-- Each byte of the file is recorded once, for its last sender, and nothing else is. -/
def Attributed (s : Reception) : Prop :=
  ∀ part, (∀ r ∈ s.box part, r.Pending) ∧ ∀ byte, attributions byte (s.box part) =
    ((if byte < ed2kPartSize then s.lastSender (part * ed2kPartSize + byte) else none).map
      (·, BbrStatus.none)).toList

/-- No byte has two records. -/
theorem Attributed.length_le (h : s.Attributed) (part byte : Nat) :
    (attributions byte (s.box part)).length ≤ 1 := by
  rw [(h part).2]
  exact Option.length_toList_le

theorem Attributed.finish_lt (h : s.Attributed) {r : CbbRecord} (hr : r ∈ s.box part) :
    r.finish < ed2kPartSize := by
  have hsaid := (h part).2 r.finish
  by_contra hlong
  rw [if_neg hlong, Option.map_none, Option.toList_none, attributions, List.map_eq_nil_iff,
    List.filter_eq_nil_iff] at hsaid
  exact hsaid r hr (by simpa [CbbRecord.covers] using ((h part).1 r hr).2)

/-- A range within one part. -/
theorem Attributed.receive (h : s.Attributed) (part relStart relEnd : Nat) (hle : relStart ≤ relEnd)
    (hend : relEnd < ed2kPartSize)
    (hown : ∀ r ∈ s.box part, r.ip = ip → ¬(r.start < relStart ∧ relEnd < r.finish)) :
    Attributed ⟨Function.update s.box part (overwrite relStart relEnd ip (s.box part)).record,
      fun byte => if part * ed2kPartSize + relStart ≤ byte ∧ byte ≤ part * ed2kPartSize + relEnd
        then some ip else s.lastSender byte⟩ := by
  intro q
  dsimp only
  by_cases hq : q = part
  · subst hq
    have hover := (overwrites_overwrite hle (h q).1 (h.length_le q) hown).record
    rw [Function.update_self]
    refine ⟨hover.pending, fun byte => ?_⟩
    have hsaid := hover.said byte
    rw [(h q).2 byte] at hsaid
    split_ifs at hsaid ⊢ <;> first | omega | skip
    · exact List.perm_singleton.mp hsaid
    · cases hlast : s.lastSender (q * ed2kPartSize + byte) with
      | none => exact (hlast ▸ hsaid).eq_nil
      | some =>
        rw [hlast] at hsaid
        exact List.perm_singleton.mp hsaid
    · exact hsaid.eq_nil
  · rw [Function.update_of_ne hq]
    refine ⟨(h q).1, fun byte => ((h q).2 byte).trans ?_⟩
    split_ifs with hbyte hin
    · rcases Nat.lt_or_gt_of_ne hq with hlt | hlt
      all_goals
        have hmul := Nat.mul_le_mul_right ed2kPartSize hlt
        rw [Nat.succ_mul] at hmul
        omega
    · rfl
    · rfl

theorem receivedDataCalls_within {calls absStart absEnd : Nat} (box : CorruptionBlackBox)
    (hpart : absStart / ed2kPartSize = part) (hle : absStart ≤ absEnd)
    (hend : absEnd < part * ed2kPartSize + ed2kPartSize) :
    receivedDataCalls (calls + 1) box absStart absEnd ip = Function.update box part
      (overwrite (absStart - part * ed2kPartSize) (absEnd - part * ed2kPartSize) ip
        (box part)).record := by
  have hstart := Nat.div_mul_le_self absStart ed2kPartSize
  rw [hpart] at hstart
  rw [receivedDataCalls, if_neg (by omega), hpart]
  dsimp only
  rw [if_neg (by omega), if_neg (by omega)]

/-- **One call keeps the attribution**: a range in one part, or one that reaches into the next. -/
theorem Attributed.step {e : Received} (h : s.Attributed) (he : s.NotEnclosed e) :
    (s.step e).Attributed := by
  obtain ⟨absStart, absEnd, ip⟩ := e
  obtain ⟨hle, hshort, hown⟩ := he
  dsimp only at hle hshort hown
  have hpos : 0 < ed2kPartSize := by decide
  have hstart := Nat.div_mul_le_self absStart ed2kPartSize
  have hnext := Nat.lt_div_mul_add hpos (a := absStart)
  unfold Reception.step receivedData
  dsimp only
  generalize hpart : absStart / ed2kPartSize = part at hown hstart hnext
  by_cases hcross : absEnd < part * ed2kPartSize + ed2kPartSize
  · rw [receivedDataCalls_within _ hpart hle hcross]
    have hone := h.receive part _ _ (Nat.sub_le_sub_right hle (part * ed2kPartSize)) (by omega)
      fun r hr hip hnest => hown r hr hip (by omega)
    rw [Nat.add_sub_of_le hstart, Nat.add_sub_of_le (hstart.trans hle)] at hone
    exact hone
  · -- what is left opens the next part, and no record reaches over the end of this one
    have hmul := Nat.add_one_mul part ed2kPartSize
    have hdiv : (part * ed2kPartSize + ed2kPartSize) / ed2kPartSize = part + 1 := by
      rw [← hmul, Nat.mul_div_cancel _ hpos]
    have hrest := h.receive (part + 1) 0 (absEnd - (part + 1) * ed2kPartSize) (Nat.zero_le _)
      (by omega) (fun r _ (_ : r.ip = ip) hnest => absurd hnest.1 (Nat.not_lt_zero _))
    have hboth := hrest.receive part (absStart - part * ed2kPartSize) (ed2kPartSize - 1) (by omega)
      (by omega) (fun r hr (_ : r.ip = ip) hnest => by have := hrest.finish_lt hr; omega)
    rw [receivedDataCalls, if_neg (by omega), hpart]
    dsimp only
    rw [if_pos (by omega), if_pos (by omega), receivedDataCalls_within _ hdiv (by omega) (by omega),
      ← hmul, Nat.sub_self]
    convert hboth using 2
    funext byte
    dsimp only
    split_ifs <;> first | omega | rfl

theorem attributed_init : init.Attributed := fun part =>
  ⟨nofun, fun byte => by simp [init, attributions]⟩

/-- **Every received byte is recorded once, for the last who sent it**, in every run in which no
    range lies strictly inside a pending record of its own sender: the records of a part are
    pairwise disjoint, and a byte has a pending record exactly if it was received, with the address
    of the last call that covered it. -/
theorem bytes_attributed_once (events : List Received) (h : Along step NotEnclosed init events)
    (part : Nat) :
    ((run step init events).box part).Pairwise
      (fun r t => ∀ byte, ¬(r.covers byte = true ∧ t.covers byte = true)) ∧
    ∀ byte ip, (∃ r ∈ (run step init events).box part,
        r.status = .none ∧ r.covers byte = true ∧ r.ip = ip) ↔
      byte < ed2kPartSize ∧
        (run step init events).lastSender (part * ed2kPartSize + byte) = some ip := by
  have hinv : (run step init events).Attributed :=
    h.invariant (fun _ _ hi he => Attributed.step hi he) attributed_init
  constructor
  · refine List.pairwise_iff_forall_sublist.mpr fun {r t} hsub byte hcovers => ?_
    have hlen := ((hsub.filter (·.covers byte)).map fun r => (r.ip, r.status)).length_le
    have hone := hinv.length_le part byte
    rw [attributions] at hone
    simp only [List.filter_cons, hcovers.1, hcovers.2] at hlen
    exact absurd (hlen.trans hone) (by simp)
  · intro byte ip
    have hmem : (ip, BbrStatus.none) ∈ attributions byte ((run step init events).box part) ↔
        byte < ed2kPartSize ∧
          (run step init events).lastSender (part * ed2kPartSize + byte) = some ip := by
      rw [(hinv part).2 byte]
      simp
    rw [← hmem, attributions]
    simp only [List.mem_map, List.mem_filter, Prod.mk.injEq]
    exact exists_congr fun r => by tauto

/-- Two senders, the second inside what the first sent. -/
theorem bytes_attributed_once_two_senders : let events : List Received :=
      [⟨0, 9, ⟨192, 0, 2, 1⟩⟩, ⟨3, 5, ⟨192, 0, 2, 2⟩⟩]
    ∃ r ∈ (run step init events).box 0, r.status = .none ∧ r.covers 4 = true ∧
      r.ip = ⟨192, 0, 2, 2⟩ :=
  ((bytes_attributed_once _ (by decide +kernel) 0).2 4 _).mpr ⟨by decide, rfl⟩

/-- **A range inside a record of the same sender is recorded twice.** -/
theorem repeated_range_is_recorded_twice :
    ¬((run step init [⟨0, 9, ⟨192, 0, 2, 1⟩⟩, ⟨3, 5, ⟨192, 0, 2, 1⟩⟩]).box 0).Pairwise
      (fun r t => ∀ byte, ¬(r.covers byte = true ∧ t.covers byte = true)) := by
  have hbox : (run step init [⟨0, 9, ⟨192, 0, 2, 1⟩⟩, ⟨3, 5, ⟨192, 0, 2, 1⟩⟩]).box 0 =
      [⟨0, 9, ⟨192, 0, 2, 1⟩, .none⟩, ⟨3, 5, ⟨192, 0, 2, 1⟩, .none⟩] := by decide +kernel
  rw [hbox]
  intro h
  exact (List.pairwise_cons.mp h).1 _ List.mem_cons_self 4 (by decide)

end Reception

end EmuleBB.Transfer
