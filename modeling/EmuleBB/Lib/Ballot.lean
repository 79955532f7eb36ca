import Mathlib.Data.List.AList
import Mathlib.Data.List.Dedup

/-!
# Ballots with one vote per voter

Voters propose choices, again and again and in any order, and **only the first proposal of each
voter counts**. A `Box` is what a program keeps of that: a finite map from voters to choices. What
it has to mean is said about the list of proposals alone: `firstChoice`, `voters` and
`supporters`. `length_choices_cast` and `count_choices_cast` connect the two.

The leader of a box is found by one pass over its tallies. Ties are settled by the order of the
pass; a choice with more than half of the votes leads in every order.
-/

namespace Ballot

open List

variable {Voter Choice : Type} [DecidableEq Voter]

/-! ## What the proposals say -/

variable (votes : List (Voter × Choice))

def firstChoice (v : Voter) : Option Choice :=
  (votes.find? fun vote => vote.1 = v).map Prod.snd

def voters : List Voter := (votes.map Prod.fst).dedup

def supporters [DecidableEq Choice] (votes : List (Voter × Choice)) (c : Choice) : List Voter :=
  (voters votes).filter fun v => firstChoice votes v = some c

variable {votes}

theorem mem_voters {v : Voter} : v ∈ voters votes ↔ (firstChoice votes v).isSome = true := by
  unfold voters firstChoice
  simp

/-! ## The box -/

abbrev Box (Voter Choice : Type) := AList fun _ : Voter => Choice

variable (box : Box Voter Choice)

def record (v : Voter) (c : Choice) : Box Voter Choice :=
  if v ∈ box then box else box.insert v c

def recordAll (votes : List (Voter × Choice)) : Box Voter Choice :=
  votes.foldl (fun box vote => record box vote.1 vote.2) box

def cast (votes : List (Voter × Choice)) : Box Voter Choice := recordAll ∅ votes

def choices : List Choice := box.entries.map Sigma.snd

theorem cast_append (votes more : List (Voter × Choice)) :
    cast (votes ++ more) = recordAll (cast votes) more := by
  unfold cast recordAll
  rw [foldl_append]

theorem lookup_record (v w : Voter) (c : Choice) :
    (record box v c).lookup w = (box.lookup w).or (if v = w then some c else none) := by
  unfold record
  by_cases hmem : v ∈ box
  · rw [if_pos hmem]
    by_cases hw : v = w
    · subst hw
      obtain ⟨d, hd⟩ := Option.isSome_iff_exists.mp (AList.lookup_isSome.mpr hmem)
      simp [hd]
    · simp [hw]
  · rw [if_neg hmem]
    by_cases hw : v = w
    · subst hw
      rw [AList.lookup_eq_none.mpr hmem]
      simp
    · rw [AList.lookup_insert_ne (Ne.symm hw)]
      simp [hw]

/-- **The box holds the first choice of every voter.** -/
theorem lookup_recordAll {box : Box Voter Choice} {w : Voter} :
    (recordAll box votes).lookup w = (box.lookup w).or (firstChoice votes w) := by
  induction votes generalizing box with
  | nil => simp [recordAll, firstChoice]
  | cons vote votes ih =>
    show (recordAll (record box vote.1 vote.2) votes).lookup w = _
    rw [ih, lookup_record, Option.or_assoc]
    congr 1
    unfold firstChoice
    by_cases hv : vote.1 = w
    · simp [hv]
    · simp [hv]

theorem lookup_cast {w : Voter} : (cast votes).lookup w = firstChoice votes w := by
  unfold cast
  rw [lookup_recordAll, AList.lookup_empty]
  rfl

theorem keys_cast_perm : (cast votes).keys.Perm (voters votes) := by
  refine (perm_ext_iff_of_nodup (cast votes).keys_nodup
    (show (voters votes).Nodup from nodup_dedup _)).mpr fun v => ?_
  rw [← AList.mem_keys, ← AList.lookup_isSome, lookup_cast, mem_voters]

theorem length_choices_cast (votes : List (Voter × Choice)) :
    (choices (cast votes)).length = (voters votes).length := by
  rw [← keys_cast_perm.length_eq]
  simp [choices, AList.keys, keys]

section Count

variable [DecidableEq Choice]

theorem count_choices {box : Box Voter Choice} {c : Choice} :
    (choices box).count c = (box.keys.filter fun v => box.lookup v = some c).length := by
  have hentry : ∀ e ∈ box.entries, (decide (e.2 = c)) = decide (box.lookup e.1 = some c) := by
    intro e he
    have hlookup : box.lookup e.1 = some e.2 := AList.mem_lookup_iff.mpr he
    simp [hlookup]
  unfold choices AList.keys keys
  rw [count_eq_countP, countP_map, filter_map, length_map,
    ← countP_eq_length_filter]
  exact countP_congr fun e he => by simpa using congrArg (· = true) (hentry e he)

/-- **A choice is on record once for each of its supporters.** -/
theorem count_choices_cast (votes : List (Voter × Choice)) (c : Choice) :
    (choices (cast votes)).count c = (supporters votes c).length := by
  rw [count_choices]
  simp only [lookup_cast]
  exact (keys_cast_perm.filter _).length_eq

end Count

/-! ## The leader -/

section Leader

variable {Choice : Type}

def better (best tally : Choice × Nat) : Choice × Nat := if best.2 < tally.2 then tally else best

def leader : List (Choice × Nat) → Option (Choice × Nat)
  | [] => none
  | tally :: tallies => some (tallies.foldl better tally)

/-- What a pass from `first` on ends with: a tally it has seen, and none of them is larger. -/
theorem foldl_better (tallies : List (Choice × Nat)) (first : Choice × Nat) :
    tallies.foldl better first ∈ first :: tallies ∧
      ∀ tally ∈ first :: tallies, tally.2 ≤ (tallies.foldl better first).2 := by
  induction tallies generalizing first with
  | nil => simp
  | cons next tallies ih =>
    obtain ⟨hmem, hmax⟩ := ih (better first next)
    have hfirst : first.2 ≤ (better first next).2 := by unfold better; split <;> omega
    have hnext : next.2 ≤ (better first next).2 := by unfold better; split <;> omega
    rw [foldl_cons]
    refine ⟨?_, fun tally ht => ?_⟩
    · rcases mem_cons.mp hmem with heq | hmem
      · rw [heq]
        unfold better
        split <;> simp
      · exact mem_cons_of_mem _ (mem_cons_of_mem _ hmem)
    · rcases mem_cons.mp ht with rfl | ht
      · exact Nat.le_trans hfirst (hmax _ mem_cons_self)
      · rcases mem_cons.mp ht with rfl | ht
        · exact Nat.le_trans hnext (hmax _ mem_cons_self)
        · exact hmax _ (mem_cons_of_mem _ ht)

/-- **The leader is one of the tallies and none of them is larger.** -/
theorem leader_eq_some {tallies : List (Choice × Nat)} {best : Choice × Nat}
    (h : leader tallies = some best) : best ∈ tallies ∧ ∀ tally ∈ tallies, tally.2 ≤ best.2 := by
  cases tallies with
  | nil => exact absurd h (by simp [leader])
  | cons first tallies =>
    cases h
    exact foldl_better tallies first

end Leader

section Tallies

variable {Choice : Type} [DecidableEq Choice] {cs : List Choice}

def tallies (cs : List Choice) : List (Choice × Nat) := cs.dedup.map fun c => (c, cs.count c)

theorem mem_tallies {tally : Choice × Nat} :
    tally ∈ tallies cs ↔ tally.1 ∈ cs ∧ tally.2 = cs.count tally.1 := by
  obtain ⟨c, n⟩ := tally
  constructor
  · intro hmem
    obtain ⟨c', hc', heq⟩ := mem_map.mp hmem
    cases heq
    exact ⟨mem_dedup.mp hc', rfl⟩
  · rintro ⟨hmem, hn⟩
    exact mem_map.mpr ⟨c, mem_dedup.mpr hmem, Prod.ext rfl hn.symm⟩

theorem count_add_count_le {c d : Choice} (h : c ≠ d) : cs.count c + cs.count d ≤ cs.length := by
  induction cs with
  | nil => simp
  | cons e =>
    simp only [count_cons, length_cons, beq_iff_eq]
    by_cases hc : e = c
    · have hd : e ≠ d := fun hd => h (hc.symm.trans hd)
      rw [if_pos hc, if_neg hd]
      omega
    · rw [if_neg hc]
      split <;> omega

/-- **A choice with more than half of the votes leads**, whatever the order of the pass. -/
theorem leader_of_majority {c : Choice} (h : cs.length < 2 * cs.count c) :
    leader (tallies cs) = some (c, cs.count c) := by
  have hmem : c ∈ cs := count_pos_iff.mp (by omega)
  have htally : (c, cs.count c) ∈ tallies cs := mem_tallies.mpr ⟨hmem, rfl⟩
  cases hl : leader (tallies cs) with
  | none =>
    cases ht : tallies cs with
    | nil =>
      rw [ht] at htally
      cases htally
    | cons =>
      rw [ht] at hl
      exact absurd hl (by simp [leader])
  | some best =>
    obtain ⟨d, n⟩ := best
    obtain ⟨hbest, hmax⟩ := leader_eq_some hl
    obtain ⟨-, hn⟩ := mem_tallies.mp hbest
    have hle := hmax _ htally
    simp only at hn hle
    by_cases hcd : c = d
    · rw [hn, hcd]
    · have hsum : cs.count c + cs.count d ≤ cs.length := count_add_count_le hcd
      omega

end Tallies

end Ballot
