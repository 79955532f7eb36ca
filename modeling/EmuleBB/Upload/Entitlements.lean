import Mathlib
import EmuleBB.Upload.Consistency

/-!
# Callback entitlements become a slot at most once

The permit that is out with the callback sender, the entitlement in the queue and the peer's HELLO
race. What decides the race is the entitlement's **generation**: a permit is good while the entry
under its key holds its generation with the attempt not cancelled, and a slot opened for an entry
spends the generation it held.

The counter of generations wraps at 2^64, skipping zero. `Ledger` is the bookkeeping of a queue that
has issued no more than 2^64 - 1 of them: each generation is held by one entry or spent on one slot,
and no later one is in use. Past that the first generation comes back, and `generation_one_twice`
spends it a second time.
-/

namespace EmuleBB.Upload

open Relation Session Queue Table List

namespace Queue

variable {identified : Prop} {q q' r : Queue} {g : Nat} {session : Session} {route : CallbackRoute}
  {event : Event} {old : Session}

/-! ## The ledger of generations -/

def holders (q : Queue) (g : Nat) : Nat :=
  q.sessions.countP fun session => session.generation = some g

/-- How many slots the entitlement has opened. -/
def slots (q : Queue) (g : Nat) : Nat := q.slotOpens.countP fun o => o.generation = some g

def generationAfter (issued : Nat) : Nat := if issued < u64Max then issued + 1 else 1

theorem nextGeneration_eq {issued : Nat} (h : issued < u64Max) :
    nextGeneration (issued + 1) = generationAfter (issued + 1) := by
  unfold nextGeneration generationAfter
  unfold u64Max at h ⊢
  split
  · omega
  · have hlast : issued + 1 + 1 = 2 ^ 64 := by omega
    rw [hlast]
    rfl

/-- **Each generation has been used once at most, and none before its turn.** -/
structure Ledger (q : Queue) : Prop where
  next : q.nextPromotionGeneration = generationAfter q.entitlementsIssued
  once : ∀ g, q.slots g + q.holders g ≤ 1
  issued : ∀ g, q.entitlementsIssued < g → q.slots g + q.holders g = 0

namespace Ledger

theorem new (config : QueueConfig) : (new config).Ledger :=
  ⟨rfl, fun _ => Nat.zero_le _, fun _ _ => rfl⟩

theorem of_le (h : q.Ledger) (hnext : q'.nextPromotionGeneration = q.nextPromotionGeneration)
    (hissued : q'.entitlementsIssued = q.entitlementsIssued)
    (hle : ∀ g, q'.slots g + q'.holders g ≤ q.slots g + q.holders g) : q'.Ledger where
  next := by rw [hnext, hissued, h.next]
  once := fun g => le_trans (hle g) (h.once g)
  issued := fun g hg => by
    have hle := hle g
    rw [h.issued g (hissued ▸ hg)] at hle
    exact Nat.le_zero.mp hle

theorem not_held_of_slot (h : q.Ledger) {o : SlotOpen} (ho : o ∈ q.slotOpens)
    (hg : o.generation = some g) : ∀ session ∈ q.sessions, session.generation ≠ some g := by
  intro session hs hgen
  have hslot : 0 < q.slots g := countP_pos_iff.mpr ⟨o, ho, by simpa using hg⟩
  have hheld : 0 < q.holders g := countP_pos_iff.mpr ⟨session, hs, by simpa using hgen⟩
  have honce := h.once g
  omega

theorem issued_of_held (h : q.Ledger) (hs : session ∈ q.sessions)
    (hgen : session.generation = some g) : g ≤ q.entitlementsIssued := by
  by_contra hlater
  have hzero := h.issued g (Nat.lt_of_not_le hlater)
  have hheld : 0 < q.holders g := countP_pos_iff.mpr ⟨session, hs, by simpa using hgen⟩
  omega

/-- Two entries never hold one generation. -/
theorem held_once (h : q.Ledger) (hq : q.Sound) {a b : Session} (ha : a ∈ q.sessions)
    (hb : b ∈ q.sessions) (hga : a.generation = some g) (hgb : b.generation = some g) : a = b := by
  by_contra hne
  have hident : b.ident ≠ a.ident := fun heq => hne (hq.eq_of_ident ha hb heq.symm)
  have hlt : (q.remove a.key).holders g < q.holders g :=
    countP_remove_lt ha (by simpa using hga)
  have hpos : 0 < (q.remove a.key).holders g :=
    countP_pos_iff.mpr ⟨b, mem_remove.mpr ⟨hb, hident⟩, by simpa using hgb⟩
  have honce := h.once g
  omega

end Ledger

/-! ### Counting holders -/

theorem holders_map (f : Session → Session) (hs : q'.sessions = q.sessions.map f)
    (hf : ∀ t ∈ q.sessions, (f t).generation = t.generation) : q'.holders g = q.holders g := by
  rw [holders, hs, countP_map]
  refine countP_congr fun t ht => ?_
  rw [Function.comp, hf t ht]

theorem holders_update_le {key : SessionKey} {f : Session → Session}
    (hs : q'.sessions = (q.update key f).sessions)
    (hf : ∀ t, (f t).generation = some g → t.generation = some g) : q'.holders g ≤ q.holders g := by
  rw [holders, hs]
  refine countP_update_le fun t _ _ ht => ?_
  simpa using hf t (by simpa using ht)

theorem holders_remove (hold : old ∈ q.sessions) (g : Nat) :
    (q.remove old.key).holders g + (if old.generation = some g then 1 else 0) ≤ q.holders g := by
  split
  · rename_i hg
    exact countP_remove_lt hold (by simpa using hg)
  · exact countP_remove_le

theorem holders_insert (hs : q'.sessions = (q.insert session).sessions) (g : Nat) :
    q'.holders g ≤ q.holders g + if session.generation = some g then 1 else 0 := by
  rw [holders, hs]
  refine le_trans countP_put_le ?_
  simp only [decide_eq_true_eq]
  exact le_rfl

theorem slots_cons {o : SlotOpen} (h : q'.slotOpens = o :: q.slotOpens) (g : Nat) :
    q'.slots g = q.slots g + if o.generation = some g then 1 else 0 := by
  rw [slots, h, countP_cons]
  simp only [decide_eq_true_eq]
  rfl

theorem grant_uses {key : SessionKey} {now : Instant} (hget : q.get key = some session) (g : Nat) :
    (q.grant key session now).slots g + (q.grant key session now).holders g
      ≤ q.slots g + q.holders g := by
  have hheld : (q.grant key session now).holders g = (q.remove key).holders g :=
    countP_update_of_not fun t _ _ => by simp [granted, generation]
  obtain ⟨hmem, hident⟩ := mem_get hget
  have hremove : (q.remove session.key).holders g = (q.remove key).holders g := by
    rw [remove, remove, show session.key.ident = key.ident from hident]
  have hle := holders_remove hmem g
  rw [@slots_cons q (q.grant key session now) _ rfl]
  dsimp only
  omega

theorem entitle_uses (hq : q.Sound) (key : SessionKey) (g : Nat) : (q.entitle key).holders g
      ≤ q.holders g + if q.nextPromotionGeneration = g then 1 else 0 := by
  split
  · rw [holders]
    exact countP_update_le_succ hq.keys
  · rename_i hne
    exact holders_update_le rfl fun t ht => absurd (Option.some.inj ht) hne

theorem rekey_uses (hold : old ∈ q.sessions)
    (hgen : session.generation = old.generation) (g : Nat) :
    (q.rekey old session).holders g ≤ q.holders g := by
  refine le_trans (@holders_insert (q.remove old.key) _ session rfl g) ?_
  rw [hgen]
  exact holders_remove hold g

theorem claim_uses {now : Instant} (hold : old ∈ q.sessions)
    (hspent : session.callbackPromotion = none) (g : Nat) :
    (q.claim old session now).slots g + (q.claim old session now).holders g
      ≤ q.slots g + q.holders g := by
  have hinsert := @holders_insert (q.remove old.key) (q.claim old session now) session rfl g
  have hnone : session.generation = none := by rw [generation, hspent]; rfl
  rw [hnone, if_neg (by simp)] at hinsert
  have hle := holders_remove hold g
  rw [@slots_cons q (q.claim old session now) _ rfl]
  dsimp only
  omega

/-! ### Moves -/

theorem Move.issued_le (move : Move identified q q') :
    q.entitlementsIssued ≤ q'.entitlementsIssued := by
  cases move with
  | touch f kept sessions books | reorder sessions books => exact books.entitlementsIssued.ge
  | entitle => exact Nat.le_succ _
  | _ => exact le_rfl

/-- **Every move keeps the ledger** while the counter has not wrapped. -/
theorem Move.ledger (move : Move identified q q') (hq : q.Sound)
    (hmax : q'.entitlementsIssued ≤ u64Max) (h : q.Ledger) : q'.Ledger := by
  cases move with
  | touch f kept sessions books =>
    refine h.of_le books.nextPromotionGeneration books.entitlementsIssued fun g => ?_
    rw [holders_map f sessions fun t ht => (kept t ht).generation, slots, books.slotOpens]
    exact le_rfl
  | reorder sessions books =>
    refine h.of_le books.nextPromotionGeneration books.entitlementsIssued fun g => ?_
    rw [holders, sessions.countP_eq, slots, books.slotOpens]
    exact le_rfl
  | retire => exact h.of_le rfl rfl fun g => Nat.add_le_add_left countP_remove_le _
  | demote key now =>
    exact h.of_le rfl rfl fun g => Nat.add_le_add_left
      (@holders_update_le q (q.demote key now) g key
      (·.demoted q.nextWaitingSequence now) rfl fun t ht => ht) _
  | entitle key =>
    have hlt : q.entitlementsIssued < u64Max := hmax
    have hgen : q.nextPromotionGeneration = q.entitlementsIssued + 1 := by
      rw [h.next, generationAfter, if_pos hlt]
    have huses := fun g => entitle_uses hq key g
    rw [hgen] at huses
    refine ⟨(congrArg nextGeneration hgen).trans (nextGeneration_eq hlt), fun g => ?_,
      fun g hg => ?_⟩
    · have honce := h.once g
      have hle := huses g
      have hslots : (q.entitle key).slots g = q.slots g := rfl
      by_cases hg : q.entitlementsIssued + 1 = g
      · have hzero := h.issued g (by omega)
        rw [if_pos hg] at hle
        omega
      · rw [if_neg hg] at hle
        omega
    · have hlater : q.entitlementsIssued + 1 < g := hg
      have hzero := h.issued g (by omega)
      have hle := huses g
      have hslots : (q.entitle key).slots g = q.slots g := rfl
      rw [if_neg (by omega)] at hle
      omega
  | grant key now stored => exact h.of_le rfl rfl (grant_uses stored)
  | admitWaiting key connectionId inputs now =>
    exact h.of_le rfl rfl fun g => Nat.add_le_add_left (holders_insert rfl g) _
  | admitGranted key connectionId inputs now =>
    exact h.of_le rfl rfl fun g => Nat.add_le_add_left (holders_insert insertGranted_sessions g) _
  | rekey stored carried =>
    exact h.of_le rfl rfl fun g => Nat.add_le_add_left (rekey_uses stored carried.generation g) _
  | claim now stored waiting free active spent =>
    exact h.of_le rfl rfl (claim_uses stored spent)

/-! ## Live attempts and armed routes -/

def Live (q : Queue) (g : Nat) : Prop := ∃ session ∈ q.sessions, session.liveGeneration = some g

def Routed (q : Queue) (g : Nat) (route : CallbackRoute) : Prop :=
  ∃ session ∈ q.sessions, session.generation = some g ∧ session.route = some route

def Inherits (q : Queue) (t : Session) : Prop :=
  ∃ before ∈ q.sessions, t.generation = before.generation ∧
    (∀ g, t.liveGeneration = some g → before.liveGeneration = some g) ∧
    (t.route = none ∨ t.route = before.route)

theorem Move.entitlements (move : Move identified q q') :
    ∀ t ∈ q'.sessions, t.callbackPromotion = none ∨ q.Inherits t ∨
      (t.callbackPromotion = some ⟨q.nextPromotionGeneration, none, false, none⟩ ∧
        q'.entitlementsIssued = q.entitlementsIssued + 1) := by
  have same : ∀ t ∈ q.sessions, q.Inherits t := fun t ht => ⟨t, ht, rfl, fun _ h => h, .inr rfl⟩
  intro t ht
  cases move with
  | touch f kept sessions =>
    rw [sessions] at ht
    obtain ⟨u, hu, rfl⟩ := mem_map.mp ht
    exact .inr (.inl ⟨u, hu, (kept u hu).generation, (kept u hu).live,
      (kept u hu).route.imp_right And.left⟩)
  | reorder sessions => exact .inr (.inl (same t (sessions.mem_iff.mp ht)))
  | retire => exact .inr (.inl (same t (mem_remove.mp ht).1))
  | demote =>
    rcases mem_update_cases ht with ⟨ht, -⟩ | ⟨u, hu, -, rfl⟩
    · exact .inr (.inl (same t ht))
    · exact .inr (.inl (same u hu))
  | entitle =>
    rcases mem_update_cases ht with ⟨ht, -⟩ | ⟨u, hu, -, rfl⟩
    · exact .inr (.inl (same t ht))
    · exact .inr (.inr ⟨rfl, rfl⟩)
  | grant =>
    rcases mem_update_cases ht with ⟨ht, -⟩ | ⟨u, -, -, rfl⟩
    · exact .inr (.inl (same t ht))
    · exact .inl rfl
  | admitWaiting
  | admitGranted =>
    rcases mem_insert.mp ht with ⟨ht, -⟩ | rfl
    · exact .inr (.inl (same t ht))
    · exact .inl rfl
  | @rekey old session stored carried unclaimed =>
    rcases mem_insert.mp ht with ⟨ht, -⟩ | rfl
    · exact .inr (.inl (same t (mem_remove.mp ht).1))
    · exact .inr (.inl ⟨old, stored, carried.generation, carried.live,
        carried.route.imp_right And.left⟩)
  | @claim old session now stored waiting free active spent lease inFlightWork unclaimed =>
    rcases mem_insert.mp ht with ⟨ht, -⟩ | rfl
    · exact .inr (.inl (same t (mem_remove.mp ht).1))
    · exact .inl spent

/-- **An attempt that has ended does not come back.** -/
theorem Move.live (move : Move identified q q') (hmax : q'.entitlementsIssued ≤ u64Max)
    (h : q.Ledger) (hg : g ≤ q.entitlementsIssued) (hlive : q'.Live g) : q.Live g := by
  obtain ⟨t, ht, hgen⟩ := hlive
  rcases move.entitlements t ht with hnone | ⟨before, hb, -, hback, -⟩ | ⟨hnew, hissued⟩
  · rw [liveGeneration, hnone] at hgen
    cases hgen
  · exact ⟨before, hb, hback g hgen⟩
  · -- the new entitlement has a generation of its own
    rw [liveGeneration, hnew] at hgen
    have heq : q.nextPromotionGeneration = g := Option.some.inj hgen
    rw [h.next, generationAfter, if_pos (by omega)] at heq
    omega

/-- A route is not armed by a move. -/
theorem Move.routed (move : Move identified q q') (h : q'.Routed g route) : q.Routed g route := by
  obtain ⟨t, ht, hgen, hroute⟩ := h
  rcases move.entitlements t ht with hnone | ⟨before, hb, hsame, -, hr⟩ | ⟨hnew, -⟩
  · rw [Session.route, hnone] at hroute
    cases hroute
  · refine ⟨before, hb, hsame ▸ hgen, ?_⟩
    rcases hr with hr | hr
    · rw [hr] at hroute
      cases hroute
    · rw [← hr, hroute]
  · rw [Session.route, hnew] at hroute
    cases hroute

theorem Moves.issued_le (moves : Moves identified q q') :
    q.entitlementsIssued ≤ q'.entitlementsIssued := by
  induction moves with
  | refl => exact le_rfl
  | tail _ move ih => exact le_trans ih move.issued_le

theorem Moves.ledger (moves : Moves identified q q') (hq : q.Sound)
    (hmax : q'.entitlementsIssued ≤ u64Max) (h : q.Ledger) : q'.Ledger := by
  induction moves with
  | refl => exact h
  | tail moves move ih =>
    exact move.ledger (Moves.sound moves hq) hmax (ih (le_trans move.issued_le hmax))

theorem Moves.live (moves : Moves identified q q') (hq : q.Sound)
    (hmax : q'.entitlementsIssued ≤ u64Max) (h : q.Ledger) (hg : g ≤ q.entitlementsIssued)
    (hlive : q'.Live g) : q.Live g := by
  induction moves with
  | refl => exact hlive
  | tail moves move ih =>
    have hbound := le_trans move.issued_le hmax
    exact ih hbound (move.live hmax (Moves.ledger moves hq hbound h)
      (le_trans hg (Moves.issued_le moves)) hlive)

/-- No move gives an entitlement another route. -/
theorem Moves.routed (moves : Moves identified q q') (h : q'.Routed g route) :
    q.Routed g route := by
  induction moves with
  | refl => exact h
  | tail _ move ih => exact ih (move.routed h)

/-! ## Events -/

structure SameEntitlements (q q' : Queue) : Prop where
  next : q'.nextPromotionGeneration = q.nextPromotionGeneration
  issued : q'.entitlementsIssued = q.entitlementsIssued
  slotOpens : q'.slotOpens = q.slotOpens
  sessions : ∃ f, q'.sessions = q.sessions.map f ∧ ∀ t ∈ q.sessions,
    (f t).generation = t.generation ∧ (f t).liveGeneration = t.liveGeneration

namespace SameEntitlements

theorem refl (q : Queue) : q.SameEntitlements q :=
  ⟨rfl, rfl, rfl, id, by rw [map_id], fun _ _ => ⟨rfl, rfl⟩⟩

theorem update (key : SessionKey) {f : Session → Session}
    (hf : ∀ t, (f t).generation = t.generation ∧ (f t).liveGeneration = t.liveGeneration) :
    q.SameEntitlements (q.update key f) := by
  refine ⟨rfl, rfl, rfl, _, rfl, fun t _ => ?_⟩
  split
  · exact hf t
  · exact ⟨rfl, rfl⟩

theorem ledger (same : q.SameEntitlements q') (h : q.Ledger) : q'.Ledger := by
  obtain ⟨f, hs, hf⟩ := same.sessions
  refine h.of_le same.next same.issued fun g => ?_
  rw [holders_map f hs fun t ht => (hf t ht).1, slots, same.slotOpens]
  exact le_rfl

theorem live (same : q.SameEntitlements q') (hlive : q'.Live g) : q.Live g := by
  obtain ⟨f, hs, hf⟩ := same.sessions
  obtain ⟨t, ht, hgen⟩ := hlive
  rw [hs] at ht
  obtain ⟨u, hu, rfl⟩ := mem_map.mp ht
  exact ⟨u, hu, (hf u hu).2.symm.trans hgen⟩

end SameEntitlements

theorem armRoute_entitlement : (session.armRoute route).generation = session.generation ∧
      (session.armRoute route).liveGeneration = session.liveGeneration := by
  unfold armRoute generation liveGeneration
  cases session.callbackPromotion with
  | none | some => exact ⟨rfl, rfl⟩

/-- **Every event is made of moves, as far as the entitlements go.** -/
theorem apply_entitlements (hq : q.Sound) :
    ∃ a b, q.SameEntitlements a ∧ a.Sound ∧ Moves False a b ∧
      b.SameEntitlements (q.apply event) := by
  rcases @apply_cases False q hq event (fun h => h.elim) with
    hcourse | ⟨config, now, -, hcourse⟩ | ⟨handle, now, session, -, -, -, -, happly, -⟩ |
    ⟨lease, rfl⟩ | harms
  · exact ⟨q, _, .refl q, hq, hcourse.moves, .refl _⟩
  · exact ⟨{ q with config := config }, _,
      ⟨rfl, rfl, rfl, id, (map_id _).symm, fun _ _ => ⟨rfl, rfl⟩⟩,
      ⟨hq.keys, hq.leases, hq.issued, hq.entitled⟩, hcourse.moves, .refl _⟩
  · refine ⟨q, q, .refl q, hq, .refl, ?_⟩
    rw [happly]
    exact .update _ fun _ => ⟨rfl, rfl⟩
  · refine ⟨q, q, .refl q, hq, .refl, rfl, rfl, rfl, _, rfl, fun t _ => ?_⟩
    split <;> exact ⟨rfl, rfl⟩
  · obtain ⟨now, key, route, hcourse, happly, -⟩ := harms.cases hq
    refine ⟨q, _, .refl q, hq, (hcourse False).moves, ?_⟩
    rw [happly]
    exact .update _ fun t => armRoute_entitlement

theorem apply_issued_le (hq : q.Sound) :
    q.entitlementsIssued ≤ (q.apply event).entitlementsIssued := by
  obtain ⟨a, b, before, -, moves, after⟩ := apply_entitlements hq
  rw [after.issued, ← before.issued]
  exact moves.issued_le

theorem apply_ledger (hq : q.Sound) (hmax : (q.apply event).entitlementsIssued ≤ u64Max)
    (h : q.Ledger) : (q.apply event).Ledger := by
  obtain ⟨a, b, before, hsound, moves, after⟩ := apply_entitlements hq
  rw [after.issued] at hmax
  exact after.ledger (moves.ledger hsound hmax (before.ledger h))

theorem apply_live (hq : q.Sound) (hmax : (q.apply event).entitlementsIssued ≤ u64Max)
    (h : q.Ledger) (hg : g ≤ q.entitlementsIssued) (hlive : (q.apply event).Live g) : q.Live g := by
  obtain ⟨a, b, before, hsound, moves, after⟩ := apply_entitlements hq
  rw [after.issued] at hmax
  rw [← before.issued] at hg
  exact before.live (moves.live hsound hmax (before.ledger h) hg (after.live hlive))

/-- **A route that is armed after an event was armed before it, or by it.** -/
theorem apply_routed (hq : q.Sound) (h : (q.apply event).Routed g route) :
    q.Routed g route ∨ ∃ permit now, event = .beginCallbackDispatch permit route now ∧
      permit.generation = g ∧ (q.beginCallbackDispatch permit route now).2 = true := by
  have of_map : ∀ {r : Queue} (f : Session → Session), (q.apply event).sessions = r.sessions.map f →
      (∀ t, (f t).generation = t.generation ∧ (f t).route = t.route) → r.Routed g route := by
    intro r f hs hf
    obtain ⟨t, ht, hgen, hroute⟩ := h
    rw [hs] at ht
    obtain ⟨u, hu, rfl⟩ := mem_map.mp ht
    exact ⟨u, hu, (hf u).1.symm.trans hgen, (hf u).2.symm.trans hroute⟩
  rcases @apply_cases False q hq event (fun h => h.elim) with
    hcourse | ⟨config, now, -, hcourse⟩ | ⟨handle, now, session, -, -, -, -, happly, -⟩ |
    ⟨lease, rfl⟩ |
    ⟨permit, armed, now, session, promotion, rfl, hget, -, -, hpromotion, hcurrent, -, htrue,
      happly⟩
  · exact .inl (hcourse.moves.routed h)
  · exact .inl (hcourse.moves.routed h)
  · refine .inl (of_map _ (congrArg sessions happly) fun t => ?_)
    split <;> exact ⟨rfl, rfl⟩
  · refine .inl (of_map _ rfl fun t => ?_)
    split <;> exact ⟨rfl, rfl⟩
  · have hreap := @reap_moves False q hq now
    obtain ⟨t, ht, hgen, hroute⟩ := h
    rw [happly] at ht
    rcases mem_update_cases ht with ⟨ht, -⟩ | ⟨u, hu, hk, rfl⟩
    · exact .inl (hreap.routed ⟨t, ht, hgen, hroute⟩)
    · -- the entry under the permit's key holds the permit's generation
      obtain ⟨hmem, hident⟩ := mem_get hget
      obtain rfl := (hreap.sound hq).eq_of_ident hu hmem (hk.trans hident.symm)
      simp only [Session.armRoute, Session.generation, Session.route, hpromotion, Option.map_some,
        Option.bind_some, Option.some.injEq] at hgen hroute
      subst hroute
      simp only [CallbackPermit.isCurrent, Bool.and_eq_true, decide_eq_true_eq] at hcurrent
      exact .inr ⟨permit, now, rfl, hcurrent.1.1.symm.trans hgen, htrue⟩

/-! ## Permits of attempts that have ended -/

/-- The generation was issued, and no entry holds it with its attempt uncancelled: it was claimed,
    consumed by a re-ask or retired with its entry, or else cancelled or timed out. -/
def Ended (q : Queue) (g : Nat) : Prop := g ≤ q.entitlementsIssued ∧ ¬q.Live g

def TimedOut (q : Queue) (g : Nat) (now : Instant) : Prop :=
  ∃ session ∈ q.sessions, ∃ promotion, session.callbackPromotion = some promotion ∧
    promotion.generation = g ∧ promotion.deadline.any (· ≤ now) = true

variable {now : Instant} {permit : CallbackPermit}

theorem liveGeneration_of_current {promotion : CallbackPromotion}
    (hp : session.callbackPromotion = some promotion)
    (hc : CallbackPermit.isCurrent permit promotion = true) :
    session.liveGeneration = some permit.generation := by
  simp only [CallbackPermit.isCurrent, Bool.and_eq_true, decide_eq_true_eq, Bool.not_eq_true'] at hc
  simp [liveGeneration, hp, hc.2, hc.1.1]

/-- A dispatch whose attempt is not live after the reap does nothing else. -/
theorem beginCallbackDispatch_refused (h : ¬(q.reapExpiredSessions now).Live permit.generation) :
    q.beginCallbackDispatch permit route now = (q.reapExpiredSessions now, false) := by
  rcases @beginCallbackDispatch_cases q permit route now with
    heq | ⟨_, _, _, session, promotion, hevent, hget, -, -, hp, hc, -⟩
  · exact heq
  · cases hevent
    exact absurd ⟨session, (mem_get hget).1, liveGeneration_of_current hp hc⟩ h

theorem cancelCallbackKnownNotSent_cases (q : Queue) (permit : CallbackPermit) (now : Instant) :
    q.cancelCallbackKnownNotSent permit now = (q.reapExpiredSessions now, false) ∨
      ∃ session promotion, (q.reapExpiredSessions now).get permit.key = some session ∧
        session.callbackPromotion = some promotion ∧
        CallbackPermit.isCurrent permit promotion = true ∧
        q.cancelCallbackKnownNotSent permit now =
          (((q.reapExpiredSessions now).update permit.key (·.withdrawCallback)).promoteWaiters now,
            true) := by
  unfold cancelCallbackKnownNotSent
  generalize q.reapExpiredSessions now = r
  dsimp only
  split
  · exact .inl rfl
  · rename_i session hfound
    obtain ⟨hget, hguard⟩ := Option.filter_eq_some_iff.mp hfound
    simp only [Bool.and_eq_true, Option.any_eq_true] at hguard
    obtain ⟨-, promotion, hp, hc⟩ := hguard
    exact .inr ⟨session, promotion, hget, hp, hc, rfl⟩

theorem cancelCallbackKnownNotSent_refused
    (h : ¬(q.reapExpiredSessions now).Live permit.generation) :
    q.cancelCallbackKnownNotSent permit now = (q.reapExpiredSessions now, false) := by
  rcases q.cancelCallbackKnownNotSent_cases permit now with
    heq | ⟨session, promotion, hget, hp, hc, -⟩
  · exact heq
  · exact absurd ⟨session, (mem_get hget).1, liveGeneration_of_current hp hc⟩ h

/-- An entitlement's entry after the bookkeeping of a reap: its attempt is cancelled if its deadline
    has passed. -/
theorem mem_prepareReap {t : Session} (ht : t ∈ (q.prepareReap now).sessions) :
    ∃ before ∈ q.sessions, ∃ tracked : Session, t = expireCallback now tracked ∧
      tracked.callbackPromotion = before.callbackPromotion ∧
      tracked.isWaiting = before.isWaiting := by
  obtain ⟨tracked, htracked, rfl⟩ := mem_map.mp ht
  obtain ⟨observed, hobserved, rfl⟩ := mem_map.mp htracked
  obtain ⟨before, hbefore, rfl⟩ := mem_map.mp hobserved
  refine ⟨before, hbefore, _, rfl, ?_, ?_⟩
  all_goals
    unfold trackSlowUpload
    dsimp only
    repeat' split
    all_goals rfl

/-- **Maintenance ends the attempts that are out of time.** -/
theorem TimedOut.reap (h : q.TimedOut g now) (hq : q.Sound) (hl : q.Ledger)
    (hmax : (q.reapExpiredSessions now).entitlementsIssued ≤ u64Max) :
    (q.reapExpiredSessions now).Ended g := by
  obtain ⟨session, hs, promotion, hp, hg, hd⟩ := h
  have hprepare := @settles_moves True _ _ (prepareReap_settles q now)
  have hrest := @prepareReap_moves True _ hq now
  have hbound : (q.prepareReap now).entitlementsIssued ≤ u64Max := le_trans hrest.issued_le hmax
  have hgen : session.generation = some g := by rw [generation, hp, ← hg]; rfl
  have hprepared : g ≤ (q.prepareReap now).entitlementsIssued :=
    le_trans (hl.issued_of_held hs hgen) hprepare.issued_le
  refine ⟨le_trans hprepared hrest.issued_le, fun hlive => ?_⟩
  -- back to the bookkeeping, which cancels the one entry that holds the generation
  obtain ⟨t, ht, htlive⟩ := hrest.live (hprepare.sound hq) hmax (hprepare.ledger hq hbound hl)
    hprepared hlive
  obtain ⟨before, hb, tracked, rfl, htracked, hwaiting⟩ := mem_prepareReap ht
  have hbgen : before.generation = some g := by
    have hgeneration := (tended_expireCallback tracked now).generation
    rw [generation_of_live htlive] at hgeneration
    rw [generation, ← htracked, ← generation, ← hgeneration]
  obtain rfl := hl.held_once hq hb hs hbgen hgen
  have hw : tracked.isWaiting = true :=
    hwaiting.trans (hq.entitled before hb (by rw [hgen]; simp))
  simp [expireCallback, htracked.trans hp, hw, hd, liveGeneration] at htlive

theorem Ended.moves (h : q.Ended g) (moves : Moves identified q q') (hq : q.Sound)
    (hmax : q'.entitlementsIssued ≤ u64Max) (hl : q.Ledger) : q'.Ended g :=
  ⟨le_trans h.1 moves.issued_le, fun hlive => h.2 (moves.live hq hmax hl h.1 hlive)⟩

theorem Ended.apply (h : q.Ended g) (hq : q.Sound) (hl : q.Ledger)
    (hmax : (q.apply event).entitlementsIssued ≤ u64Max) : (q.apply event).Ended g :=
  ⟨le_trans h.1 (apply_issued_le hq), fun hlive => h.2 (apply_live hq hmax hl h.1 hlive)⟩

theorem Ended.rest_of_call (h : (q.reapExpiredSessions now).Ended g) (hq : q.Sound) (hl : q.Ledger)
    (hr : event.reapsAt = some now)
    (hreap : (q.reapExpiredSessions now).entitlementsIssued ≤ u64Max)
    (hmax : (q.apply event).entitlementsIssued ≤ u64Max) : (q.apply event).Ended g := by
  have hmoves := @reap_moves False _ hq now
  rcases @reap_course False _ event hq now hr (fun h => h.elim) with hcourse | harms
  · exact h.moves hcourse.moves (hmoves.sound hq) hmax (hmoves.ledger hq hreap hl)
  · obtain ⟨permit, route, time, session, promotion, rfl, -, -, -, -, -, -, -, happly⟩ := harms
    cases hr
    rw [happly]
    exact ⟨h.1, fun hlive =>
      h.2 ((SameEntitlements.update _ fun t => armRoute_entitlement).live hlive)⟩

theorem ended_of_not_held (hg : g ≤ q.entitlementsIssued)
    (h : ∀ session ∈ q.sessions, session.generation ≠ some g) : q.Ended g :=
  ⟨hg, fun ⟨session, hs, hlive⟩ => h session hs (generation_of_live hlive)⟩

theorem ended_of_slot (hl : q.Ledger) (hg : q.slots g ≠ 0) : q.Ended g := by
  refine ended_of_not_held ?_ ?_
  · by_contra hlater
    have hzero := hl.issued g (Nat.lt_of_not_le hlater)
    omega
  · obtain ⟨o, ho, hgen⟩ := countP_pos_iff.mp (Nat.pos_of_ne_zero hg)
    exact hl.not_held_of_slot ho (by simpa using hgen)

/-- **A cancelled attempt has ended.** -/
theorem cancelCallbackKnownNotSent_ended (hq : q.Sound) (hl : q.Ledger)
    (hmax : (q.cancelCallbackKnownNotSent permit now).1.entitlementsIssued ≤ u64Max)
    (htrue : (q.cancelCallbackKnownNotSent permit now).2 = true) :
    (q.cancelCallbackKnownNotSent permit now).1.Ended permit.generation := by
  rcases q.cancelCallbackKnownNotSent_cases permit now with
    heq | ⟨session, promotion, hget, hp, hc, heq⟩
  · rw [heq] at htrue
    cases htrue
  rw [heq] at hmax ⊢
  have hreap := @reap_moves True _ hq now
  generalize q.reapExpiredSessions now = r at hreap hget hmax ⊢
  have hwithdraw : Moves True r (r.update permit.key (·.withdrawCallback)) :=
    .single (.update _ permit.key fun session _ _ => kept_withdrawCallback session)
  have hpromote := @promotes_moves True _ _
    (promoteWaiters_promotes (r.update permit.key (·.withdrawCallback)) now)
  have hbound := le_trans hpromote.issued_le hmax
  have hreaped := hreap.sound hq
  have hledger := hreap.ledger hq (le_trans hwithdraw.issued_le hbound) hl
  have hlive := liveGeneration_of_current hp hc
  obtain ⟨hmem, hident⟩ := mem_get hget
  have hgen := generation_of_live hlive
  have hissued := hledger.issued_of_held hmem hgen
  refine Ended.moves ⟨le_trans hissued hwithdraw.issued_le, ?_⟩ hpromote (hwithdraw.sound hreaped)
    hmax (hwithdraw.ledger hreaped hbound hledger)
  -- the one holder of the generation is the entry that was withdrawn
  rintro ⟨t, ht, htlive⟩
  rcases mem_update_cases ht with ⟨ht, hne⟩ | ⟨u, hu, hk, rfl⟩
  · rw [hledger.held_once hreaped ht hmem (generation_of_live htlive) hgen] at hne
    exact hne hident
  · obtain rfl := hreaped.eq_of_ident hu hmem (hk.trans hident.symm)
    simp [withdrawCallback, hp, liveGeneration] at htlive

/-- **A claim is granted to an entry with an armed route.** -/
theorem claimCallbackPromotion_granted {observedPeer : PeerIdentity} {connectionId lease : Nat}
    {handle : SessionHandle} {expiresAt : Instant}
    (h : (q.claimCallbackPromotion observedPeer connectionId now).2
      = .granted handle lease expiresAt) :
    ∃ old ∈ (q.reapExpiredSessions now).sessions, old.lease = lease ∧
      ∃ g route, old.generation = some g ∧ old.route = some route := by
  unfold claimCallbackPromotion at h
  generalize q.reapExpiredSessions now = r at h ⊢
  dsimp only at h
  split at h
  · cases h
  · rename_i old hold
    obtain ⟨hmem, -, route, hroute, -⟩ := claimable_mem hold
    split at h
    · cases h
    · split at h
      · cases h
      · obtain ⟨-, rfl, -⟩ := CallbackClaim.granted.inj h
        obtain ⟨g, hg⟩ := Option.ne_none_iff_exists'.mp (generation_of_route hroute)
        exact ⟨old, hmem, rfl, g, route, hg, hroute⟩

end Queue

/-! ## Runs -/

namespace System

variable {config : QueueConfig} {s : System} {g : Nat}

/-- The table is sound, and the ledger is kept while the counter has not wrapped. -/
structure LedgerKept (s : System) : Prop where
  sound : s.queue.Sound
  ledger : s.queue.entitlementsIssued ≤ u64Max → s.queue.Ledger

theorem step_issued_le (h : s.queue.Sound) {event : Event} :
    s.queue.entitlementsIssued ≤ (s.step event).queue.entitlementsIssued := by
  rcases s.step_queue event with heq | heq
  · rw [heq]
    exact apply_issued_le h
  · rw [heq]

theorem ledgerKept_step (s : System) (event : Event) (h : s.LedgerKept) :
    (s.step event).LedgerKept := by
  rcases s.step_queue event with heq | heq
  · refine ⟨heq ▸ apply_sound h.sound, fun hmax => ?_⟩
    rw [heq] at hmax ⊢
    exact apply_ledger h.sound hmax
      (h.ledger (le_trans (apply_issued_le h.sound) hmax))
  · rw [heq]
    exact h

theorem ledgerKept_run (config : QueueConfig) (events : List Event) :
    (run config events).LedgerKept :=
  Run.invariant ledgerKept_step events ⟨.new config, fun _ => .new config⟩

theorem issued_le_run (h : s.LedgerKept) (events : List Event) :
    s.queue.entitlementsIssued ≤ (Run.run step s events).queue.entitlementsIssued := by
  induction events generalizing s with
  | nil => exact le_rfl
  | cons event rest ih =>
    exact le_trans (step_issued_le h.sound) (ih (ledgerKept_step s event h))

theorem issued_le_append {pre post : List Event} : (run config pre).queue.entitlementsIssued
      ≤ (run config (pre ++ post)).queue.entitlementsIssued := by
  rw [run, run, Run.run_append]
  exact issued_le_run (ledgerKept_run config pre) post

theorem run_snoc (pre : List Event) (event : Event) :
    run config (pre ++ [event]) = (run config pre).step event := by
  rw [run, Run.run_append]
  rfl

theorem issued_le_call {pre : List Event} {event : Event} {post : List Event} :
    ((run config pre).step event).queue.entitlementsIssued
      ≤ (run config (pre ++ event :: post)).queue.entitlementsIssued := by
  rw [← run_snoc, append_cons pre event post]
  exact issued_le_append

theorem ended_step (h : s.LedgerKept) {event : Event} (hended : s.queue.Ended g)
    (hmax : (s.step event).queue.entitlementsIssued ≤ u64Max) : (s.step event).queue.Ended g := by
  have hledger := h.ledger (le_trans (step_issued_le h.sound) hmax)
  rcases s.step_queue event with heq | heq
  · rw [heq] at hmax ⊢
    exact hended.apply h.sound hledger hmax
  · rw [heq]
    exact hended

/-- **What has ended stays ended along every run.** -/
theorem ended_run (h : s.LedgerKept) (hended : s.queue.Ended g) (events : List Event)
    (hmax : (Run.run step s events).queue.entitlementsIssued ≤ u64Max) :
    (Run.run step s events).queue.Ended g := by
  induction events generalizing s with
  | nil => exact hended
  | cons event rest ih =>
    have hnext := ledgerKept_step s event h
    have hbound : (s.step event).queue.entitlementsIssued ≤ u64Max :=
      le_trans (issued_le_run hnext rest) hmax
    exact ih hnext (ended_step h hended hbound) hmax

def ArmedSince (config : QueueConfig) (events : List Event) (g : Nat) (route : CallbackRoute) :
    Prop :=
  ∃ pre permit now post, events = pre ++ .beginCallbackDispatch permit route now :: post ∧
    permit.generation = g ∧
    ((run config pre).queue.beginCallbackDispatch permit route now).2 = true ∧
    ∀ middle, middle <+: post →
      (run config (pre ++ .beginCallbackDispatch permit route now :: middle)).queue.Routed g route

/-- A route goes back to the call that armed it. -/
theorem armedSince_of_routed (events : List Event) {route : CallbackRoute}
    (h : (run config events).queue.Routed g route) : ArmedSince config events g route := by
  induction events using reverseRecOn with
  | nil =>
    obtain ⟨session, hs, -⟩ := h
    exact absurd hs (by simp [run, start, new])
  | append_singleton events event ih =>
    have hback : (run config events).queue.Routed g route ∨
        ∃ permit now, event = .beginCallbackDispatch permit route now ∧ permit.generation = g ∧
          ((run config events).queue.beginCallbackDispatch permit route now).2 = true := by
      rw [run_snoc] at h
      rcases (run config events).step_queue event with heq | heq
      · rw [heq] at h
        exact apply_routed (ledgerKept_run config events).sound h
      · rw [heq] at h
        exact .inl h
    rcases hback with hrouted | ⟨permit, now, rfl, hgen, htrue⟩
    · obtain ⟨pre, permit, now, post, rfl, hgen, htrue, hsince⟩ := ih hrouted
      refine ⟨pre, permit, now, post ++ [event], by simp, hgen, htrue, fun middle hmiddle => ?_⟩
      rcases prefix_concat_iff.mp hmiddle with rfl | hmiddle
      · simpa using h
      · exact hsince middle hmiddle
    · refine ⟨events, permit, now, [], rfl, hgen, htrue, fun middle hmiddle => ?_⟩
      rw [prefix_nil.mp hmiddle]
      exact h

/-- **The entitlements of a run become a slot at most once.** A call of the run is one of its
    events, made in the state that the events before it lead to. -/
structure SingleUse (config : QueueConfig) (events : List Event) : Prop where
  /-- No generation is turned into two slots. -/
  slots_le_one : ∀ g, (run config events).queue.slots g ≤ 1
  /-- A claim is granted to an entry whose route was armed by a dispatch and not withdrawn since. -/
  claim_armed : ∀ pre observedPeer connectionId now post,
    events = pre ++ .claimCallbackPromotion observedPeer connectionId now :: post →
    ∀ handle lease expiresAt,
      ((run config pre).queue.claimCallbackPromotion observedPeer connectionId now).2
        = .granted handle lease expiresAt →
      ∃ old ∈ ((run config pre).queue.reapExpiredSessions now).sessions, old.lease = lease ∧
        ∃ g route, old.generation = some g ∧ old.route = some route ∧ ArmedSince config pre g route
  /-- A generation that was claimed, consumed or otherwise turned into a slot has ended. -/
  slot_ends : ∀ pre post, events = pre ++ post → ∀ g, (run config pre).queue.slots g ≠ 0 →
    (run config pre).queue.Ended g
  /-- So has one whose entry was retired. -/
  retire_ends : ∀ pre post, events = pre ++ post →
    ∀ g, g ≤ (run config pre).queue.entitlementsIssued →
      (∀ session ∈ (run config pre).queue.sessions, session.generation ≠ some g) →
      (run config pre).queue.Ended g
  /-- So has one that was cancelled. -/
  cancel_ends : ∀ pre permit now post,
    events = pre ++ .cancelCallbackKnownNotSent permit now :: post →
    ((run config pre).queue.cancelCallbackKnownNotSent permit now).2 = true →
    (run config (pre ++ [.cancelCallbackKnownNotSent permit now])).queue.Ended permit.generation
  /-- So has one that a call's maintenance found out of time. -/
  deadline_ends : ∀ pre event post now, events = pre ++ event :: post → event.reapsAt = some now →
    ∀ g, (run config pre).queue.TimedOut g now → (run config (pre ++ [event])).queue.Ended g
  /-- From then on, and once the deadline has passed, a dispatch with the permit does only the
      maintenance. -/
  dispatch_refused : ∀ pre middle permit route now post,
    events = pre ++ (middle ++ .beginCallbackDispatch permit route now :: post) →
    (run config pre).queue.Ended permit.generation ∨
      (run config (pre ++ middle)).queue.TimedOut permit.generation now →
    (run config (pre ++ middle)).queue.beginCallbackDispatch permit route now
      = ((run config (pre ++ middle)).queue.reapExpiredSessions now, false)
  /-- And so does a cancel. -/
  cancel_refused : ∀ pre middle permit now post,
    events = pre ++ (middle ++ .cancelCallbackKnownNotSent permit now :: post) →
    (run config pre).queue.Ended permit.generation ∨
      (run config (pre ++ middle)).queue.TimedOut permit.generation now →
    (run config (pre ++ middle)).queue.cancelCallbackKnownNotSent permit now
      = ((run config (pre ++ middle)).queue.reapExpiredSessions now, false)

section SingleUse

variable {pre middle post : List Event} {event : Event} {now : Instant}

theorem step_of_reapsAt (hr : event.reapsAt = some now) :
    (s.step event).queue = s.queue.apply event := by
  cases event with
  | dropGuard => exact absurd hr (by simp [Event.reapsAt])
  | _ => rfl

theorem reap_issued_le (hr : event.reapsAt = some now)
    (hmax : (run config (pre ++ event :: post)).queue.entitlementsIssued ≤ u64Max) :
    ((run config pre).queue.reapExpiredSessions now).entitlementsIssued ≤ u64Max := by
  have hbound := le_trans issued_le_call hmax
  rw [step_of_reapsAt hr] at hbound
  have hsound := (ledgerKept_run config pre).sound
  rcases @reap_course False _ event hsound now hr (fun h => h.elim) with hcourse | harms
  · exact le_trans hcourse.moves.issued_le hbound
  · obtain ⟨permit, route, time, session, promotion, rfl, -, -, -, -, -, -, -, happly⟩ := harms
    cases hr
    rw [happly] at hbound
    exact hbound

/-- An attempt that has ended, or is out of time, is not live after the call's maintenance. -/
theorem not_live_of_ended (hr : event.reapsAt = some now)
    (hmax : (run config (pre ++ (middle ++ event :: post))).queue.entitlementsIssued ≤ u64Max)
    (h : (run config pre).queue.Ended g ∨ (run config (pre ++ middle)).queue.TimedOut g now) :
    ¬((run config (pre ++ middle)).queue.reapExpiredSessions now).Live g := by
  rw [← append_assoc] at hmax
  have hreap := reap_issued_le hr hmax
  have hkept := ledgerKept_run config (pre ++ middle)
  have hcall := le_trans issued_le_append hmax
  rcases h with hended | htimed
  · have hnow : (run config (pre ++ middle)).queue.Ended g := by
      rw [run, Run.run_append] at hcall ⊢
      exact ended_run (ledgerKept_run config pre) hended middle hcall
    exact (hnow.moves (@reap_moves True _ hkept.sound now) hkept.sound hreap
      (hkept.ledger hcall)).2
  · exact (htimed.reap hkept.sound (hkept.ledger hcall) hreap).2

end SingleUse

/-- **Callback entitlements become a slot at most once**, in every run that issues no more of them
    than the counter has generations. -/
theorem callback_entitlement_single_use (config : QueueConfig) (events : List Event)
    (hissued : (run config events).queue.entitlementsIssued ≤ u64Max) :
    SingleUse config events where
  slots_le_one g := by
    have honce := ((ledgerKept_run config events).ledger hissued).once g
    omega
  claim_armed := by
    rintro pre observedPeer connectionId now post rfl handle lease expiresAt hgranted
    obtain ⟨old, hold, hlease, g, route, hgen, hroute⟩ :=
      claimCallbackPromotion_granted hgranted
    have hreap := @reap_moves True _ (ledgerKept_run config pre).sound now
    exact ⟨old, hold, hlease, g, route, hgen, hroute,
      armedSince_of_routed pre (hreap.routed ⟨old, hold, hgen, hroute⟩)⟩
  slot_ends := by
    rintro pre post rfl g hg
    exact ended_of_slot
      ((ledgerKept_run config pre).ledger (le_trans issued_le_append hissued)) hg
  retire_ends := fun pre post _ g hg hnone => ended_of_not_held hg hnone
  cancel_ends := by
    rintro pre permit now post rfl htrue
    have hkept := ledgerKept_run config pre
    have hbefore := le_trans issued_le_append hissued
    have hbound := le_trans issued_le_call hissued
    rw [run_snoc]
    exact cancelCallbackKnownNotSent_ended hkept.sound (hkept.ledger hbefore) hbound htrue
  deadline_ends := by
    rintro pre event post now rfl hr g htimed
    have hkept := ledgerKept_run config pre
    have hledger := hkept.ledger (le_trans issued_le_append hissued)
    have hreap := reap_issued_le hr hissued
    have hended := htimed.reap hkept.sound hledger hreap
    have hbound := le_trans issued_le_call hissued
    rw [run_snoc]
    rw [step_of_reapsAt hr] at hbound ⊢
    exact hended.rest_of_call hkept.sound hledger hr hreap hbound
  dispatch_refused := by
    rintro pre middle permit route now post rfl h
    exact beginCallbackDispatch_refused
      (not_live_of_ended rfl hissued h)
  cancel_refused := by
    rintro pre middle permit now post rfl h
    exact cancelCallbackKnownNotSent_refused
      (not_live_of_ended rfl hissued h)

/-- A firewalled peer waits for a taken slot, is detached, and is entitled to a callback when the
    slot is free; the driver arms the server route and the peer's HELLO claims the slot. -/
theorem callback_entitlement_single_use_claimed : let events : List Event :=
      [.beginSession (sharedFile (reachablePeer 1)) 1 plainInputs 0 0,
        .beginSession (sharedFile (firewalledPeer 2)) 2 plainInputs 0 0,
        .releaseSession ⟨sharedFile (firewalledPeer 2), 2⟩ 0,
        .releaseSession ⟨sharedFile (reachablePeer 1), 1⟩ 0,
        .takePendingPromotions 0 (seconds 10) (fun _ => 50),
        .beginCallbackDispatch ⟨sharedFile (firewalledPeer 2), 1, seconds 10⟩
          (.server ⟨.v4 ⟨10, 0, 1, 1⟩, 4661⟩ 0 77) 0,
        .claimCallbackPromotion (firewalledPeer 2) 5 0]
    (run oneSlot events).queue.slots 1 = 1 ∧ SingleUse oneSlot events :=
  ⟨by decide +kernel, callback_entitlement_single_use oneSlot _ (by decide +kernel)⟩

/-! ## The counter wraps

`wrapping_add(1).max(1)`: after 2^64 - 1 entitlements the next one is the first again. One round of
six calls issues one entitlement, turns it into a slot, and leaves the queue as empty as before. -/

/-- A friend takes the slot, a firewalled peer waits for it and is detached, the friend leaves, and
    the peer consumes its entitlement with a re-ask and leaves. -/
def callbackRound : List Event :=
  let friend : PeerIdentity := { reachablePeer 1 with friendSlot := true }
  [.beginSession (sharedFile friend) 1 plainInputs 0 0,
    .beginSession (sharedFile (firewalledPeer 2)) 2 plainInputs 0 0,
    .releaseSession ⟨sharedFile (firewalledPeer 2), 2⟩ 0,
    .releaseSession ⟨sharedFile friend, 1⟩ 0,
    .beginSession (sharedFile (firewalledPeer 2)) 3 plainInputs 0 0,
    .releaseSession ⟨sharedFile (firewalledPeer 2), 3⟩ 0]

def rested (generation lease sequence issued : Nat) (cancelled : List Nat)
    (opens : List SlotOpen) : System :=
  ⟨{ new oneSlot with
      nextPromotionGeneration := generation
      nextLease := lease
      nextWaitingSequence := sequence
      entitlementsIssued := issued
      cancelledLeases := cancelled
      slotOpens := opens
      lastSlotOpen := some 0
      cooldown := { CooldownTracker.new with lastCleanup := some 0 } }, []⟩

theorem run_callbackRound : run oneSlot callbackRound =
    rested 2 2 3 1 [1, 0] [⟨1, 0, 1, true, some 1⟩, ⟨0, 0, 1, false, none⟩] := by
  cbv

/-- **One round spends one generation.** -/
theorem rested_callbackRound (generation lease sequence issued : Nat) (cancelled : List Nat)
    (opens : List SlotOpen) :
    Run.run step (rested generation lease sequence issued cancelled opens) callbackRound =
      rested (nextGeneration generation) (lease + 2) (saturatingAdd (saturatingAdd sequence 1) 1)
        (issued + 1) ((lease + 1) :: lease :: cancelled)
        (⟨lease + 1, 0, 1, true, some generation⟩ :: ⟨lease, 0, 1, false, none⟩ :: opens) := by
  cbv

theorem rested_rounds (count : Nat) {generation lease sequence issued : Nat} {cancelled : List Nat}
    {opens : List SlotOpen} (h : generation + count ≤ u64Max) :
    ∃ lease' sequence' issued' cancelled' opens', opens.Sublist opens' ∧
      Run.run step (rested generation lease sequence issued cancelled opens)
        (replicate count callbackRound).flatten =
      rested (generation + count) lease' sequence' issued' cancelled' opens' := by
  induction count generalizing generation lease sequence issued cancelled opens with
  | zero => exact ⟨lease, sequence, issued, cancelled, opens, .refl _, rfl⟩
  | succ count ih =>
    have hnext : nextGeneration generation = generation + 1 := by
      unfold nextGeneration u64Max at *
      omega
    have hsum : generation + (count + 1) = generation + 1 + count := by omega
    rw [replicate_succ, flatten_cons, Run.run_append, rested_callbackRound, hnext, hsum]
    obtain ⟨lease', sequence', issued', cancelled', opens', hsub, heq⟩ := ih (hsum ▸ h)
    exact ⟨lease', sequence', issued', cancelled', opens',
      ((sublist_cons_self _ _).trans (sublist_cons_self _ _)).trans hsub, heq⟩

def wrappingRun (count : Nat) : List Event :=
  callbackRound ++ ((replicate count callbackRound).flatten ++ (callbackRound ++ callbackRound))

/-- **The first generation is spent twice** when the last of these rounds gets it again. -/
theorem generation_one_twice {count : Nat} (h : 2 + count = u64Max) :
    2 ≤ (run oneSlot (wrappingRun count)).queue.slots 1 := by
  obtain ⟨lease, sequence, issued, cancelled, opens, hsub, heq⟩ :=
    @rested_rounds count 2 2 3 1 [1, 0] [⟨1, 0, 1, true, some 1⟩, ⟨0, 0, 1, false, none⟩] h.le
  have hwrap : nextGeneration u64Max = 1 := by decide
  have hone : [SlotOpen.mk 1 0 1 true (some 1), ⟨0, 0, 1, false, none⟩].countP
      (fun o => decide (o.generation = some 1)) = 1 := by decide
  have hfirst := hone.symm.trans_le hsub.countP_le
  rw [run, wrappingRun, Run.run_append, ← run, run_callbackRound, Run.run_append, heq, h,
    Run.run_append, rested_callbackRound, hwrap, rested_callbackRound]
  simp only [slots, rested, countP_cons, decide_true, if_true]
  omega

/-- 2^64 rounds. -/
theorem callback_generation_reused : ¬SingleUse oneSlot (wrappingRun (u64Max - 2)) := fun h => by
  have htwice := @generation_one_twice (u64Max - 2) (by decide)
  have honce := h.slots_le_one 1
  omega

end System

end EmuleBB.Upload
