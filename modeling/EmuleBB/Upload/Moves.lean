import Mathlib.Logic.Relation
import EmuleBB.Upload.System

/-!
# What a call can do to the queue

Every call is made of a few **moves**: a session is changed in place, retired, demoted, entitled,
granted a slot, stored for the first time, stored under another key, or claimed. A move says what
the source checked before it, so that an invariant of the queue is proved once per move and not
once per call.

The moves are those of any queue. Whether they may overwrite a session is another matter: a peer
without a user hash can be taken for two clients at once, and then an insertion finds its key in
use. Under `identified`, the run-time assumption that every peer presents a hash, a session that is
stored is the only one of its client.
-/

namespace EmuleBB.Upload

open Relation FirstMatch Session Table

variable {session : Session}

/-! ## Sessions and entitlements -/

def Session.liveGeneration (session : Session) : Option Nat :=
  session.callbackPromotion.bind fun promotion =>
    if promotion.cancelled then none else some promotion.generation

def Session.userHash (session : Session) : Option UserHash := session.key.peer.userHash

theorem Session.isWaiting_eq (session : Session) : session.isWaiting = !session.isActive := by
  unfold isWaiting isActive
  cases session.phase <;> rfl

theorem Session.generation_of_live {g : Nat}
    (h : session.liveGeneration = some g) : session.generation = some g := by
  unfold liveGeneration at h
  unfold generation
  cases hp : session.callbackPromotion with
  | none => rw [hp] at h; cases h
  | some =>
    rw [hp, Option.bind_some] at h
    split at h
    · cases h
    · exact h

theorem Session.generation_of_route {route : CallbackRoute}
    (h : session.route = some route) : session.generation ≠ none := by
  unfold Session.route at h
  unfold generation
  cases hp : session.callbackPromotion with
  | none => rw [hp] at h; cases h
  | some => simp

/-- What a session is to the queue, apart from its key: its lease, its slot or its place, and its
    entitlement. A callback attempt can be withdrawn and a route forgotten, but neither comes
    back. -/
structure Carried (before after : Session) : Prop where
  lease : after.lease = before.lease
  isActive : after.isActive = before.isActive
  inFlightWork : after.inFlightWork = before.inFlightWork
  queuedAt : after.queuedAt = before.queuedAt
  generation : after.generation = before.generation
  live : ∀ g, after.liveGeneration = some g → before.liveGeneration = some g
  route : after.route = none ∨
    (after.route = before.route ∧ (before.connected = false → after.connected = false))

/-- **A change in place.** -/
structure Kept (before after : Session) : Prop extends Carried before after where
  key : after.key = before.key

namespace Carried

variable {before after : Session}

theorem refl (session : Session) : Carried session session :=
  ⟨rfl, rfl, rfl, rfl, rfl, fun _ h => h, .inr ⟨rfl, id⟩⟩

theorem of_eq (lease : after.lease = before.lease)
    (phase : after.phase = before.phase) (inFlightWork : after.inFlightWork = before.inFlightWork)
    (queuedAt : after.queuedAt = before.queuedAt)
    (promotion : after.callbackPromotion = before.callbackPromotion)
    (connected : before.connected = false → after.connected = false) : Carried before after where
  lease := lease
  isActive := congrArg SessionPhase.isActive phase
  inFlightWork := inFlightWork
  queuedAt := queuedAt
  generation := by rw [Session.generation, promotion, Session.generation]
  live := fun g h => by rwa [Session.liveGeneration, ← promotion]
  route := .inr ⟨by rw [Session.route, promotion, Session.route], connected⟩

theorem isWaiting (h : Carried before after) : after.isWaiting = before.isWaiting := by
  rw [isWaiting_eq, isWaiting_eq, h.isActive]

end Carried

namespace Kept

variable {before after : Session}

theorem refl (session : Session) : Kept session session := ⟨.refl session, rfl⟩

theorem ident (h : Kept before after) : after.ident = before.ident :=
  congrArg SessionKey.ident h.key

end Kept

/-! ## Moves -/

namespace Queue

variable {q q' : Queue} {session : Session} {key : SessionKey}

structure SameBooks (after before : Queue) : Prop where
  config : after.config = before.config
  waitingOrder : after.waitingOrder = before.waitingOrder
  nextPromotionGeneration : after.nextPromotionGeneration = before.nextPromotionGeneration
  entitlementsIssued : after.entitlementsIssued = before.entitlementsIssued
  nextLease : after.nextLease = before.nextLease
  cancelledLeases : after.cancelledLeases = before.cancelledLeases
  slotOpens : after.slotOpens = before.slotOpens

def rekey (q : Queue) (old session : Session) : Queue :=
  { q.remove old.key with
    waitingOrder :=
      if old.isWaiting then (q.replaceWaitingKey old.key session.key).waitingOrder
      else q.waitingOrder }.insert session

def claim (q : Queue) (old session : Session) (now : Instant) : Queue :=
  (((q.stampSlotOpen old true now).remove old.key).leaveOrder old.key).insert session

def Unclaimed (q : Queue) (old new : SessionKey) : Prop :=
  ∀ session ∈ q.sessions, session.ident ≠ old.ident → session.userHash ≠ new.peer.userHash

def Newcomer (q : Queue) (key : SessionKey) : Prop :=
  key.peer.hasUserHash = true ∧ ∀ session ∈ q.sessions, session.userHash ≠ key.peer.userHash

/-- **One move of the queue.** -/
inductive Move (identified : Prop) : Queue → Queue → Prop
  /-- Sessions are changed in place. -/
  | touch {q q' : Queue} (f : Session → Session)
    (kept : ∀ session ∈ q.sessions, Kept session (f session))
      (sessions : q'.sessions = q.sessions.map f) (books : q'.SameBooks q) : Move identified q q'
  /-- The map is iterated in another order. -/
  | reorder {q q' : Queue} (sessions : q'.sessions.Perm q.sessions) (books : q'.SameBooks q) :
      Move identified q q'
  | retire (q : Queue) (key : SessionKey) : Move identified q (q.retireSessionKey key)
  /-- Only an idle slot is given back. -/
  | demote (q : Queue) (key : SessionKey) (now : Instant) {session : Session}
      (stored : q.get key = some session) (active : session.isActive = true)
      (idle : session.inFlightWork = 0) : Move identified q (q.demote key now)
  | entitle (q : Queue) (key : SessionKey) {session : Session}
      (stored : q.get key = some session) (waiting : session.isWaiting = true) :
      Move identified q (q.entitle key)
  | grant (q : Queue) (key : SessionKey) (now : Instant) {session : Session}
      (stored : q.get key = some session) (waiting : session.isWaiting = true)
      (free : q.activeSessionCount < q.effectiveActiveSlotLimit now) :
      Move identified q (q.grant key session now)
  | admitWaiting (q : Queue) (key : SessionKey) (connectionId : Nat) (inputs : ScoreInputs)
      (now : Instant) (newcomer : identified → q.Newcomer key) :
      Move identified q (q.insertWaiting key connectionId inputs now)
  | admitGranted (q : Queue) (key : SessionKey) (connectionId : Nat) (inputs : ScoreInputs)
      (now : Instant) (free : q.activeSessionCount < q.effectiveActiveSlotLimit now)
      (newcomer : identified → q.Newcomer key) :
      Move identified q (q.insertGranted key connectionId inputs now)
  | rekey (q : Queue) {old session : Session} (stored : old ∈ q.sessions)
      (carried : Carried old session)
      (unclaimed : identified → session.key.peer.hasUserHash = true ∧
        q.Unclaimed old.key session.key) :
      Move identified q (q.rekey old session)
  /-- A claimed or consumed entitlement may use one slot above the limit. -/
  | claim (q : Queue) {old session : Session} (now : Instant) (stored : old ∈ q.sessions)
      (waiting : old.isWaiting = true)
      (free : q.activeSessionCount < q.effectiveActiveSlotLimit now + 1)
      (active : session.isActive = true) (spent : session.callbackPromotion = none)
      (lease : session.lease = old.lease) (inFlightWork : session.inFlightWork = old.inFlightWork)
      (unclaimed : identified → session.key.peer.hasUserHash = true ∧
        q.Unclaimed old.key session.key) :
      Move identified q (q.claim old session now)

abbrev Moves (identified : Prop) : Queue → Queue → Prop := ReflTransGen (Move identified)

/-! ## The session table -/

theorem storedKey_ident (q : Queue) (key : SessionKey) : (q.storedKey key).ident = key.ident := by
  unfold storedKey
  cases h : q.get key with
  | none => rfl
  | some => exact (mem_of_lookup h).2

theorem insert_sessions (h : q.storedKey session.key = session.key) :
    (q.insert session).sessions = put ident session q.sessions := by
  rw [insert, h]

theorem insertGranted_sessions {connectionId : Nat} {inputs : ScoreInputs}
    {now : Instant} : (q.insertGranted key connectionId inputs now).sessions = (q.insert
      (.fresh key q.nextLease .granted connectionId q.nextWaitingSequence inputs
        now)).sessions := rfl

theorem mem_insert {stored : Session} : stored ∈ (q.insert session).sessions ↔
      (stored ∈ q.sessions ∧ stored.ident ≠ session.ident) ∨
        stored = { session with key := q.storedKey session.key } := by
  have hident : ident { session with key := q.storedKey session.key } = session.ident :=
    q.storedKey_ident session.key
  rw [insert, mem_put, hident]

theorem mem_get (h : q.get key = some session) : session ∈ q.sessions ∧ session.ident = key.ident :=
  mem_of_lookup h

/-! ## The table's own invariant -/

/-- **One session per key and per lease**, and entitlements only where a slot is still to come. -/
structure Sound (q : Queue) : Prop where
  keys : (q.sessions.map ident).Nodup
  leases : (q.sessions.map lease).Nodup
  issued : ∀ session ∈ q.sessions, session.lease < q.nextLease
  entitled : ∀ session ∈ q.sessions, session.generation ≠ none → session.isWaiting = true

namespace Sound

variable {q : Queue} {session : Session} {q' : Queue}

theorem new (config : QueueConfig) : (Queue.new config).Sound :=
  ⟨List.nodup_nil, List.nodup_nil, fun _ h => absurd h (by simp [Queue.new]),
    fun _ h => absurd h (by simp [Queue.new])⟩

section

variable (h : q.Sound)

include h

theorem get_of_mem (hs : session ∈ q.sessions) : q.get session.key = some session :=
  lookup_of_mem h.keys hs

theorem eq_of_ident {a b : Session} (ha : a ∈ q.sessions) (hb : b ∈ q.sessions)
    (hab : a.ident = b.ident) : a = b :=
  eq_of_key h.keys ha hb hab

theorem eq_of_lease {a b : Session} (ha : a ∈ q.sessions) (hb : b ∈ q.sessions)
    (hab : a.lease = b.lease) : a = b :=
  eq_of_key h.leases ha hb hab

theorem map (f : Session → Session) (hs : q'.sessions = q.sessions.map f)
    (hl : q'.nextLease = q.nextLease)
    (hf : ∀ session ∈ q.sessions, (f session).ident = session.ident ∧
      (f session).lease = session.lease ∧
      ((f session).generation ≠ none → (f session).isWaiting = true)) : q'.Sound where
  keys := by
    have hmap : (q.sessions.map f).map ident = q.sessions.map ident := by
      rw [List.map_map]
      exact List.map_congr_left fun t ht => (hf t ht).1
    rw [hs, hmap]
    exact h.keys
  leases := by
    have hmap : (q.sessions.map f).map lease = q.sessions.map lease := by
      rw [List.map_map]
      exact List.map_congr_left fun t ht => (hf t ht).2.1
    rw [hs, hmap]
    exact h.leases
  issued := by
    rw [hs, hl]
    rintro _ hmem
    obtain ⟨t, ht, rfl⟩ := List.mem_map.mp hmem
    rw [(hf t ht).2.1]
    exact h.issued t ht
  entitled := by
    rw [hs]
    rintro _ hmem
    obtain ⟨t, ht, rfl⟩ := List.mem_map.mp hmem
    exact (hf t ht).2.2

theorem update (f : Session → Session)
    (hs : q'.sessions = Table.update ident key.ident f q.sessions)
    (hl : q'.nextLease = q.nextLease) (hf : ∀ session ∈ q.sessions, session.ident = key.ident →
      (f session).ident = session.ident ∧ (f session).lease = session.lease ∧
        ((f session).generation ≠ none → (f session).isWaiting = true)) : q'.Sound := by
  refine h.map _ hs hl fun t ht => ?_
  split
  · next hk => exact hf t ht hk
  · exact ⟨rfl, rfl, h.entitled t ht⟩

theorem replace {old : Session} (hold : old ∈ q.sessions)
    (hs : q'.sessions = ((q.remove old.key).insert session).sessions)
    (hl : q'.nextLease = q.nextLease) (hlease : session.lease = old.lease)
    (hent : session.generation ≠ none → session.isWaiting = true) : q'.Sound where
  keys := by
    rw [hs]
    exact nodup_put_key (nodup_remove _ h.keys)
  leases := by
    rw [hs]
    refine nodup_put _ (nodup_remove _ h.leases) fun t ht _ hlt => ?_
    obtain ⟨ht, hne⟩ := mem_remove.mp ht
    exact hne (congrArg ident (h.eq_of_lease ht hold (hlt.trans hlease)))
  issued := by
    intro t ht
    rw [hl]
    rw [hs] at ht
    rcases mem_insert.mp ht with ⟨ht, -⟩ | rfl
    · exact h.issued t (mem_remove.mp ht).1
    · exact lt_of_eq_of_lt hlease (h.issued old hold)
  entitled := by
    intro t ht
    rw [hs] at ht
    rcases mem_insert.mp ht with ⟨ht, -⟩ | rfl
    · exact h.entitled t (mem_remove.mp ht).1
    · exact hent

theorem arrive (hs : q'.sessions = (q.insert session).sessions)
    (hl : q'.nextLease = q.nextLease + 1) (hlease : session.lease = q.nextLease)
    (hent : session.generation = none) : q'.Sound where
  keys := by
    rw [hs]
    exact nodup_put_key h.keys
  leases := by
    rw [hs]
    refine nodup_put _ h.leases fun t ht _ hlt => ?_
    exact absurd (hlt.trans hlease) (Nat.ne_of_lt (h.issued t ht))
  issued := by
    intro t ht
    rw [hl]
    rw [hs] at ht
    rcases mem_insert.mp ht with ⟨ht, -⟩ | rfl
    · exact Nat.lt_succ_of_lt (h.issued t ht)
    · exact lt_of_eq_of_lt hlease (Nat.lt_succ_self _)
  entitled := by
    intro t ht
    rw [hs] at ht
    rcases mem_insert.mp ht with ⟨ht, -⟩ | rfl
    · exact h.entitled t ht
    · exact fun hne => absurd hent hne

end

end Sound

/-- **Every move keeps the table's invariant.** -/
theorem Move.sound {identified : Prop} (move : Move identified q q') (h : q.Sound) : q'.Sound := by
  cases move with
  | touch f kept sessions books =>
    refine h.map f sessions books.nextLease fun t ht => ⟨(kept t ht).ident, (kept t ht).lease, ?_⟩
    rw [(kept t ht).generation, (kept t ht).isWaiting]
    exact h.entitled t ht
  | reorder sessions books =>
    exact ⟨(sessions.map _).nodup_iff.mpr h.keys, (sessions.map _).nodup_iff.mpr h.leases,
      fun t ht => lt_of_lt_of_eq (h.issued t (sessions.mem_iff.mp ht)) books.nextLease.symm,
      fun t ht => h.entitled t (sessions.mem_iff.mp ht)⟩
  | retire =>
    exact ⟨Table.nodup_remove _ h.keys, Table.nodup_remove _ h.leases,
      fun t ht => h.issued t (Table.mem_remove.mp ht).1,
      fun t ht => h.entitled t (Table.mem_remove.mp ht).1⟩
  | demote =>
    exact h.update _ rfl rfl fun t _ _ => ⟨rfl, rfl, fun _ => rfl⟩
  | entitle key stored waiting =>
    refine h.update _ rfl rfl fun t ht hk => ⟨rfl, rfl, fun _ => ?_⟩
    obtain ⟨hmem, hident⟩ := mem_get stored
    rw [h.eq_of_ident ht hmem (hk.trans hident.symm)]
    exact waiting
  | grant =>
    exact h.update _ rfl rfl fun t _ _ => ⟨rfl, rfl, fun hne => absurd rfl hne⟩
  | admitWaiting
  | admitGranted => exact h.arrive rfl rfl rfl rfl
  | rekey stored carried =>
    refine h.replace stored rfl rfl carried.lease fun hne => ?_
    rw [carried.generation] at hne
    rw [carried.isWaiting]
    exact h.entitled _ stored hne
  | claim now stored waiting free active spent lease =>
    refine h.replace stored rfl rfl lease fun hne => ?_
    exact absurd (by rw [Session.generation, spent, Option.map_none]) hne

theorem Moves.sound {identified : Prop} (moves : Moves identified q q') (h : q.Sound) :
    q'.Sound := by
  induction moves with
  | refl => exact h
  | tail _ move ih => exact move.sound ih

/-! ## One session per client -/

/-- **Every stored client has a hash, and no hash is stored twice.** -/
structure Identified (q : Queue) : Prop where
  hashed : ∀ session ∈ q.sessions, session.key.peer.hasUserHash = true
  distinct : (q.sessions.map userHash).Nodup

namespace Identified

variable {q : Queue} {q' : Queue}

theorem new (config : QueueConfig) : (Queue.new config).Identified :=
  ⟨fun _ h => absurd h (by simp [Queue.new]), List.nodup_nil⟩

theorem eq_of_userHash (h : q.Identified) {a b : Session} (ha : a ∈ q.sessions)
    (hb : b ∈ q.sessions) (hab : a.userHash = b.userHash) : a = b :=
  eq_of_key h.distinct ha hb hab

theorem map (h : q.Identified) (f : Session → Session) (hs : q'.sessions = q.sessions.map f)
    (hf : ∀ session ∈ q.sessions, (f session).key = session.key) : q'.Identified where
  hashed := by
    rw [hs]
    intro _ hmem
    obtain ⟨t, ht, rfl⟩ := List.mem_map.mp hmem
    rw [hf t ht]
    exact h.hashed t ht
  distinct := by
    have hmap : (q.sessions.map f).map userHash = q.sessions.map userHash := by
      rw [List.map_map]
      exact List.map_congr_left fun t ht => congrArg (·.peer.userHash) (hf t ht)
    rw [hs, hmap]
    exact h.distinct

theorem update (h : q.Identified) (f : Session → Session)
    (hs : q'.sessions = Table.update ident key.ident f q.sessions)
    (hf : ∀ session, (f session).key = session.key) : q'.Identified := by
  refine h.map _ hs fun t _ => ?_
  split
  · exact hf t
  · rfl

theorem remove (h : q.Identified) (key : SessionKey) : (q.remove key).Identified :=
  ⟨fun t ht => h.hashed t (mem_remove.mp ht).1, nodup_remove _ h.distinct⟩

theorem storedKey_eq
    (hnew : ∀ t ∈ q.sessions, t.userHash ≠ key.peer.userHash) : q.storedKey key = key := by
  have habsent : ∀ t ∈ q.sessions, t.ident ≠ key.ident := fun t ht heq =>
    hnew t ht (congrArg KeyIdent.userHash heq)
  rw [storedKey, get, lookup_eq_none.mpr habsent]
  rfl

theorem arrive (h : q.Identified)
    (hs : q'.sessions = (q.insert session).sessions) (hhash : session.key.peer.hasUserHash = true)
    (hnew : ∀ t ∈ q.sessions, t.userHash ≠ session.userHash) : q'.Identified where
  hashed := by
    intro t ht
    rw [hs] at ht
    rcases mem_insert.mp ht with ⟨ht, -⟩ | rfl
    · exact h.hashed t ht
    · rw [storedKey_eq hnew]
      exact hhash
  distinct := by
    rw [hs]
    refine nodup_put _ h.distinct fun t ht _ => ?_
    rw [storedKey_eq hnew]
    exact hnew t ht

theorem newcomer_of_unclaimed {old new : SessionKey} (h : q.Unclaimed old new) :
    ∀ t ∈ (q.remove old).sessions, t.userHash ≠ new.peer.userHash := fun t ht =>
  h t (mem_remove.mp ht).1 (mem_remove.mp ht).2

end Identified

theorem Move.identified {identified : Prop} (hid : identified) (move : Move identified q q')
    (h : q.Identified) : q'.Identified := by
  cases move with
  | touch f kept sessions => exact h.map f sessions fun t ht => (kept t ht).key
  | reorder sessions =>
    exact ⟨fun t ht => h.hashed t (sessions.mem_iff.mp ht),
      (sessions.map _).nodup_iff.mpr h.distinct⟩
  | retire key => exact ⟨(h.remove key).hashed, (h.remove key).distinct⟩
  | demote | entitle
  | grant => exact h.update _ rfl fun _ => rfl
  | admitWaiting key connectionId inputs now newcomer
  | admitGranted key connectionId inputs now free newcomer =>
    exact h.arrive rfl (newcomer hid).1 (newcomer hid).2
  | @rekey old session stored carried unclaimed
  | @claim old session now stored waiting free active spent lease inFlightWork unclaimed =>
    exact (h.remove old.key).arrive rfl (unclaimed hid).1
      (Identified.newcomer_of_unclaimed (unclaimed hid).2)

theorem Moves.identified {identified : Prop} (hid : identified) (moves : Moves identified q q')
    (h : q.Identified) : q'.Identified := by
  induction moves with
  | refl => exact h
  | tail _ move ih => exact move.identified hid ih

end Queue

end EmuleBB.Upload
