import EmuleBB.Upload.Reattach

/-!
# A verified entry cannot be taken over

`begin_session`, `refresh_session_peer` and `claim_callback_promotion` let a connection say who it
is, and each resolves a collision with an entry of the same client by its own rules. Once the
maintenance they start with is done, a connected entry of **another** connection whose peer is
verified stays as it is, and a newcomer that displaces an unverified entry inherits nothing from it.

Both need the peers to have hashes. Without one, two entries can be the same client as a third and
not as each other; `begin_session` then looks at one of them and overwrites the other, verified or
not. Besides, an admission into a full queue evicts the waiter that ranks last, and a refresh that
displaces an unverified entry keeps the wait of its own entry instead of starting fresh. Runs with
neither are the ones where both hold (`verified_entry_not_taken_over`).
-/

namespace EmuleBB.Upload

open Relation Table

/-- The connection that takes a session over. -/
def Event.claimant : Event → Option Nat
  | .beginSession _ connectionId _ _ _ => some connectionId
  | .refreshSessionPeer handle _ _ _ => some handle.connectionId
  | .claimCallbackPromotion _ connectionId _ => some connectionId
  | _ => none

/-- An entry that inherits nothing: it waits since now, has served nothing, and has a slot only if
    one was free. -/
structure StartsFresh (q : Queue) (now : Instant) (session : Session) : Prop where
  queuedAt : session.queuedAt = now
  uploadedBytes : session.uploadedBytes = 0
  servedRanges : session.servedRanges = []
  slot : session.isActive = true → ∃ o ∈ q.slotOpens, o.lease = session.lease ∧
    o.viaCallback = false ∧ o.active < o.limit

namespace Queue

variable {q q' : Queue} {now : Instant} {t t' : Session}
  {handle : SessionHandle} {peer observedPeer : PeerIdentity}

/-! ## The closing passes of a call -/

theorem promoteWaiters_forward (hq : q.Sound) (ht : t ∈ q.sessions) :
    ∃ t' ∈ (q.promoteWaiters now).sessions, Stays t t' := by
  obtain ⟨f, hf, hstays⟩ := promotes_stays (promoteWaiters_promotes q now) hq
  exact ⟨f t, hf ▸ List.mem_map_of_mem ht, hstays t ht⟩

/-- A queue that fits is not trimmed. -/
theorem trimWaitingQueue_of_fits (h : q.Fits) : q.trimWaitingQueue now = q := by
  unfold trimWaitingQueue
  cases q.waitingOrder.length with
  | zero => rfl
  | succ => exact if_pos h

theorem mem_of_trim (ht : t ∈ (q.trimWaitingQueue now).sessions) : t ∈ q.sessions := by
  unfold trimWaitingQueue at ht
  generalize q.waitingOrder.length = fuel at ht
  induction fuel generalizing q with
  | zero => exact ht
  | succ fuel ih =>
    rw [trimLoop] at ht
    split at ht
    · exact ht
    · split at ht
      · exact ht
      · exact (mem_remove.mp (ih ht)).1

theorem slotOpens_trim : (q.trimWaitingQueue now).slotOpens = q.slotOpens := by
  unfold trimWaitingQueue
  generalize q.waitingOrder.length = fuel
  induction fuel generalizing q with
  | zero => rfl
  | succ fuel ih =>
    rw [trimLoop]
    split
    · rfl
    · split
      · rfl
      · exact ih

structure Promoted (q : Queue) (now : Instant) (before after : Session) : Prop where
  lease : after.lease = before.lease
  key : after.key = before.key
  uploadedBytes : after.uploadedBytes = before.uploadedBytes
  servedRanges : after.servedRanges = before.servedRanges
  queuedAt : after.queuedAt = before.queuedAt ∨ after.queuedAt = now
  slot : after.isActive = true → before.isActive = true ∨ ∃ o ∈ q.slotOpens,
    o.lease = after.lease ∧ o.viaCallback = false ∧ o.active < o.limit

theorem promoteLoop_back (fuel : Nat) (state : Queue × Bool) (hq : state.1.Sound) :
    (∀ o ∈ state.1.slotOpens, o ∈ (promoteLoop now fuel state).1.slotOpens) ∧
    ∀ t' ∈ (promoteLoop now fuel state).1.sessions, ∃ t ∈ state.1.sessions,
      (promoteLoop now fuel state).1.Promoted now t t' := by
  induction fuel generalizing state with
  | zero =>
    exact ⟨fun o ho => ho, fun t ht => ⟨t, ht, rfl, rfl, rfl, rfl, .inl rfl, .inl⟩⟩
  | succ fuel ih =>
    rw [promoteLoop]
    split
    · exact ⟨fun o ho => ho, fun t ht => ⟨t, ht, rfl, rfl, rfl, rfl, .inl rfl, .inl⟩⟩
    · rename_i next hnext
      have hnextsound : next.1.Sound :=
        Move.sound (@Promotes.move True _ _ (promoteOne_promotes hnext)) hq
      obtain ⟨hopens, hback⟩ := ih next hnextsound
      obtain ⟨key, session, hmem, hfree, ⟨-, -, rfl⟩ | rfl⟩ := promoteOne_cases hnext
      · refine ⟨hopens, fun t' ht' => ?_⟩
        obtain ⟨u, hu, h⟩ := hback t' ht'
        rcases mem_update_cases hu with ⟨hu, -⟩ | ⟨t, ht, -, rfl⟩
        · exact ⟨u, hu, h⟩
        · exact ⟨t, ht, h.lease, h.key, h.uploadedBytes, h.servedRanges, h.queuedAt, h.slot⟩
      · refine ⟨fun o ho => hopens o (List.mem_cons_of_mem _ ho), fun t' ht' => ?_⟩
        obtain ⟨u, hu, h⟩ := hback t' ht'
        rcases mem_update_cases hu with ⟨hu, -⟩ | ⟨t, ht, hk, rfl⟩
        · exact ⟨u, hu, h⟩
        · -- the entry that this turn grants
          refine ⟨t, ht, h.lease, h.key, h.uploadedBytes, h.servedRanges, .inr ?_, fun _ => .inr ?_⟩
          · exact h.queuedAt.elim id id
          · obtain ⟨hstored, hident⟩ := mem_get (mem_waiters.mp hmem).2.1
            obtain rfl := hq.eq_of_ident ht hstored (hk.trans hident.symm)
            exact ⟨_, hopens _ List.mem_cons_self, h.lease.symm, rfl, hfree⟩

theorem promoteWaiters_back (hq : q.Sound) (ht' : t' ∈ (q.promoteWaiters now).sessions) :
    ∃ t ∈ q.sessions, (q.promoteWaiters now).Promoted now t t' :=
  (promoteLoop_back _ (q.refreshElasticUnderfill now, false)
    ⟨hq.keys, hq.leases, hq.issued, hq.entitled⟩).2 t' ht'

/-! ## Admissions -/

variable {key : SessionKey} {connectionId : Nat} {inputs : ScoreInputs} {live : Nat}
  {session : Session}

theorem Sound.refreshElasticUnderfill (h : q.Sound) : (q.refreshElasticUnderfill now).Sound :=
  ⟨h.keys, h.leases, h.issued, h.entitled⟩

theorem mem_insertWaiting : t ∈ (q.insertWaiting key connectionId inputs now).sessions ↔
      t ∈ (q.insert (.fresh key q.nextLease .waiting connectionId q.nextWaitingSequence inputs
        now)).sessions := Iff.rfl

theorem mem_insertGranted : t ∈ (q.insertGranted key connectionId inputs now).sessions ↔
      t ∈ (q.insert (.fresh key q.nextLease .granted connectionId q.nextWaitingSequence inputs
        now)).sessions := Iff.rfl

/-- **An admission removes nobody from a queue with room.** -/
theorem admitSession_forward (hq : q.Sound) (hnew : q.Newcomer key)
    (hroom : q.waitingOrder.length < q.config.waitingCapacity) (ht : t ∈ q.sessions) :
    ∃ t' ∈ (q.admitSession key connectionId inputs live now).1.sessions, Stays t t' := by
  have hne : t.ident ≠ key.ident := fun heq => hnew.2 t ht (congrArg KeyIdent.userHash heq)
  have hr : (q.refreshElasticUnderfill now).Sound := hq.refreshElasticUnderfill
  have htr : t ∈ (q.refreshElasticUnderfill now).sessions := ht
  have hnewr : (q.refreshElasticUnderfill now).Newcomer key := hnew
  have hroomr : (q.refreshElasticUnderfill now).waitingOrder.length
      < (q.refreshElasticUnderfill now).config.waitingCapacity := hroom
  rcases q.admitSession_cases key connectionId inputs live now with heq | heq | ⟨-, heq⟩ | heq
  · rw [heq]
    exact ⟨t, ht, .refl t⟩
  · rw [heq]
    exact ⟨t, ht, .refl t⟩
  all_goals
    rw [heq]
    generalize q.refreshElasticUnderfill now = r at hr htr hnewr hroomr
  · have hfits : (r.insertGranted key connectionId inputs now).Fits := Nat.le_of_lt hroomr
    rw [trimWaitingQueue_of_fits hfits]
    exact ⟨t, mem_insertGranted.mpr (mem_insert.mpr (.inl ⟨htr, hne⟩)), .refl t⟩
  · have hlength : (r.insertWaiting key connectionId inputs now).waitingOrder.length
        = r.waitingOrder.length + 1 := List.length_append
    have hfits : (r.insertWaiting key connectionId inputs now).Fits := hlength.trans_le hroomr
    have hmove : Move True r (r.insertWaiting key connectionId inputs now) :=
      .admitWaiting r key connectionId inputs now fun _ => hnewr
    rw [trimWaitingQueue_of_fits hfits]
    exact promoteWaiters_forward (hmove.sound hr)
      (mem_insertWaiting.mpr (mem_insert.mpr (.inl ⟨htr, hne⟩)))

/-- **What an admission stores is fresh.** -/
theorem admitSession_fresh (hq : q.Sound) (hnew : q.Newcomer key)
    (ht' : t' ∈ (q.admitSession key connectionId inputs live now).1.sessions) :
    (∃ t ∈ q.sessions, t.lease = t'.lease ∧ t.key = t'.key) ∨
      StartsFresh (q.admitSession key connectionId inputs live now).1 now t' := by
  have hr : (q.refreshElasticUnderfill now).Sound := hq.refreshElasticUnderfill
  have hnewr : (q.refreshElasticUnderfill now).Newcomer key := hnew
  have hsame : (q.refreshElasticUnderfill now).sessions = q.sessions := rfl
  rcases q.admitSession_cases key connectionId inputs live now with heq | heq | ⟨hfree, heq⟩ | heq
  · rw [heq] at ht'
    exact .inl ⟨t', ht', rfl, rfl⟩
  · rw [heq] at ht'
    exact .inl ⟨t', ht', rfl, rfl⟩
  all_goals
    rw [heq] at ht' ⊢
    rw [← hsame]
    generalize q.refreshElasticUnderfill now = r at *
  · rcases mem_insert.mp (mem_insertGranted.mp (mem_of_trim ht')) with ⟨ht, -⟩ | rfl
    · exact .inl ⟨t', ht, rfl, rfl⟩
    · refine .inr ⟨rfl, rfl, rfl, fun _ => ?_⟩
      rw [slotOpens_trim]
      exact ⟨⟨r.nextLease, r.activeSessionCount, r.effectiveActiveSlotLimit now, false, none⟩,
        List.mem_cons_self, rfl, rfl, hfree⟩
  · have hmove : Move True r (r.insertWaiting key connectionId inputs now) :=
      .admitWaiting r key connectionId inputs now fun _ => hnewr
    have htrim : ((r.insertWaiting key connectionId inputs now).trimWaitingQueue now).Sound :=
      (@settles_moves True _ _ trimWaitingQueue_settles).sound (hmove.sound hr)
    obtain ⟨u, hu, h⟩ := promoteWaiters_back htrim ht'
    rcases mem_insert.mp (mem_insertWaiting.mp (mem_of_trim hu)) with ⟨hu, -⟩ | rfl
    · exact .inl ⟨u, hu, h.lease.symm, h.key.symm⟩
    · refine .inr ⟨h.queuedAt.elim id id, h.uploadedBytes, h.servedRanges, fun ha => ?_⟩
      exact (h.slot ha).resolve_left Bool.false_ne_true

/-! ## Where an entry comes from -/

theorem mem_replace {old : SessionKey} (h : q.Unclaimed old session.key)
    (hs : q'.sessions = ((q.remove old).insert session).sessions) :
    t ∈ q'.sessions ↔ (t ∈ q.sessions ∧ t.ident ≠ old.ident) ∨ t = session := by
  have hnew := Identified.newcomer_of_unclaimed h
  rw [hs, insert_sessions (Identified.storedKey_eq hnew), mem_put]
  refine or_congr_left ⟨fun ht => mem_remove.mp ht.1, fun ht => ⟨mem_remove.mpr ht, ?_⟩⟩
  exact fun heq => hnew t (mem_remove.mpr ht) (congrArg KeyIdent.userHash heq)

/-- **Where an entry of the queue after a call comes from**: from an entry of the same client, from
    nothing, or from an entry that its connection has given an identity that no other entry had. -/
def Origin (before after : Queue) (now : Instant) (t' : Session) : Prop :=
  (∃ t ∈ before.sessions, t.lease = t'.lease ∧ t.userHash = t'.userHash) ∨
    StartsFresh after now t' ∨
    ∀ t ∈ before.sessions, t.userHash = t'.userHash → t.lease = t'.lease

/-- A connected verified entry of another connection. -/
structure Guarded (connectionId : Nat) (t : Session) : Prop where
  connected : t.connected = true
  verified : t.key.peer.identVerified = true
  other : t.connectionId ≠ connectionId

/-- How a call of the connection ends, compared with the queue it began with. -/
structure Outcome (connectionId : Nat) (now : Instant) (before after : Queue) : Prop where
  kept : ∀ t ∈ before.sessions, Guarded connectionId t → ∃ t' ∈ after.sessions, Stays t t'
  origin : ∀ t' ∈ after.sessions, Origin before after now t'

/-- Entries were removed, and no guarded one. -/
structure Thinned (connectionId : Nat) (before after : Queue) : Prop where
  sound : after.Sound
  kept : ∀ t ∈ before.sessions, Guarded connectionId t → t ∈ after.sessions
  sub : ∀ t ∈ after.sessions, t ∈ before.sessions

variable {r : Queue}

theorem Outcome.refl (q : Queue) : Outcome connectionId now q q :=
  ⟨fun t ht _ => ⟨t, ht, .refl t⟩, fun t ht => .inl ⟨t, ht, rfl, rfl⟩⟩

theorem Thinned.refl (h : q.Sound) : Thinned connectionId q q :=
  ⟨h, fun _ ht _ => ht, fun _ ht => ht⟩

section

variable (h : Thinned connectionId r q)

include h

theorem Thinned.retire (old : SessionKey)
    (hne : ∀ t ∈ r.sessions, Guarded connectionId t → t.ident ≠ old.ident) :
    Thinned connectionId r (q.retireSessionKey old) where
  sound := (@Move.retire True q old).sound h.sound
  kept := fun t ht hguard => mem_remove.mpr ⟨h.kept t ht hguard, hne t ht hguard⟩
  sub := fun t ht => h.sub t (mem_remove.mp ht).1

theorem Thinned.promote : Outcome connectionId now r (q.promoteWaiters now) := by
  refine ⟨fun t ht hguard => promoteWaiters_forward h.sound (h.kept t ht hguard), ?_⟩
  intro t' ht'
  obtain ⟨t, ht, hpromoted⟩ := promoteWaiters_back h.sound ht'
  exact .inl ⟨t, h.sub t ht, hpromoted.lease.symm, congrArg (·.peer.userHash) hpromoted.key.symm⟩

theorem Thinned.admission (hnew : q.Newcomer key)
    (hroom : q.waitingOrder.length < q.config.waitingCapacity) :
    Outcome connectionId now r (q.admitSession key connectionId inputs live now).1 := by
  refine ⟨fun t ht hguard => admitSession_forward h.sound hnew hroom (h.kept t ht hguard), ?_⟩
  intro t' ht'
  rcases admitSession_fresh h.sound hnew ht' with ⟨t, ht, hlease, hkey⟩ | hfresh
  · exact .inl ⟨t, h.sub t ht, hlease, congrArg (·.peer.userHash) hkey⟩
  · exact .inr (.inl hfresh)

/-- An entry gives way to another that comes from it. -/
theorem Thinned.replace {P : Session → Prop}
    (hmem : ∀ t, t ∈ q'.sessions ↔ (t ∈ q.sessions ∧ P t) ∨ t = session)
    (hP : ∀ t ∈ r.sessions, Guarded connectionId t → P t)
    (horigin : Origin r q' now session) : Outcome connectionId now r q' := by
  refine ⟨fun t ht hguard => ⟨t, (hmem t).mpr ?_, .refl t⟩, ?_⟩
  · exact .inl ⟨h.kept t ht hguard, hP t ht hguard⟩
  · intro t' ht'
    rcases (hmem t').mp ht' with ⟨ht, -⟩ | rfl
    · exact .inl ⟨t', h.sub t' ht, rfl, rfl⟩
    · exact horigin

end

theorem ident_ne_of_unverified {existing : Session} (hq : q.Sound) (hmem : existing ∈ q.sessions)
    (hunverified : existing.key.peer.identVerified = false) (t : Session) (ht : t ∈ q.sessions)
    (hguard : Guarded connectionId t) : t.ident ≠ existing.key.ident := by
  intro heq
  have hverified := hguard.verified
  rw [hq.eq_of_ident ht hmem heq, hunverified] at hverified
  exact Bool.false_ne_true hverified

section

variable (hq : (q.reapExpiredSessions now).Orderly)

include hq

theorem beginSession_outcome (hkey : key.peer.hasUserHash = true)
    (hroom : (q.reapExpiredSessions now).waitingOrder.length
      < (q.reapExpiredSessions now).config.waitingCapacity) :
    Outcome connectionId now (q.reapExpiredSessions now)
      (q.beginSessionWithLiveConnections key connectionId inputs live now).1 := by
  have hcases := q.beginSession_cases key connectionId inputs live now
  generalize (q.beginSessionWithLiveConnections key connectionId inputs live now).1 = q' at *
  generalize q.reapExpiredSessions now = r at *
  rcases hcases with rfl | ⟨habsent, rfl⟩ | ⟨existing, hfound, hunverified, hcase⟩ |
    ⟨existing, hfound, hown, rfl⟩
  · exact .refl q'
  · exact (Thinned.refl hq.sound).admission (newcomer_of_absent hq.identified hkey habsent) hroom
  all_goals
    have hmem := (sessionForPeer_mem hfound).1
    have hhash := userHash_of_sessionForPeer hq.identified hkey hfound
  · have hthinned : Thinned connectionId r (r.retireSessionKey existing.key) :=
      (Thinned.refl hq.sound).retire existing.key
        (ident_ne_of_unverified hq.sound hmem hunverified)
    rcases hcase with rfl | rfl
    · exact hthinned.promote
    · exact hthinned.admission (newcomer_of_retired hq.identified hmem hkey hhash)
        (lt_of_le_of_lt (List.length_filter_le _ _) hroom)
  · refine (Thinned.refl hq.sound).replace
      (fun t => mem_reattach hq.sound hq.identified hmem hhash) ?_
      (.inl ⟨existing, hmem, (reattached_persists ..).1.symm, hhash⟩)
    intro t ht hguard heq
    obtain rfl := hq.identified.eq_of_userHash ht hmem heq
    rcases hown with hc | hc
    · exact hguard.other hc
    · exact Bool.false_ne_true (hc.symm.trans hguard.connected)

omit hq

/-- A refresh by a verified peer that finds an unverified entry of the same client, and displaces
    it. -/
def refreshDisplaces (q : Queue) : Event → Bool
  | .refreshSessionPeer handle peer _ now =>
    peer.identVerified && ((q.reapExpiredSessions now).collision handle peer).any
      (!·.key.peer.identVerified)
  | _ => false

def refreshed (current : Session) (handle : SessionHandle) (peer : PeerIdentity)
    (inputs : ScoreInputs) (now : Instant) : Session :=
  { current.rescored peer inputs with key := ⟨peer, handle.key.fileHash⟩, lastActivity := now }

theorem mem_rebind {current : Session} (h : q.Unclaimed handle.key ⟨peer, handle.key.fileHash⟩) :
    t ∈ (q.rebind current handle peer inputs now).sessions ↔
      (t ∈ q.sessions ∧ t.ident ≠ handle.key.ident) ∨
        t = refreshed current handle peer inputs now := by
  have hs : (q.rebind current handle peer inputs now).sessions =
      ((q.remove handle.key).insert (refreshed current handle peer inputs now)).sessions := by
    unfold rebind
    cases current.isWaiting <;> rfl
  exact mem_replace h hs

include hq

theorem refreshSessionPeer_outcome (hpeer : peer.hasUserHash = true)
    (hdisplaces : q.refreshDisplaces (.refreshSessionPeer handle peer inputs now) = false) :
    Outcome handle.connectionId now (q.reapExpiredSessions now)
      (q.refreshSessionPeer handle peer inputs now).1 := by
  have hcases := q.refreshSessionPeer_cases handle peer inputs now
  rw [refreshDisplaces] at hdisplaces
  generalize (q.refreshSessionPeer handle peer inputs now).1 = q' at *
  generalize q.reapExpiredSessions now = r at *
  rcases hcases with rfl | ⟨current, howned, hcase⟩
  · exact .refl q'
  · obtain ⟨hget, hconnection⟩ := mem_owned howned
    obtain ⟨hcurrent, hident⟩ := mem_get hget
    -- the entry that the handle owns is nobody else's
    have hne : ∀ t ∈ r.sessions, Guarded handle.connectionId t → t.ident ≠ handle.key.ident := by
      intro t ht hguard heq
      rw [hq.sound.eq_of_ident ht hcurrent (heq.trans hident.symm)] at hguard
      exact hguard.other hconnection
    rcases hcase with ⟨hnone, rfl⟩ | rfl | ⟨other, hcollision, hunverified, hcase⟩
    · have hunclaimed := unclaimed_of_no_collision hq.identified hpeer hnone
      refine (Thinned.refl hq.sound).replace (fun t => mem_rebind hunclaimed) hne
        (.inr (.inr fun t ht hhash => ?_))
      -- whoever has the hash is the entry that the handle owns
      have hsame : t.ident = handle.key.ident :=
        by_contra fun hother => hunclaimed t ht hother hhash
      exact congrArg (·.lease) (hq.sound.eq_of_ident ht hcurrent (hsame.trans hident.symm))
    · exact ((Thinned.refl hq.sound).retire handle.key hne).promote
    · have hthinned : Thinned handle.connectionId r (r.retireSessionKey other.key) :=
        (Thinned.refl hq.sound).retire other.key
          (ident_ne_of_unverified hq.sound (collision_mem hcollision).1 hunverified)
      rcases hcase with ⟨hverified, -⟩ | rfl
      · simp [hverified, hcollision, hunverified] at hdisplaces
      · exact (hthinned.retire handle.key hne).promote

omit hq

def claimed (old : Session) (observedPeer : PeerIdentity) (connectionId : Nat) (now : Instant) :
    Session :=
  { old.granted now with
    key := ⟨observedPeer, old.key.fileHash⟩, connectionId := connectionId, connected := true }

theorem mem_claimSlot {old : Session} (hq : q.Identified)
    (hold : q.claimable observedPeer = some old) :
    t ∈ (q.claimSlot old observedPeer connectionId now).sessions ↔
      (t ∈ q.sessions ∧ t.ident ≠ old.ident) ∨ t = claimed old observedPeer connectionId now := by
  obtain ⟨hmem, -, route, -, hmatch⟩ := claimable_mem hold
  have hhash : old.userHash = (claimed old observedPeer connectionId now).key.peer.userHash :=
    (userHash_of_matchesHello (hq.hashed old hmem) hmatch).symm
  exact mem_replace (unclaimed_of_userHash hq hmem hhash) rfl

include hq

theorem claimCallbackPromotion_outcome : Outcome connectionId now (q.reapExpiredSessions now)
      (q.claimCallbackPromotion observedPeer connectionId now).1 := by
  have hcases := q.claimCallbackPromotion_cases observedPeer connectionId now
  generalize (q.claimCallbackPromotion observedPeer connectionId now).1 = q' at *
  generalize q.reapExpiredSessions now = r at *
  rcases hcases with rfl | ⟨old, hold, -, rfl⟩
  · exact .refl q'
  · obtain ⟨hmem, -, route, hroute, hmatch⟩ := claimable_mem hold
    refine (Thinned.refl hq.sound).replace (fun t => mem_claimSlot hq.identified hold) ?_
      (.inl
        ⟨old, hmem, rfl, (userHash_of_matchesHello (hq.identified.hashed old hmem) hmatch).symm⟩)
    -- a route is armed only where there is no connection
    intro t ht hguard heq
    have hdetached := hq.consistent.routed old hmem (by rw [hroute]; exact Option.some_ne_none _)
    rw [hq.sound.eq_of_ident ht hmem heq] at hguard
    exact Bool.false_ne_true (hdetached.symm.trans hguard.connected)

end

/-! ## Calls of a connection that says who it is -/

/-- **Nobody is taken over.** The call of a connection, compared with the maintenance it starts
    with. -/
structure Undisturbed (q : Queue) (event : Event) (connectionId : Nat) (now : Instant) : Prop where
  /-- A connected verified entry of another connection stays what it is. -/
  kept : ∀ t ∈ (q.reapExpiredSessions now).sessions, t.connected = true →
    t.key.peer.identVerified = true → t.connectionId ≠ connectionId →
      ∃ t' ∈ (q.apply event).sessions, Stays t t'
  /-- An entry of the connection that stands where another one of the same client was starts
      fresh. -/
  fresh : ∀ t ∈ (q.reapExpiredSessions now).sessions,
    (∀ u ∈ (q.apply event).sessions, u.lease ≠ t.lease) →
      ∀ t' ∈ (q.apply event).sessions, t'.connectionId = connectionId →
        sameUploadClient t.key.peer t'.key.peer = true → StartsFresh (q.apply event) now t'

def hasRoom (q : Queue) : Event → Bool
  | .beginSession _ _ _ _ now =>
    (q.reapExpiredSessions now).waitingOrder.length
      < (q.reapExpiredSessions now).config.waitingCapacity
  | _ => true

theorem Origin.displaces {before after : Queue} (hid : before.Identified)
    (hafter : after.Identified) (h : Origin before after now t')
    (ht : t ∈ before.sessions) (ht' : t' ∈ after.sessions)
    (hgone : ∀ u ∈ after.sessions, u.lease ≠ t.lease)
    (hsame : sameUploadClient t.key.peer t'.key.peer = true) : StartsFresh after now t' := by
  have hclient := (sameUploadClient_iff (hid.hashed t ht) (hafter.hashed t' ht')).mp hsame
  rcases h with ⟨u, hu, hlease, hhash⟩ | h | h
  · -- an entry of the same client from before is the displaced entry itself
    obtain rfl := hid.eq_of_userHash ht hu (hclient.trans hhash.symm)
    exact absurd hlease.symm (hgone t' ht')
  · exact h
  · exact absurd (h t ht hclient).symm (hgone t' ht')

theorem Orderly.reap (h : q.Orderly) (now : Instant) : (q.reapExpiredSessions now).Orderly :=
  @apply _ h (.snapshot now) rfl

theorem Outcome.undisturbed {event : Event} (hr : (q.reapExpiredSessions now).Identified)
    (hafter : (q.apply event).Identified)
    (h : Outcome connectionId now (q.reapExpiredSessions now) (q.apply event)) :
    q.Undisturbed event connectionId now :=
  ⟨fun t ht hc hv ho => h.kept t ht ⟨hc, hv, ho⟩,
    fun _ ht hgone t' ht' _ hsame => (h.origin t' ht').displaces hr hafter ht ht' hgone hsame⟩

/-- **In an orderly queue nobody is taken over.** -/
theorem Orderly.undisturbed (h : q.Orderly) {event : Event} (hid : event.identified = true)
    (hroom : q.hasRoom event = true) (hdisplaces : q.refreshDisplaces event = false)
    (hclaimant : event.claimant = some connectionId) (hnow : event.reapsAt = some now) :
    q.Undisturbed event connectionId now := by
  have hr := h.reap now
  refine Outcome.undisturbed hr.identified (h.apply hid).identified ?_
  cases event with
  | beginSession =>
    cases hclaimant
    cases hnow
    exact beginSession_outcome hr hid (of_decide_eq_true hroom)
  | refreshSessionPeer =>
    cases hclaimant
    cases hnow
    exact refreshSessionPeer_outcome hr hid hdisplaces
  | claimCallbackPromotion =>
    cases hclaimant
    cases hnow
    exact claimCallbackPromotion_outcome hr
  | _ => cases hclaimant

end Queue

namespace System

/-- Peers present their hashes, a newcomer finds room in the waiting queue, and no refresh displaces
    an unverified entry. -/
def Orderly (s : System) (event : Event) : Prop :=
  event.identified = true ∧ s.queue.hasRoom event = true ∧ s.queue.refreshDisplaces event = false

instance (s : System) (event : Event) : Decidable (s.Orderly event) :=
  inferInstanceAs (Decidable (_ ∧ _ ∧ _))

/-- **A verified entry cannot be taken over.** In every run of peers that present their hashes,
    where every newcomer finds room in the waiting queue and no refresh displaces an unverified
    entry, no call of a connection that says who it is removes, rebinds or sets back a connected
    verified entry of another connection; and an entry of the caller that displaces one of the same
    client starts fresh. -/
theorem verified_entry_not_taken_over (config : QueueConfig) (events : List Event) (event : Event)
    (h : Run.Along step Orderly (start config) (events ++ [event])) (connectionId : Nat)
    (now : Instant)
    (hclaimant : event.claimant = some connectionId) (hnow : event.reapsAt = some now) :
    (run config events).queue.Undisturbed event connectionId now := by
  obtain ⟨hpast, hlast, -⟩ := Run.along_append.mp h
  have hq : (run config events).queue.Orderly :=
    hpast.invariant (fun s event hs hevent => orderly_step s event hs hevent.1)
      (Queue.Orderly.new config)
  exact hq.undisturbed hlast.1 hlast.2.1 hlast.2.2 hclaimant hnow

def waitingPeers : List Event :=
  [.beginSession (sharedFile (reachablePeer 1)) 1 plainInputs 0 0,
    .beginSession (sharedFile (reachablePeer 2)) 2 plainInputs 0 0,
    .beginSession (sharedFile { reachablePeer 3 with identVerified := false }) 3 plainInputs 0 0]

/-- A verified newcomer displaces the unverified entry of its hash, and starts fresh. -/
theorem verified_entry_not_taken_over_displaced :
    let event := Event.beginSession (sharedFile (reachablePeer 3)) 4 plainInputs 0 (seconds 1)
    (run oneSlot waitingPeers).queue.Undisturbed event 4 (seconds 1) ∧
      ∃ t' ∈ (run oneSlot (waitingPeers ++ [event])).queue.sessions,
        t'.connectionId = 4 ∧ t'.queuedAt = seconds 1 :=
  ⟨verified_entry_not_taken_over oneSlot waitingPeers _ (by decide +kernel) 4 (seconds 1) rfl rfl,
    by decide +kernel⟩

/-- A peer without a hash and two peers of one hash, one of them verified and at the endpoint of the
    first. The map is iterated as it takes for both to be stored. -/
def sharedEndpoint : List Event :=
  let hashless : PeerIdentity := { reachablePeer 2 with userHash := none, identVerified := false }
  let unverified : PeerIdentity :=
    { reachablePeer 3 with userHash := (reachablePeer 2).userHash, identVerified := false }
  [.beginSession (sharedFile (reachablePeer 1)) 1 plainInputs 0 0,
    .beginSession (sharedFile hashless) 2 plainInputs 0 0,
    .beginSession (sharedFile unverified) 3 plainInputs 0 0,
    .bringForward (sharedFile unverified),
    .beginSession (sharedFile (reachablePeer 2)) 4 plainInputs 0 0,
    .bringForward (sharedFile hashless)]

/-- **A verified entry is overwritten**: the newcomer with its key collides with the entry without a
    hash, which it may displace, and is then stored over the verified one. -/
theorem verified_entry_overwritten : ¬(run oneSlot sharedEndpoint).queue.Undisturbed
      (.beginSession (sharedFile (reachablePeer 2)) 5 plainInputs 0 0) 5 0 := by
  intro h
  obtain ⟨t, ht, hconnected, hverified, hother, hgone⟩ :
      ∃ t ∈ ((run oneSlot sharedEndpoint).queue.reapExpiredSessions 0).sessions,
        t.connected = true ∧ t.key.peer.identVerified = true ∧ t.connectionId ≠ 5 ∧
        ∀ t' ∈ ((run oneSlot sharedEndpoint).queue.apply
          (.beginSession (sharedFile (reachablePeer 2)) 5 plainInputs 0 0)).sessions,
          t'.lease ≠ t.lease := by
    decide +kernel
  obtain ⟨t', ht', hstays⟩ := h.kept t ht hconnected hverified hother
  exact hgone t' ht' hstays.lease

end System

end EmuleBB.Upload
