import EmuleBB.Upload.Moves

/-!
# Calls are made of moves

`reap_expired_sessions` in two stages: first it **settles**, changing sessions in place, retiring
and demoting them, then it **promotes**, entitling and granting. Then every other call, with the
reap it starts with, as moves of the queue: `apply_cases`. From here on no proof looks into a call
to show an invariant.
-/

namespace EmuleBB.Upload

open Relation FirstMatch Session List Table

variable {f : Session → Session}

namespace Queue

variable {identified : Prop} {q q' : Queue}

/-! ## Changes in place -/

/-- Nothing but what the moves do not account for changes. -/
theorem Move.aside (sessions : q'.sessions = q.sessions)
    (books : q'.SameBooks q := by constructor <;> rfl) : Move identified q q' :=
  .touch id (fun session _ => .refl session) (by rw [sessions, map_id]) books

theorem Move.update (q : Queue) (key : SessionKey)
    (kept : ∀ session ∈ q.sessions, session.ident = key.ident → Kept session (f session)) :
    Move identified q (q.update key f) := by
  refine .touch (fun session => if session.ident = key.ident then f session else session) ?_ rfl
    ⟨rfl, rfl, rfl, rfl, rfl, rfl, rfl⟩
  intro session hs
  split
  · next hk => exact kept session hs hk
  · exact .refl session

end Queue

/-! ## What a change in place is made of -/

section Kept

variable (session : Session) (now : Instant)

theorem kept_withdrawCallback : Kept session session.withdrawCallback := by
  unfold withdrawCallback
  cases hp : session.callbackPromotion with
  | none => exact .refl session
  | some =>
    refine ⟨⟨rfl, rfl, rfl, rfl, ?_, fun g hg => ?_, .inl rfl⟩, rfl⟩
    · simp [generation, hp]
    · exact absurd hg (by simp [liveGeneration])

theorem kept_polled : Kept session (session.polled now) := by
  have h := kept_withdrawCallback session
  refine ⟨⟨h.lease, h.isActive, h.inFlightWork, h.queuedAt, h.generation, h.live, .inl ?_⟩, h.key⟩
  unfold polled withdrawCallback
  cases hp : session.callbackPromotion with
  | none => simp [route, hp]
  | some => rfl

theorem kept_requestedParts : Kept session (session.requestedParts now) := by
  unfold requestedParts
  split
  · rename_i hactive
    exact ⟨⟨rfl, hactive.symm, rfl, rfl, rfl, fun _ h => h, .inr ⟨rfl, id⟩⟩, rfl⟩
  · exact ⟨.of_eq rfl rfl rfl rfl rfl id, rfl⟩

theorem kept_servedRange (start finish : Nat) :
    Kept session (session.servedRange start finish now) := by
  unfold servedRange
  dsimp only
  split <;> exact ⟨.of_eq rfl rfl rfl rfl rfl id, rfl⟩

theorem kept_issueDeadline : Kept session (session.issueDeadline now) := by
  unfold issueDeadline
  cases hp : session.callbackPromotion with
  | none => exact ⟨.of_eq rfl rfl rfl rfl hp.symm id, rfl⟩
  | some =>
    refine ⟨⟨rfl, rfl, rfl, rfl, ?_, fun g hg => ?_, .inr ⟨?_, id⟩⟩, rfl⟩
    · simp [generation, hp]
    · simpa [liveGeneration, hp] using hg
    · simp [route, hp]

structure Tended (before after : Session) : Prop extends Kept before after where
  connected : after.connected = before.connected
  connectionId : after.connectionId = before.connectionId

theorem Tended.refl : Tended session session := ⟨.refl session, rfl, rfl⟩

theorem tended_expireCallback : Tended session (Queue.expireCallback now session) := by
  unfold Queue.expireCallback
  cases hp : session.callbackPromotion with
  | none => exact .refl session
  | some =>
    dsimp only
    split
    · refine ⟨⟨⟨rfl, rfl, rfl, rfl, ?_, fun g hg => ?_, .inr ⟨?_, id⟩⟩, rfl⟩, rfl, rfl⟩
      · simp [generation, hp]
      · exact absurd hg (by simp [liveGeneration])
      · simp [route, hp]
    · exact .refl session

theorem tended_trackSlowUpload {shouldTrack : Bool} {threshold : Nat} :
    Tended session (Queue.trackSlowUpload shouldTrack threshold now session) := by
  unfold Queue.trackSlowUpload
  dsimp only
  repeat' split
  all_goals exact ⟨⟨.of_eq rfl rfl rfl rfl rfl id, rfl⟩, rfl, rfl⟩

end Kept

namespace Queue

variable {identified : Prop} {q q' : Queue} {now : Instant} {session existing old : Session}
  {recycle : Recycle} {expired : SessionKey × Option Recycle} {key : SessionKey} {waiter : Waiter}
  {peer : PeerIdentity} {connectionId : Nat} {inputs : ScoreInputs} {handle : SessionHandle}
  {allow armed : Bool} {next : Queue × Bool} {live : Nat} {other : Session}
  {observedPeer : PeerIdentity} {event : Event}

/-! ## The two stages of a reap -/

inductive Settles : Queue → Queue → Prop
  | tend {q q' : Queue} (f : Session → Session)
      (tended : ∀ session ∈ q.sessions, Tended session (f session))
      (sessions : q'.sessions = q.sessions.map f) (books : q'.SameBooks q) : Settles q q'
  | retire (q : Queue) (key : SessionKey) : Settles q (q.retireSessionKey key)
  | demote (q : Queue) (key : SessionKey) (now : Instant) {session : Session}
      (stored : q.get key = some session) (active : session.isActive = true)
      (idle : session.inFlightWork = 0) : Settles q (q.demote key now)

inductive Promotes : Queue → Queue → Prop
  | aside {q q' : Queue} (sessions : q'.sessions = q.sessions) (books : q'.SameBooks q) :
      Promotes q q'
  | entitle (q : Queue) (key : SessionKey) {session : Session}
      (stored : q.get key = some session) (waiting : session.isWaiting = true) :
      Promotes q (q.entitle key)
  | grant (q : Queue) (key : SessionKey) (now : Instant) {session : Session}
      (stored : q.get key = some session) (waiting : session.isWaiting = true)
      (free : q.activeSessionCount < q.effectiveActiveSlotLimit now) :
      Promotes q (q.grant key session now)

theorem Settles.move (h : Settles q q') : Move identified q q' := by
  cases h with
  | tend f tended sessions books => exact .touch f (fun t ht => (tended t ht).toKept) sessions books
  | retire key => exact .retire q key
  | demote key now stored active idle => exact .demote q key now stored active idle

theorem Promotes.move (h : Promotes q q') : Move identified q q' := by
  cases h with
  | aside sessions books => exact .aside sessions books
  | entitle key stored waiting => exact .entitle q key stored waiting
  | grant key now stored waiting free => exact .grant q key now stored waiting free

theorem Settles.aside (sessions : q'.sessions = q.sessions)
    (books : q'.SameBooks q := by constructor <;> rfl) : Settles q q' :=
  .tend id (fun session _ => .refl session) (by rw [sessions, map_id]) books

/-! ### Settling -/

theorem prepareReap_settles (q : Queue) (now : Instant) :
    ReflTransGen Settles q (q.prepareReap now) := by
  have observed : Settles q (q.observeWireProgress now) := by
    refine .tend _ (fun session _ => ?_) rfl ⟨rfl, rfl, rfl, rfl, rfl, rfl, rfl⟩
    split <;> exact ⟨⟨.of_eq rfl rfl rfl rfl rfl id, rfl⟩, rfl, rfl⟩
  have refreshed : Settles (q.observeWireProgress now)
      ((q.observeWireProgress now).refreshElasticUnderfill now) :=
    .aside rfl
  refine .head observed (.head refreshed ?_)
  rw [prepareReap]
  generalize (q.observeWireProgress now).refreshElasticUnderfill now = q
  have tracked : Settles q (q.updateSlowUploadTracking now) :=
    .tend _ (fun session _ => tended_trackSlowUpload _ _) rfl
      ⟨rfl, rfl, rfl, rfl, rfl, rfl, rfl⟩
  refine .head tracked (.single ?_)
  exact .tend _ (fun session _ => tended_expireCallback session now) rfl
    ⟨rfl, rfl, rfl, rfl, rfl, rfl, rfl⟩

theorem underfilledActiveRecycle_idle (h : q.underfilledActiveRecycle session now = some recycle) :
    session.inFlightWork = 0 := by
  unfold underfilledActiveRecycle at h
  split at h
  · cases h
  · rename_i hguard
    simp only [Bool.or_eq_true, decide_eq_true_eq, not_or] at hguard
    exact not_not.mp hguard.1.1.1.2

theorem sessionCapRotation_idle (h : q.sessionCapRotation session now = some recycle) :
    session.inFlightWork = 0 := by
  unfold sessionCapRotation at h
  dsimp only at h
  split at h
  · cases h
  · rename_i hguard
    simp only [Bool.or_eq_true, decide_eq_true_eq, not_or] at hguard
    exact not_not.mp hguard.1.1.1

theorem expiry_recycle (h : q.expiry now session = some (some recycle)) : session.isActive = true ∧
      (recycle.reason = .promotionTimeout ∨ session.inFlightWork = 0) := by
  unfold expiry at h
  split at h
  · split at h <;> cases h
  · rename_i hwaiting
    rw [isWaiting_eq, Bool.not_eq_true, Bool.not_eq_false'] at hwaiting
    refine ⟨hwaiting, ?_⟩
    split at h
    · cases h
      exact .inl rfl
    · split at h
      · rename_i recycled hrecycled
        cases h
        exact .inr (underfilledActiveRecycle_idle hrecycled)
      · obtain ⟨recycled, hrecycled, heq⟩ := Option.map_eq_some_iff.mp h
        cases heq
        exact .inr (sessionCapRotation_idle hrecycled)

/-- A session that a recycle may demote is idle where the loop finds it. -/
def Recyclable (q : Queue) (expired : SessionKey × Option Recycle) : Prop :=
  ∀ recycle, expired.2 = some recycle → recycle.reason ≠ .promotionTimeout →
    ∃ session, q.get expired.1 = some session ∧ session.isActive = true ∧
      session.inFlightWork = 0

theorem expiredSessions_recyclable (h : q.Sound) (hmem : expired ∈ q.expiredSessions now) :
    q.Recyclable expired := by
  intro recycle hrecycle hreason
  obtain ⟨session, hs, hexp⟩ := mem_filterMap.mp hmem
  obtain ⟨decision, hdecision, rfl⟩ := Option.map_eq_some_iff.mp hexp
  obtain rfl : decision = some recycle := hrecycle
  obtain ⟨hactive, hidle⟩ := expiry_recycle hdecision
  exact ⟨session, h.get_of_mem hs, hactive, hidle.resolve_left hreason⟩

theorem expiredSessions_nodup (h : q.Sound) :
    ((q.expiredSessions now).map fun expired => expired.1.ident).Nodup := by
  refine nodup_filterMap (fun session expired hexp => ?_) h.keys
  obtain ⟨decision, -, rfl⟩ := Option.map_eq_some_iff.mp hexp
  rfl

/-- One turn of the loop retires its session or demotes it, and a timed-out dial is not
    demoted. -/
theorem settleExpired_cases : ∃ cooldown,
      settleExpired now q expired = { q with cooldown := cooldown }.retireSessionKey expired.1 ∨
      (∃ recycle, expired.2 = some recycle ∧ recycle.reason ≠ .promotionTimeout ∧
        settleExpired now q expired = { q with cooldown := cooldown }.demote expired.1 now) := by
  unfold settleExpired
  cases hr : expired.2 with
  | none => exact ⟨q.cooldown, .inl rfl⟩
  | some recycle =>
    refine ⟨(q.seedCooldown expired.1 recycle now).1, ?_⟩
    dsimp only
    split
    · exact .inl rfl
    · rename_i hguard
      refine .inr ⟨recycle, rfl, fun hreason => hguard ?_, rfl⟩
      simp [seedCooldown, hreason]

theorem settleExpired_get (hne : key.ident ≠ expired.1.ident) :
    (settleExpired now q expired).get key = q.get key := by
  obtain ⟨cooldown, heq | ⟨recycle, -, -, heq⟩⟩ := settleExpired_cases
  · rw [heq]
    exact lookup_remove_of_ne hne
  · rw [heq]
    exact lookup_update_of_ne (fun session hk => hk) hne

theorem settleExpired_settles (h : q.Recyclable expired) :
    ReflTransGen Settles q (settleExpired now q expired) := by
  obtain ⟨cooldown, heq⟩ := @settleExpired_cases q now expired
  have cooled : Settles q { q with cooldown := cooldown } := .aside rfl
  obtain heq | ⟨recycle, hrecycle, hreason, heq⟩ := heq
  · rw [heq]
    exact .head cooled (.single (.retire _ _))
  · obtain ⟨session, hget, hactive, hidle⟩ := h recycle hrecycle hreason
    rw [heq]
    exact .head cooled (.single (.demote { q with cooldown := cooldown } _ _ hget hactive hidle))

/-- The loop over the expired sessions: each is met as it was when the list was made. -/
theorem settleAll_settles {expired : List (SessionKey × Option Recycle)}
    (hnodup : (expired.map fun e => e.1.ident).Nodup) (h : ∀ e ∈ expired, q.Recyclable e) :
    ReflTransGen Settles q (expired.foldl (settleExpired now) q) := by
  induction expired generalizing q with
  | nil => exact .refl
  | cons e rest ih =>
    rw [map_cons, nodup_cons] at hnodup
    refine (settleExpired_settles (h e mem_cons_self)).trans (ih hnodup.2 fun e' he' => ?_)
    intro recycle hrecycle hreason
    have hne : e'.1.ident ≠ e.1.ident := fun heq =>
      hnodup.1 (mem_map.mpr ⟨e', he', heq⟩)
    rw [settleExpired_get hne]
    exact h e' (mem_cons_of_mem _ he') recycle hrecycle hreason

theorem trimLoop_settles (fuel : Nat) (q : Queue) :
    ReflTransGen Settles q (trimLoop now fuel q) := by
  induction fuel generalizing q with
  | zero => exact .refl
  | succ fuel ih =>
    rw [trimLoop]
    split
    · exact .refl
    · split
      · exact .refl
      · rename_i evicted _
        exact .head (.retire q evicted.1) (ih _)

theorem trimWaitingQueue_settles : ReflTransGen Settles q (q.trimWaitingQueue now) :=
  trimLoop_settles _ q

/-! ### Promoting -/

theorem mem_waiters : waiter ∈ q.waiters ↔
      waiter.1 ∈ q.waitingOrder ∧ q.get waiter.1 = some waiter.2 ∧ waiter.2.isWaiting = true := by
  obtain ⟨key, session⟩ := waiter
  simp only [waiters, mem_filterMap, Option.map_eq_some_iff, Option.filter_eq_some_iff,
    Prod.mk.injEq]
  constructor
  · rintro ⟨queued, horder, stored, ⟨hget, hwaiting⟩, rfl, rfl⟩
    exact ⟨horder, hget, hwaiting⟩
  · rintro ⟨horder, hget, hwaiting⟩
    exact ⟨key, horder, session, ⟨hget, hwaiting⟩, rfl, rfl⟩

theorem mem_rankedWaiters : waiter ∈ q.rankedWaiters now ↔ waiter ∈ q.waiters :=
  (perm_insertionSort _ _).mem_iff

theorem bestProbe_mem {ranked : List Waiter} {best : Option Waiter}
    (h : q.bestProbe now allow ranked best = some waiter) : best = some waiter ∨
      (waiter ∈ ranked ∧ waiterIsSelectable allow waiter = true) := by
  induction ranked generalizing best with
  | nil => exact .inl h
  | cons first rest ih =>
    rw [bestProbe] at h
    split at h
    · rename_i hguard
      rcases ih h with heq | ⟨hmem, hsel⟩
      · cases heq
        simp only [Bool.and_eq_true] at hguard
        exact .inr ⟨mem_cons_self, hguard.1.1⟩
      · exact .inr ⟨mem_cons_of_mem _ hmem, hsel⟩
    · rcases ih h with heq | ⟨hmem, hsel⟩
      · exact .inl heq
      · exact .inr ⟨mem_cons_of_mem _ hmem, hsel⟩

theorem bestAdmissibleWaiter_mem (h : q.bestAdmissibleWaiter now allow = some waiter) :
    waiter ∈ q.waiters ∧ waiterIsSelectable allow waiter = true := by
  unfold bestAdmissibleWaiter at h
  dsimp only at h
  split at h
  · rename_i found hfound
    cases h
    have hsel := find?_some hfound
    rw [Bool.and_eq_true] at hsel
    exact ⟨mem_rankedWaiters.mp (mem_of_find?_eq_some hfound), hsel.1⟩
  · split at h
    · obtain heq | ⟨hmem, hsel⟩ := bestProbe_mem h
      · cases heq
      · exact ⟨mem_rankedWaiters.mp hmem, hsel⟩
    · cases h

/-- **What one turn of the promote loop can do.** -/
theorem promoteOne_cases (h : q.promoteOne now armed = some next) :
    ∃ key session, (key, session) ∈ q.waiters ∧
      q.activeSessionCount < q.effectiveActiveSlotLimit now ∧
      ((armed = false ∧ session.connected = false ∧ next = (q.entitle key, true)) ∨
        next = (q.grant key session now, armed)) := by
  unfold promoteOne at h
  split at h
  · rename_i hguard
    simp only [Bool.and_eq_true, decide_eq_true_eq] at hguard
    split at h
    · cases h
    · rename_i key session hbest
      obtain ⟨hmem, hsel⟩ := bestAdmissibleWaiter_mem hbest
      refine ⟨key, session, hmem, hguard.1, ?_⟩
      split at h
      · rename_i hdetached
        cases h
        simp only [Bool.and_eq_true, Bool.not_eq_true'] at hdetached
        refine .inl ⟨?_, hdetached.1, rfl⟩
        -- with a callback armed in this pass, a detached LowID waiter is not selectable
        cases armed with
        | false => rfl
        | true => exact absurd hsel (by simp [waiterIsSelectable, hdetached.1, hdetached.2])
      · exact .inr (by simpa using h.symm)
  · cases h

theorem promoteOne_promotes (h : q.promoteOne now armed = some next) : Promotes q next.1 := by
  obtain ⟨key, session, hmem, hfree, ⟨-, -, rfl⟩ | rfl⟩ := promoteOne_cases h
  · exact .entitle q key (mem_waiters.mp hmem).2.1 (mem_waiters.mp hmem).2.2
  · exact .grant q key now (mem_waiters.mp hmem).2.1 (mem_waiters.mp hmem).2.2 hfree

theorem promoteLoop_promotes (fuel : Nat) (state : Queue × Bool) :
    ReflTransGen Promotes state.1 (promoteLoop now fuel state).1 := by
  induction fuel generalizing state with
  | zero => exact .refl
  | succ fuel ih =>
    rw [promoteLoop]
    split
    · exact .refl
    · rename_i next hnext
      exact .head (promoteOne_promotes hnext) (ih next)

theorem promoteWaiters_promotes (q : Queue) (now : Instant) :
    ReflTransGen Promotes q (q.promoteWaiters now) := by
  have refreshed : Promotes q (q.refreshElasticUnderfill now) :=
    .aside rfl ⟨rfl, rfl, rfl, rfl, rfl, rfl, rfl⟩
  exact .head refreshed (promoteLoop_promotes _ (q.refreshElasticUnderfill now, false))

/-- Each turn takes a key out of the queue or spends the callback of the pass. -/
theorem promoteOne_shrinks (h : q.promoteOne now armed = some next) :
    next.1.waitingOrder.length + (!next.2).toNat < q.waitingOrder.length + (!armed).toNat := by
  obtain ⟨key, session, hmem, -, ⟨rfl, -, rfl⟩ | rfl⟩ := promoteOne_cases h
  · exact Nat.lt_succ_self _
  · have hleaves : (q.grant key session now).waitingOrder.length < q.waitingOrder.length :=
      length_filter_lt_length_iff_exists.mpr ⟨key, (mem_waiters.mp hmem).1, by simp⟩
    exact Nat.add_lt_add_right hleaves _

theorem promoteLoop_settled (fuel : Nat) (state : Queue × Bool)
    (h : state.1.waitingOrder.length + (!state.2).toNat ≤ fuel) :
    (promoteLoop now fuel state).1.promoteOne now (promoteLoop now fuel state).2 = none := by
  induction fuel generalizing state with
  | zero =>
    rw [promoteLoop, Option.eq_none_iff_forall_ne_some]
    intro next hnext
    have := promoteOne_shrinks hnext
    omega
  | succ fuel ih =>
    rw [promoteLoop]
    split
    · assumption
    · rename_i next hnext
      have := promoteOne_shrinks hnext
      exact ih next (by omega)

/-- **The promote loop has fuel enough**: it ends where the source's loop does. -/
theorem promoteWaiters_settled (q : Queue) (now : Instant) :
    ∃ armed, (q.promoteWaiters now).promoteOne now armed = none :=
  ⟨_, promoteLoop_settled _ (q.refreshElasticUnderfill now, false) le_rfl⟩

/-! ### The reap -/

theorem settles_moves (h : ReflTransGen Settles q q') : Moves identified q q' :=
  ReflTransGen.mono (fun _ _ => Settles.move) _ _ h

theorem promotes_moves (h : ReflTransGen Promotes q q') : Moves identified q q' :=
  ReflTransGen.mono (fun _ _ => Promotes.move) _ _ h

theorem prepareReap_settles_on (h : q.Sound) :
    ReflTransGen Settles (q.prepareReap now) (q.settleExpiredSessions now) := by
  have hsound : (q.prepareReap now).Sound :=
    (@settles_moves True _ _ (prepareReap_settles q now)).sound h
  exact settleAll_settles (expiredSessions_nodup hsound) fun _ => expiredSessions_recyclable hsound

theorem settleExpiredSessions_settles (h : q.Sound) (now : Instant) :
    ReflTransGen Settles q (q.settleExpiredSessions now) :=
  (prepareReap_settles q now).trans (prepareReap_settles_on h)

theorem prepareReap_moves (h : q.Sound) (now : Instant) :
    Moves identified (q.prepareReap now) (q.reapExpiredSessions now) :=
  (settles_moves (prepareReap_settles_on h)).trans
    ((settles_moves trimWaitingQueue_settles).trans
      (promotes_moves (promoteWaiters_promotes _ now)))

/-- **A reap settles, then promotes.** -/
theorem reap_stages (h : q.Sound) (now : Instant) : ∃ settled, ReflTransGen Settles q settled ∧
      ReflTransGen Promotes settled (q.reapExpiredSessions now) :=
  ⟨_, (settleExpiredSessions_settles h now).trans trimWaitingQueue_settles,
    promoteWaiters_promotes _ now⟩

/-- Expiry comes to moves. -/
theorem reap_moves (h : q.Sound) (now : Instant) :
    Moves identified q (q.reapExpiredSessions now) := by
  obtain ⟨settled, hsettles, hpromotes⟩ := reap_stages h now
  exact (settles_moves hsettles).trans (promotes_moves hpromotes)

/-! ## Courses

A call is a course of legs. Only two of them queue anybody: a reap, which demotes, and the admission
of a newcomer; both trim the queue before they end. -/

/-- **One leg of a call.** -/
inductive Leg (identified : Prop) : Queue → Queue → Prop
  /-- A move that queues nobody. -/
  | light {q q' : Queue} (move : Move identified q q')
      (order : q'.waitingOrder.length ≤ q.waitingOrder.length) : Leg identified q q'
  | reap {q : Queue} (sound : q.Sound) (now : Instant) :
      Leg identified q (q.reapExpiredSessions now)
  | trim (q : Queue) (now : Instant) : Leg identified q (q.trimWaitingQueue now)
  | promote (q : Queue) (now : Instant) : Leg identified q (q.promoteWaiters now)
  | queued (q : Queue) (key : SessionKey) (connectionId : Nat) (inputs : ScoreInputs)
      (now : Instant) (newcomer : identified → q.Newcomer key) :
      Leg identified q ((q.insertWaiting key connectionId inputs now).trimWaitingQueue now)

abbrev Course (identified : Prop) : Queue → Queue → Prop := ReflTransGen (Leg identified)

theorem Leg.moves (leg : Leg identified q q') : Moves identified q q' := by
  cases leg with
  | light move => exact .single move
  | reap sound now => exact reap_moves sound now
  | trim now => exact settles_moves trimWaitingQueue_settles
  | promote now => exact promotes_moves (promoteWaiters_promotes q now)
  | queued key connectionId inputs now newcomer =>
    exact .head (.admitWaiting q key connectionId inputs now newcomer)
      (settles_moves trimWaitingQueue_settles)

theorem Course.moves (course : Course identified q q') : Moves identified q q' := by
  induction course with
  | refl => exact .refl
  | tail _ leg ih => exact ih.trans leg.moves

theorem Leg.aside (sessions : q'.sessions = q.sessions)
    (books : q'.SameBooks q := by constructor <;> rfl) : Leg identified q q' :=
  .light (.aside sessions books) (by rw [books.waitingOrder])

theorem Leg.update (q : Queue) (key : SessionKey)
    (kept : ∀ session ∈ q.sessions, session.ident = key.ident → Kept session (f session)) :
    Leg identified q (q.update key f) :=
  .light (.update q key kept) le_rfl

theorem Leg.retire (q : Queue) (key : SessionKey) : Leg identified q (q.retireSessionKey key) :=
  .light (.retire q key) (length_filter_le _ _)

/-! ## Beginning a session -/

theorem newcomer_of_absent (hq : q.Identified) (hkey : key.peer.hasUserHash = true)
    (h : q.sessionForPeer key.peer = none) : q.Newcomer key := by
  refine ⟨hkey, fun t ht heq => ?_⟩
  have hsame := find?_eq_none.mp h t ht
  exact hsame ((sameUploadClient_iff (hq.hashed t ht) hkey).mpr heq)

theorem sessionForPeer_mem (h : q.sessionForPeer peer = some existing) :
    existing ∈ q.sessions ∧ sameUploadClient existing.key.peer peer = true := by
  exact ⟨mem_of_find?_eq_some h, by simpa using find?_some h⟩

theorem userHash_of_sessionForPeer (hq : q.Identified) (hpeer : peer.hasUserHash = true)
    (h : q.sessionForPeer peer = some existing) : existing.userHash = peer.userHash :=
  (sameUploadClient_iff (hq.hashed _ (sessionForPeer_mem h).1) hpeer).mp (sessionForPeer_mem h).2

theorem unclaimed_of_userHash (hq : q.Identified) (hold : old ∈ q.sessions) {new : SessionKey}
    (h : old.userHash = new.peer.userHash) : q.Unclaimed old.key new := by
  intro t ht hne heq
  rw [hq.eq_of_userHash ht hold (heq.trans h.symm)] at hne
  exact hne rfl

theorem newcomer_of_retired (hq : q.Identified) (hold : old ∈ q.sessions)
    (hkey : key.peer.hasUserHash = true) (h : old.userHash = key.peer.userHash) :
    (q.retireSessionKey old.key).Newcomer key :=
  ⟨hkey, fun t ht => unclaimed_of_userHash hq hold h t (mem_remove.mp ht).1
    (mem_remove.mp ht).2⟩

theorem admitSession_cases (q : Queue) (key : SessionKey) (connectionId : Nat)
    (inputs : ScoreInputs)
    (live : Nat) (now : Instant) :
    (q.admitSession key connectionId inputs live now).1 = q ∨
    (q.admitSession key connectionId inputs live now).1 = q.refreshElasticUnderfill now ∨
    ((q.refreshElasticUnderfill now).activeSessionCount
        < (q.refreshElasticUnderfill now).effectiveActiveSlotLimit now ∧
      (q.admitSession key connectionId inputs live now).1 =
        ((q.refreshElasticUnderfill now).insertGranted key connectionId inputs
          now).trimWaitingQueue now) ∨
    (q.admitSession key connectionId inputs live now).1 =
      (((q.refreshElasticUnderfill now).insertWaiting key connectionId inputs now).trimWaitingQueue
        now).promoteWaiters now := by
  unfold admitSession
  split
  · exact .inl rfl
  · dsimp only
    split
    · rename_i hgrant
      simp only [inlineGrant, Bool.and_eq_true, decide_eq_true_eq] at hgrant
      exact .inr (.inr (.inl ⟨hgrant.1.1.1, rfl⟩))
    · split
      · exact .inr (.inl rfl)
      · exact .inr (.inr (.inr rfl))

theorem admitSession_course (hnew : identified → q.Newcomer key) :
    Course identified q (q.admitSession key connectionId inputs live now).1 := by
  have refreshed : Leg identified q (q.refreshElasticUnderfill now) := .aside rfl
  rcases q.admitSession_cases key connectionId inputs live now with heq | heq | ⟨hfree, heq⟩ | heq
  all_goals rw [heq]
  · exact .single refreshed
  · exact .head refreshed (.head (.light (.admitGranted _ key connectionId inputs now hfree hnew)
      le_rfl) (.single (.trim _ now)))
  · exact .head refreshed (.head (.queued _ key connectionId inputs now hnew)
      (.single (.promote _ now)))

theorem activeSessionCount_remove (h : q.Sound) (hold : old ∈ q.sessions)
    (hwaiting : old.isWaiting = true) :
    (q.remove old.key).activeSessionCount = q.activeSessionCount := by
  refine countP_remove_of_not fun t ht hk => ?_
  rw [h.eq_of_ident ht hold hk]
  rwa [isWaiting_eq, Bool.not_eq_true'] at hwaiting

/-- The session a re-ask makes of one whose entitlement it does not use. -/
theorem carried_reattached (existing : Session) (key : SessionKey) (connectionId : Nat)
    (inputs : ScoreInputs) (now : Instant) :
    Carried existing (existing.reattached key connectionId false inputs now) := by
  have hfile : Carried existing (existing.forFile key.fileHash) := by
    unfold forFile
    split <;> exact .of_eq rfl rfl rfl rfl rfl id
  have hpromotion : (existing.forFile key.fileHash).callbackPromotion
      = existing.callbackPromotion := by
    unfold forFile
    split <;> rfl
  unfold reattached
  cases hp : existing.callbackPromotion with
  | none =>
    refine ⟨hfile.lease, hfile.isActive, hfile.inFlightWork, hfile.queuedAt, hfile.generation,
      hfile.live, .inl ?_⟩
    simp [route, rescored, hpromotion, hp]
  | some =>
    have hwithdrawn := kept_withdrawCallback
      { existing.forFile key.fileHash with connectionId := connectionId, connected := true }
    refine ⟨hwithdrawn.lease.trans hfile.lease, hwithdrawn.isActive.trans hfile.isActive,
      hwithdrawn.inFlightWork.trans hfile.inFlightWork, hwithdrawn.queuedAt.trans hfile.queuedAt,
      hwithdrawn.generation.trans hfile.generation,
      fun g hg => hfile.live g (hwithdrawn.live g hg), .inl ?_⟩
    simp [route, rescored, withdrawCallback, hpromotion, hp]

/-- **A re-ask is a change of key, or the claim of an entitlement.** -/
theorem reattach_eq (h : q.Sound) (hold : existing ∈ q.sessions) (key : SessionKey)
    (connectionId : Nat) (inputs : ScoreInputs) (now : Instant) :
    q.reattach existing key connectionId inputs now =
      if q.consumesEntitlement existing now then
        q.claim existing (existing.reattached key connectionId true inputs now) now
      else q.rekey existing (existing.reattached key connectionId false inputs now) := by
  unfold reattach
  cases hc : q.consumesEntitlement existing now with
  | true =>
    have hwaiting : existing.isWaiting = true := by
      refine h.entitled existing hold ?_
      unfold consumesEntitlement at hc
      rw [Bool.and_eq_true] at hc
      rw [generation]
      simpa [Option.isSome_iff_ne_none] using hc.1
    have hcount := activeSessionCount_remove h hold hwaiting
    simp only [hwaiting, if_true, Bool.not_true, Bool.false_eq_true, if_false]
    unfold claim stampSlotOpen
    rw [hcount]
    rfl
  | false =>
    cases hw : existing.isWaiting with
    | true => simp only [Bool.not_true, Bool.false_eq_true, if_false, rekey, hw, if_true]; rfl
    | false => simp only [Bool.not_false, Bool.false_eq_true, if_false, rekey, hw, if_true]; rfl

theorem length_rekey : (q.rekey old session).waitingOrder.length = q.waitingOrder.length := by
  simp only [rekey, insert, remove, replaceWaitingKey]
  split
  · exact length_modifyFirst
  · rfl

theorem reattach_course (h : q.Sound) (hold : existing ∈ q.sessions)
    (hid : identified → key.peer.hasUserHash = true ∧ q.Unclaimed existing.key key) :
    Course identified q (q.reattach existing key connectionId inputs now) := by
  rw [reattach_eq h hold]
  split
  · rename_i hc
    unfold consumesEntitlement at hc
    rw [Bool.and_eq_true, decide_eq_true_eq] at hc
    have hsome : existing.callbackPromotion.isNone = false := by
      simpa [Option.isNone_iff_eq_none] using hc.1
    have hwaiting : existing.isWaiting = true :=
      h.entitled existing hold (by rw [generation]; simpa [Option.isSome_iff_ne_none] using hc.1)
    rw [activeSessionCount_remove h hold hwaiting] at hc
    have hlease : (existing.forFile key.fileHash).lease = existing.lease := by
      unfold forFile
      split <;> rfl
    have hwork : (existing.forFile key.fileHash).inFlightWork = existing.inFlightWork := by
      unfold forFile
      split <;> rfl
    refine .single (.light (.claim q now hold hwaiting hc.2 ?_ ?_ ?_ ?_ hid)
      (length_filter_le _ _))
    all_goals
      simp only [reattached, hsome, if_true, Bool.false_eq_true, if_false,
        rescored, granted, resetSlowUpload]
    · rfl
    · exact hlease
    · exact hwork
  · exact .single (.light
      (.rekey q hold (carried_reattached existing key connectionId inputs now) hid)
      length_rekey.le)

theorem isAttaching_iff {existing : Session} :
    existing.isAttaching key = true ↔ existing.connected = false ∧
      ((existing.isWaiting = true ∧ existing.callbackPromotion.isSome = true) ∨
        (existing.phase = .granted ∧ existing.key.peer.ip = key.peer.ip ∧
          existing.key.peer.tcpPort = key.peer.tcpPort)) := by
  simp [Session.isAttaching, and_assoc]

/-- How `begin_session` ends, from where its maintenance leaves the queue. -/
theorem beginSession_cases (q : Queue) (key : SessionKey) (connectionId : Nat)
    (inputs : ScoreInputs)
    (live : Nat) (now : Instant) :
    let r := q.reapExpiredSessions now
    let q' := (q.beginSessionWithLiveConnections key connectionId inputs live now).1
    q' = r ∨
    (r.sessionForPeer key.peer = none ∧ q' = (r.admitSession key connectionId inputs live now).1) ∨
    (∃ existing, r.sessionForPeer key.peer = some existing ∧
      existing.key.peer.identVerified = false ∧
      (q' = (r.retireSessionKey existing.key).promoteWaiters now ∨
        q' = ((r.retireSessionKey existing.key).admitSession key connectionId inputs live now).1)) ∨
    ∃ existing, r.sessionForPeer key.peer = some existing ∧
      (existing.connectionId = connectionId ∨ existing.connected = false) ∧
      q' = r.reattach existing key connectionId inputs now := by
  unfold beginSessionWithLiveConnections
  generalize q.reapExpiredSessions now = r
  dsimp only
  split
  · exact .inl rfl
  · split
    · rename_i habsent
      exact .inr (.inl ⟨habsent, rfl⟩)
    · rename_i existing hexisting
      split
      · split
        · exact .inl rfl
        · rename_i hunverified
          rw [Bool.not_eq_true] at hunverified
          refine .inr (.inr (.inl ⟨existing, hexisting, hunverified, ?_⟩))
          split
          · exact .inl rfl
          · exact .inr rfl
      · rename_i hown
        refine .inr (.inr (.inr ⟨existing, hexisting, ?_, rfl⟩))
        simp only [Bool.and_eq_true, decide_eq_true_eq, not_and, Bool.not_eq_true',
          Bool.not_eq_false] at hown
        by_cases hc : existing.connectionId = connectionId
        · exact .inl hc
        · exact .inr (isAttaching_iff.mp (hown hc)).1

theorem beginSession_course (h : q.Sound)
    (hid : identified → q.Identified ∧ key.peer.hasUserHash = true) :
    Course identified (q.reapExpiredSessions now)
      (q.beginSessionWithLiveConnections key connectionId inputs live now).1 := by
  have hreap := @reap_moves identified _ h now
  have hr := hreap.sound h
  have hrid : identified → (q.reapExpiredSessions now).Identified ∧ key.peer.hasUserHash = true :=
    fun hi => ⟨hreap.identified hi (hid hi).1, (hid hi).2⟩
  have hcases := q.beginSession_cases key connectionId inputs live now
  generalize q.reapExpiredSessions now = r at hr hrid hcases ⊢
  rcases hcases with heq | ⟨habsent, heq⟩ | ⟨existing, hfound, -, heq | heq⟩ |
    ⟨existing, hfound, -, heq⟩
  all_goals rw [heq]
  · exact admitSession_course fun hi => newcomer_of_absent (hrid hi).1 (hrid hi).2 habsent
  all_goals
    have hmem := (sessionForPeer_mem hfound).1
    have hhash : identified → existing.userHash = key.peer.userHash := fun hi =>
      userHash_of_sessionForPeer (hrid hi).1 (hrid hi).2 hfound
  · exact .head (.retire r existing.key) (.single (.promote _ now))
  · exact .head (.retire r existing.key) (admitSession_course fun hi =>
      newcomer_of_retired (hrid hi).1 hmem (hrid hi).2 (hhash hi))
  · exact reattach_course hr hmem fun hi =>
      ⟨(hrid hi).2, unclaimed_of_userHash (hrid hi).1 hmem (hhash hi)⟩

/-! ## A connection's own session -/

theorem mem_owned (h : q.owned handle = some session) :
    q.get handle.key = some session ∧ session.connectionId = handle.connectionId := by
  unfold owned at h
  simpa [Option.filter_eq_some_iff] using h

theorem pollSession_course (handle : SessionHandle) {refreshActivity : Bool} :
    Course identified (q.reapExpiredSessions now) (q.pollSession handle now refreshActivity).1 := by
  unfold pollSession
  dsimp only
  split
  · exact .refl
  · split
    · exact .single (.update _ handle.key fun session _ _ => kept_polled session now)
    · exact .refl

theorem noteRequestParts_course (handle : SessionHandle) :
    Course identified (q.reapExpiredSessions now) (q.noteRequestParts handle now).1 := by
  unfold noteRequestParts
  dsimp only
  split
  · exact .refl
  · exact .single (.update _ handle.key fun session _ _ => kept_requestedParts session now)

theorem noteRequestedRange_course (handle : SessionHandle) (start finish : Nat) :
    Course identified (q.reapExpiredSessions now)
      (q.noteRequestedRange handle start finish now).1 := by
  unfold noteRequestedRange
  dsimp only
  split
  · exact .refl
  · split <;>
      exact .single (.update _ handle.key fun _ _ _ => ⟨.of_eq rfl rfl rfl rfl rfl id, rfl⟩)

theorem noteServedRange_course (handle : SessionHandle) (start finish : Nat) :
    Course identified (q.reapExpiredSessions now)
      (q.noteServedRange handle start finish now).1 := by
  unfold noteServedRange
  dsimp only
  split
  · exact .refl
  · exact .single
      (.update _ handle.key fun session _ _ => kept_servedRange session now start finish)

theorem noteUploadedBytes_course (handle : SessionHandle) {byteCount : Nat} :
    Course identified (q.reapExpiredSessions now) (q.noteUploadedBytes handle byteCount now).1 := by
  unfold noteUploadedBytes
  generalize q.reapExpiredSessions now = r
  dsimp only
  split
  · exact .refl
  · have uploaded : Leg identified r (r.update handle.key (·.uploaded byteCount now)) :=
      .update _ handle.key fun _ _ _ => ⟨.of_eq rfl rfl rfl rfl rfl id, rfl⟩
    refine .head uploaded (.head ?_ (.single (.promote _ now)))
    exact .aside rfl

theorem noteQueuedBlockRequest_course :
    Course identified q (q.noteQueuedBlockRequest peer now).1 := by
  unfold noteQueuedBlockRequest
  split
  · dsimp only
    generalize q.cooldown.clearRetryCooldownOnQueuedRequest peer.ip q.openBaseSlotUnderfill now
      = clear
    have cooled : Leg identified q { q with cooldown := clear.1 } :=
      .aside rfl
    split
    · exact .head cooled (.single (.promote _ now))
    · exact .single cooled
  · exact .refl

/-! ## Identity refreshes -/

theorem collision_mem (h : q.collision handle peer = some other) :
    other ∈ q.sessions ∧ other.ident ≠ handle.key.ident ∧
      sameUploadClient other.key.peer peer = true := by
  have hfound := find?_some h
  simp only [Bool.and_eq_true, Bool.not_eq_true', SessionKey.same,
    decide_eq_false_iff_not] at hfound
  exact ⟨mem_of_find?_eq_some h, hfound.1, hfound.2⟩

theorem unclaimed_of_no_collision (hq : q.Identified) (hpeer : peer.hasUserHash = true)
    (h : q.collision handle peer = none) : q.Unclaimed handle.key ⟨peer, handle.key.fileHash⟩ := by
  intro t ht hne heq
  have hsame := (sameUploadClient_iff (hq.hashed t ht) hpeer).mpr heq
  have hother := find?_eq_none.mp h t ht
  have hdiff : t.key.same handle.key = false := decide_eq_false hne
  simp [hdiff, hsame] at hother

theorem unclaimed_of_collision (hq : q.Identified) (hpeer : peer.hasUserHash = true)
    (h : q.collision handle peer = some other) :
    (q.retireSessionKey other.key).Unclaimed handle.key ⟨peer, handle.key.fileHash⟩ := by
  obtain ⟨hmem, -, hsame⟩ := collision_mem h
  have hhash := (sameUploadClient_iff (hq.hashed other hmem) hpeer).mp hsame
  have hnew : (q.retireSessionKey other.key).Newcomer ⟨peer, handle.key.fileHash⟩ :=
    newcomer_of_retired hq hmem hpeer hhash
  exact fun t ht _ => hnew.2 t ht

theorem rebind_course {current : Session} (hget : q.get handle.key = some current)
    (hid : identified → peer.hasUserHash = true ∧
      q.Unclaimed handle.key ⟨peer, handle.key.fileHash⟩) :
    Course identified q (q.rebind current handle peer inputs now) := by
  obtain ⟨hmem, hident⟩ := mem_get hget
  have hrekey : Leg identified q (q.rekey current { current.rescored peer inputs with
      key := ⟨peer, handle.key.fileHash⟩, lastActivity := now }) :=
    .light (.rekey q hmem (.of_eq rfl rfl rfl rfl rfl id) fun hi =>
      ⟨(hid hi).1, fun t ht hne => (hid hi).2 t ht fun heq => hne (heq.trans hident.symm)⟩)
      length_rekey.le
  refine .head hrekey (.single (.aside ?_ ?_))
  all_goals
    simp only [rebind, rekey, remove, insert, replaceWaitingKey, storedKey, get, SessionKey.same]
    have hkey : current.key.ident = handle.key.ident := hident
  · cases hw : current.isWaiting <;> simp [hkey]
  · cases hw : current.isWaiting <;> constructor <;> simp [hkey]

/-- How `refresh_session_peer` ends. -/
theorem refreshSessionPeer_cases (q : Queue) (handle : SessionHandle) (peer : PeerIdentity)
    (inputs : ScoreInputs) (now : Instant) :
    let r := q.reapExpiredSessions now
    let q' := (q.refreshSessionPeer handle peer inputs now).1
    q' = r ∨ ∃ current, r.owned handle = some current ∧
      ((r.collision handle peer = none ∧ q' = r.rebind current handle peer inputs now) ∨
        q' = (r.retireSessionKey handle.key).promoteWaiters now ∨
        ∃ other, r.collision handle peer = some other ∧ other.key.peer.identVerified = false ∧
          ((peer.identVerified = true ∧
              q' = (r.retireSessionKey other.key).rebind current handle peer inputs now) ∨
            q' = ((r.retireSessionKey other.key).retireSessionKey
              handle.key).promoteWaiters now)) := by
  unfold refreshSessionPeer
  generalize q.reapExpiredSessions now = r
  dsimp only
  split
  · exact .inl rfl
  · rename_i current howned
    refine .inr ⟨current, howned, ?_⟩
    split
    · rename_i hnone
      exact .inl ⟨hnone, rfl⟩
    · rename_i other hother
      split
      · exact .inr (.inl rfl)
      · rename_i hunverified
        rw [Bool.not_eq_true] at hunverified
        refine .inr (.inr ⟨other, hother, hunverified, ?_⟩)
        split
        · rename_i hverified
          exact .inl ⟨hverified, rfl⟩
        · exact .inr rfl

theorem refreshSessionPeer_course (h : q.Sound)
    (hid : identified → q.Identified ∧ peer.hasUserHash = true) :
    Course identified (q.reapExpiredSessions now)
      (q.refreshSessionPeer handle peer inputs now).1 := by
  have hreap := @reap_moves identified _ h now
  have hrid : identified → (q.reapExpiredSessions now).Identified ∧ peer.hasUserHash = true :=
    fun hi => ⟨hreap.identified hi (hid hi).1, (hid hi).2⟩
  have hcases := q.refreshSessionPeer_cases handle peer inputs now
  generalize q.reapExpiredSessions now = r at hrid hcases ⊢
  rcases hcases with heq | ⟨current, howned, ⟨hnone, heq⟩ | heq |
    ⟨other, hother, -, ⟨-, heq⟩ | heq⟩⟩
  all_goals rw [heq]
  · exact rebind_course (mem_owned howned).1 fun hi =>
      ⟨(hrid hi).2, unclaimed_of_no_collision (hrid hi).1 (hrid hi).2 hnone⟩
  · exact .head (.retire r handle.key) (.single (.promote _ now))
  · -- an unverified entry gives way to a verified one
    have hget : (r.retireSessionKey other.key).get handle.key = some current := by
      rw [← (mem_owned howned).1]
      exact lookup_remove_of_ne (Ne.symm (collision_mem hother).2.1)
    exact .head (.retire r other.key) (rebind_course hget fun hi =>
      ⟨(hrid hi).2, unclaimed_of_collision (hrid hi).1 (hrid hi).2 hother⟩)
  · exact .head (.retire r other.key) (.head (.retire _ handle.key) (.single (.promote _ now)))

/-! ## Releasing -/

theorem disconnect_course (handle : SessionHandle) (session : Session) (now : Instant) :
    Course identified q (q.disconnect handle session now) := by
  unfold disconnect
  split
  · exact .single (.update _ handle.key fun _ _ _ =>
      ⟨.of_eq rfl rfl rfl rfl rfl fun _ => rfl, rfl⟩)
  · refine .head (.retire q handle.key) ?_
    dsimp only
    split
    · exact .single (.aside rfl)
    · exact .refl

theorem releaseSession_course (h : q.Sound) (handle : SessionHandle) :
    Course identified q (q.releaseSession handle now) := by
  unfold releaseSession
  split
  · exact .refl
  · rename_i session _
    have hdisconnect := @disconnect_course identified q handle session now
    exact hdisconnect.trans
      (.head (.reap (hdisconnect.moves.sound h) now) (.single (.promote _ now)))

theorem releaseClient_course (h : q.Sound) {clientId : ClientSelector} {waitingQueue : Bool} :
    Course identified (q.reapExpiredSessions now)
      (q.releaseClient clientId waitingQueue now).1 := by
  have hreap := @reap_moves identified _ h now
  have hr := hreap.sound h
  unfold releaseClient
  generalize q.reapExpiredSessions now = r at hr
  dsimp only
  split
  · exact .refl
  · rename_i session _
    -- the key has left the waiting order with its session
    have hleft : (if session.isWaiting = true then
        (r.retireSessionKey session.key).leaveOrder session.key
        else r.retireSessionKey session.key) = r.retireSessionKey session.key := by
      split
      · simp only [retireSessionKey, leaveOrder, leavePending, remove, filter_filter,
          Bool.and_self]
      · rfl
    rw [hleft]
    have hretire : Course identified r (r.retireSessionKey session.key) := .single (.retire r _)
    exact hretire.trans (.head (.reap (hretire.moves.sound hr) now) (.single (.promote _ now)))

/-! ## Promotions and callbacks -/

theorem takePending_course (now : Instant) (connectTimeout : Duration)
    (nextConnectionId : Nat → Nat) (state : Queue × List PendingPromotion) (key : SessionKey)
    (h : state.1.Sound) :
    Course identified state.1 (takePending now connectTimeout nextConnectionId state key).1 := by
  obtain ⟨q, promotions⟩ := state
  unfold takePending
  dsimp only
  split
  · exact .refl
  · rename_i session hget
    obtain ⟨hmem, hident⟩ := mem_get hget
    split
    · split
      · exact .refl
      · split
        · exact .refl
        · exact .single (.update _ key fun session _ _ => kept_issueDeadline session _)
    · split
      · exact .refl
      · exact .single (.update _ key fun _ _ _ => ⟨.of_eq rfl rfl rfl rfl rfl id, rfl⟩)

theorem takePendingPromotions_course (h : q.Sound) {connectTimeout : Duration}
    {nextConnectionId : Nat → Nat} :
    Course identified q (q.takePendingPromotions now connectTimeout nextConnectionId).1 := by
  have taken : Course identified q { q with pendingPromotions := [] } :=
    .single (.aside rfl)
  suffices hfold : ∀ (keys : List SessionKey) (state : Queue × List PendingPromotion),
      state.1.Sound → Course identified state.1
        (keys.foldl (takePending now connectTimeout nextConnectionId) state).1 from
    taken.trans
      (hfold q.pendingPromotions ({ q with pendingPromotions := [] }, []) (taken.moves.sound h))
  intro keys
  induction keys with
  | nil => exact fun _ _ => .refl
  | cons key rest ih =>
    intro state hstate
    have hone := @takePending_course identified now connectTimeout nextConnectionId state key hstate
    exact hone.trans (ih _ (hone.moves.sound hstate))

theorem cancelCallbackKnownNotSent_course {permit : CallbackPermit} :
    Course identified (q.reapExpiredSessions now) (q.cancelCallbackKnownNotSent permit now).1 := by
  unfold cancelCallbackKnownNotSent
  dsimp only
  split
  · exact .refl
  · exact .head (.update _ permit.key fun session _ _ => kept_withdrawCallback session)
      (.single (.promote _ now))

theorem claimable_mem (h : q.claimable observedPeer = some old) :
    old ∈ q.sessions ∧ old.isWaiting = true ∧ ∃ route, old.route = some route ∧
      callbackRouteMatchesHello route old.key.peer observedPeer = true := by
  have hfound := find?_some h
  rw [Bool.and_eq_true] at hfound
  refine ⟨mem_of_find?_eq_some h, hfound.1, ?_⟩
  cases hr : old.route with
  | none => simp [hr] at hfound
  | some route => exact ⟨route, rfl, by simpa [hr] using hfound.2⟩

/-- How `claim_callback_promotion` ends. -/
theorem claimCallbackPromotion_cases (q : Queue) (observedPeer : PeerIdentity) (connectionId : Nat)
    (now : Instant) :
    let r := q.reapExpiredSessions now
    let q' := (q.claimCallbackPromotion observedPeer connectionId now).1
    q' = r ∨ ∃ old, r.claimable observedPeer = some old ∧
      r.activeSessionCount < r.effectiveActiveSlotLimit now + 1 ∧
      q' = r.claimSlot old observedPeer connectionId now := by
  unfold claimCallbackPromotion
  generalize q.reapExpiredSessions now = r
  dsimp only
  split
  · exact .inl rfl
  · rename_i old hold
    split
    · exact .inl rfl
    · rename_i hfree
      split
      · exact .inl rfl
      · exact .inr ⟨old, hold, Nat.lt_of_not_le hfree, rfl⟩

theorem claimCallbackPromotion_course (h : q.Sound)
    (hid : identified → q.Identified ∧ observedPeer.hasUserHash = true) :
    Course identified (q.reapExpiredSessions now)
      (q.claimCallbackPromotion observedPeer connectionId now).1 := by
  have hreap := @reap_moves identified _ h now
  have hrid : identified → (q.reapExpiredSessions now).Identified ∧
      observedPeer.hasUserHash = true := fun hi => ⟨hreap.identified hi (hid hi).1, (hid hi).2⟩
  have hcases := q.claimCallbackPromotion_cases observedPeer connectionId now
  generalize q.reapExpiredSessions now = r at hrid hcases ⊢
  rcases hcases with heq | ⟨old, hold, hfree, heq⟩
  all_goals rw [heq]
  obtain ⟨hmem, hwaiting, route, -, hmatch⟩ := claimable_mem hold
  have hclaim : Leg identified r (r.claim old { old.granted now with
      key := ⟨observedPeer, old.key.fileHash⟩, connectionId := connectionId,
      connected := true } now) :=
    .light (.claim r now hmem hwaiting hfree rfl rfl rfl rfl fun hi =>
      ⟨(hrid hi).2, unclaimed_of_userHash (hrid hi).1 hmem
        (userHash_of_matchesHello ((hrid hi).1.hashed old hmem) hmatch).symm⟩)
      (length_filter_le _ _)
  exact .head hclaim (.single (.aside rfl))

/-! ## Management -/

theorem purgeWaiters_course (sharedFileHashes : List Md4Digest) :
    Course identified q (q.purgeWaitersForUnsharedFiles sharedFileHashes) := by
  unfold purgeWaitersForUnsharedFiles
  dsimp only
  generalize ((q.waiters.map Prod.fst).filter fun key => !sharedFileHashes.contains key.fileHash)
    = stale
  have hretire : ∀ (keys : List SessionKey) (q : Queue),
      Course identified q (keys.foldl retireSessionKey q) ∧
      ∀ queued ∈ (keys.foldl retireSessionKey q).waitingOrder,
        queued ∈ q.waitingOrder ∧ keys.any (·.same queued) = false := by
    intro keys
    induction keys with
    | nil => exact fun q => ⟨.refl, fun queued hq => ⟨hq, rfl⟩⟩
    | cons key rest ih =>
      intro q
      obtain ⟨hmoves, horder⟩ := ih (q.retireSessionKey key)
      refine ⟨.head (.retire q key) hmoves, fun queued hqueued => ?_⟩
      obtain ⟨hmem, hrest⟩ := horder queued hqueued
      obtain ⟨hmem, hne⟩ := mem_filter.mp hmem
      have hsame : key.same queued = false :=
        decide_eq_false fun heq => of_decide_eq_true hne heq.symm
      exact ⟨hmem, by rw [any_cons, hsame, hrest]; rfl⟩
  obtain ⟨hmoves, horder⟩ := hretire stale q
  -- nothing is left for the final filter to remove
  have hfilter : (stale.foldl retireSessionKey q).waitingOrder.filter
      (fun key => !stale.any (·.same key)) = (stale.foldl retireSessionKey q).waitingOrder :=
    filter_eq_self.mpr fun queued hqueued => by rw [(horder queued hqueued).2]; rfl
  rw [hfilter]
  exact hmoves

/-! ## Every event -/

theorem configure_course (h : q.Sound) {config : QueueConfig} (now : Instant) :
    Course identified { q with config := config } (q.configure config now) := by
  have hconfig : Sound { q with config := config } := ⟨h.keys, h.leases, h.issued, h.entitled⟩
  exact .head (.reap hconfig now) (.head (.trim _ now) (.single (.promote _ now)))

theorem beginUploadWork_cases (handle : SessionHandle) (now : Instant) :
    q.beginUploadWork handle now = (q, none) ∨
      ∃ session, q.get handle.key = some session ∧ session.isActive = true ∧
        session.lease ∉ q.cancelledLeases ∧
        q.beginUploadWork handle now =
          (q.update handle.key (·.working now), some session.lease) := by
  unfold beginUploadWork
  split
  · exact .inl rfl
  · rename_i session howned
    split
    · exact .inl rfl
    · rename_i hguard
      simp only [Bool.or_eq_true, not_or, Bool.not_eq_true, Bool.not_eq_false', contains_iff_mem,
        ] at hguard
      exact .inr ⟨session, (mem_owned howned).1, hguard.2, by simpa using hguard.1, rfl⟩

def ArmsRoute (q : Queue) (event : Event) (q' : Queue) : Prop :=
  ∃ permit route now session promotion, event = .beginCallbackDispatch permit route now ∧
    (q.reapExpiredSessions now).get permit.key = some session ∧ session.isWaiting = true ∧
    session.connected = false ∧ session.callbackPromotion = some promotion ∧
    CallbackPermit.isCurrent permit promotion = true ∧ promotion.route = none ∧
    (q.beginCallbackDispatch permit route now).2 = true ∧
    q' = (q.reapExpiredSessions now).update permit.key (·.armRoute route)

/-- **A route is armed only for a detached waiter whose attempt is the permit's own.** -/
theorem beginCallbackDispatch_cases (permit : CallbackPermit) (route : CallbackRoute)
    (now : Instant) :
    q.beginCallbackDispatch permit route now = (q.reapExpiredSessions now, false) ∨
      q.ArmsRoute (.beginCallbackDispatch permit route now)
        (q.beginCallbackDispatch permit route now).1 := by
  generalize hdone : q.beginCallbackDispatch permit route now = done
  have hreturned := hdone
  unfold beginCallbackDispatch at hdone
  dsimp only at hdone
  split at hdone
  · exact .inl hdone.symm
  · rename_i session hfound
    obtain ⟨hget, hguard⟩ := Option.filter_eq_some_iff.mp hfound
    simp only [Bool.and_eq_true, Bool.not_eq_true', Option.any_eq_true] at hguard
    obtain ⟨⟨⟨-, hwaiting⟩, hconnected⟩, promotion, hpromotion, hcurrent, hroute⟩ := hguard
    subst hdone
    exact .inr ⟨permit, route, now, session, promotion, rfl, hget, hwaiting, hconnected, hpromotion,
      hcurrent, by simpa using hroute, congrArg Prod.snd hreturned, rfl⟩

/-- **What is left of a call that reaps first, once it has**: moves, or the arming of a route. -/
theorem reap_course (h : q.Sound) {now : Instant} (hr : event.reapsAt = some now)
    (hid : identified → q.Identified ∧ event.identified = true) :
    Course identified (q.reapExpiredSessions now) (q.apply event) ∨
      q.ArmsRoute event (q.apply event) := by
  cases event with
  | capacitySnapshot =>
    cases hr
    exact .inl (.single (.aside rfl))
  | snapshot | lookupWaitingReaskClient =>
    cases hr
    exact .inl .refl
  | beginSession =>
    cases hr
    exact .inl (beginSession_course h hid)
  | pollSession handle time refresh =>
    cases hr
    exact .inl (pollSession_course handle)
  | refreshSessionPeer =>
    cases hr
    exact .inl (refreshSessionPeer_course h hid)
  | noteRequestParts handle =>
    cases hr
    exact .inl (noteRequestParts_course handle)
  | noteRequestedRange handle start finish =>
    cases hr
    exact .inl (noteRequestedRange_course handle start finish)
  | noteServedRange handle start finish =>
    cases hr
    exact .inl (noteServedRange_course handle start finish)
  | noteUploadedBytes handle byteCount =>
    cases hr
    exact .inl (noteUploadedBytes_course handle)
  | releaseClient clientId waitingQueue =>
    cases hr
    exact .inl (releaseClient_course h)
  | beginCallbackDispatch permit route =>
    cases hr
    rcases @beginCallbackDispatch_cases q permit route now with heq | harms
    · left
      rw [apply, heq]
    · exact .inr harms
  | cancelCallbackKnownNotSent permit =>
    cases hr
    exact .inl cancelCallbackKnownNotSent_course
  | claimCallbackPromotion =>
    cases hr
    exact .inl (claimCallbackPromotion_course h hid)
  | _ => exact absurd hr (by simp [Event.reapsAt])

/-- **Every event is made of moves**, except for a new configuration, the count of work in flight
    and the arming of a route. -/
theorem apply_cases (h : q.Sound) (event : Event)
    (hid : identified → q.Identified ∧ event.identified = true) :
    Course identified q (q.apply event) ∨
      (∃ config now, event = .configure config now ∧
        Course identified { q with config := config } (q.apply event)) ∨
      (∃ handle now session, event = .beginUploadWork handle now ∧
        q.get handle.key = some session ∧ session.isActive = true ∧
        session.lease ∉ q.cancelledLeases ∧ q.apply event = q.update handle.key (·.working now) ∧
        (q.beginUploadWork handle now).2 = some session.lease) ∨
      (∃ lease, event = .dropGuard lease) ∨
      q.ArmsRoute event (q.apply event) := by
  cases hr : event.reapsAt with
  | some now =>
    rcases reap_course h hr hid with hcourse | harms
    · exact .inl (.head (.reap h now) hcourse)
    · exact .inr (.inr (.inr (.inr harms)))
  | none =>
    cases event with
    | configure config now => exact .inr (.inl ⟨config, now, rfl, configure_course h now⟩)
    | beginUploadWork handle now =>
      rcases @beginUploadWork_cases q handle now with heq | ⟨session, hget, hactive, hlive, heq⟩
      · left
        rw [apply, heq]
      · exact .inr (.inr (.inl ⟨handle, now, session, rfl, hget, hactive, hlive,
          by rw [apply, heq], by rw [heq]⟩))
    | dropGuard lease => exact .inr (.inr (.inr (.inl ⟨lease, rfl⟩)))
    | noteWireProgress | updateFilePriority =>
      refine .inl (.single (.light
        (.touch _ (fun session _ => ?_) rfl ⟨rfl, rfl, rfl, rfl, rfl, rfl, rfl⟩) le_rfl))
      split <;> exact ⟨.of_eq rfl rfl rfl rfl rfl id, rfl⟩
    | noteQueuedBlockRequest peer now => exact .inl noteQueuedBlockRequest_course
    | releaseSession handle now => exact .inl (releaseSession_course h handle)
    | noteFailedPromotion =>
      left
      rw [apply, noteFailedPromotion]
      split
      · exact .refl
      · exact .single (.aside rfl)
    | refreshWaitingReaskState key =>
      left
      rw [apply, refreshWaitingReaskState]
      split
      · exact .refl
      · split
        · exact .single (.update _ key fun _ _ _ => ⟨.of_eq rfl rfl rfl rfl rfl id, rfl⟩)
        · exact .refl
    | takePendingPromotions now connectTimeout nextConnectionId =>
      exact .inl (takePendingPromotions_course h)
    | maintain sharedFileHashes now =>
      have hpurge := @purgeWaiters_course identified q sharedFileHashes
      exact .inl (hpurge.trans
        (.head (.reap (hpurge.moves.sound h) now) (.single (.promote _ now))))
    | bringForward =>
      exact .inl (.single (.light (.reorder (filter_append_perm _ _)
        ⟨rfl, rfl, rfl, rfl, rfl, rfl, rfl⟩) le_rfl))
    | _ => exact absurd hr (by simp [Event.reapsAt])

theorem ArmsRoute.cases (h : q.ArmsRoute event q') (hq : q.Sound) :
    ∃ now key route, (∀ (identified : Prop), Course identified q (q.reapExpiredSessions now)) ∧
      q' = (q.reapExpiredSessions now).update key (·.armRoute route) ∧
      ∀ t ∈ (q.reapExpiredSessions now).sessions, t.ident = key.ident →
        t.isWaiting = true ∧ t.connected = false := by
  obtain ⟨permit, route, now, session, promotion, -, hget, hwaiting, hconnected, -, -, -, -,
    rfl⟩ := h
  refine ⟨now, permit.key, route, fun _ => .single (.reap hq now), rfl, fun t ht hk => ?_⟩
  obtain ⟨hmem, hident⟩ := mem_get hget
  have hreaped := (@reap_moves True _ hq now).sound hq
  rw [hreaped.eq_of_ident ht hmem (hk.trans hident.symm)]
  exact ⟨hwaiting, hconnected⟩

/-- **Every event keeps the table's invariant**, whoever the peers are. -/
theorem apply_sound (h : q.Sound) : (q.apply event).Sound := by
  rcases @apply_cases False q h event (fun hf => hf.elim) with
    hcourse | ⟨config, now, -, hcourse⟩ | ⟨handle, now, session, -, hget, hactive, -, happly, -⟩ |
    ⟨lease, rfl⟩ | harms
  · exact hcourse.moves.sound h
  · exact hcourse.moves.sound ⟨h.keys, h.leases, h.issued, h.entitled⟩
  · rw [happly]
    refine h.update _ rfl rfl fun t ht hk => ⟨rfl, rfl, fun hne => ?_⟩
    -- a session with a slot has no entitlement
    obtain ⟨hmem, hident⟩ := mem_get hget
    have hw := h.entitled t ht hne
    rw [h.eq_of_ident ht hmem (hk.trans hident.symm), isWaiting_eq, hactive] at hw
    cases hw
  · refine h.map _ rfl rfl fun t ht => ?_
    split <;> exact ⟨rfl, rfl, h.entitled t ht⟩
  · obtain ⟨now, key, route, hcourse, happly, hdetached⟩ := harms.cases h
    rw [happly]
    exact ((hcourse True).moves.sound h).update _ rfl rfl fun t ht hk =>
      ⟨rfl, rfl, fun _ => (hdetached t ht hk).1⟩

end Queue

end EmuleBB.Upload
