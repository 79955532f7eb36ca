import EmuleBB.Upload.Consistency

/-!
# Upload work is fenced by its slot

A work guard outlives the lock it was taken under. Meanwhile its session can be re-keyed, recycled,
evicted or displaced, and the slot given to somebody else. What keeps two peers from being served in
one slot is the guard's **lease**: a session gives up its slot only when nobody works under it, and
otherwise the lease is cancelled with the session.

`Fenced` relates the queue to the leases of the guards that are alive. Sessions keep their lease
through every move but `retire`, which cancels it, and `demote`, which the source reaches only with
no work in flight. Where peers have no hash an insertion can overwrite a session without cancelling
anything, so the moves are taken under `identified`.
-/

namespace EmuleBB.Upload

open Table List

namespace Queue

variable {identified : Prop} {q q' : Queue} {guards : List Nat} {session : Session}

/-- **The guards that are alive, as the queue sees them.** -/
structure Fenced (guards : List Nat) (q : Queue) : Prop where
  counted : ∀ session ∈ q.sessions, session.inFlightWork = guards.count session.lease
  held : ∀ lease ∈ guards, (∃ session ∈ q.sessions, session.lease = lease ∧
    session.isActive = true) ∨ lease ∈ q.cancelledLeases
  issued : ∀ lease ∈ guards, lease < q.nextLease
  live : ∀ session ∈ q.sessions, session.lease ∉ q.cancelledLeases
  cancelled : ∀ lease ∈ q.cancelledLeases, lease < q.nextLease

namespace Fenced

theorem new (config : QueueConfig) : (Queue.new config).Fenced [] :=
  ⟨fun _ h => absurd h (by simp [Queue.new]), by simp, by simp,
    fun _ h => absurd h (by simp [Queue.new]),
    fun _ h => absurd h (by simp [Queue.new])⟩

section

variable (h : q.Fenced guards)

include h

/-- A session that waits has no work in flight: its guards would need it active, and its lease is
    not cancelled. -/
theorem idle_of_waiting (hq : q.Sound)
    (hs : session ∈ q.sessions) (hw : session.isWaiting = true) : session.inFlightWork = 0 := by
  rw [h.counted session hs, count_eq_zero]
  intro hmem
  rcases h.held _ hmem with ⟨holder, hholder, hlease, hactive⟩ | hcancelled
  · rw [hq.eq_of_lease hholder hs hlease] at hactive
    rw [Session.isWaiting_eq, hactive] at hw
    cases hw
  · exact h.live session hs hcancelled

/-- A change of every session that keeps its lease and its work, and leaves it active unless it is
    idle. -/
theorem map (f : Session → Session) (hs : q'.sessions = q.sessions.map f)
    (hc : q'.cancelledLeases = q.cancelledLeases) (hn : q'.nextLease = q.nextLease)
    (hf : ∀ t ∈ q.sessions, (f t).lease = t.lease ∧ (f t).inFlightWork = t.inFlightWork ∧
      (t.isActive = true → (f t).isActive = true ∨ t.inFlightWork = 0)) : q'.Fenced guards where
  counted := by
    rw [hs]
    intro _ hmem
    obtain ⟨t, ht, rfl⟩ := mem_map.mp hmem
    rw [(hf t ht).1, (hf t ht).2.1]
    exact h.counted t ht
  held := by
    intro lease hlease
    rw [hs, hc]
    refine (h.held lease hlease).imp_left ?_
    rintro ⟨t, ht, rfl, hactive⟩
    refine ⟨f t, mem_map_of_mem ht, (hf t ht).1, ?_⟩
    rcases (hf t ht).2.2 hactive with hstill | hidle
    · exact hstill
    · exact absurd hlease (count_eq_zero.mp ((h.counted t ht).symm.trans hidle))
  issued := hn ▸ h.issued
  live := by
    rw [hs, hc]
    intro _ hmem
    obtain ⟨t, ht, rfl⟩ := mem_map.mp hmem
    rw [(hf t ht).1]
    exact h.live t ht
  cancelled := by
    rw [hc, hn]
    exact h.cancelled

theorem update {key : SessionKey} {f : Session → Session}
    (hs : q'.sessions = (q.update key f).sessions) (hc : q'.cancelledLeases = q.cancelledLeases)
    (hn : q'.nextLease = q.nextLease)
    (hf : ∀ t ∈ q.sessions, t.ident = key.ident →
      (f t).lease = t.lease ∧ (f t).inFlightWork = t.inFlightWork ∧
        (t.isActive = true → (f t).isActive = true ∨ t.inFlightWork = 0)) : q'.Fenced guards := by
  refine h.map _ hs hc hn fun t ht => ?_
  split
  · next hk => exact hf t ht hk
  · exact ⟨rfl, rfl, .inl⟩

theorem retire (hq : q.Sound) (key : SessionKey) : (q.retireSessionKey key).Fenced guards := by
  have hcancelled : ∀ lease, lease ∈ (q.retireSessionKey key).cancelledLeases ↔
      (∃ t ∈ q.sessions, t.ident = key.ident ∧ t.lease = lease) ∨ lease ∈ q.cancelledLeases := by
    intro lease
    simp only [retireSessionKey, leavePending, leaveOrder, Queue.remove, mem_append,
      Option.mem_toList, Option.map_eq_some_iff]
    refine or_congr_left ⟨?_, ?_⟩
    · rintro ⟨t, hget, rfl⟩
      exact ⟨t, (mem_get hget).1, (mem_get hget).2, rfl⟩
    · rintro ⟨t, ht, hident, rfl⟩
      have hget := hq.get_of_mem ht
      rw [get, show t.key.ident = key.ident from hident] at hget
      exact ⟨t, hget, rfl⟩
  refine ⟨fun t ht => h.counted t (mem_remove.mp ht).1, fun lease hlease => ?_, h.issued,
    fun t ht hmem => ?_, fun lease hlease => ?_⟩
  · rw [hcancelled]
    rcases h.held lease hlease with ⟨t, ht, rfl, hactive⟩ | hc
    · by_cases hk : t.ident = key.ident
      · exact .inr (.inl ⟨t, ht, hk, rfl⟩)
      · exact .inl ⟨t, mem_remove.mpr ⟨ht, hk⟩, rfl, hactive⟩
    · exact .inr (.inr hc)
  · obtain ⟨ht, hne⟩ := mem_remove.mp ht
    rcases (hcancelled _).mp hmem with ⟨u, hu, hk, hlease⟩ | hc
    · rw [hq.eq_of_lease hu ht hlease] at hk
      exact hne hk
    · exact h.live t ht hc
  · rcases (hcancelled _).mp hlease with ⟨u, hu, -, rfl⟩ | hc
    · exact hq.issued u hu
    · exact h.cancelled lease hc

theorem replace (hq : q.Sound) {old session : Session} (hold : old ∈ q.sessions)
    (hs : q'.sessions = ((q.remove old.key).insert session).sessions)
    (hc : q'.cancelledLeases = q.cancelledLeases) (hn : q'.nextLease = q.nextLease)
    (hunclaimed : q.Unclaimed old.key session.key) (hlease : session.lease = old.lease)
    (hwork : session.inFlightWork = old.inFlightWork)
    (hactive : old.isActive = true → session.isActive = true) : q'.Fenced guards := by
  have hput : q'.sessions =
      Table.put Session.ident session (Table.remove Session.ident old.ident q.sessions) :=
    hs.trans (insert_sessions
      (Identified.storedKey_eq (Identified.newcomer_of_unclaimed hunclaimed)))
  have hmem : ∀ t ∈ q'.sessions, (t ∈ q.sessions) ∨ t = session := by
    intro t ht
    rw [hput] at ht
    exact (Table.mem_put.mp ht).imp_left fun h => (Table.mem_remove.mp h.1).1
  refine ⟨fun t ht => ?_, fun lease hg => ?_, hn ▸ h.issued, fun t ht => ?_, ?_⟩
  · rcases hmem t ht with ht | rfl
    · exact h.counted t ht
    · rw [hwork, hlease]
      exact h.counted old hold
  · rw [hc, hput]
    refine (h.held lease hg).imp_left ?_
    rintro ⟨t, ht, rfl, ha⟩
    by_cases hk : t.ident = old.ident
    · obtain rfl := hq.eq_of_ident ht hold hk
      exact ⟨session, Table.mem_put.mpr (.inr rfl), hlease, hactive ha⟩
    · refine ⟨t, Table.mem_put.mpr (.inl ⟨Table.mem_remove.mpr ⟨ht, hk⟩, fun heq => ?_⟩), rfl, ha⟩
      exact hunclaimed t ht hk (congrArg KeyIdent.userHash heq)
  · rw [hc]
    rcases hmem t ht with ht | rfl
    · exact h.live t ht
    · rw [hlease]
      exact h.live old hold
  · rw [hc, hn]
    exact h.cancelled

theorem arrive
    (hs : q'.sessions = (q.insert session).sessions) (hc : q'.cancelledLeases = q.cancelledLeases)
    (hn : q'.nextLease = q.nextLease + 1) (hnew : q.Newcomer session.key)
    (hlease : session.lease = q.nextLease) (hwork : session.inFlightWork = 0) :
    q'.Fenced guards := by
  have hput : q'.sessions = put Session.ident session q.sessions :=
    hs.trans (insert_sessions (Identified.storedKey_eq hnew.2))
  refine ⟨fun t ht => ?_, fun lease hg => ?_, fun lease hg => ?_, fun t ht => ?_,
    fun lease hg => ?_⟩
  · rw [hput] at ht
    rcases mem_put.mp ht with ⟨ht, -⟩ | rfl
    · exact h.counted t ht
    · rw [hwork, hlease]
      exact (count_eq_zero.mpr fun hg => Nat.lt_irrefl _ (h.issued _ hg)).symm
  · rw [hc, hput]
    refine (h.held lease hg).imp_left ?_
    rintro ⟨t, ht, rfl, ha⟩
    refine ⟨t, mem_put.mpr (.inl ⟨ht, fun heq => ?_⟩), rfl, ha⟩
    exact hnew.2 t ht (congrArg KeyIdent.userHash heq)
  · exact hn ▸ Nat.lt_succ_of_lt (h.issued lease hg)
  · rw [hc]
    rw [hput] at ht
    rcases mem_put.mp ht with ⟨ht, -⟩ | rfl
    · exact h.live t ht
    · rw [hlease]
      exact fun hcancelled => Nat.lt_irrefl _ (h.cancelled _ hcancelled)
  · rw [hc] at hg
    exact hn ▸ Nat.lt_succ_of_lt (h.cancelled lease hg)

end

end Fenced

/-! ## Moves -/

/-- **No move takes a slot from under a guard**: it cancels the guard's lease or leaves the slot. -/
theorem Move.fenced (hid : identified) (move : Move identified q q') (hq : q.Sound)
    (h : q.Fenced guards) : q'.Fenced guards := by
  cases move with
  | touch f kept sessions books =>
    exact h.map f sessions books.cancelledLeases books.nextLease fun t ht =>
      ⟨(kept t ht).lease, (kept t ht).inFlightWork, fun ha => .inl ((kept t ht).isActive.trans ha)⟩
  | reorder sessions books =>
    refine ⟨fun t ht => h.counted t (sessions.mem_iff.mp ht), fun lease hg => ?_,
      books.nextLease ▸ h.issued, fun t ht => ?_, ?_⟩
    · simp only [sessions.mem_iff, books.cancelledLeases]
      exact h.held lease hg
    · rw [books.cancelledLeases]
      exact h.live t (sessions.mem_iff.mp ht)
    · rw [books.cancelledLeases, books.nextLease]
      exact h.cancelled
  | retire key => exact h.retire hq key
  | demote key now stored active idle =>
    obtain ⟨hmem, hident⟩ := mem_get stored
    refine h.update rfl rfl rfl fun t ht hk => ⟨rfl, rfl, fun _ => .inr ?_⟩
    rw [hq.eq_of_ident ht hmem (hk.trans hident.symm)]
    exact idle
  | entitle => exact h.update rfl rfl rfl fun t _ _ => ⟨rfl, rfl, .inl⟩
  | grant =>
    exact h.update rfl rfl rfl fun t _ _ => ⟨rfl, rfl, fun _ => .inl rfl⟩
  | admitWaiting key connectionId inputs now newcomer
  | admitGranted key connectionId inputs now free newcomer =>
    exact h.arrive rfl rfl rfl (newcomer hid) rfl rfl
  | rekey stored carried unclaimed =>
    exact h.replace hq stored rfl rfl rfl (unclaimed hid).2 carried.lease carried.inFlightWork
      carried.isActive.trans
  | claim now stored waiting free active spent lease inFlightWork unclaimed =>
    exact h.replace hq stored rfl rfl rfl (unclaimed hid).2 lease inFlightWork fun _ => active

theorem Moves.fenced (hid : identified) (moves : Moves identified q q') (hq : q.Sound)
    (h : q.Fenced guards) : q'.Fenced guards := by
  induction moves with
  | refl => exact h
  | tail moves move ih => exact move.fenced hid (Moves.sound moves hq) ih

/-! ## Guards taken and dropped -/

theorem Fenced.begin (h : q.Fenced guards) (hq : q.Sound) {key : SessionKey}
    (hget : q.get key = some session) (now : Instant) :
    (q.update key (·.working now)).Fenced (session.lease :: guards) := by
  obtain ⟨hmem, hident⟩ := mem_get hget
  have hcases : ∀ t ∈ (q.update key (·.working now)).sessions,
      (t ∈ q.sessions ∧ t.lease ≠ session.lease) ∨ t = session.working now := by
    intro t ht
    rcases mem_update_cases ht with ⟨ht, hne⟩ | ⟨u, hu, hk, rfl⟩
    · refine .inl ⟨ht, fun hlease => hne ?_⟩
      rw [hq.eq_of_lease ht hmem hlease]
      exact hident
    · rw [hq.eq_of_ident hu hmem (hk.trans hident.symm)]
      exact .inr rfl
  refine ⟨fun t ht => ?_, fun lease hg => ?_, fun lease hg => ?_, fun t ht => ?_, h.cancelled⟩
  · rcases hcases t ht with ⟨ht, hne⟩ | rfl
    · rw [count_cons_of_ne (Ne.symm hne)]
      exact h.counted t ht
    · have hcount : (session.lease :: guards).count session.lease =
        guards.count session.lease + 1 :=
        count_cons_self
      exact (congrArg (· + 1) (h.counted session hmem)).trans hcount.symm
  · have hworking : session.working now ∈ (q.update key (·.working now)).sessions :=
      mem_update_self hmem hident
    rcases mem_cons.mp hg with rfl | hg
    · exact .inl ⟨_, hworking, rfl, rfl⟩
    · refine (h.held lease hg).imp_left ?_
      rintro ⟨t, ht, rfl, ha⟩
      by_cases hk : t.ident = key.ident
      · rw [hq.eq_of_ident ht hmem (hk.trans hident.symm)]
        exact ⟨_, hworking, rfl, rfl⟩
      · exact ⟨t, mem_update_of_ne ht hk, rfl, ha⟩
  · rcases mem_cons.mp hg with rfl | hg
    · exact hq.issued session hmem
    · exact h.issued lease hg
  · rcases hcases t ht with ⟨ht, -⟩ | rfl
    · exact h.live t ht
    · exact h.live session hmem

theorem Fenced.drop (h : q.Fenced guards) (lease : Nat) :
    (q.endUploadWork lease).Fenced (guards.erase lease) := by
  refine ⟨fun _ hmem => ?_, fun l hg => ?_, fun l hg => h.issued l (mem_of_mem_erase hg),
    fun _ hmem => ?_, h.cancelled⟩
  · obtain ⟨t, ht, rfl⟩ := mem_map.mp hmem
    split
    · rename_i hl
      have hcount := h.counted t ht
      simp [hl, count_erase_self, hcount]
    · rename_i hl
      rw [count_erase_of_ne hl]
      exact h.counted t ht
  · refine (h.held l (mem_of_mem_erase hg)).imp_left ?_
    rintro ⟨t, ht, rfl, ha⟩
    refine ⟨_, mem_map_of_mem ht, ?_, ?_⟩
    · split <;> rfl
    · split <;> exact ha
  · obtain ⟨t, ht, rfl⟩ := mem_map.mp hmem
    split <;> exact h.live t ht

theorem apply_fenced (h : q.Fenced guards) (horderly : q.Orderly) {event : Event}
    (hid : event.identified = true) (hbegin : ∀ handle now, event ≠ .beginUploadWork handle now)
    (hdrop : ∀ lease, event ≠ .dropGuard lease) : (q.apply event).Fenced guards := by
  have hq := horderly.sound
  rcases apply_cases hq event fun (_ : True) => ⟨horderly.identified, hid⟩ with
    hcourse | ⟨config, now, -, hcourse⟩ | ⟨handle, now, session, heq, -⟩ | ⟨lease, heq⟩ |
    harms
  · exact hcourse.moves.fenced trivial hq h
  · have hconfig : Fenced guards { q with config := config } :=
      ⟨h.counted, h.held, h.issued, h.live, h.cancelled⟩
    exact hcourse.moves.fenced trivial ⟨hq.keys, hq.leases, hq.issued, hq.entitled⟩ hconfig
  · exact absurd heq (hbegin handle now)
  · exact absurd heq (hdrop lease)
  · obtain ⟨now, key, route, hcourse, happly, -⟩ := harms.cases hq
    rw [happly]
    exact ((hcourse True).moves.fenced trivial hq h).update rfl rfl rfl fun t _ _ =>
      ⟨rfl, rfl, .inl⟩

end Queue

/-! ## Runs -/

namespace System

/-- The table is orderly, and guards fence the work of their sessions. -/
structure WorkFenced (s : System) : Prop where
  orderly : s.queue.Orderly
  fenced : s.queue.Fenced s.guards

theorem workFenced_step (s : System) (event : Event) (h : s.WorkFenced)
    (hid : event.identified = true) : (s.step event).WorkFenced := by
  refine ⟨orderly_step s event h.orderly hid, ?_⟩
  cases event with
  | beginUploadWork handle now =>
    rcases @Queue.beginUploadWork_cases s.queue handle now with heq | ⟨session, hget, -, -, heq⟩
    · simp only [step, Queue.apply, heq, Option.toList_none, nil_append]
      exact h.fenced
    · simp only [step, Queue.apply, heq, Option.toList_some, singleton_append]
      exact h.fenced.begin h.orderly.sound hget now
  | dropGuard lease =>
    rw [step]
    split
    · exact h.fenced.drop lease
    · exact h.fenced
  | _ => exact Queue.apply_fenced h.fenced h.orderly hid (fun _ _ => by simp) fun _ => by simp

/-- **Upload work is fenced by its slot.** In every state that events of identified peers lead to, a
    session's work in flight is the number of its live guards; the session that issued a live guard
    is still active, or the guard's token is cancelled; and so a session that waits has no work in
    flight, whatever recycled it. -/
theorem upload_work_fenced (config : QueueConfig) (events : List Event)
    (hid : ∀ event ∈ events, event.identified = true) :
    let s := run config events
    (∀ session ∈ s.queue.sessions, session.inFlightWork = s.guards.count session.lease) ∧
    (∀ lease ∈ s.guards,
      (∃ session ∈ s.queue.sessions, session.lease = lease ∧ session.isActive = true) ∨
        lease ∈ s.queue.cancelledLeases) ∧
    ∀ session ∈ s.queue.sessions, session.isWaiting = true → session.inFlightWork = 0 := by
  intro s
  have h : s.WorkFenced :=
    (Run.along_of_forall hid).invariant workFenced_step ⟨.new config, .new config⟩
  exact ⟨h.fenced.counted, h.fenced.held,
    fun session hs hw => h.fenced.idle_of_waiting h.orderly.sound hs hw⟩

/-- A peer works in the only slot when another connection shows the same hash, both unverified. The
    guard outlives the session, and its lease is cancelled. -/
theorem upload_work_fenced_collision :
    let unverified : PeerIdentity := { reachablePeer 1 with identVerified := false }
    let events : List Event :=
      [.beginSession (sharedFile unverified) 1 plainInputs 0 0,
        .beginUploadWork ⟨sharedFile unverified, 1⟩ 0,
        .beginSession (sharedFile unverified) 2 plainInputs 0 0]
    let s := run oneSlot events
    s.guards = [0] ∧ s.queue.cancelledLeases = [0] ∧
      ((∃ session ∈ s.queue.sessions, session.lease = 0 ∧ session.isActive = true) ∨
        0 ∈ s.queue.cancelledLeases) :=
  ⟨by decide +kernel, by decide +kernel,
    (upload_work_fenced oneSlot _ (by decide)).2.1 0 (by decide +kernel)⟩

end System

end EmuleBB.Upload
