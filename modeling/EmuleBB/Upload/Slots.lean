import EmuleBB.Upload.Consistency

/-!
# The slot cap

Four paths make a session active: an inline grant, a paced promotion, the claim of an armed route
and the re-ask that consumes an entitlement. Each compares the number of active sessions with the
limit of that moment, and the last two may go **one above it**. The limit itself moves with the
measured underfill, but between the base slots and the base slots with the elastic allowance, which
never exceed 128; so the number of active sessions never exceeds that sum by more than one.

Nothing here needs the peers to have hashes. Where two peers are taken for one client an entry can
be overwritten, which frees a slot and never opens one.
-/

namespace EmuleBB.Upload

open Relation Queue Table

def SlotOpen.Within (o : SlotOpen) : Prop := o.active < o.limit + if o.viaCallback then 1 else 0

namespace Queue

variable {identified : Prop} {q q' r : Queue} {now : Instant} {session : Session} {key : SessionKey}
  {inputs : ScoreInputs} {connectionId : Nat}

/-! ## Limits -/

def slotCap (q : Queue) : Nat := q.baseSlotLimit + q.elasticSlotAllowance + 1

theorem slotCap_congr (h : q'.config = q.config) : q'.slotCap = q.slotCap := by
  unfold slotCap elasticSlotAllowance baseSlotLimit
  rw [h]

theorem slotCap_le : q.slotCap ≤ maxUpClientsAllowed + 1 := by
  have hbase : q.baseSlotLimit ≤ maxUpClientsAllowed := Nat.min_le_right _ _
  have helastic : q.elasticSlotAllowance ≤ maxUpClientsAllowed - q.baseSlotLimit :=
    Nat.min_le_right _ _
  unfold slotCap
  omega

theorem effectiveActiveSlotLimit_lt (q : Queue) (now : Instant) :
    q.effectiveActiveSlotLimit now < q.slotCap := by
  unfold effectiveActiveSlotLimit slotCap
  split <;> omega

/-! ## What a move opens -/

def WasActive (q : Queue) (session : Session) : Prop :=
  ∃ before ∈ q.sessions, before.lease = session.lease ∧ before.isActive = true

/-- **The slots opened between two states**, each within its limit, account for every session that
    became active, and the number of active sessions grows to the cap at most. -/
structure Opens (q q' : Queue) : Prop where
  config : q'.config = q.config
  count : q'.activeSessionCount ≤ max q.activeSessionCount q.slotCap
  opened : ∃ opened, q'.slotOpens = opened ++ q.slotOpens ∧ (∀ o ∈ opened, o.Within) ∧
    ∀ session ∈ q'.sessions, session.isActive = true →
      q.WasActive session ∨ ∃ o ∈ opened, o.lease = session.lease

namespace Opens

theorem none (config : q'.config = q.config) (opens : q'.slotOpens = q.slotOpens)
    (count : q'.activeSessionCount ≤ q.activeSessionCount)
    (active : ∀ session ∈ q'.sessions, session.isActive = true → q.WasActive session) :
    q.Opens q' :=
  ⟨config, le_trans count (le_max_left _ _), [], opens, by simp,
    fun t ht ha => .inl (active t ht ha)⟩

theorem one {o : SlotOpen} (config : q'.config = q.config) (opens : q'.slotOpens = o :: q.slotOpens)
    (within : o.Within) (hactive : o.active = q.activeSessionCount)
    (hlimit : o.limit = q.effectiveActiveSlotLimit now)
    (count : q'.activeSessionCount ≤ q.activeSessionCount + 1)
    (active : ∀ session ∈ q'.sessions, session.isActive = true →
      q.WasActive session ∨ o.lease = session.lease) : q.Opens q' := by
  refine ⟨config, le_trans count (le_trans ?_ (le_max_right _ _)), [o], opens,
    by simpa using within,
    fun t ht ha => (active t ht ha).imp_right fun h => ⟨o, by simp, h⟩⟩
  have hcap := q.effectiveActiveSlotLimit_lt now
  rw [SlotOpen.Within] at within
  split at within <;> omega

theorem refl (q : Queue) : q.Opens q :=
  .none rfl rfl le_rfl fun session hs ha => ⟨session, hs, rfl, ha⟩

theorem trans (h : q.Opens r) (h' : r.Opens q') : q.Opens q' := by
  refine ⟨h'.config.trans h.config, ?_, ?_⟩
  · have hcount := h'.count
    rw [slotCap_congr h.config] at hcount
    exact le_trans hcount (max_le h.count (le_max_right _ _))
  · obtain ⟨first, hfirst, hwithin, hactive⟩ := h.opened
    obtain ⟨second, hsecond, hwithin', hactive'⟩ := h'.opened
    refine ⟨second ++ first, by rw [hsecond, hfirst, List.append_assoc], fun o ho => ?_,
      fun session hs ha => ?_⟩
    · exact (List.mem_append.mp ho).elim (hwithin' o) (hwithin o)
    · rcases hactive' session hs ha with ⟨before, hb, hlease, hba⟩ | ⟨o, ho, hlease⟩
      · refine (hactive before hb hba).imp ?_ ?_
        · rintro ⟨first, hf, hl, hfa⟩
          exact ⟨first, hf, hl.trans hlease, hfa⟩
        · rintro ⟨o, ho, hl⟩
          exact ⟨o, List.mem_append_right _ ho, hl.trans hlease⟩
      · exact .inr ⟨o, List.mem_append_left _ ho, hlease⟩

theorem map (f : Session → Session) (config : q'.config = q.config)
    (opens : q'.slotOpens = q.slotOpens) (sessions : q'.sessions = q.sessions.map f)
    (hf : ∀ t ∈ q.sessions, (f t).lease = t.lease ∧ ((f t).isActive = true → t.isActive = true)) :
    q.Opens q' := by
  refine .none config opens ?_ ?_
  · rw [activeSessionCount, sessions, List.countP_map]
    exact List.countP_mono_left fun t ht => (hf t ht).2
  · intro session hs ha
    rw [sessions] at hs
    obtain ⟨t, ht, rfl⟩ := List.mem_map.mp hs
    exact ⟨t, ht, (hf t ht).1.symm, (hf t ht).2 ha⟩

theorem update {key : SessionKey} {f : Session → Session} (config : q'.config = q.config)
    (opens : q'.slotOpens = q.slotOpens) (sessions : q'.sessions = (q.update key f).sessions)
    (hf : ∀ t ∈ q.sessions, t.ident = key.ident →
      (f t).lease = t.lease ∧ ((f t).isActive = true → t.isActive = true)) : q.Opens q' := by
  refine .map _ config opens sessions fun t ht => ?_
  split
  · next hk => exact hf t ht hk
  · exact ⟨rfl, id⟩

end Opens

/-! ## The moves -/

theorem activeSessionCount_insert_le (hs : q'.sessions = (q.insert session).sessions) :
    q'.activeSessionCount ≤ q.activeSessionCount + if session.isActive then 1 else 0 := by
  rw [activeSessionCount, hs]
  exact countP_put_le

theorem active_of_insert {t : Session} (hs : q'.sessions = (q.insert session).sessions)
    (ht : t ∈ q'.sessions) (ha : t.isActive = true) :
    q.WasActive t ∨ (t.lease = session.lease ∧ session.isActive = true) := by
  rw [hs] at ht
  rcases mem_insert.mp ht with ⟨ht, -⟩ | rfl
  · exact .inl ⟨t, ht, rfl, ha⟩
  · exact .inr ⟨rfl, ha⟩

theorem WasActive.of_remove (h : (q.remove key).WasActive session) : q.WasActive session := by
  obtain ⟨before, hb, hlease, ha⟩ := h
  exact ⟨before, (mem_remove.mp hb).1, hlease, ha⟩

theorem admitWaiting_opens : q.Opens (q.insertWaiting key connectionId inputs now) := by
  refine .none rfl rfl (activeSessionCount_insert_le rfl) fun t ht ha => ?_
  exact (active_of_insert rfl ht ha).resolve_right fun h => Bool.false_ne_true h.2

theorem admitGranted_opens
    (hfree : q.activeSessionCount < q.effectiveActiveSlotLimit now) :
    q.Opens (q.insertGranted key connectionId inputs now) := by
  refine .one rfl rfl hfree rfl rfl (activeSessionCount_insert_le insertGranted_sessions)
    fun t ht ha => ?_
  exact (active_of_insert insertGranted_sessions ht ha).imp_right fun h => h.1.symm

theorem rekey_opens {old : Session} (hold : old ∈ q.sessions) (hcarried : Carried old session) :
    q.Opens (q.rekey old session) := by
  have hs : (q.rekey old session).sessions = ((q.remove old.key).insert session).sessions := rfl
  refine .none rfl rfl (le_trans (activeSessionCount_insert_le hs) ?_) fun t ht ha => ?_
  · rw [hcarried.isActive]
    split
    · rename_i hactive
      exact countP_remove_lt hold hactive
    · exact countP_remove_le
  · rcases active_of_insert hs ht ha with hwas | ⟨hlease, hactive⟩
    · exact hwas.of_remove
    · exact ⟨old, hold, hcarried.lease.symm.trans hlease.symm, hcarried.isActive.symm.trans hactive⟩

theorem claim_opens (hq : q.Sound) {old : Session} (hold : old ∈ q.sessions)
    (hwaiting : old.isWaiting = true)
    (hfree : q.activeSessionCount < q.effectiveActiveSlotLimit now + 1)
    (hlease : session.lease = old.lease) : q.Opens (q.claim old session now) := by
  have hs : (q.claim old session now).sessions = ((q.remove old.key).insert session).sessions := rfl
  refine .one rfl rfl hfree rfl rfl ?_ fun t ht ha => ?_
  · have hinsert := activeSessionCount_insert_le hs
    rw [activeSessionCount_remove hq hold hwaiting] at hinsert
    refine le_trans hinsert ?_
    split <;> omega
  · exact (active_of_insert hs ht ha).imp WasActive.of_remove fun h => hlease.symm.trans h.1.symm

theorem grant_opens (hq : q.Sound) (hget : q.get key = some session)
    (hfree : q.activeSessionCount < q.effectiveActiveSlotLimit now) :
    q.Opens (q.grant key session now) := by
  refine .one rfl rfl hfree rfl rfl (countP_update_le_succ hq.keys) fun t ht ha => ?_
  obtain ⟨hmem, hident⟩ := mem_get hget
  rcases mem_update_cases ht with ⟨ht, -⟩ | ⟨u, hu, hk, rfl⟩
  · exact .inl ⟨t, ht, rfl, ha⟩
  · rw [hq.eq_of_ident hu hmem (hk.trans hident.symm)]
    exact .inr rfl

/-- **Every move opens its slots within the limit.** -/
theorem Move.opens (move : Move identified q q') (hq : q.Sound) : q.Opens q' := by
  cases move with
  | touch f kept sessions books =>
    exact .map f books.config books.slotOpens sessions fun t ht =>
      ⟨(kept t ht).lease, fun ha => (kept t ht).isActive.symm.trans ha⟩
  | reorder sessions books =>
    exact .none books.config books.slotOpens (sessions.countP_eq _).le fun t ht ha =>
      ⟨t, sessions.mem_iff.mp ht, rfl, ha⟩
  | retire =>
    exact .none rfl rfl countP_remove_le fun t ht ha =>
      ⟨t, (mem_remove.mp ht).1, rfl, ha⟩
  | demote =>
    exact .update rfl rfl rfl fun t _ _ => ⟨rfl, fun ha => absurd ha (by simp [Session.demoted,
      Session.isActive, SessionPhase.isActive])⟩
  | entitle => exact .update rfl rfl rfl fun t _ _ => ⟨rfl, id⟩
  | grant key now stored waiting free => exact grant_opens hq stored free
  | admitWaiting key connectionId inputs now =>
    exact admitWaiting_opens
  | admitGranted key connectionId inputs now free => exact admitGranted_opens free
  | rekey stored carried => exact rekey_opens stored carried
  | claim now stored waiting free active spent lease =>
    exact claim_opens hq stored waiting free lease

theorem Moves.opens (moves : Moves identified q q') (hq : q.Sound) : q.Opens q' := by
  induction moves with
  | refl => exact .refl q
  | tail moves move ih => exact ih.trans (move.opens (Moves.sound moves hq))

/-- Every slot that a call opens is below the limit of its moment. -/
theorem apply_opens (hq : q.Sound) (event : Event) :
    Opens { q with config := (q.apply event).config } (q.apply event) ∧
      (event.reconfigures = false → (q.apply event).config = q.config) := by
  have of_same : q.Opens (q.apply event) →
      Opens { q with config := (q.apply event).config } (q.apply event) ∧
        (event.reconfigures = false → (q.apply event).config = q.config) := fun h => by
    rw [h.config]
    exact ⟨h, fun _ => rfl⟩
  rcases @apply_cases False q hq event (fun h => h.elim) with
    hcourse | ⟨config, now, rfl, hcourse⟩ |
    ⟨handle, now, session, -, hget, hactive, -, happly, -⟩ | ⟨lease, rfl⟩ |
    harms
  · exact of_same (hcourse.moves.opens hq)
  · have hopens : Opens { q with config := config } (q.apply (.configure config now)) :=
      hcourse.moves.opens ⟨hq.keys, hq.leases, hq.issued, hq.entitled⟩
    rw [hopens.config]
    exact ⟨hopens, fun h => absurd h (by simp [Event.reconfigures])⟩
  · refine of_same ?_
    rw [happly]
    refine .update rfl rfl rfl fun t ht hk => ⟨rfl, fun _ => ?_⟩
    obtain ⟨hmem, hident⟩ := mem_get hget
    rw [hq.eq_of_ident ht hmem (hk.trans hident.symm)]
    exact hactive
  · refine of_same (.map _ rfl rfl rfl fun t _ => ?_)
    split <;> exact ⟨rfl, id⟩
  · obtain ⟨now, key, route, hcourse, happly, -⟩ := harms.cases hq
    refine of_same (((hcourse True).moves.opens hq).trans ?_)
    rw [happly]
    exact .update rfl rfl rfl fun t _ _ => ⟨rfl, id⟩

end Queue

/-! ## Runs -/

namespace System

/-- What holds of the slots in every state: the table is sound, the cap of 128 and one holds, and
    every slot was opened within its limit. -/
structure SlotsHeld (s : System) : Prop where
  sound : s.queue.Sound
  count : s.queue.activeSessionCount ≤ maxUpClientsAllowed + 1
  opens : ∀ o ∈ s.queue.slotOpens, o.Within

theorem slotsHeld_step (s : System) (event : Event) (h : s.SlotsHeld) :
    (s.step event).SlotsHeld := by
  rcases s.step_queue event with heq | heq
  · obtain ⟨hopens, -⟩ := apply_opens h.sound event
    obtain ⟨opened, hopened, hwithin, -⟩ := hopens.opened
    refine ⟨heq ▸ apply_sound h.sound, ?_, ?_⟩
    · rw [heq]
      exact le_trans hopens.count (max_le h.count slotCap_le)
    · rw [heq, hopened]
      exact fun o ho => (List.mem_append.mp ho).elim (hwithin o) (h.opens o)
  · rw [heq]
    exact h

theorem slotsHeld_run (config : QueueConfig) (events : List Event) :
    (run config events).SlotsHeld :=
  Run.invariant slotsHeld_step events
    ⟨.new config, Nat.zero_le _, fun o ho => absurd ho (by simp [start, new])⟩

structure CapHeld (config : QueueConfig) (s : System) : Prop where
  sound : s.queue.Sound
  unchanged : s.queue.config = config
  count : s.queue.activeSessionCount ≤ (new config).slotCap

/-- What one event preserves, with the configuration left alone. -/
theorem capHeld_step {config : QueueConfig} (s : System) (event : Event) (h : s.CapHeld config)
    (hevent : event.reconfigures = false) : (s.step event).CapHeld config := by
  rcases s.step_queue event with heq | heq
  · obtain ⟨hopens, hconfig⟩ := apply_opens h.sound event
    have hsame : (s.queue.apply event).config = config := (hconfig hevent).trans h.unchanged
    refine ⟨heq ▸ apply_sound h.sound, heq ▸ hsame, ?_⟩
    rw [heq]
    exact le_trans hopens.count (max_le h.count (slotCap_congr hsame).le)
  · rw [heq]
    exact h

/-- **Upload slots are capped.** The number of active sessions never exceeds 129, nor, while the
    configuration stays, the base slots with the elastic allowance by more than one. Every slot was
    opened with fewer active sessions than the limit of that moment, or one more for a callback
    entitlement; and a session that an event makes active is one that it opened a slot for. -/
theorem upload_slots_capped (config : QueueConfig) (events : List Event) :
    let s := run config events
    s.queue.activeSessionCount ≤ maxUpClientsAllowed + 1 ∧
    ((∀ event ∈ events, event.reconfigures = false) →
      s.queue.activeSessionCount
        ≤ (new config).baseSlotLimit + (new config).elasticSlotAllowance + 1) ∧
    (∀ o ∈ s.queue.slotOpens, o.active < o.limit + if o.viaCallback then 1 else 0) ∧
    ∀ event, ∃ opened, (s.step event).queue.slotOpens = opened ++ s.queue.slotOpens ∧
      ∀ session ∈ (s.step event).queue.sessions, session.isActive = true →
        (∃ before ∈ s.queue.sessions, before.lease = session.lease ∧ before.isActive = true) ∨
          ∃ o ∈ opened, o.lease = session.lease := by
  intro s
  have hheld : s.SlotsHeld := slotsHeld_run config events
  refine ⟨hheld.count, fun hsame => ?_, hheld.opens, fun event => ?_⟩
  · have hstart : (start config).CapHeld config := ⟨.new config, rfl, Nat.zero_le _⟩
    exact ((Run.along_of_forall hsame).invariant capHeld_step hstart).count
  · rcases s.step_queue event with heq | heq
    · obtain ⟨hopens, -⟩ := apply_opens hheld.sound event
      obtain ⟨opened, hopened, -, hactive⟩ := hopens.opened
      rw [heq]
      exact ⟨opened, hopened, hactive⟩
    · rw [heq]
      exact ⟨[], rfl, fun session hs ha => .inl ⟨session, hs, rfl, ha⟩⟩

end System

end EmuleBB.Upload
