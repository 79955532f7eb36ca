import EmuleBB.Upload.Calls

/-!
# The queue is one consistent structure

The session table, the waiting order and the callback entitlements are kept in step by a dozen
calls. `Consistent` says what that means, and each move of the queue keeps it, as long as every
peer presents a user hash: then a session that is stored is the first of its client, and no entry
is ever overwritten.

The waiting order is bounded by the configured capacity after every call. A call queues somebody
only in a reap or in an admission, and both trim the queue; `trimWaitingQueue_fits` says that the
loop does not run out of fuel, nor out of waiters to evict, before the queue fits.
-/

namespace EmuleBB.Upload

open Relation FirstMatch Session Table List

variable {session : Session}

/-! ## The sessions that wait -/

def Waits (sessions : List Session) (ident : KeyIdent) : Prop :=
  ∃ session ∈ sessions, session.ident = ident ∧ session.isWaiting = true

section Waits

variable {sessions : List Session} {ident key : KeyIdent} {f : Session → Session}

theorem waits_map (hident : ∀ t ∈ sessions, (f t).ident = t.ident)
    (hwaiting : ∀ t ∈ sessions, (f t).isWaiting = t.isWaiting) :
    Waits (sessions.map f) ident ↔ Waits sessions ident := by
  constructor
  · rintro ⟨_, hmem, hid, hw⟩
    obtain ⟨t, ht, rfl⟩ := mem_map.mp hmem
    exact ⟨t, ht, (hident t ht).symm.trans hid, (hwaiting t ht).symm.trans hw⟩
  · rintro ⟨t, ht, hid, hw⟩
    exact ⟨f t, mem_map_of_mem ht, (hident t ht).trans hid, (hwaiting t ht).trans hw⟩

theorem waits_remove :
    Waits (remove Session.ident key sessions) ident ↔ ident ≠ key ∧ Waits sessions ident := by
  constructor
  · rintro ⟨t, ht, hid, hw⟩
    obtain ⟨ht, hne⟩ := mem_remove.mp ht
    exact ⟨fun heq => hne (hid.trans heq), t, ht, hid, hw⟩
  · rintro ⟨hne, t, ht, hid, hw⟩
    exact ⟨t, mem_remove.mpr ⟨ht, fun heq => hne (hid.symm.trans heq)⟩, hid, hw⟩

theorem waits_put : Waits (put Session.ident session sessions) ident ↔
      (ident ≠ session.ident ∧ Waits sessions ident) ∨
        (ident = session.ident ∧ session.isWaiting = true) := by
  constructor
  · rintro ⟨t, ht, hid, hw⟩
    rcases mem_put.mp ht with ⟨ht, hne⟩ | rfl
    · exact .inl ⟨fun heq => hne (hid.trans heq), t, ht, hid, hw⟩
    · exact .inr ⟨hid.symm, hw⟩
  · rintro (⟨hne, t, ht, hid, hw⟩ | ⟨rfl, hw⟩)
    · exact ⟨t, mem_put.mpr (.inl ⟨ht, fun heq => hne (hid.symm.trans heq)⟩), hid, hw⟩
    · exact ⟨session, mem_put.mpr (.inr rfl), rfl, hw⟩

theorem waits_update (hf : ∀ t, (f t).ident = t.ident) :
    Waits (update Session.ident key f sessions) ident ↔
      (ident ≠ key ∧ Waits sessions ident) ∨
        (ident = key ∧ ∃ t ∈ sessions, t.ident = key ∧ (f t).isWaiting = true) := by
  constructor
  · rintro ⟨t, ht, hid, hw⟩
    rcases mem_update_cases ht with ⟨ht, hne⟩ | ⟨u, hu, hk, rfl⟩
    · exact .inl ⟨fun heq => hne (hid.trans heq), t, ht, hid, hw⟩
    · exact .inr ⟨(hid.symm.trans (hf u)).trans hk, u, hu, hk, hw⟩
  · rintro (⟨hne, t, ht, hid, hw⟩ | ⟨rfl, t, ht, hk, hw⟩)
    · exact ⟨t, mem_update_of_ne ht fun heq => hne (hid.symm.trans heq), hid, hw⟩
    · exact ⟨f t, mem_update_self ht hk, (hf t).trans hk, hw⟩

end Waits

namespace Queue

variable {identified : Prop} {q q' : Queue} {now : Instant} {key : SessionKey}

/-! ## The invariant -/

/-- **The waiting order lists exactly the waiting sessions, each once**, and a route is armed only
    where there is no connection. -/
structure Consistent (q : Queue) : Prop where
  orderNodup : (q.waitingOrder.map SessionKey.ident).Nodup
  orderExact : ∀ ident, ident ∈ q.waitingOrder.map SessionKey.ident ↔ Waits q.sessions ident
  routed : ∀ session ∈ q.sessions, session.route ≠ none → session.connected = false

namespace Consistent

theorem new (config : QueueConfig) : (Queue.new config).Consistent :=
  ⟨nodup_nil, fun ident => by simp [Queue.new, Waits], fun _ h => absurd h (by simp [Queue.new])⟩

theorem map (h : q.Consistent) (f : Session → Session) (hs : q'.sessions = q.sessions.map f)
    (ho : q'.waitingOrder = q.waitingOrder) (hident : ∀ t ∈ q.sessions, (f t).ident = t.ident)
    (hwaiting : ∀ t ∈ q.sessions, (f t).isWaiting = t.isWaiting)
    (hrouted : ∀ t ∈ q.sessions, (f t).route ≠ none → (f t).connected = false) :
    q'.Consistent where
  orderNodup := ho ▸ h.orderNodup
  orderExact := by
    intro ident
    rw [ho, hs, h.orderExact, waits_map hident hwaiting]
  routed := by
    rw [hs]
    intro _ hmem
    obtain ⟨t, ht, rfl⟩ := mem_map.mp hmem
    exact hrouted t ht

theorem mem_leave {order : List SessionKey} {key ident : KeyIdent} :
    ident ∈ (order.filter fun queued => queued.ident ≠ key).map SessionKey.ident ↔
      ident ≠ key ∧ ident ∈ order.map SessionKey.ident := by
  constructor
  · intro hmem
    obtain ⟨queued, hq, rfl⟩ := mem_map.mp hmem
    obtain ⟨hq, hne⟩ := mem_filter.mp hq
    exact ⟨of_decide_eq_true hne, mem_map_of_mem hq⟩
  · rintro ⟨hne, hmem⟩
    obtain ⟨queued, hq, rfl⟩ := mem_map.mp hmem
    exact mem_map_of_mem (mem_filter.mpr ⟨hq, decide_eq_true hne⟩)

section

variable (h : q.Consistent)

include h

theorem leave_nodup (key : KeyIdent) :
    ((q.waitingOrder.filter fun queued => queued.ident ≠ key).map SessionKey.ident).Nodup :=
  h.orderNodup.sublist (filter_sublist.map _)

theorem append_nodup (hkey : ¬Waits q.sessions key.ident) :
    ((q.waitingOrder ++ [key]).map SessionKey.ident).Nodup := by
  rw [map_append, nodup_append]
  refine ⟨h.orderNodup, nodup_singleton _, fun a ha b hb hab => hkey ?_⟩
  obtain rfl : b = key.ident := by simpa using hb
  exact (h.orderExact _).mp (hab ▸ ha)

theorem retire (hs : q'.sessions = Table.remove ident key.ident q.sessions)
    (ho : q'.waitingOrder = q.waitingOrder.filter fun queued => queued.ident ≠ key.ident) :
    q'.Consistent where
  orderNodup := ho ▸ h.leave_nodup key.ident
  orderExact := by
    intro ident
    rw [ho, hs, mem_leave, h.orderExact, waits_remove]
  routed := by
    intro t ht
    rw [hs] at ht
    exact h.routed t (Table.mem_remove.mp ht).1

/-- Somebody who did not wait goes to the end of the order. -/
theorem joined (ho : q'.waitingOrder = q.waitingOrder ++ [key])
    (hidle : ¬Waits q.sessions key.ident)
    (hwaits : ∀ ident, Waits q'.sessions ident ↔
      (ident ≠ key.ident ∧ Waits q.sessions ident) ∨ ident = key.ident)
    (hrouted : ∀ t ∈ q'.sessions, t.route ≠ none → t.connected = false) : q'.Consistent where
  orderNodup := ho ▸ h.append_nodup hidle
  orderExact := by
    intro ident
    rw [ho, hwaits, map_append, mem_append, h.orderExact, map_singleton,
      mem_singleton]
    exact or_congr_left ⟨fun hw => ⟨fun heq => hidle (heq ▸ hw), hw⟩, (·.2)⟩
  routed := hrouted

theorem join {f : Session → Session}
    (hs : q'.sessions = Table.update ident key.ident f q.sessions)
    (ho : q'.waitingOrder = q.waitingOrder ++ [key]) (hf : ∀ t, (f t).ident = t.ident)
    (hidle : ¬Waits q.sessions key.ident)
    (hwaits : ∃ t ∈ q.sessions, t.ident = key.ident ∧ (f t).isWaiting = true)
    (hrouted : ∀ t ∈ q.sessions, (f t).route ≠ none → (f t).connected = false) : q'.Consistent := by
  refine h.joined ho hidle (fun ident => ?_) fun t ht hr => ?_
  · rw [hs, waits_update hf, and_iff_left hwaits]
  · rw [hs] at ht
    rcases Table.mem_update_cases ht with ⟨ht, -⟩ | ⟨u, hu, -, rfl⟩
    · exact h.routed t ht hr
    · exact hrouted u hu hr

theorem leave {f : Session → Session}
    (hs : q'.sessions = Table.update ident key.ident f q.sessions)
    (ho : q'.waitingOrder = q.waitingOrder.filter fun queued => queued.ident ≠ key.ident)
    (hf : ∀ t, (f t).ident = t.ident) (hactive : ∀ t, (f t).isWaiting = false)
    (hrouted : ∀ t, (f t).route = none) : q'.Consistent where
  orderNodup := ho ▸ h.leave_nodup key.ident
  orderExact := by
    intro ident
    rw [ho, hs, waits_update hf, mem_leave, h.orderExact]
    constructor
    · exact .inl
    · rintro (hw | ⟨-, t, -, -, hw⟩)
      · exact hw
      · exact absurd hw (by rw [hactive t]; simp)
  routed := by
    intro t ht hr
    rw [hs] at ht
    rcases Table.mem_update_cases ht with ⟨ht, -⟩ | ⟨u, -, -, rfl⟩
    · exact h.routed t ht hr
    · exact absurd (hrouted u) hr

theorem arrive (hstored : q.storedKey session.key = session.key)
    (hs : q'.sessions = (q.insert session).sessions) (habsent : ¬Waits q.sessions session.ident)
    (ho : q'.waitingOrder = if session.isWaiting then q.waitingOrder ++ [session.key]
      else q.waitingOrder)
    (hrouted : session.route = none) : q'.Consistent := by
  have hput : q'.sessions = put Session.ident session q.sessions :=
    hs.trans (insert_sessions hstored)
  have hroutes : ∀ t ∈ q'.sessions, t.route ≠ none → t.connected = false := by
    intro t ht hr
    rw [hput] at ht
    rcases mem_put.mp ht with ⟨ht, -⟩ | rfl
    · exact h.routed t ht hr
    · exact absurd hrouted hr
  cases hw : session.isWaiting with
  | true =>
    rw [hw, if_pos rfl] at ho
    refine h.joined ho habsent (fun ident => ?_) hroutes
    rw [hput, waits_put, and_iff_left hw]
    rfl
  | false =>
    rw [hw, if_neg (by simp)] at ho
    refine ⟨ho ▸ h.orderNodup, fun ident => ?_, hroutes⟩
    rw [ho, hput, waits_put, h.orderExact]
    constructor
    · exact fun hwait => .inl ⟨fun heq => habsent (heq ▸ hwait), hwait⟩
    · rintro (⟨-, hwait⟩ | ⟨-, hwait⟩)
      · exact hwait
      · exact absurd hwait (by rw [hw]; simp)

end

theorem ne_of_waits {old new : SessionKey} (hunclaimed : q.Unclaimed old new) {ident : KeyIdent}
    (hw : Waits q.sessions ident) (hne : ident ≠ old.ident) : ident ≠ new.ident := by
  obtain ⟨t, ht, rfl, -⟩ := hw
  exact fun heq => hunclaimed t ht hne (congrArg KeyIdent.userHash heq)

theorem rekey (h : q.Consistent) (hq : q.Sound) {old session : Session} (hold : old ∈ q.sessions)
    (hunclaimed : q.Unclaimed old.key session.key) (hwaiting : session.isWaiting = old.isWaiting)
    (hrouted : session.route ≠ none → session.connected = false) :
    (q.rekey old session).Consistent := by
  have hput : (q.rekey old session).sessions =
      Table.put Session.ident session (Table.remove Session.ident old.ident q.sessions) := by
    have hstored : (q.remove old.key).storedKey session.key = session.key :=
      Identified.storedKey_eq (Identified.newcomer_of_unclaimed hunclaimed)
    exact insert_sessions hstored
  have hroutes : ∀ t ∈ (q.rekey old session).sessions, t.route ≠ none → t.connected = false := by
    intro t ht hr
    rcases Table.mem_put.mp ht with ⟨ht, -⟩ | rfl
    · exact h.routed t (Table.mem_remove.mp ht).1 hr
    · exact hrouted hr
  cases hw : old.isWaiting with
  | false =>
    have ho : (q.rekey old session).waitingOrder = q.waitingOrder := by
      simp [Queue.rekey, insert, remove, hw]
    refine ⟨ho ▸ h.orderNodup, fun ident => ?_, hroutes⟩
    rw [ho, hput, waits_put, waits_remove, h.orderExact, hwaiting, hw]
    constructor
    · intro hwait
      have hne : ident ≠ old.ident := by
        rintro rfl
        obtain ⟨t, ht, hk, hwt⟩ := hwait
        rw [hq.eq_of_ident ht hold hk, hw] at hwt
        cases hwt
      exact .inl ⟨ne_of_waits hunclaimed hwait hne, hne, hwait⟩
    · rintro (⟨-, -, hwait⟩ | ⟨-, hfalse⟩)
      · exact hwait
      · cases hfalse
  | true =>
    have ho : (q.rekey old session).waitingOrder.map SessionKey.ident =
        (q.waitingOrder.map SessionKey.ident).map fun ident =>
          if ident = old.ident then session.ident else ident := by
      have hfirst : modifyFirst (·.same old.key) (fun _ => session.key) q.waitingOrder =
          q.waitingOrder.map fun queued =>
            if queued.ident = old.key.ident then session.key else queued :=
        modifyFirst_eq_map (fun queued => decide_eq_true_iff) h.orderNodup
      simp only [Queue.rekey, insert, remove, replaceWaitingKey, hw, if_true, hfirst, List.map_map]
      refine List.map_congr_left fun queued _ => ?_
      exact apply_ite SessionKey.ident _ _ _
    have hother : ∀ ident ∈ q.waitingOrder.map SessionKey.ident, ident ≠ old.ident →
        ident ≠ session.ident := fun ident hmem hne =>
      ne_of_waits hunclaimed ((h.orderExact ident).mp hmem) hne
    refine ⟨?_, fun ident => ?_, hroutes⟩
    · rw [ho]
      refine h.orderNodup.map_on fun i hi j hj hij => ?_
      by_cases hiold : i = old.ident
      · by_cases hjold : j = old.ident
        · rw [hiold, hjold]
        · rw [if_pos hiold, if_neg hjold] at hij
          exact absurd hij.symm (hother j hj hjold)
      · by_cases hjold : j = old.ident
        · rw [if_neg hiold, if_pos hjold] at hij
          exact absurd hij (hother i hi hiold)
        · rwa [if_neg hiold, if_neg hjold] at hij
    · rw [ho, hput, waits_put, waits_remove, hwaiting, hw, List.mem_map]
      constructor
      · rintro ⟨i, hi, rfl⟩
        by_cases hiold : i = old.ident
        · exact .inr ⟨if_pos hiold, rfl⟩
        · rw [if_neg hiold]
          exact .inl ⟨hother i hi hiold, hiold, (h.orderExact i).mp hi⟩
      · rintro (⟨-, hne, hwait⟩ | ⟨rfl, -⟩)
        · exact ⟨ident, (h.orderExact ident).mpr hwait, if_neg hne⟩
        · exact ⟨old.ident, (h.orderExact _).mpr ⟨old, hold, rfl, hw⟩, if_pos rfl⟩

end Consistent

/-- **Every move keeps the structure consistent**, when every peer has a hash. -/
theorem Move.consistent (hid : identified) (move : Move identified q q') (hq : q.Sound)
    (h : q.Consistent) : q'.Consistent := by
  cases move with
  | touch f kept sessions books =>
    refine h.map f sessions books.waitingOrder (fun t ht => (kept t ht).ident)
      (fun t ht => (kept t ht).isWaiting) fun t ht hr => ?_
    rcases (kept t ht).route with hnone | ⟨hsame, hconnected⟩
    · exact absurd hnone hr
    · exact hconnected (h.routed t ht (hsame ▸ hr))
  | reorder sessions books =>
    refine ⟨books.waitingOrder ▸ h.orderNodup, fun ident => ?_,
      fun t ht => h.routed t (sessions.mem_iff.mp ht)⟩
    rw [books.waitingOrder, h.orderExact]
    simp only [Waits, sessions.mem_iff]
  | retire => exact h.retire rfl rfl
  | @demote key now session stored active idle =>
    obtain ⟨hmem, hident⟩ := mem_get stored
    refine h.join rfl rfl (fun _ => rfl) ?_ ⟨session, hmem, hident, rfl⟩
      fun t ht hr => h.routed t ht hr
    rintro ⟨t, ht, hk, hw⟩
    rw [hq.eq_of_ident ht hmem (hk.trans hident.symm), isWaiting_eq, active] at hw
    cases hw
  | entitle =>
    refine h.map _ rfl rfl (fun t _ => ?_) (fun t _ => ?_) (fun t ht hr => ?_)
    · split <;> rfl
    · split <;> rfl
    · split at hr
      · exact absurd rfl hr
      · rename_i hk
        rw [if_neg hk]
        exact h.routed t ht hr
  | grant =>
    exact h.leave rfl rfl (fun _ => rfl) (fun _ => rfl) fun _ => rfl
  | admitWaiting key connectionId inputs now newcomer
  | admitGranted key connectionId inputs now free newcomer =>
    refine h.arrive (Identified.storedKey_eq (newcomer hid).2) rfl ?_ rfl rfl
    rintro ⟨t, ht, hk, -⟩
    exact (newcomer hid).2 t ht (congrArg KeyIdent.userHash hk)
  | rekey stored carried unclaimed =>
    refine h.rekey hq stored (unclaimed hid).2 carried.isWaiting fun hr => ?_
    rcases carried.route with hnone | ⟨hsame, hconnected⟩
    · exact absurd hnone hr
    · exact hconnected (h.routed _ stored (hsame ▸ hr))
  | @claim old session now stored waiting free active spent lease inFlightWork unclaimed =>
    -- the old session leaves the queue, then the active one is stored
    have hleft : (((q.stampSlotOpen old true now).remove old.key).leaveOrder old.key).Consistent :=
      h.retire rfl rfl
    have hnew := Identified.newcomer_of_unclaimed (unclaimed hid).2
    refine hleft.arrive (Identified.storedKey_eq hnew) rfl ?_ ?_ ?_
    · rintro ⟨t, ht, hk, -⟩
      exact hnew t ht (congrArg KeyIdent.userHash hk)
    · rw [isWaiting_eq, active]
      rfl
    · rw [route, spent]
      rfl

theorem Moves.consistent (hid : identified) (moves : Moves identified q q') (hq : q.Sound)
    (h : q.Consistent) : q'.Consistent := by
  induction moves with
  | refl => exact h
  | tail moves move ih => exact move.consistent hid (Moves.sound moves hq) ih

/-! ## The capacity of the queue -/

def Fits (q : Queue) : Prop := q.waitingOrder.length ≤ q.config.waitingCapacity

theorem Move.config (move : Move identified q q') : q'.config = q.config := by
  cases move with
  | touch f kept sessions books | reorder sessions books => exact books.config
  | _ => rfl

theorem Moves.config (moves : Moves identified q q') : q'.config = q.config := by
  induction moves with
  | refl => rfl
  | tail _ move ih => exact move.config.trans ih

theorem exists_waiter (hq : q.Sound) (h : q.Consistent)
    (hkey : key ∈ q.waitingOrder) : ∃ session, (key, session) ∈ q.waiters := by
  obtain ⟨t, ht, hident, hw⟩ := (h.orderExact key.ident).mp (mem_map_of_mem hkey)
  refine ⟨t, mem_waiters.mpr ⟨hkey, ?_, hw⟩⟩
  have hget := lookup_of_mem hq.keys ht
  rwa [hident] at hget

theorem length_retire_lt (h : key ∈ q.waitingOrder) :
    (q.retireSessionKey key).waitingOrder.length < q.waitingOrder.length :=
  length_filter_lt_length_iff_exists.mpr ⟨key, h, by simp⟩

/-- **The trim ends with a queue that fits.** -/
theorem trimLoop_fits {fuel : Nat} (hq : q.Sound) (h : q.Consistent)
    (hfuel : q.waitingOrder.length ≤ fuel) : (trimLoop now fuel q).Fits := by
  induction fuel generalizing q with
  | zero => exact le_trans hfuel (Nat.zero_le _)
  | succ fuel ih =>
    rw [trimLoop]
    split
    · assumption
    · rename_i hover
      split
      · -- a queue above its capacity has somebody to evict
        rename_i hworst
        have hempty : q.rankedWaiters now = [] := getLast?_eq_none_iff.mp hworst
        refine absurd ?_ hover
        cases horder : q.waitingOrder with
        | nil => exact Nat.zero_le _
        | cons key =>
          obtain ⟨session, hmem⟩ := exists_waiter hq h (horder ▸ mem_cons_self)
          have hranked : (key, session) ∈ q.rankedWaiters now := mem_rankedWaiters.mpr hmem
          rw [hempty] at hranked
          cases hranked
      · rename_i evicted hworst
        have hmem := mem_rankedWaiters.mp (mem_of_getLast? hworst)
        have hlt := length_retire_lt (mem_waiters.mp hmem).1
        have hretire : Move True q (q.retireSessionKey evicted.1) := .retire q evicted.1
        exact ih (hretire.sound hq) (h.retire rfl rfl) (by omega)

theorem trimWaitingQueue_fits (hq : q.Sound) (h : q.Consistent) : (q.trimWaitingQueue now).Fits :=
  trimLoop_fits hq h le_rfl

theorem Promotes.length_le (h : Promotes q q') :
    q'.waitingOrder.length ≤ q.waitingOrder.length := by
  cases h with
  | aside sessions books => rw [books.waitingOrder]
  | entitle => exact le_rfl
  | grant => exact length_filter_le _ _

theorem promotes_length_le (h : ReflTransGen Promotes q q') :
    q'.waitingOrder.length ≤ q.waitingOrder.length := by
  induction h with
  | refl => exact le_rfl
  | tail _ step ih => exact le_trans step.length_le ih

/-- A promotion pass does not make the queue longer. -/
theorem promoteWaiters_fits (h : q.Fits) : (q.promoteWaiters now).Fits := by
  have hpromotes := promoteWaiters_promotes q now
  rw [Fits, (@promotes_moves True _ _ hpromotes).config]
  exact le_trans (promotes_length_le hpromotes) h

theorem reap_fits (hq : q.Sound) (h : q.Consistent) : (q.reapExpiredSessions now).Fits := by
  have hsettles := @settles_moves True _ _ (settleExpiredSessions_settles hq now)
  exact promoteWaiters_fits
    (trimWaitingQueue_fits (hsettles.sound hq) (hsettles.consistent trivial hq h))

/-- **Every leg of a call ends with a queue that fits.** -/
theorem Leg.fits (hid : identified) (leg : Leg identified q q') (hq : q.Sound) (h : q.Consistent)
    (hfits : q.Fits) : q'.Fits := by
  cases leg with
  | light move order =>
    rw [Fits, move.config]
    exact le_trans order hfits
  | reap => exact reap_fits hq h
  | trim => exact trimWaitingQueue_fits hq h
  | promote => exact promoteWaiters_fits hfits
  | queued key connectionId inputs now newcomer =>
    have hmove := Move.admitWaiting q key connectionId inputs now newcomer
    exact trimWaitingQueue_fits (hmove.sound hq) (hmove.consistent hid hq h)

theorem Course.fits (hid : identified) (course : Course identified q q') (hq : q.Sound)
    (h : q.Consistent) (hfits : q.Fits) : q'.Fits := by
  induction course with
  | refl => exact hfits
  | tail course leg ih =>
    have hmoves := Course.moves course
    exact leg.fits hid (hmoves.sound hq) (hmoves.consistent hid hq h) ih

/-! ## Every event -/

/-- **What the queue is between two calls.** -/
structure Orderly (q : Queue) : Prop where
  sound : q.Sound
  identified : q.Identified
  consistent : q.Consistent
  fits : q.Fits

namespace Orderly

theorem new (config : QueueConfig) : (Queue.new config).Orderly :=
  ⟨.new config, .new config, .new config, Nat.zero_le _⟩

section

variable (h : q.Orderly)

include h

theorem course (course : Course True q q') : q'.Orderly where
  sound := course.moves.sound h.sound
  identified := course.moves.identified trivial h.identified
  consistent := course.moves.consistent trivial h.sound h.consistent
  fits := course.fits trivial h.sound h.consistent h.fits

/-- A change of every session that keeps its key and its place, and may arm a route where there is
    no connection. -/
theorem map (f : Session → Session) (hs : q'.sessions = q.sessions.map f) (hb : q'.SameBooks q)
    (hf : ∀ t ∈ q.sessions, (f t).key = t.key ∧ (f t).lease = t.lease ∧
      (f t).isWaiting = t.isWaiting ∧ (f t).generation = t.generation ∧
      ((f t).route ≠ none → (f t).connected = false)) : q'.Orderly where
  sound := by
    refine h.sound.map f hs hb.nextLease fun t ht => ?_
    obtain ⟨hkey, hlease, hwaiting, hgeneration, -⟩ := hf t ht
    refine ⟨congrArg SessionKey.ident hkey, hlease, ?_⟩
    rw [hgeneration, hwaiting]
    exact h.sound.entitled t ht
  identified := h.identified.map f hs fun t ht => (hf t ht).1
  consistent := h.consistent.map f hs hb.waitingOrder
    (fun t ht => congrArg SessionKey.ident (hf t ht).1) (fun t ht => (hf t ht).2.2.1)
    fun t ht => (hf t ht).2.2.2.2
  fits := by
    rw [Fits, hb.waitingOrder, hb.config]
    exact h.fits

theorem update {f : Session → Session}
    (hf : ∀ t ∈ q.sessions, t.ident = key.ident → (f t).key = t.key ∧ (f t).lease = t.lease ∧
      (f t).isWaiting = t.isWaiting ∧ (f t).generation = t.generation ∧
      ((f t).route ≠ none → (f t).connected = false)) : (q.update key f).Orderly := by
  refine h.map _ rfl ⟨rfl, rfl, rfl, rfl, rfl, rfl, rfl⟩ fun t ht => ?_
  split
  · next hk => exact hf t ht hk
  · exact ⟨rfl, rfl, rfl, rfl, h.consistent.routed t ht⟩

theorem configure (config : QueueConfig) (now : Instant) : (q.configure config now).Orderly := by
  have hsound : Sound { q with config := config } :=
    ⟨h.sound.keys, h.sound.leases, h.sound.issued, h.sound.entitled⟩
  have hidentified : Identified { q with config := config } :=
    ⟨h.identified.hashed, h.identified.distinct⟩
  have hconsistent : Consistent { q with config := config } :=
    ⟨h.consistent.orderNodup, h.consistent.orderExact, h.consistent.routed⟩
  have hreap := @reap_moves True _ hsound now
  -- the new capacity holds from the reap on
  have hreaped : Orderly ({ q with config := config }.reapExpiredSessions now) :=
    ⟨hreap.sound hsound, hreap.identified trivial hidentified,
      hreap.consistent trivial hsound hconsistent, reap_fits hsound hconsistent⟩
  exact hreaped.course (.head (.trim _ now) (.single (.promote _ now)))

/-- **Every event of identified peers keeps the queue in order.** -/
theorem apply {event : Event} (hid : event.identified = true) : (q.apply event).Orderly := by
  rcases apply_cases h.sound event fun _ => ⟨h.identified, hid⟩ with
    hcourse | ⟨config, now, rfl, -⟩ | ⟨handle, now, session, -, hget, hactive, -, happly, -⟩ |
    ⟨lease, rfl⟩ | harms
  · exact h.course hcourse
  · exact h.configure config now
  · rw [happly]
    refine h.update fun t ht hk => ?_
    obtain ⟨hmem, hident⟩ := mem_get hget
    obtain rfl := h.sound.eq_of_ident ht hmem (hk.trans hident.symm)
    refine ⟨rfl, rfl, ?_, rfl, h.consistent.routed t ht⟩
    rw [isWaiting_eq t, hactive]
    rfl
  · refine h.map _ rfl ⟨rfl, rfl, rfl, rfl, rfl, rfl, rfl⟩ fun t ht => ?_
    split <;> exact ⟨rfl, rfl, rfl, rfl, h.consistent.routed t ht⟩
  · obtain ⟨now, key, route, hcourse, happly, hdetached⟩ := harms.cases h.sound
    rw [happly]
    refine (h.course (hcourse True)).update fun t ht hk => ⟨rfl, rfl, rfl, ?_, fun _ => ?_⟩
    · simp [generation, armRoute, Function.comp_def]
    · exact (hdetached t ht hk).2

/-- The waiting sessions are those of the waiting order. -/
theorem waitingSessionCount_eq : q.waitingSessionCount = q.waitingOrder.length := by
  have hperm : ((q.sessions.filter isWaiting).map ident).Perm
      (q.waitingOrder.map SessionKey.ident) := by
    refine (perm_ext_iff_of_nodup
      (h.sound.keys.sublist (filter_sublist.map _)) h.consistent.orderNodup).mpr fun ident => ?_
    rw [h.consistent.orderExact]
    constructor
    · intro hmem
      obtain ⟨t, ht, rfl⟩ := mem_map.mp hmem
      exact ⟨t, (mem_filter.mp ht).1, rfl, (mem_filter.mp ht).2⟩
    · rintro ⟨t, ht, rfl, hw⟩
      exact mem_map_of_mem (mem_filter.mpr ⟨ht, hw⟩)
  have hlength := hperm.length_eq
  rwa [length_map, length_map, ← countP_eq_length_filter] at hlength

end

end Orderly

end Queue

namespace System

/-- What one event preserves, if its peer has a user hash. -/
theorem orderly_step (s : System) (event : Event) (h : s.queue.Orderly)
    (hid : event.identified = true) : (s.step event).queue.Orderly := by
  rcases s.step_queue event with heq | heq
  · rw [heq]
    exact h.apply hid
  · rw [heq]
    exact h

theorem orderly_run (config : QueueConfig) {events : List Event}
    (hid : ∀ event ∈ events, event.identified = true) : (run config events).queue.Orderly :=
  (Run.along_of_forall hid).invariant orderly_step (Queue.Orderly.new config)

/-- **The upload queue is one consistent structure.** In every state that events of identified
    peers lead to, the waiting order lists the waiting sessions, each once; a user hash has one
    session; an entitlement is held by a waiting session and a route by a disconnected one; and no
    more sessions wait than the configuration in force allows. -/
theorem upload_queue_consistent (config : QueueConfig) (events : List Event)
    (hid : ∀ event ∈ events, event.identified = true) :
    let q := (run config events).queue
    (q.waitingOrder.map SessionKey.ident).Nodup ∧
    (∀ ident, ident ∈ q.waitingOrder.map SessionKey.ident ↔
      ∃ session ∈ q.sessions, session.ident = ident ∧ session.phase = .waiting) ∧
    (q.sessions.map userHash).Nodup ∧
    (∀ session ∈ q.sessions, session.callbackPromotion.isSome = true → session.phase = .waiting) ∧
    (∀ session ∈ q.sessions, session.route.isSome = true → session.connected = false) ∧
    q.waitingSessionCount ≤ q.config.waitingCapacity := by
  intro q
  have h : q.Orderly := orderly_run config hid
  refine ⟨h.consistent.orderNodup, fun ident => ?_, h.identified.distinct,
    fun session hs hsome => ?_,
    fun session hs hsome => ?_, ?_⟩
  · simp only [h.consistent.orderExact, Waits, isWaiting, decide_eq_true_eq]
  · refine of_decide_eq_true (h.sound.entitled session hs ?_)
    rw [generation, ne_eq, Option.map_eq_none_iff]
    exact Option.isSome_iff_ne_none.mp hsome
  · exact h.consistent.routed session hs (Option.isSome_iff_ne_none.mp hsome)
  · rw [h.waitingSessionCount_eq]
    exact h.fits

def oneSlot : QueueConfig where
  baseSlots := 1
  elasticPercent := 0
  uploadLimitBytesPerSec := 0
  elasticUnderfillBytesPerSec := 0
  elasticUnderfill := 0
  waitingCapacity := 100
  softQueueSize := 100
  waitingTimeout := seconds 3600
  grantedTimeout := seconds 5
  uploadTimeout := seconds 30
  sessionTransferPercent := 0
  sessionTimeLimit := 0

def reachablePeer (n : UInt8) : PeerIdentity where
  ip := .v4 ⟨10, 0, 0, n⟩
  tcpPort := 4662
  udpPort := none
  userHash := some (Vector.replicate 16 n)
  clientId := none
  serverEndpoint := none
  friendSlot := false
  identVerified := true
  identBadGuy := false
  gplEvildoer := false
  banned := false
  emuleVersion := 0x47
  isEmuleClient := true
  kadPort := 0
  supportsDirectUdpCallback := false
  firewallContext := ⟨true, false, false⟩

def firewalledPeer (n : UInt8) : PeerIdentity :=
  { reachablePeer n with
    clientId := some 77
    serverEndpoint := some ⟨.v4 ⟨10, 0, 1, 1⟩, 4661⟩ }

def sharedFile (peer : PeerIdentity) : SessionKey := ⟨peer, Vector.replicate 16 9⟩

def plainInputs : ScoreInputs := ⟨7, 1000, 0, 9728000⟩

/-- One peer takes the slot and a firewalled one waits for it, loses its connection, and is entitled
    to a callback when the slot is given back. -/
theorem upload_queue_consistent_entitled : let events : List Event :=
      [.beginSession (sharedFile (reachablePeer 1)) 1 plainInputs 0 0,
        .beginSession (sharedFile (firewalledPeer 2)) 2 plainInputs 0 0,
        .releaseSession ⟨sharedFile (firewalledPeer 2), 2⟩ 0,
        .releaseSession ⟨sharedFile (reachablePeer 1), 1⟩ 0]
    let q := (run oneSlot events).queue
    q.sessions.map (fun session => session.generation) = [some 1] ∧
      q.waitingSessionCount ≤ q.config.waitingCapacity :=
  ⟨by decide +kernel, (upload_queue_consistent oneSlot _ (by decide)).2.2.2.2.2⟩

end System

end EmuleBB.Upload
