import EmuleBB.Callback.Reservations
import EmuleBB.Lib.Run

/-!
# Callback tickets are owned linearly

**A run is any list of the callers' calls, at times that do not go back.** Dispatch permits, lease
tokens and session tokens are what a caller holds between two calls; `Authority` is any of the
three. It is *current* when the store, reaped at the time of the call, still has a ticket that
carries it. A store never gives back what a ticket lost (`Derives`), so an authority that is not
current never is again, and its use is refused and changes nothing.

`begin_dispatch` reaps before it looks. **`mark_dispatched` and `cancel` do not**, so that a
dispatching ticket outlives its deadline; but a ticket that is only reserved is then found past its
deadline as well, and armed (`overdue_permit_arms`). The theorem is about the runs in which no
settlement finds its ticket overdue.
-/

namespace EmuleBB.Callback

open Run Store

/-! ## The calls -/

/-- The calls of the store, each at its time. -/
inductive Event
  | reserve (request : TicketRequest) (now : Instant)
  | beginDispatch (permit : DispatchPermit) (now : Instant)
  | markDispatched (permit : DispatchPermit) (now : Instant)
  | cancel (permit : DispatchPermit) (now : Instant)
  | lease (hello : HelloIdentity) (now : Instant)
  | release (token : ClaimToken) (now : Instant)
  | commit (token : ClaimToken) (now : Instant)
  | claimSession (hello : HelloIdentity) (now : Instant)
  | sessionCurrent (token : SessionToken) (now : Instant)
  | acknowledgeSessionCurrent (token : SessionToken) (now : Instant)
  | finishSession (token : SessionToken) (now : Instant)

def Event.now : Event → Instant
  | .reserve _ now | .beginDispatch _ now | .markDispatched _ now | .cancel _ now | .lease _ now
  | .release _ now | .commit _ now | .claimSession _ now | .sessionCurrent _ now
  | .acknowledgeSessionCurrent _ now | .finishSession _ now => now

/-- What a call answers. -/
inductive Outcome
  | reserved (result : Except TicketError Reservation)
  | flag (result : Bool)
  | dispatched (result : DispatchOutcome)
  | leased (result : Except ClaimError (Option Claim))
  | claimed (result : Except ClaimError (Option SessionToken))
  | current (result : Except ClaimError (Option Download))
  | settled (result : Except ClaimError Unit)

/-- The call did nothing for who made it. -/
def Outcome.isRefusal : Outcome → Bool
  | .flag result => !result
  | .dispatched result => result = .settled
  | .current (.error e) | .settled (.error e) => e = .staleClaim
  | _ => false

/-- One call on the store. -/
def call (clockMax : Nat) (s : Store) : Event → Store × Outcome
  | .reserve request now => (s.reserve clockMax request now).map id .reserved
  | .beginDispatch permit now => (s.beginDispatch permit now).map id .flag
  | .markDispatched permit now => (s.markDispatched clockMax permit now).map id .dispatched
  | .cancel permit now => (s.cancel clockMax permit now).map id .flag
  | .lease hello now => (s.lease clockMax hello now).map id .leased
  | .release token now => (s.release token now).map id .settled
  | .commit token now => (s.commit token now).map id .settled
  | .claimSession hello now => (s.claimSession clockMax hello now).map id .claimed
  | .sessionCurrent token now => (s.sessionCurrent token now).map id .current
  | .acknowledgeSessionCurrent token now =>
    (s.acknowledgeSessionCurrent token now).map id .settled
  | .finishSession token now => (s.finishSession clockMax token now).map id .settled

/-- The store, and the time of its last call. -/
structure System where
  store : Store
  clock : Instant

def System.init (ticketCapacity downloadCapacity : Nat) (start : Instant) : System :=
  ⟨Store.new ticketCapacity downloadCapacity, start⟩

def System.step (clockMax : Nat) (y : System) (e : Event) : System :=
  ⟨(call clockMax y.store e).1, e.now⟩

/-! ## Authorities -/

/-- What a caller shows: a permit to dial, a lease of tickets, or a session that owns them. -/
inductive Authority
  | permit (permit : DispatchPermit)
  | lease (token : ClaimToken)
  | session (token : SessionToken)

/-- The authority a call is made with, if it takes one. -/
def Event.authority : Event → Option Authority
  | .beginDispatch permit _ | .markDispatched permit _ | .cancel permit _ => some (.permit permit)
  | .release token _ | .commit token _ => some (.lease token)
  | .sessionCurrent token _ | .acknowledgeSessionCurrent token _ | .finishSession token _ =>
    some (.session token)
  | .reserve .. | .lease .. | .claimSession .. => none

/-- The tickets an authority is about. -/
def Authority.CarriedBy : Authority → TicketRecord → Prop
  | .permit p => fun t => t.id = p.ticketId
  | .lease token => CarriesLease token
  | .session token => CarriesSession token

/-- The store still honours it. -/
def Authority.isCurrent (s : Store) : Authority → Bool
  | .permit p => s.permitIsCurrent p
  | .lease token => s.leaseTokenIsCurrent token
  | .session token => s.sessionTokenIsCurrent token

def Authority.Issued (s : Store) : Authority → Prop
  | .permit p => p.ticketId < s.nextTicketId
  | .lease token => token.generation < s.nextLeaseGeneration
  | .session token => token.generation < s.nextLeaseGeneration

/-- **What retires an authority** during a call: its ticket's deadline or its lease's has passed,
    it was released, committed or finished, or its ticket waits for a fresh dispatch, which a
    reservation gives to a new permit. -/
inductive Retires (clockMax : Nat) (s : Store) (e : Event) : Authority → Prop
  | expired {permit : DispatchPermit} {t : TicketRecord} (mem : t ∈ s.tickets)
      (id : t.id = permit.ticketId) (gone : reapTicket e.now t = none) :
        Retires _ s e (.permit permit)
  | leaseExpired {token : ClaimToken} {t : TicketRecord} {deadline : Instant}
      {priorState : ReadyState} (mem : t ∈ s.tickets) (id : t.id ∈ token.ticketIds)
      (state : t.state = .leased token.generation deadline priorState)
      (lapsed : deadline ≤ e.now) : Retires _ s e (.lease token)
  | released {token : ClaimToken} {now : Instant} (event : e = .release token now)
      (ok : (call clockMax s e).2 = .settled (.ok ())) : Retires _ s e (.lease token)
  | committed {token : ClaimToken} {now : Instant} (event : e = .commit token now)
      (ok : (call clockMax s e).2 = .settled (.ok ())) : Retires _ s e (.lease token)
  | committedPermit {token : ClaimToken} {now : Instant} {permit : DispatchPermit}
      (event : e = .commit token now) (ok : (call clockMax s e).2 = .settled (.ok ()))
      (id : permit.ticketId ∈ token.ticketIds) : Retires _ s e (.permit permit)
  | finished {token : SessionToken} {now : Instant} (event : e = .finishSession token now)
      (ok : (call clockMax s e).2 = .settled (.ok ())) : Retires _ s e (.session token)
  | finishedPermit {token : SessionToken} {now : Instant} {permit : DispatchPermit}
      {t : TicketRecord} (event : e = .finishSession token now)
      (ok : (call clockMax s e).2 = .settled (.ok ())) (mem : t ∈ (s.reap now).tickets)
      (owned : t.state.isOwnedBy token.generation = true) (id : t.id = permit.ticketId) :
      Retires _ s e (.permit permit)
  | redispatched {request : TicketRequest} {now : Instant} {permit : DispatchPermit}
      {t : TicketRecord} (event : e = .reserve request now) (mem : t ∈ (s.reap now).tickets)
      (state : t.state = .needsDispatch) (id : t.id = permit.ticketId) :
      Retires _ s e (.permit permit)

def Event.findsOverdue (s : Store) : Event → Bool
  | .markDispatched permit now => s.marksOverdue permit now
  | .cancel permit now => s.cancelsOverdue permit now
  | _ => false

/-- The clock does not go back, and no settlement finds its ticket overdue. -/
def Timely (y : System) (e : Event) : Prop := y.clock ≤ e.now ∧ e.findsOverdue y.store = false

instance (y : System) (e : Event) : Decidable (Timely y e) := inferInstanceAs (Decidable (_ ∧ _))

/-! ## One call -/

section Step

variable {clockMax : Nat} {s : Store} {e : Event} {a : Authority}

/-- **A call with an authority touches only the tickets that carry it.** -/
theorem call_uses (hwf : s.Wf) (hdue : e.findsOverdue s = false) (ha : e.authority = some a) :
    Uses a.CarriedBy (s.reap e.now) ((call clockMax s e).1.reap e.now) := by
  cases e with
  | reserve | lease | claimSession => cases ha
  | beginDispatch permit now =>
    cases ha
    exact beginDispatch_settles.toUses.reap
  | markDispatched =>
    cases ha
    exact markDispatched_uses hdue
  | cancel =>
    cases ha
    exact cancel_uses hdue
  | release token now =>
    cases ha
    exact (release_settles hwf).toUses.reap
  | commit token now =>
    cases ha
    exact (commit_settles hwf).toUses.reap
  | sessionCurrent =>
    cases ha
    simp only [call, Prod.map_fst, id_eq, sessionCurrent_fst]
    exact (Uses.refl _ _).reap
  | acknowledgeSessionCurrent token now =>
    cases ha
    exact (acknowledge_settles token).toUses.reap
  | finishSession token now =>
    cases ha
    exact (finishSession_settles token).toUses.reap

theorem call_derives (hwf : s.Wf) (hdue : e.findsOverdue s = false) :
    Derives (s.reap e.now) ((call clockMax s e).1.reap e.now) := by
  cases hauthority : e.authority with
  | some => exact (call_uses hwf hdue hauthority).derives
  | none =>
    cases e with
    | reserve request now =>
      exact (reserve_effect hwf clockMax request now).derives.trans derives_reap
    | lease hello now =>
      exact (lease_evolves clockMax s hello now).toDerives.trans derives_reap
    | claimSession hello now =>
      exact (claimSession_evolves hwf hello).toDerives.trans derives_reap
    | beginDispatch | markDispatched | cancel | release | commit | sessionCurrent
    | acknowledgeSessionCurrent | finishSession => cases hauthority

/-- A call keeps the store well formed. -/
theorem call_wf (hwf : s.Wf) : (call clockMax s e).1.Wf := by
  cases e with
  | reserve request now =>
    have heffect := reserve_effect hwf clockMax request now
    exact (hwf.reap now).evolves ⟨heffect.derives, fun _ => heffect.nodup⟩
  | beginDispatch permit now => exact (hwf.reap now).evolves beginDispatch_settles.evolves
  | markDispatched permit now => exact hwf.evolves markDispatched_evolves
  | cancel permit now => exact hwf.evolves cancel_evolves
  | lease hello now => exact (hwf.reap now).evolves (lease_evolves clockMax s hello now)
  | release token now => exact (hwf.reap now).evolves (release_settles hwf).evolves
  | commit token now => exact (hwf.reap now).evolves (commit_settles hwf).evolves
  | claimSession hello now =>
    exact (hwf.reap now).evolves (claimSession_evolves hwf hello)
  | sessionCurrent token now =>
    simp only [call, Prod.map_fst, id_eq, sessionCurrent_fst]
    exact hwf.reap now
  | acknowledgeSessionCurrent token now =>
    exact (hwf.reap now).evolves (acknowledge_settles token).evolves
  | finishSession token now =>
    exact (hwf.reap now).evolves (finishSession_settles token).evolves

theorem refused_of_eq {α : Type} {now : Instant} {p : Store × α} {r : α} {f : α → Outcome}
    (heq : p = (s.reap now, r)) (hrefusal : (f r).isRefusal = true) :
    (p.map id f).1.reap now = s.reap now ∧ (p.map id f).2.isRefusal = true := by
  rw [heq]
  exact ⟨reap_reap, hrefusal⟩

/-- **A use of an authority that is not current** changes nothing but expiry and is refused. -/
theorem call_retired (hdue : e.findsOverdue s = false) (ha : e.authority = some a)
    (hretired : a.isCurrent (s.reap e.now) = false) :
    (call clockMax s e).1.reap e.now = s.reap e.now ∧
      (call clockMax s e).2.isRefusal = true := by
  cases e with
  | reserve | lease | claimSession => cases ha
  | beginDispatch =>
    cases ha
    exact refused_of_eq (beginDispatch_retired hretired) rfl
  | markDispatched permit now =>
    cases ha
    obtain ⟨hstore, hsettled⟩ :
        (s.markDispatched clockMax permit now).1.reap now = s.reap now ∧
          (s.markDispatched clockMax permit now).2 = .settled :=
      markDispatched_retired hdue hretired
    refine ⟨hstore, ?_⟩
    simp only [call, Prod.map_snd, hsettled, Outcome.isRefusal, decide_true]
  | cancel =>
    cases ha
    exact refused_of_eq (cancel_retired hdue hretired) rfl
  | release =>
    cases ha
    exact refused_of_eq (if_pos (congrArg not hretired)) rfl
  | commit =>
    cases ha
    exact refused_of_eq (if_pos (congrArg not hretired)) rfl
  | sessionCurrent =>
    cases ha
    exact refused_of_eq (sessionCurrent_stale hretired) rfl
  | acknowledgeSessionCurrent =>
    cases ha
    exact refused_of_eq (acknowledge_stale hretired) rfl
  | finishSession =>
    cases ha
    exact refused_of_eq (if_pos (congrArg not hretired)) rfl

end Step

/-! ## Retirement is for good -/

section Retirement

variable {clockMax : Nat} {s s' : Store} {e : Event} {a : Authority} {permit : DispatchPermit}

theorem permitIsCurrent_iff : s.permitIsCurrent permit = true ↔
      ∃ t ∈ s.tickets, t.id = permit.ticketId ∧ t.state.awaitsDispatch = true := by
  simp [permitIsCurrent]

theorem isCurrent_of_derives (hd : Derives s s') (hissued : a.Issued s)
    (h : a.isCurrent s' = true) : a.isCurrent s = true := by
  cases a with
  | permit =>
    obtain ⟨t', ht', hid, ha⟩ := permitIsCurrent_iff.mp h
    rcases hd.awaits t' ht' ha with ⟨t, ht, hsame, ha⟩ | ⟨hlow, -⟩
    · exact permitIsCurrent_iff.mpr ⟨t, ht, hsame.trans hid, ha⟩
    · exact absurd (lt_of_lt_of_le hissued hlow) (hid ▸ lt_irrefl _)
  | lease token =>
    have hall (id : Nat) (hid : id ∈ token.ticketIds) := exists_leased h hid
    simp only [Authority.isCurrent, leaseTokenIsCurrent, Bool.and_eq_true] at h ⊢
    refine ⟨h.1, List.all_eq_true.mpr fun id hid => ?_⟩
    obtain ⟨t', ht', rfl, hleased⟩ := hall id hid
    rcases hd.leased t' ht' _ hleased with ⟨t, ht, hsame, hleased⟩ | ⟨hlow, -⟩
    · exact List.any_eq_true.mpr ⟨t, ht, by simp [hsame, hleased]⟩
    · exact absurd (lt_of_lt_of_le hissued hlow) (lt_irrefl _)
  | session =>
    obtain ⟨t', ht', howned⟩ := sessionTokenIsCurrent_iff.mp h
    rcases hd.owned t' ht' _ howned with ⟨t, ht, howned⟩ | ⟨hlow, -⟩
    · exact sessionTokenIsCurrent_iff.mpr ⟨t, ht, howned⟩
    · exact absurd (lt_of_lt_of_le hissued hlow) (lt_irrefl _)

/-- **What is no longer current never is again.** -/
theorem retired_of_derives (hd : Derives s s') (hissued : a.Issued s)
    (h : a.isCurrent s = false) : a.isCurrent s' = false := by
  by_contra hcurrent
  rw [isCurrent_of_derives hd hissued (Bool.not_eq_false _ ▸ hcurrent)] at h
  cases h

theorem Authority.Issued.derives (hd : Derives s s') (h : a.Issued s) : a.Issued s' := by
  cases a with
  | permit => exact lt_of_lt_of_le h hd.ticketIds
  | lease | session => exact lt_of_lt_of_le h hd.generations

theorem issued_reap {now : Instant} : a.Issued (s.reap now) ↔ a.Issued s := by
  cases a <;> exact Iff.rfl

theorem permit_issued {t : TicketRecord} (hwf : s.Wf) (ht : t ∈ s.tickets)
    (hid : t.id = permit.ticketId) : (Authority.permit permit).Issued s :=
  lt_of_eq_of_lt hid.symm (hwf.idIssued t ht)

theorem issued_of_isCurrent (hwf : s.Wf) (h : a.isCurrent s = true) : a.Issued s := by
  cases a with
  | permit =>
    obtain ⟨t, ht, hid, -⟩ := permitIsCurrent_iff.mp h
    exact permit_issued hwf ht hid
  | lease token =>
    obtain ⟨id, hid⟩ : ∃ id, id ∈ token.ticketIds := by
      simp only [Authority.isCurrent, leaseTokenIsCurrent, Bool.and_eq_true,
        decide_eq_true_eq] at h
      exact List.exists_mem_of_ne_nil _ h.1
    obtain ⟨t, ht, -, hleased⟩ := exists_leased h hid
    exact hwf.leased_lt ht hleased
  | session =>
    obtain ⟨t, ht, howned⟩ := sessionTokenIsCurrent_iff.mp h
    exact hwf.owned_lt ht howned

/-- A call that was not refused used an authority that was current. -/
theorem isCurrent_of_settled (hdue : e.findsOverdue s = false) (ha : e.authority = some a)
    (hok : (call clockMax s e).2 = .settled (.ok ())) : a.isCurrent (s.reap e.now) = true := by
  by_contra hstale
  have hrefusal : (call clockMax s e).2.isRefusal = true :=
    (call_retired hdue ha (Bool.not_eq_true _ ▸ hstale)).2
  rw [hok] at hrefusal
  cases hrefusal

theorem permit_retired_of_not_awaiting
    (h : ∀ t ∈ s.tickets, t.id = permit.ticketId → t.state.awaitsDispatch = false) :
    s.permitIsCurrent permit = false := by
  by_contra hcurrent
  rw [Bool.not_eq_false] at hcurrent
  obtain ⟨t, ht, hid, ha⟩ := permitIsCurrent_iff.mp hcurrent
  rw [h t ht hid] at ha
  cases ha

/-- Whatever retires an authority leaves it issued and not current. -/
theorem retired_of_retires (hwf : s.Wf) (hdue : e.findsOverdue s = false)
    (h : Retires clockMax s e a) :
    a.Issued ((call clockMax s e).1.reap e.now) ∧
      a.isCurrent ((call clockMax s e).1.reap e.now) = false := by
  have hd : Derives (s.reap e.now) ((call clockMax s e).1.reap e.now) := call_derives hwf hdue
  have hwfReaped := hwf.reap e.now
  -- retired before the call: the call gives nothing back
  have hbefore (hissued : a.Issued (s.reap e.now)) (hretired : a.isCurrent (s.reap e.now) = false) :
      a.Issued ((call clockMax s e).1.reap e.now) ∧
        a.isCurrent ((call clockMax s e).1.reap e.now) = false :=
    ⟨hissued.derives hd, retired_of_derives hd hissued hretired⟩
  -- retired by the call: the reaping after it gives nothing back
  have hafter (hissued : a.Issued (s.reap e.now))
      (hretired : a.isCurrent (call clockMax s e).1 = false) :
      a.Issued ((call clockMax s e).1.reap e.now) ∧
        a.isCurrent ((call clockMax s e).1.reap e.now) = false :=
    ⟨hissued.derives hd,
      retired_of_derives derives_reap (issued_reap.mp (hissued.derives hd)) hretired⟩
  cases h with
  | @expired permit t mem id gone =>
    refine hbefore (issued_reap.mpr (permit_issued hwf mem id))
      (permit_retired_of_not_awaiting fun t' ht' hid => ?_)
    obtain ⟨u, hu, hreap⟩ := mem_reap.mp ht'
    have hsame : u = t :=
      hwf.eq_of_id hu mem ((follows_of_reapTicket hreap).id.symm.trans (hid.trans id.symm))
    rw [hsame, gone] at hreap
    cases hreap
  | @leaseExpired token t deadline priorState mem id state lapsed =>
    have hleased : t.state.isLeasedBy token.generation = true := by
      rw [state]
      simp [TicketState.isLeasedBy]
    refine hbefore (hwf.leased_lt mem hleased) ?_
    by_contra hcurrent
    rw [Bool.not_eq_false] at hcurrent
    obtain ⟨t', ht', hid, hstill⟩ := exists_leased hcurrent id
    obtain ⟨u, hu, hreap⟩ := mem_reap.mp ht'
    have hsame : u = t := hwf.eq_of_id hu mem ((follows_of_reapTicket hreap).id.symm.trans hid)
    subst hsame
    simp only [reapTicket, state, if_pos lapsed] at hreap
    split at hreap
    · rw [← Option.some.inj hreap] at hstill
      cases priorState <;> cases hstill
    · cases hreap
  | @released token now event ok =>
    subst event
    have hcurrent := isCurrent_of_settled hdue rfl ok
    refine hafter (issued_of_isCurrent hwfReaped hcurrent) ?_
    refine leaseTokenIsCurrent_eq_false fun t ht hid => ?_
    exact not_leased_of_release hwf (Outcome.settled.inj ok) ht hid
  | @committed token now event ok =>
    subst event
    have hcurrent := isCurrent_of_settled hdue rfl ok
    refine hafter (issued_of_isCurrent hwfReaped hcurrent) ?_
    refine leaseTokenIsCurrent_eq_false fun t ht hid => ?_
    exact absurd hid (not_mem_of_commit (Outcome.settled.inj ok) ht)
  | @committedPermit token now permit event ok id =>
    subst event
    have hcurrent := isCurrent_of_settled hdue rfl ok
    obtain ⟨t, ht, hid, -⟩ := exists_leased hcurrent id
    refine hafter (permit_issued hwfReaped ht hid) ?_
    refine permit_retired_of_not_awaiting fun t' ht' hid' => ?_
    exact absurd (hid' ▸ id) (not_mem_of_commit (Outcome.settled.inj ok) ht')
  | @finished token now event ok =>
    subst event
    have hcurrent := isCurrent_of_settled hdue rfl ok
    refine hafter (issued_of_isCurrent hwfReaped hcurrent) ?_
    refine List.any_eq_false.mpr fun t ht => ?_
    rw [(settled_of_finishSession (Outcome.settled.inj ok) ht).1]
    exact Bool.false_ne_true
  | @finishedPermit token now permit t event ok mem owned id =>
    subst event
    refine hafter (permit_issued hwfReaped mem id) ?_
    refine permit_retired_of_not_awaiting fun t' ht' hid' => ?_
    have hsettled := (settled_of_finishSession (Outcome.settled.inj ok) ht').2
    rw [hsettled t mem hwf (id.trans hid'.symm) owned]
    rfl
  | @redispatched request now permit t event mem state id =>
    subst event
    refine hbefore (permit_issued hwfReaped mem id)
      (permit_retired_of_not_awaiting fun t' ht' hid' => ?_)
    rw [hwfReaped.eq_of_id ht' mem (hid'.trans id.symm), state]
    rfl

end Retirement

/-! ## Runs -/

section Runs

variable {clockMax : Nat} {y : System} {events : List Event}

theorem Store.new_wf {ticketCapacity downloadCapacity : Nat} :
    (Store.new ticketCapacity downloadCapacity).Wf :=
  ⟨List.nodup_nil, fun _ ht => absurd ht List.not_mem_nil, fun _ ht => absurd ht List.not_mem_nil⟩

/-- So does a run. -/
theorem wf_run (hwf : y.store.Wf) : (run (System.step clockMax) y events).store.Wf := by
  induction events generalizing y with
  | nil => exact hwf
  | cons e events ih => exact ih (y := y.step clockMax e) (call_wf hwf)

structure Retired (a : Authority) (y : System) : Prop where
  wf : y.store.Wf
  issued : a.Issued (y.store.reap y.clock)
  notCurrent : a.isCurrent (y.store.reap y.clock) = false

theorem Retired.step {a : Authority} {e : Event} (h : Retired a y) (htimely : Timely y e) :
    Retired a (y.step clockMax e) := by
  have hd : Derives (y.store.reap y.clock) ((call clockMax y.store e).1.reap e.now) :=
    (derives_reap_later htimely.1).trans (call_derives h.wf htimely.2)
  exact ⟨call_wf h.wf, h.issued.derives hd, retired_of_derives hd h.issued h.notCurrent⟩

/-- An authority once retired stays so along every timely run. -/
theorem Retired.run {a : Authority} (hretired : Retired a y)
    (h : Along (System.step clockMax) Timely y events) :
    Retired a (Run.run (System.step clockMax) y events) :=
  h.invariant (fun _ _ => Retired.step) hretired

/-- The sessions and leases that hold the ticket. -/
def Store.holders (s : Store) (id : Nat) : List Nat :=
  (s.tickets.filter (hasId id)).filterMap fun t => t.state.holder

/-- **A ticket has one holder at most.** -/
theorem holders_length_le {s : Store} (hwf : s.Wf) (id : Nat) : (s.holders id).length ≤ 1 := by
  have hone : (s.tickets.filter (hasId id)).length ≤ 1 := by
    by_contra hmany
    obtain ⟨t, u, rest, heq⟩ : ∃ t u rest, s.tickets.filter (hasId id) = t :: u :: rest := by
      match hfilter : s.tickets.filter (hasId id) with
      | [] | [_] => simp [hfilter] at hmany
      | t :: u :: rest => exact ⟨t, u, rest, rfl⟩
    have hnodup : ((t :: u :: rest).map TicketRecord.id).Nodup :=
      heq ▸ hwf.nodup.sublist (List.filter_sublist.map _)
    have hid (v : TicketRecord) (hv : v ∈ t :: u :: rest) : v.id = id := by
      rw [← heq] at hv
      exact hasId_iff.mp (List.mem_filter.mp hv).2
    simp [hid t (by simp), hid u (by simp)] at hnodup
  exact le_trans (List.length_filterMap_le _ _) hone

/-- **Callback tickets are owned linearly.** In every state that a timely run reaches, ticket ids
    are distinct and each ticket is held by one generation at most. The next call, if it uses a
    permit, a lease or a session, changes only tickets that carry it; if nothing carries it at the
    time of the call, it is refused and nothing but expiry changes. And what the call retires,
    no later call can use: whatever happens in between, the use is refused and changes nothing
    but expiry. -/
theorem callback_tickets_linear (clockMax ticketCapacity downloadCapacity : Nat) (start : Instant)
    (before : List Event) (e : Event)
    (h : Along (System.step clockMax) Timely
      (System.init ticketCapacity downloadCapacity start) (before ++ [e])) :
    let y := run (System.step clockMax) (System.init ticketCapacity downloadCapacity start) before
    (y.store.ids.Nodup ∧ ∀ id, (y.store.holders id).length ≤ 1) ∧
    (∀ a, e.authority = some a →
      Uses a.CarriedBy (y.store.reap e.now) ((call clockMax y.store e).1.reap e.now) ∧
      (a.isCurrent (y.store.reap e.now) = false →
        (call clockMax y.store e).1.reap e.now = y.store.reap e.now ∧
          (call clockMax y.store e).2.isRefusal = true)) ∧
    ∀ a, Retires clockMax y.store e a → ∀ after use,
      Along (System.step clockMax) Timely (y.step clockMax e) (after ++ [use]) →
      use.authority = some a →
      let z := run (System.step clockMax) (y.step clockMax e) after
      (call clockMax z.store use).1.reap use.now = z.store.reap use.now ∧
        (call clockMax z.store use).2.isRefusal = true := by
  intro y
  have hwf : y.store.Wf := wf_run Store.new_wf
  have htimely : Timely y e := (along_cons.mp (along_append.mp h).2).1
  refine ⟨⟨hwf.nodup, holders_length_le hwf⟩, fun a ha => ⟨call_uses hwf htimely.2 ha,
    call_retired htimely.2 ha⟩, fun a hretires after use hlater ha => ?_⟩
  obtain ⟨hissued, hnotCurrent⟩ := retired_of_retires hwf htimely.2 hretires
  have hretired : Retired a (y.step clockMax e) := ⟨call_wf hwf, hissued, hnotCurrent⟩
  obtain ⟨hafter, huse⟩ := along_append.mp hlater
  have hz := hretired.run hafter
  have htimelyUse := (along_cons.mp huse).1
  exact call_retired htimelyUse.2 ha
    (retired_of_derives (derives_reap_later htimelyUse.1) hz.issued hz.notCurrent)

end Runs

/-! ## A callback on one ticket -/

def oneFile : Download := ⟨Vector.replicate 16 1, "file", 1⟩

def callbackServer : Peer.SocketAddr := ⟨.v4 ⟨192, 0, 2, 10⟩, 4661⟩

def serverRequest : TicketRequest where
  route := .server callbackServer
  peer := ⟨17, none, none, 4662⟩
  download := oneFile
  validFor := seconds 1

def lowIdHello : HelloIdentity := ⟨Vector.replicate 16 2, 17, some callbackServer, none, 4662⟩

def firstPermit : DispatchPermit := ⟨1, seconds 1⟩

/-- The ticket is dispatched, armed and claimed by a session, the session is finished with its
    file left over, and the file is dispatched again: the first permit is refused by then, and so
    is the session's token. -/
theorem callback_tickets_linear_redispatched :
    let events : List Event := [.reserve serverRequest 0, .beginDispatch firstPermit 0,
      .markDispatched firstPermit 0, .claimSession lowIdHello 0]
    let y := run (System.step u64Max) (System.init 8 8 0) events
    let z := y.step u64Max (.finishSession ⟨1⟩ 1)
    (call u64Max (run (System.step u64Max) z [.reserve serverRequest 2]).store
      (.cancel firstPermit 3)).2.isRefusal = true ∧
    (call u64Max (run (System.step u64Max) z [.reserve serverRequest 2]).store
      (.finishSession ⟨1⟩ 3)).2.isRefusal = true := by
  intro events y z
  have htimely : Along (System.step u64Max) Timely (System.init 8 8 0)
      (events ++ [.finishSession ⟨1⟩ 1]) := by decide +kernel
  have hlinear := (callback_tickets_linear u64Max 8 8 0 events (.finishSession ⟨1⟩ 1) htimely).2.2
  have hok : (call u64Max y.store (.finishSession ⟨1⟩ 1)).2 = .settled (.ok ()) := by rfl
  constructor
  · obtain ⟨t, ht, howned, hid⟩ : ∃ t ∈ (y.store.reap 1).tickets,
        t.state.isOwnedBy 1 = true ∧ t.id = firstPermit.ticketId := by decide +kernel
    exact (hlinear (.permit firstPermit) (.finishedPermit rfl hok ht howned hid)
      [.reserve serverRequest 2] (.cancel firstPermit 3) (by decide +kernel) rfl).2
  · exact (hlinear (.session ⟨1⟩) (.finished rfl hok)
      [.reserve serverRequest 2] (.finishSession ⟨1⟩ 3) (by decide +kernel) rfl).2

/-- **A permit arms its ticket after the ticket's deadline.** Two seconds after a reservation for
    one second the ticket is past its time, `begin_dispatch` would refuse the permit, and
    `mark_dispatched` arms the ticket with a fresh deadline. -/
theorem overdue_permit_arms :
    let y := run (System.step u64Max) (System.init 8 8 0) [.reserve serverRequest 0]
    let use : Event := .markDispatched firstPermit (seconds 2)
    y.clock ≤ use.now ∧
    (∃ t ∈ y.store.tickets, t.id = firstPermit.ticketId ∧ t.expiresAt ≤ use.now ∧
      reapTicket use.now t = none) ∧
    (call u64Max y.store (.beginDispatch firstPermit (seconds 2))).2.isRefusal = true ∧
    (call u64Max y.store use).2.isRefusal = false ∧
    (call u64Max y.store use).1.reap use.now ≠ y.store.reap use.now := by
  decide +kernel

end EmuleBB.Callback
