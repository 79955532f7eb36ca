import EmuleBB.Callback.Holding

/-!
# Leases, sessions and reservations

The calls that hold tickets and the calls that make them. A lease or session token is good for all
its tickets or for none: `lease_token_is_current` asks every ticket for the token's generation, and
the ids being distinct, **the tickets a token changes are exactly those that carry it**. A
reservation or a claim derives its store from the reaped one, with fresh identifiers only.
-/

namespace EmuleBB.Callback.Store

open FirstMatch Peer TicketState List

variable {clockMax : Nat} {s : Store} {now : Instant} {token : ClaimToken} {id g : Nat}
  {t t' : TicketRecord} {ids : List Nat} {hello : HelloIdentity} {state : TicketState}
  {deadline : Instant} {current : Download}

/-! ## Tokens -/

def CarriesLease (token : ClaimToken) (t : TicketRecord) : Prop :=
  t.id ∈ token.ticketIds ∧ t.state.isLeasedBy token.generation = true

theorem exists_leased (h : s.leaseTokenIsCurrent token = true) (hid : id ∈ token.ticketIds) :
    ∃ t ∈ s.tickets, t.id = id ∧ t.state.isLeasedBy token.generation = true := by
  rw [leaseTokenIsCurrent, Bool.and_eq_true] at h
  have hany := all_eq_true.mp h.2 id hid
  obtain ⟨t, ht, hboth⟩ := any_eq_true.mp hany
  rw [Bool.and_eq_true, hasId_iff] at hboth
  exact ⟨t, ht, hboth⟩

/-- Every stored ticket of a current lease is leased by it. This is why the `unreachable!` of
    `release` is. -/
theorem Wf.leased_of_current (hwf : s.Wf) (h : s.leaseTokenIsCurrent token = true)
    (ht : t ∈ s.tickets) (hid : t.id ∈ token.ticketIds) :
    t.state.isLeasedBy token.generation = true := by
  obtain ⟨u, hu, hsame, hleased⟩ := exists_leased h hid
  rwa [← hwf.eq_of_id hu ht hsame]

/-- A lease none of whose tickets carries it is not current. -/
theorem leaseTokenIsCurrent_eq_false
    (h : ∀ t ∈ s.tickets, t.id ∈ token.ticketIds → t.state.isLeasedBy token.generation = false) :
    s.leaseTokenIsCurrent token = false := by
  by_contra hcurrent
  rw [Bool.not_eq_false] at hcurrent
  obtain ⟨id, hid⟩ : ∃ id, id ∈ token.ticketIds := by
    rw [leaseTokenIsCurrent, Bool.and_eq_true, decide_eq_true_eq] at hcurrent
    exact exists_mem_of_ne_nil _ hcurrent.1
  obtain ⟨t, ht, rfl, hleased⟩ := exists_leased hcurrent hid
  rw [h t ht hid] at hleased
  cases hleased

theorem sessionTokenIsCurrent_iff {token : SessionToken} : s.sessionTokenIsCurrent token = true ↔
      ∃ t ∈ s.tickets, t.state.isOwnedBy token.generation = true :=
  any_eq_true

/-! ### Committing and releasing a lease -/

theorem commit_settles (hwf : s.Wf) :
    Settles (CarriesLease token) (s.reap now) (s.commit token now).1 := by
  simp only [commit]
  split
  · exact .refl _ _
  · rename_i hcurrent
    rw [Bool.not_eq_true, Bool.not_eq_false'] at hcurrent
    refine ⟨⟨rfl, rfl, fun t ht hfree => ?_, fun t ht => .inl (mem_filter.mp ht).1⟩,
      fun h => h.sublist (filter_sublist.map _)⟩
    refine mem_filter.mpr ⟨ht, decide_eq_true fun hid => hfree ⟨hid, ?_⟩⟩
    exact (hwf.reap now).leased_of_current hcurrent ht hid

theorem not_mem_of_commit (hok : (s.commit token now).2 = .ok ())
    (ht : t ∈ (s.commit token now).1.tickets) : t.id ∉ token.ticketIds := by
  simp only [commit] at hok ht
  split at hok
  · cases hok
  · rename_i hcurrent
    rw [if_neg hcurrent] at ht
    exact of_decide_eq_true (mem_filter.mp ht).2

theorem id_releaseTicket (t : TicketRecord) : (releaseTicket token t).id = t.id := by
  unfold releaseTicket
  split
  · split <;> rfl
  · rfl

theorem releaseTicket_leased (hid : t.id ∈ token.ticketIds)
    (hleased : t.state.isLeasedBy token.generation = true) :
    ∃ deadline priorState, t.state = .leased token.generation deadline priorState ∧
      releaseTicket token t = setState t priorState.toState := by
  cases hstate : t.state with
  | leased g deadline priorState =>
    rw [hstate, isLeasedBy, decide_eq_true_eq] at hleased
    exact ⟨deadline, priorState, by rw [hleased], by simp [releaseTicket, hid, hstate]⟩
  | reserved | dispatching | armed | sessionOwned | needsDispatch =>
    rw [hstate] at hleased
    cases hleased

theorem follows_releaseTicket (h : CarriesLease token t) : Follows t (releaseTicket token t) := by
  obtain ⟨deadline, priorState, hstate, heq⟩ := releaseTicket_leased h.1 h.2
  rw [heq]
  refine ⟨rfl, ?_, ?_, ?_⟩ <;> cases priorState <;>
    simp [hstate, setState, ReadyState.toState, awaitsDispatch,
      isLeasedBy, isOwnedBy]

theorem release_settles (hwf : s.Wf) :
    Settles (CarriesLease token) (s.reap now) (s.release token now).1 := by
  simp only [release]
  split
  · exact .refl _ _
  · rename_i hcurrent
    rw [Bool.not_eq_true, Bool.not_eq_false'] at hcurrent
    refine Settles.reap (.map id_releaseTicket (fun t ht hfree => ?_)
      fun t _ hcarries => follows_releaseTicket hcarries)
    have hother : t.id ∉ token.ticketIds := fun hid =>
      hfree ⟨hid, (hwf.reap now).leased_of_current hcurrent ht hid⟩
    simp [releaseTicket, hother]

theorem not_leased_of_release (hwf : s.Wf) (hok : (s.release token now).2 = .ok ())
    (ht : t ∈ (s.release token now).1.tickets) (hid : t.id ∈ token.ticketIds) :
    t.state.isLeasedBy g = false := by
  simp only [release] at hok ht
  split at hok
  · cases hok
  · rename_i hcurrent
    rw [if_neg hcurrent] at ht
    rw [Bool.not_eq_true, Bool.not_eq_false'] at hcurrent
    obtain ⟨u, hu, hreap⟩ := mem_reap.mp ht
    have hfollows := follows_of_reapTicket hreap
    obtain ⟨v, hv, rfl⟩ := mem_map.mp hu
    rw [hfollows.id, id_releaseTicket] at hid
    have hleased := (hwf.reap now).leased_of_current hcurrent hv hid
    obtain ⟨deadline, priorState, -, heq⟩ := releaseTicket_leased hid hleased
    by_contra hstill
    rw [Bool.not_eq_false] at hstill
    have hbefore := hfollows.leased g hstill
    rw [heq] at hbefore
    cases priorState <;> cases hbefore

/-! ### Sessions -/

def CarriesSession (token : SessionToken) (t : TicketRecord) : Prop :=
  t.state.isOwnedBy token.generation = true

theorem sessionCurrent_fst (s : Store) (token : SessionToken) (now : Instant) :
    (s.sessionCurrent token now).1 = s.reap now := by
  simp only [sessionCurrent]
  split <;> rfl

theorem sessionCurrent_stale {token : SessionToken}
    (h : (s.reap now).sessionTokenIsCurrent token = false) :
    s.sessionCurrent token now = (s.reap now, .error .staleClaim) := by
  simp [sessionCurrent, h]

theorem id_acknowledgeTicket (token : SessionToken) (t : TicketRecord) :
    (acknowledgeTicket token current t).id = t.id := by
  unfold acknowledgeTicket
  split <;> rfl

theorem follows_acknowledgeTicket (token : SessionToken) :
    Follows t (acknowledgeTicket token current t) := by
  refine .of_state (id_acknowledgeTicket token t) ?_
  unfold acknowledgeTicket
  split <;> rfl

theorem acknowledge_cases (s : Store) (token : SessionToken) (now : Instant) :
    (s.acknowledgeSessionCurrent token now).1 = s.reap now ∨
    ∃ current, (s.sessionCurrent token now).2 = .ok (some current) ∧
      (s.acknowledgeSessionCurrent token now).1 =
        { s.reap now with tickets :=
          (s.reap now).tickets.map (acknowledgeTicket token current) } := by
  have hfst := sessionCurrent_fst s token now
  simp only [acknowledgeSessionCurrent]
  cases hcurrent : s.sessionCurrent token now with
  | mk s' result =>
    rw [hcurrent] at hfst
    cases result with
    | error => exact .inl hfst
    | ok current =>
      cases current with
      | none => exact .inl hfst
      | some current =>
        obtain rfl : s' = s.reap now := hfst
        exact .inr ⟨current, rfl, rfl⟩

theorem acknowledge_settles (token : SessionToken) :
    Settles (CarriesSession token) (s.reap now) (s.acknowledgeSessionCurrent token now).1 := by
  rcases acknowledge_cases s token now with heq | ⟨current, -, heq⟩ <;> rw [heq]
  · exact .refl _ _
  · refine .map (id_acknowledgeTicket token) (fun t _ hfree => ?_)
      fun t _ _ => follows_acknowledgeTicket token
    exact if_neg hfree

theorem acknowledge_stale {token : SessionToken}
    (h : (s.reap now).sessionTokenIsCurrent token = false) :
    s.acknowledgeSessionCurrent token now = (s.reap now, .error .staleClaim) := by
  simp only [acknowledgeSessionCurrent, sessionCurrent_stale h]

theorem finishTicket_cases {token : SessionToken} (h : finishTicket token now t = some t') :
    (t.state.isOwnedBy token.generation = false ∧ t' = t) ∨
    (t.state.isOwnedBy token.generation = true ∧ t'.id = t.id ∧ t'.state = .needsDispatch) := by
  unfold finishTicket at h
  split at h
  · rename_i howned
    split at h
    · cases h
    · rw [← Option.some.inj h]
      exact .inr ⟨howned, rfl, rfl⟩
  · rename_i hfree
    exact .inl ⟨Bool.eq_false_iff.mpr hfree, (Option.some.inj h).symm⟩

theorem id_finishTicket {token : SessionToken} (h : finishTicket token now t = some t') :
    t'.id = t.id := by
  rcases finishTicket_cases h with ⟨-, rfl⟩ | ⟨-, hid, -⟩
  · rfl
  · exact hid

theorem finishSession_settles (token : SessionToken) :
    Settles (CarriesSession token) (s.reap now) (s.finishSession clockMax token now).1 := by
  simp only [finishSession]
  split
  · exact .refl _ _
  · split
    · exact .refl _ _
    · refine .filterMap (fun t t' hfinish => id_finishTicket hfinish) (fun t _ hfree => ?_)
        fun t _ t' hcarries hfinish => ?_
      · exact if_neg hfree
      · rcases finishTicket_cases hfinish with ⟨-, rfl⟩ | ⟨-, hid, hstate⟩
        · exact .refl _
        · exact .of_idle hid (.inr hstate)

theorem settled_of_finishSession {token : SessionToken}
    (hok : (s.finishSession clockMax token now).2 = .ok ())
    (ht' : t' ∈ (s.finishSession clockMax token now).1.tickets) :
    t'.state.isOwnedBy token.generation = false ∧
    ∀ t ∈ (s.reap now).tickets, s.Wf → t.id = t'.id →
      t.state.isOwnedBy token.generation = true → t'.state = .needsDispatch := by
  simp only [finishSession] at hok ht'
  split at hok
  · cases hok
  · rename_i hcurrent
    split at hok
    · cases hok
    · rename_i hclock
      rw [if_neg hcurrent, if_neg hclock] at ht'
      obtain ⟨u, hu, hfinish⟩ := mem_filterMap.mp ht'
      rcases finishTicket_cases hfinish with ⟨hfree, rfl⟩ | ⟨-, hid, hstate⟩
      · refine ⟨hfree, fun t ht hwf hid howned => ?_⟩
        rw [(hwf.reap now).eq_of_id ht hu hid, hfree] at howned
        cases howned
      · rw [hstate]
        exact ⟨rfl, fun _ _ _ _ _ => rfl⟩

/-! ## Claiming -/

theorem mem_selectTickets {tickets : List TicketRecord} {downloads : List Download}
    (h : id ∈ (selectTickets tickets (ids, downloads)).1) :
    id ∈ ids ∨ id ∈ tickets.map TicketRecord.id := by
  induction tickets generalizing ids downloads with
  | nil => exact .inl h
  | cons ticket tickets ih =>
    rw [map_cons, mem_cons]
    simp only [selectTickets] at h
    split at h
    · exact (ih h).imp_right .inr
    · rcases ih h with hold | hnew
      · rcases mem_append.mp hold with hold | hnew
        · exact .inl hold
        · exact .inr (.inl (mem_singleton.mp hnew))
      · exact .inr (.inr hnew)

theorem claimable_of_candidate {candidates : List Nat}
    (h : s.claimCandidates hello = .ok candidates) (hid : id ∈ candidates) :
    ∃ t ∈ s.tickets, t.id = id ∧ t.state.isClaimable = true := by
  -- both kinds of candidates are a filter of the claimable tickets
  have hfilter {p : TicketRecord → Bool}
      (hmem : id ∈ ((s.tickets.filter fun t => t.state.isClaimable).filter p).map
        TicketRecord.id) : ∃ t ∈ s.tickets, t.id = id ∧ t.state.isClaimable = true := by
    obtain ⟨t, ht, rfl⟩ := mem_map.mp hmem
    have hclaimable := mem_filter.mp (mem_filter.mp ht).1
    exact ⟨t, hclaimable.1, rfl, hclaimable.2⟩
  simp only [claimCandidates] at h
  split at h
  · rw [← Except.ok.inj h] at hid
    exact hfilter hid
  · split at h
    · cases h
    · rw [← Except.ok.inj h] at hid
      cases hid
    · rw [← Except.ok.inj h] at hid
      exact hfilter hid

theorem checkedAdd_eq_some {limit a b c : Nat} (h : checkedAdd limit a b = some c) : c = a + b := by
  unfold checkedAdd at h
  split at h
  · exact (Option.some.inj h).symm
  · cases h

theorem leaseSelected_cases (clockMax : Nat) (s : Store) (ids : List Nat)
    (downloads : List Download) (now : Instant) :
    (∃ next result, s.leaseSelected clockMax ids downloads now =
        ({ s with nextLeaseGeneration := next }, result) ∧
      s.nextLeaseGeneration ≤ next ∧ ∀ claim, result ≠ .ok (some claim)) ∨
    ∃ deadline, s.leaseSelected clockMax ids downloads now =
      ({ s with
          nextLeaseGeneration := s.nextLeaseGeneration + 1
          tickets := s.tickets.map (leaseTicket s.nextLeaseGeneration deadline ids) },
        .ok (some ⟨⟨ids, s.nextLeaseGeneration⟩, downloads⟩)) := by
  unfold leaseSelected
  cases hnext : checkedAdd u64Max s.nextLeaseGeneration 1 with
  | none => exact .inl ⟨s.nextLeaseGeneration, .error .identifierExhausted, rfl, le_refl _, by simp⟩
  | some next =>
    obtain rfl : next = s.nextLeaseGeneration + 1 := checkedAdd_eq_some hnext
    cases checkedAdd clockMax now callbackClaimLease with
    | none =>
      exact .inl ⟨s.nextLeaseGeneration + 1, .error .deadlineOverflow, rfl, Nat.le_succ _, by simp⟩
    | some deadline => exact .inr ⟨deadline, rfl⟩

/-- `lease` claims nothing and leaves the tickets, or leases free tickets to the next
    generation. -/
theorem lease_cases (clockMax : Nat) (s : Store) (hello : HelloIdentity) (now : Instant) :
    (∃ next result, s.lease clockMax hello now =
        ({ s.reap now with nextLeaseGeneration := next }, result) ∧
      s.nextLeaseGeneration ≤ next ∧ ∀ claim, result ≠ .ok (some claim)) ∨
    ∃ deadline claim, s.lease clockMax hello now =
        ({ s.reap now with
            nextLeaseGeneration := s.nextLeaseGeneration + 1
            tickets := (s.reap now).tickets.map
              (leaseTicket s.nextLeaseGeneration deadline claim.token.ticketIds) },
          .ok (some claim)) ∧
      claim.token.generation = s.nextLeaseGeneration ∧
      ∀ id ∈ claim.token.ticketIds, ∃ t ∈ (s.reap now).tickets,
        t.id = id ∧ t.state.isClaimable = true := by
  simp only [lease]
  cases hcandidates : (s.reap now).claimCandidates hello with
  | error e => exact .inl ⟨s.nextLeaseGeneration, .error e, rfl, le_refl _, by simp⟩
  | ok candidates =>
    simp only []
    split
    · exact .inl ⟨s.nextLeaseGeneration, .ok none, rfl, le_refl _, by simp⟩
    split
    · exact .inl ⟨s.nextLeaseGeneration, .error .claimCapacity, rfl, le_refl _, by simp⟩
    have hfree : ∀ id ∈ (selectTickets
        ((s.reap now).tickets.filter fun t => t.id ∈ candidates) ([], [])).1,
        ∃ t ∈ (s.reap now).tickets, t.id = id ∧ t.state.isClaimable = true := by
      intro id hid
      rcases mem_selectTickets hid with hnil | hmem
      · cases hnil
      · obtain ⟨t, ht, rfl⟩ := mem_map.mp hmem
        exact claimable_of_candidate hcandidates (of_decide_eq_true (mem_filter.mp ht).2)
    rcases leaseSelected_cases clockMax (s.reap now) _ _ now with hnothing | ⟨deadline, heq⟩
    · exact .inl hnothing
    · exact .inr ⟨deadline, ⟨⟨_, s.nextLeaseGeneration⟩, _⟩, heq, rfl, hfree⟩

theorem id_leaseTicket (t : TicketRecord) : (leaseTicket g deadline ids t).id = t.id := by
  unfold leaseTicket
  split
  · split <;> rfl
  · rfl

/-- A ticket after a lease: as it was, or free before and leased now, with the same dispatch still
    to come. -/
theorem leaseTicket_cases (g : Nat) (deadline : Instant) (ids : List Nat) (t : TicketRecord) :
    leaseTicket g deadline ids t = t ∨
    ((leaseTicket g deadline ids t).state.isLeasedBy g = true ∧
      (leaseTicket g deadline ids t).state.awaitsDispatch = t.state.awaitsDispatch) := by
  unfold leaseTicket
  split
  · cases hstate : t.state with
    | reserved | dispatching | armed =>
      exact .inr (by simp [ready?, setState, isLeasedBy,
        awaitsDispatch])
    | leased | sessionOwned | needsDispatch => exact .inl (by simp [ready?])
  · exact .inl rfl

theorem leaseTicket_of_claimable (hid : t.id ∈ ids) (h : t.state.isClaimable = true) :
    (leaseTicket g deadline ids t).state.isLeasedBy g = true := by
  cases hstate : t.state <;>
    simp_all [leaseTicket, ready?, setState, isLeasedBy,
      isClaimable]

theorem TicketState.eq_of_isLeasedBy {g' : Nat}
    (h : state.isLeasedBy g = true) (h' : state.isLeasedBy g' = true) : g = g' := by
  have hholder := (holder_of_leased h).symm.trans (holder_of_leased h')
  exact Option.some.inj hholder

theorem TicketState.not_owned_of_leased {g' : Nat}
    (h : state.isLeasedBy g = true) : state.isOwnedBy g' = false := by
  cases state <;> simp_all [isLeasedBy, isOwnedBy]

theorem nodup_map {f : TicketRecord → TicketRecord} (hf : ∀ t, (f t).id = t.id)
    (h : s.ids.Nodup) : ((s.tickets.map f).map TicketRecord.id).Nodup := by
  rw [map_map, show TicketRecord.id ∘ f = TicketRecord.id from funext hf]
  exact h

theorem lease_evolves (clockMax : Nat) (s : Store) (hello : HelloIdentity) (now : Instant) :
    Evolves (s.reap now) (s.lease clockMax hello now).1 := by
  rcases lease_cases clockMax s hello now with ⟨next, result, heq, hle, -⟩ |
    ⟨deadline, claim, heq, -, -⟩ <;> rw [heq]
  · exact {
      ticketIds := le_refl _
      generations := hle
      known := fun t ht => .inl ⟨t, ht, rfl⟩
      awaits := fun t ht ha => .inl ⟨t, ht, rfl, ha⟩
      leased := fun t ht g hg => .inl ⟨t, ht, rfl, hg⟩
      owned := fun t ht g hg => .inl ⟨t, ht, hg⟩
      nodup := fun h => h }
  · refine ⟨⟨le_refl _, Nat.le_succ _, fun t' ht' => ?_, fun t' ht' ha => ?_,
      fun t' ht' g hg => ?_, fun t' ht' g hg => ?_⟩, nodup_map id_leaseTicket⟩ <;>
      obtain ⟨t, ht, rfl⟩ := mem_map.mp ht'
    · exact .inl ⟨t, ht, (id_leaseTicket t).symm⟩
    · refine .inl ⟨t, ht, (id_leaseTicket t).symm, ?_⟩
      rcases leaseTicket_cases s.nextLeaseGeneration deadline claim.token.ticketIds t with
        hsame | ⟨-, hawaits⟩
      · rwa [hsame] at ha
      · rwa [hawaits] at ha
    · rcases leaseTicket_cases s.nextLeaseGeneration deadline claim.token.ticketIds t with
        hsame | ⟨hleased, -⟩
      · rw [hsame] at hg ⊢
        exact .inl ⟨t, ht, rfl, hg⟩
      · rw [TicketState.eq_of_isLeasedBy hg hleased]
        exact .inr ⟨le_refl _, Nat.lt_succ_self _⟩
    · rcases leaseTicket_cases s.nextLeaseGeneration deadline claim.token.ticketIds t with
        hsame | ⟨hleased, -⟩
      · rw [hsame] at hg
        exact .inl ⟨t, ht, hg⟩
      · rw [TicketState.not_owned_of_leased hleased] at hg
        cases hg

/-! ### Sessions from leases -/

theorem id_ownTicket (hello : HelloIdentity) (t : TicketRecord) :
    (ownTicket hello token t).id = t.id := by
  unfold ownTicket
  split
  · split <;> rfl
  · rfl

/-- A ticket after a session claim: as it was, or a leased one that the session now owns, with the
    same dispatch still to come. -/
theorem ownTicket_cases (hello : HelloIdentity) (token : ClaimToken) (t : TicketRecord) :
    ownTicket hello token t = t ∨
    ∃ g deadline priorState, t.id ∈ token.ticketIds ∧ t.state = .leased g deadline priorState ∧
      (ownTicket hello token t).state = .sessionOwned g priorState := by
  unfold ownTicket
  split
  · rename_i hid
    cases hstate : t.state with
    | leased g deadline priorState => exact .inr ⟨g, deadline, priorState, hid, rfl, rfl⟩
    | reserved | dispatching | armed | sessionOwned | needsDispatch => exact .inl rfl
  · exact .inl rfl

theorem claimSession_cases (clockMax : Nat) (s : Store) (hello : HelloIdentity) (now : Instant) :
    (s.claimSession clockMax hello now).1 = (s.lease clockMax hello now).1 ∨
    ∃ claim, (s.lease clockMax hello now).2 = .ok (some claim) ∧
      (s.claimSession clockMax hello now).1 = { (s.lease clockMax hello now).1 with
        tickets := (s.lease clockMax hello now).1.tickets.map (ownTicket hello claim.token) } := by
  simp only [claimSession]
  cases hlease : s.lease clockMax hello now with
  | mk s' result =>
    cases result with
    | error => exact .inl rfl
    | ok claim =>
      cases claim with
      | none => exact .inl rfl
      | some claim => exact .inr ⟨claim, rfl, rfl⟩

/-- Every ticket of a fresh lease carries it: the `unreachable!` of `claim_session` is. -/
theorem leased_of_lease (hwf : s.Wf) {claim : Claim}
    (hclaim : (s.lease clockMax hello now).2 = .ok (some claim))
    (ht : t ∈ (s.lease clockMax hello now).1.tickets) (hid : t.id ∈ claim.token.ticketIds) :
    t.state.isLeasedBy s.nextLeaseGeneration = true := by
  rcases lease_cases clockMax s hello now with ⟨next, result, heq, -, hresult⟩ |
    ⟨deadline, claim', heq, -, hfree⟩ <;> rw [heq] at hclaim ht
  · exact absurd hclaim (hresult claim)
  · cases Except.ok.inj hclaim
    obtain ⟨u, hu, rfl⟩ := mem_map.mp ht
    rw [id_leaseTicket] at hid
    obtain ⟨v, hv, hsame, hclaimable⟩ := hfree u.id hid
    obtain rfl := (hwf.reap now).eq_of_id hv hu hsame
    exact leaseTicket_of_claimable hid hclaimable

theorem claimSession_evolves (hwf : s.Wf) (hello : HelloIdentity) :
    Evolves (s.reap now) (s.claimSession clockMax hello now).1 := by
  have hlease := lease_evolves clockMax s hello now
  rcases claimSession_cases clockMax s hello now with heq | ⟨claim, hclaim, heq⟩ <;> rw [heq]
  · exact hlease
  refine ⟨⟨hlease.ticketIds, hlease.generations, fun t' ht' => ?_, fun t' ht' ha => ?_,
    fun t' ht' g hg => ?_, fun t' ht' g hg => ?_⟩,
    fun h => nodup_map (id_ownTicket hello) (hlease.nodup h)⟩ <;>
    obtain ⟨t, ht, rfl⟩ := mem_map.mp ht'
  · rw [id_ownTicket]
    exact hlease.known t ht
  · rw [id_ownTicket]
    refine hlease.awaits t ht ?_
    rcases ownTicket_cases hello claim.token t with hsame | ⟨g, deadline, priorState, -, hs, hs'⟩
    · rwa [hsame] at ha
    · rw [hs'] at ha
      rw [hs]
      exact ha
  · rcases ownTicket_cases hello claim.token t with hsame | ⟨g', deadline, priorState, -, -, hs'⟩
    · rw [hsame] at hg ⊢
      exact hlease.leased t ht g hg
    · rw [hs'] at hg
      cases hg
  · rcases ownTicket_cases hello claim.token t with hsame | ⟨g', deadline, priorState, hid, hs, hs'⟩
    · rw [hsame] at hg
      exact hlease.owned t ht g hg
    · -- the owned generation is the one just leased
      rw [hs', isOwnedBy, decide_eq_true_eq] at hg
      subst hg
      have hleased := leased_of_lease hwf hclaim ht hid
      have hthis : t.state.isLeasedBy g' = true := by rw [hs]; simp [isLeasedBy]
      obtain rfl := TicketState.eq_of_isLeasedBy hthis hleased
      rcases lease_cases clockMax s hello now with ⟨next, result, hfst, -, hresult⟩ |
        ⟨deadline, claim', hfst, -, -⟩ <;> rw [hfst] at hclaim ⊢
      · exact absurd hclaim (hresult claim)
      · exact .inr ⟨le_refl _, Nat.lt_succ_self _⟩

end EmuleBB.Callback.Store
