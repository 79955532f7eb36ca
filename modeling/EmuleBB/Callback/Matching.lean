import EmuleBB.Callback.Work

/-!
# A HELLO claims its own callback work

An inbound HELLO is matched against the tickets nobody holds. **A ticket that expects a hash is
claimed by that hash and by nothing else.** Only when there is none do the tickets that expect no
hash come into question, each in the namespace of its route: the server and the LowID for a server
callback, the source address for the other two. If they disagree on the namespace key the
HELLO is refused.

A hash that a ticket expects is never replaced (`Carries.expects`), and the zero hash, which an
unidentified peer presents, is never expected (`TicketRecord.Valid`).
-/

namespace EmuleBB.Callback

open Run Store List

def TicketRecord.InNamespace (t : TicketRecord) (hello : HelloIdentity) : Prop :=
  match t.route with
  | .server serverEndpoint =>
    hello.serverEndpoint = some serverEndpoint ∧ hello.clientId = t.peer.clientId
  | .kadBuddy .. | .directUdp _ =>
    ∃ ip, t.peer.sourceIp = some ip ∧ hello.peerIp = some ip ∧ hello.tcpPort = t.peer.sourceTcpPort

/-- **The rule.** What a HELLO claims of a store is claimed by its hash, or by one namespace key
    where nobody expects the hash. -/
inductive ClaimsOwn (r : Store) (hello : HelloIdentity) (claimed : TicketRecord → Prop) : Prop
  | byHash (identified : hello.userHash ≠ zeroUserHash)
      (expected : ∀ t ∈ r.tickets, claimed t → t.peer.expectedUserHash = some hello.userHash)
  | byNamespace (key : FallbackKey)
      (unexpected : ∀ t ∈ r.tickets, t.state.isClaimable = true →
        t.peer.expectedUserHash ≠ some hello.userHash)
      (inNamespace : ∀ t ∈ r.tickets, claimed t → t.peer.expectedUserHash = none ∧
        t.InNamespace hello ∧ fallbackMatchKey t hello = some key)

/-- Nobody expects the hash, and two claimable tickets match by different keys. -/
def Ambiguous (r : Store) (hello : HelloIdentity) : Prop :=
  (∀ t ∈ r.tickets, t.state.isClaimable = true → t.peer.expectedUserHash ≠ some hello.userHash) ∧
  ∃ t ∈ r.tickets, ∃ u ∈ r.tickets, t.state.isClaimable = true ∧ u.state.isClaimable = true ∧
    ∃ key key', fallbackMatchKey t hello = some key ∧ fallbackMatchKey u hello = some key' ∧
      key ≠ key'

section Selection

variable {clockMax : Nat} {s r : Store} {hello : HelloIdentity} {now : Instant}
  {tickets : List TicketRecord} {selected : Option FallbackKey} {claim : Claim}
  {token : SessionToken}

theorem inNamespace_of_key {t : TicketRecord} {key : FallbackKey}
    (h : fallbackMatchKey t hello = some key) :
    t.peer.expectedUserHash = none ∧ t.InNamespace hello := by
  unfold fallbackMatchKey at h
  split at h
  · cases h
  · rename_i hnone
    refine ⟨by simpa using hnone, ?_⟩
    unfold TicketRecord.InNamespace
    cases hroute : t.route with
    | server =>
      simp only [hroute] at h
      obtain ⟨hmatch, -⟩ := Option.ite_none_right_eq_some.mp h
      simpa using hmatch
    | kadBuddy | directUdp =>
      simp only [hroute] at h
      cases hip : t.peer.sourceIp with
      | none => simp [hip] at h
      | some ip =>
        simp only [hip] at h
        obtain ⟨hmatch, -⟩ := Option.ite_none_left_eq_some.mp h
        refine ⟨ip, rfl, ?_⟩
        simp only [Bool.or_eq_true, decide_eq_true_eq, not_or, ne_eq, not_not] at hmatch
        exact ⟨hmatch.1, hmatch.2.symm⟩

/-- **One key for all**: the key that the scan selects is the key of every ticket that has one. -/
theorem selectFallbackKey_ok {result : Option FallbackKey}
    (h : selectFallbackKey hello tickets selected = .ok result) :
    (∀ key, selected = some key → result = some key) ∧
    ∀ t ∈ tickets, ∀ key, fallbackMatchKey t hello = some key → result = some key := by
  induction tickets generalizing selected with
  | nil =>
    cases h
    exact ⟨fun _ hkey => hkey, fun t ht => absurd ht (by simp)⟩
  | cons ticket tickets ih =>
    rw [selectFallbackKey] at h
    cases hkey : fallbackMatchKey ticket hello with
    | none =>
      rw [hkey] at h
      obtain ⟨hselected, hrest⟩ := ih h
      refine ⟨hselected, fun t ht key ht' => ?_⟩
      rcases mem_cons.mp ht with rfl | ht
      · rw [hkey] at ht'
        cases ht'
      · exact hrest t ht key ht'
    | some key =>
      simp only [hkey] at h
      split at h
      · cases h
      · rename_i hagrees
        obtain ⟨hselected, hrest⟩ := ih h
        refine ⟨fun key' hkey' => ?_, fun t ht key' ht' => ?_⟩
        · have hsame : key' = key := by simpa [hkey'] using hagrees
          rw [hsame]
          exact hselected key rfl
        · rcases mem_cons.mp ht with rfl | ht
          · rw [← Option.some.inj (hkey.symm.trans ht')]
            exact hselected key rfl
          · exact hrest t ht key' ht'

theorem selectFallbackKey_error {e : ClaimError}
    (h : selectFallbackKey hello tickets selected = .error e) : e = .ambiguousPeer := by
  induction tickets generalizing selected with
  | nil => cases h
  | cons ticket tickets ih =>
    rw [selectFallbackKey] at h
    split at h
    · exact ih h
    · split at h
      · exact (Except.error.inj h).symm
      · exact ih h

/-- **The candidates of a HELLO are its own.** -/
theorem claimCandidates_own (hwf : r.Wf) (hvalid : ∀ t ∈ r.tickets, t.Valid) {candidates : List Nat}
    (h : r.claimCandidates hello = .ok candidates) (hsome : candidates ≠ []) :
    ClaimsOwn r hello fun t => t.id ∈ candidates := by
  -- a stored ticket whose id a filter of the tickets gives passes that filter
  have hpasses {p q : TicketRecord → Bool} {t : TicketRecord} (ht : t ∈ r.tickets)
      (hid : t.id ∈ ((r.tickets.filter p).filter q).map TicketRecord.id) : q t = true := by
    obtain ⟨u, hu, hsame⟩ := mem_map.mp hid
    obtain ⟨hu, hq⟩ := mem_filter.mp hu
    rwa [← hwf.eq_of_id (mem_filter.mp hu).1 ht hsame]
  simp only [claimCandidates] at h
  split at h
  · rename_i hstrong
    cases h
    exact .byHash hstrong.1 fun t ht hid => of_decide_eq_true (hpasses ht hid)
  · rename_i hstrong
    -- a zero hash is expected by nobody, so nobody expects the hash of this HELLO
    have hunexpected : ∀ t ∈ r.tickets, t.state.isClaimable = true →
        t.peer.expectedUserHash ≠ some hello.userHash := by
      intro t ht hclaimable hexpected
      by_cases hzero : hello.userHash = zeroUserHash
      · exact (hvalid t ht).hash (hzero ▸ hexpected)
      · refine hstrong ⟨hzero, ne_nil_of_mem (a := t) ?_⟩
        exact mem_filter.mpr ⟨mem_filter.mpr ⟨ht, hclaimable⟩, decide_eq_true hexpected⟩
    split at h
    · cases h
    · exact absurd (Except.ok.inj h).symm hsome
    · rename_i key hselected
      cases h
      refine .byNamespace key hunexpected fun t ht hid => ?_
      have hkey : fallbackMatchKey t hello = some key := of_decide_eq_true (hpasses ht hid)
      exact ⟨(inNamespace_of_key hkey).1, (inNamespace_of_key hkey).2, hkey⟩

theorem claimCandidates_ambiguous (h : Ambiguous r hello) :
    r.claimCandidates hello = .error .ambiguousPeer := by
  obtain ⟨hunexpected, t, ht, u, hu, htc, huc, key, key', hkey, hkey', hne⟩ := h
  have hweak : (r.tickets.filter fun ticket => ticket.state.isClaimable).filter
      (fun ticket => ticket.peer.expectedUserHash = some hello.userHash) = [] := by
    refine filter_eq_nil_iff.mpr fun v hv hexpected => ?_
    obtain ⟨hv, hclaimable⟩ := mem_filter.mp hv
    exact hunexpected v hv hclaimable (of_decide_eq_true hexpected)
  simp only [claimCandidates, hweak, ne_eq, not_true_eq_false, and_false, if_false]
  cases hselected : selectFallbackKey hello
      (r.tickets.filter fun ticket => ticket.state.isClaimable) none with
  | error e => rw [selectFallbackKey_error hselected]
  | ok result =>
    obtain ⟨-, hall⟩ := selectFallbackKey_ok hselected
    have hone := hall t (mem_filter.mpr ⟨ht, htc⟩) key hkey
    have htwo := hall u (mem_filter.mpr ⟨hu, huc⟩) key' hkey'
    exact absurd (Option.some.inj (hone.symm.trans htwo)) hne

theorem lease_candidates (h : (s.lease clockMax hello now).2 = .ok (some claim)) :
    ∃ candidates, (s.reap now).claimCandidates hello = .ok candidates ∧ candidates ≠ [] ∧
      ∀ id ∈ claim.token.ticketIds, id ∈ candidates := by
  simp only [lease] at h
  cases hcandidates : (s.reap now).claimCandidates hello with
  | error =>
    rw [hcandidates] at h
    cases h
  | ok candidates =>
    simp only [hcandidates] at h
    split at h
    · cases h
    rename_i hsome
    refine ⟨candidates, rfl, fun hempty => hsome (hempty ▸ rfl), fun id hid => ?_⟩
    split at h
    · cases h
    rcases leaseSelected_cases clockMax (s.reap now) (selectTickets
        ((s.reap now).tickets.filter fun t => t.id ∈ candidates) ([], [])).1 (selectTickets
        ((s.reap now).tickets.filter fun t => t.id ∈ candidates) ([], [])).2 now with
      ⟨next, result, heq, -, hresult⟩ | ⟨deadline, heq⟩ <;> rw [heq] at h
    · exact absurd h (hresult claim)
    · cases Except.ok.inj h
      rcases mem_selectTickets hid with hnil | hmem
      · cases hnil
      · obtain ⟨t, ht, rfl⟩ := mem_map.mp hmem
        exact of_decide_eq_true (mem_filter.mp ht).2

theorem ClaimsOwn.mono {claimed claimed' : TicketRecord → Prop} (h : ClaimsOwn r hello claimed)
    (hsub : ∀ t ∈ r.tickets, claimed' t → claimed t) : ClaimsOwn r hello claimed' := by
  cases h with
  | byHash identified expected =>
    exact .byHash identified fun t ht hc => expected t ht (hsub t ht hc)
  | byNamespace key unexpected inNamespace =>
    exact .byNamespace key unexpected fun t ht hc => inNamespace t ht (hsub t ht hc)

/-- **A lease claims the HELLO's own work.** -/
theorem lease_own (hwf : s.Wf) (hvalid : ∀ t ∈ s.tickets, t.Valid)
    (h : (s.lease clockMax hello now).2 = .ok (some claim)) :
    ClaimsOwn (s.reap now) hello fun t => t.id ∈ claim.token.ticketIds := by
  obtain ⟨candidates, hcandidates, hsome, hsub⟩ := lease_candidates h
  exact (claimCandidates_own (hwf.reap now) ((keepsTerms_reap s now).valid hvalid) hcandidates
    hsome).mono fun t _ hid => hsub t.id hid

/-- **What a lease marks is what it hands out.** -/
theorem leased_by_claim (hwf : s.Wf) (h : (s.lease clockMax hello now).2 = .ok (some claim))
    {t' : TicketRecord} (ht' : t' ∈ (s.lease clockMax hello now).1.tickets)
    (hleased : t'.state.isLeasedBy claim.token.generation = true) :
    t'.id ∈ claim.token.ticketIds := by
  rcases lease_cases clockMax s hello now with ⟨next, result, heq, -, hresult⟩ |
    ⟨deadline, claim', heq, hgeneration, -⟩ <;> rw [heq] at h ht'
  · exact absurd h (hresult claim)
  · obtain rfl := Option.some.inj (Except.ok.inj h)
    obtain ⟨t, ht, rfl⟩ := mem_map.mp ht'
    by_contra hother
    rw [id_leaseTicket] at hother
    have hsame : leaseTicket s.nextLeaseGeneration deadline claim'.token.ticketIds t = t :=
      if_neg hother
    rw [hsame, hgeneration] at hleased
    exact lt_irrefl _ ((hwf.reap now).leased_lt ht hleased)

theorem claimSession_ok (h : (s.claimSession clockMax hello now).2 = .ok (some token)) :
    ∃ claim, (s.lease clockMax hello now).2 = .ok (some claim) ∧
      token.generation = claim.token.generation ∧
      (s.claimSession clockMax hello now).1.tickets =
        (s.lease clockMax hello now).1.tickets.map (ownTicket hello claim.token) := by
  unfold claimSession at h ⊢
  cases hlease : s.lease clockMax hello now with
  | mk s' result =>
    rw [hlease] at h
    cases result with
    | error => cases h
    | ok claim =>
      cases claim with
      | none => cases h
      | some claim =>
        cases Except.ok.inj h
        exact ⟨claim, rfl, rfl, rfl⟩

/-- **What a session owns was leased for it.** -/
theorem owned_by_claim (hwf : s.Wf) (h : (s.claimSession clockMax hello now).2 = .ok (some token)) :
    ∃ claim, (s.lease clockMax hello now).2 = .ok (some claim) ∧
      ∀ t' ∈ (s.claimSession clockMax hello now).1.tickets,
        t'.state.isOwnedBy token.generation = true → t'.id ∈ claim.token.ticketIds := by
  obtain ⟨claim, hclaim, hgeneration, htickets⟩ := claimSession_ok h
  refine ⟨claim, hclaim, fun t' ht' howned => ?_⟩
  rw [htickets] at ht'
  obtain ⟨t, ht, rfl⟩ := mem_map.mp ht'
  rw [id_ownTicket]
  rcases ownTicket_cases hello claim.token t with hsame | ⟨g, deadline, priorState, hid, -, -⟩
  · -- a generation that is just issued owned no ticket before
    rw [hsame, hgeneration] at howned
    rcases lease_cases clockMax s hello now with ⟨next, result, heq, -, hresult⟩ |
      ⟨deadline, claim', heq, hissued, -⟩ <;> rw [heq] at hclaim ht
    · exact absurd hclaim (hresult claim)
    · obtain rfl := Option.some.inj (Except.ok.inj hclaim)
      obtain ⟨u, hu, rfl⟩ := mem_map.mp ht
      rw [hissued] at howned
      rcases leaseTicket_cases s.nextLeaseGeneration deadline claim'.token.ticketIds u with
        hkept | ⟨hleased, -⟩
      · rw [hkept] at howned
        exact absurd ((hwf.reap now).owned_lt hu howned) (lt_irrefl _)
      · rw [TicketState.not_owned_of_leased hleased] at howned
        cases howned
  · exact hid

/-- An ambiguous HELLO is refused, and only expiry changes the store. -/
theorem lease_ambiguous (h : Ambiguous (s.reap now) hello) :
    s.lease clockMax hello now = (s.reap now, .error .ambiguousPeer) := by
  simp only [lease, claimCandidates_ambiguous h]

end Selection

/-- **A HELLO never claims another peer's callback work.** In every state that any calls lead to,
    the tickets that a lease or a session is given are the HELLO's own by the rule; an ambiguous
    HELLO is refused and changes no ticket that expiry leaves; and a reservation keeps every hash
    that a ticket expects. -/
theorem hello_claims_own_work (clockMax ticketCapacity downloadCapacity : Nat) (start : Instant)
    (before : List Event) (hello : HelloIdentity) (now : Instant) :
    let s := (run (System.step clockMax) (System.init ticketCapacity downloadCapacity start)
      before).store
    (∀ claim, (s.lease clockMax hello now).2 = .ok (some claim) →
      ClaimsOwn (s.reap now) hello (fun t => t.id ∈ claim.token.ticketIds) ∧
      ∀ t' ∈ (s.lease clockMax hello now).1.tickets,
        t'.state.isLeasedBy claim.token.generation = true → t'.id ∈ claim.token.ticketIds) ∧
    (∀ token, (s.claimSession clockMax hello now).2 = .ok (some token) →
      ClaimsOwn (s.reap now) hello fun t =>
        ∃ t' ∈ (s.claimSession clockMax hello now).1.tickets,
          t'.id = t.id ∧ t'.state.isOwnedBy token.generation = true) ∧
    (Ambiguous (s.reap now) hello →
      s.lease clockMax hello now = (s.reap now, .error .ambiguousPeer) ∧
      s.claimSession clockMax hello now = (s.reap now, .error .ambiguousPeer)) ∧
    ∀ request, ∀ t ∈ (s.reap now).tickets, ∀ hash, t.peer.expectedUserHash = some hash →
      ∃ t' ∈ (s.reserve clockMax request now).1.tickets, (t'.id = t.id ∨ Reissues t t') ∧
        t'.peer.expectedUserHash = some hash := by
  intro s
  have hwf : s.Wf := wf_run Store.new_wf
  have hvalid : ∀ t ∈ s.tickets, t.Valid :=
    valid_run (fun _ h => absurd h (by simp [System.init, Store.new]))
  refine ⟨fun claim h => ⟨lease_own hwf hvalid h, fun t' => leased_by_claim hwf h⟩,
    fun token h => ?_,
    fun h => ⟨lease_ambiguous h, by simp only [claimSession, lease_ambiguous h]⟩,
      fun request t ht hash hhash => ?_⟩
  · obtain ⟨claim, hclaim, howned⟩ := owned_by_claim hwf h
    refine (lease_own hwf hvalid hclaim).mono fun t _ hgiven => ?_
    obtain ⟨t', ht', hid, hown⟩ := hgiven
    exact hid ▸ howned t' ht' hown
  · rcases reserve_cases clockMax s request now with heq | ⟨valid, -, hreserves⟩
    · rw [heq]
      exact ⟨t, ht, .inl rfl, hhash⟩
    · obtain ⟨t', ht', hcarries⟩ : ∃ t' ∈ _, Carries (fun _ => False) t t' :=
        hreserves.carries (hwf.reap now) ht
      exact ⟨t', ht', hcarries.ticket, hcarries.expects hash hhash⟩

end EmuleBB.Callback
