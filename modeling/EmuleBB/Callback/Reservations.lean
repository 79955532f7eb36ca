import EmuleBB.Callback.Claims

/-!
# Reservations

A reservation joins a running session, dispatches a left-over ticket again, joins a ticket that
still waits for its callback, or opens a new one; **whichever it does, it writes one ticket**.
`Reserves` says what that ticket is, and what the other modules need of a reservation is read off
it.
-/

namespace EmuleBB.Callback.Store

open FirstMatch

variable {clockMax : Nat} {s r r' : Store} {now : Instant} {request : TicketRequest}
  {ticket new : TicketRecord} {s' : Store} {peer : CallbackPeer} {download : Download}
  {capacity : Nat} {p : TicketRecord → Bool} {expiresAt : Instant}

/-! ## The parts of a reservation -/

theorem allocateTicketId_eq_some {s : Store} {id : Nat} (h : s.allocateTicketId = some (id, s')) :
    id = s.nextTicketId ∧ s' = { s with nextTicketId := s.nextTicketId + 1 } := by
  obtain ⟨next, hnext, heq⟩ := Option.map_eq_some_iff.mp h
  obtain rfl := checkedAdd_eq_some hnext
  cases heq
  exact ⟨rfl, rfl⟩

theorem merge_eq {merged : TicketRecord}
    (h : mergeTicketDownload ticket peer download capacity = .ok merged) :
    merged = ticket.withDownload peer download := by
  unfold mergeTicketDownload at h
  split at h
  · cases h
  · exact (Except.ok.inj h).symm

/-- A ticket that can accept the download merges it: the re-dispatch checks before it takes an
    id. -/
theorem merge_of_canAccept (h : ticket.canAcceptDownload download capacity = true) :
    mergeTicketDownload ticket peer download capacity =
      .ok (ticket.withDownload peer download) := by
  rw [TicketRecord.canAcceptDownload, Bool.or_eq_true, decide_eq_true_eq] at h
  refine if_neg fun hfull => ?_
  rw [Bool.and_eq_true, Bool.not_eq_true', decide_eq_true_eq] at hfull
  rcases h with h | h
  · rw [hfull.1] at h
    cases h
  · omega

theorem owned_of_activeSession {route : Route} {g : Nat}
    (h : s.activeSessionGenerationFor route peer = some g) :
    ∃ t ∈ s.tickets, t.state.isOwnedBy g = true := by
  obtain ⟨t, ht, hsome⟩ := List.exists_of_findSome?_eq_some h
  refine ⟨t, ht, ?_⟩
  cases hstate : t.state with
  | sessionOwned =>
    simp only [hstate] at hsome
    obtain ⟨-, hg⟩ := Option.ite_none_right_eq_some.mp hsome
    rw [TicketState.isOwnedBy, Option.some.inj hg, decide_eq_true_eq]
  | reserved | dispatching | armed | leased | needsDispatch =>
    simp only [hstate] at hsome
    cases hsome

/-! ## How a reservation ends -/

/-- **How a valid reservation leaves the reaped store.** -/
inductive Reserves (r : Store) (request : TicketRequest) : Store → Prop
  | refused : Reserves r request r
  | opened (new : TicketRecord) (id : new.id = r.nextTicketId) (peer : new.peer = request.peer)
      (lifetime : new.redispatchLifetime = request.validFor)
      (unleased : ∀ g, new.state.isLeasedBy g = false)
      (owned : ∀ g, new.state.isOwnedBy g = true → ∃ t ∈ r.tickets, t.state.isOwnedBy g = true) :
      Reserves r request
        { r with nextTicketId := r.nextTicketId + 1, tickets := r.tickets ++ [new] }
  | joined {p : TicketRecord → Bool} {t : TicketRecord} (found : r.tickets.find? p = some t)
      (restores : Bool) (state : TicketState)
      (kept : (restores = t.cancelRestoresNeedsDispatch ∧ state = t.state) ∨
        ∃ generation, state = .sessionOwned generation .armed ∧
          ∃ u ∈ r.tickets, u.state.isOwnedBy generation = true) :
      Reserves r request { r with
        tickets := modifyFirst p (fun _ => { t.withDownload request.peer request.download with
          redispatchLifetime := max t.redispatchLifetime request.validFor
          cancelRestoresNeedsDispatch := restores
          state := state }) r.tickets }
  | reissued {p : TicketRecord → Bool} {t : TicketRecord} (found : r.tickets.find? p = some t)
      (left : t.state = .needsDispatch) (expiresAt : Instant) :
      Reserves r request { r with
        nextTicketId := r.nextTicketId + 1
        tickets := modifyFirst p (fun _ => { t.withDownload request.peer request.download with
          id := r.nextTicketId
          expiresAt := expiresAt
          redispatchLifetime := request.validFor
          cancelRestoresNeedsDispatch := true
          state := .reserved }) r.tickets }

theorem joinSession_reserves {generation : Nat}
    (hactive : ∃ u ∈ r.tickets, u.state.isOwnedBy generation = true) :
    Reserves r request (r.joinSession generation request expiresAt).1 := by
  simp only [joinSession]
  cases hfind : r.tickets.find? (sessionCandidate generation request) with
  | some ticket =>
    cases hmerge : mergeTicketDownload ticket request.peer request.download r.downloadCapacity with
    | error => simp only [hmerge]; exact .refused
    | ok =>
      simp only [hmerge]
      obtain rfl := merge_eq hmerge
      exact .joined hfind false _ (.inr ⟨generation, rfl, hactive⟩)
  | none =>
    simp only []
    split
    · exact .refused
    · cases halloc : r.allocateTicketId with
      | none => exact .refused
      | some issued =>
        obtain ⟨id, r'⟩ := issued
        obtain ⟨rfl, rfl⟩ := allocateTicketId_eq_some halloc
        refine .opened _ rfl rfl rfl (fun _ => rfl) fun g hg => ?_
        obtain rfl : generation = g := of_decide_eq_true hg
        exact hactive

theorem redispatch_reserves (hfind : r.tickets.find? (redispatchable request) = some ticket) :
    Reserves r request (r.redispatch ticket request expiresAt).1 := by
  simp only [redispatch]
  split
  · exact .refused
  · rename_i haccept
    cases halloc : r.allocateTicketId with
    | none => exact .refused
    | some issued =>
      obtain ⟨id, r'⟩ := issued
      obtain ⟨rfl, rfl⟩ := allocateTicketId_eq_some halloc
      rw [Bool.not_eq_true, Bool.not_eq_false'] at haccept
      simp only [merge_of_canAccept haccept]
      have hleft := List.find?_some hfind
      rw [redispatchable, Bool.and_eq_true, decide_eq_true_eq] at hleft
      exact .reissued hfind hleft.1 expiresAt

theorem reserveWithoutSession_reserves :
    Reserves r request (r.reserveWithoutSession request expiresAt).1 := by
  simp only [reserveWithoutSession]
  cases hredispatch : r.tickets.find? (redispatchable request) with
  | some => exact redispatch_reserves hredispatch
  | none =>
    cases hjoin : r.tickets.find? (joinable request) with
    | some ticket =>
      cases hmerge :
          mergeTicketDownload ticket request.peer request.download r.downloadCapacity with
      | error e => simp only [hmerge]; exact .refused
      | ok merged =>
        simp only [hmerge]
        obtain rfl := merge_eq hmerge
        exact .joined hjoin ticket.cancelRestoresNeedsDispatch ticket.state (.inl ⟨rfl, rfl⟩)
    | none =>
      simp only []
      split
      · exact .refused
      · cases halloc : r.allocateTicketId with
        | none => exact .refused
        | some issued =>
          obtain ⟨id, r'⟩ := issued
          obtain ⟨rfl, rfl⟩ := allocateTicketId_eq_some halloc
          exact .opened _ rfl rfl rfl (fun _ => rfl) fun _ hg => by cases hg

/-- A reservation that changes more than expiry does is one of a valid request. -/
theorem reserve_cases (clockMax : Nat) (s : Store) (request : TicketRequest) (now : Instant) :
    (s.reserve clockMax request now).1 = s.reap now ∨
    ∃ valid, validateTicketRequest request = .ok valid ∧
      Reserves (s.reap now) valid (s.reserve clockMax request now).1 := by
  simp only [reserve]
  cases hvalid : validateTicketRequest request with
  | error => exact .inl rfl
  | ok valid =>
    simp only []
    cases checkedAdd clockMax now valid.validFor with
    | none => exact .inl rfl
    | some expiresAt =>
      refine .inr ⟨valid, rfl, ?_⟩
      cases hactive : (s.reap now).activeSessionGenerationFor valid.route valid.peer with
      | none => exact reserveWithoutSession_reserves
      | some =>
        simp only []
        split
        · exact joinSession_reserves (owned_of_activeSession hactive)
        · exact reserveWithoutSession_reserves

/-! ## Identifiers after a reservation -/

/-- A call that puts in one ticket, unleased, and otherwise keeps tickets: the new ticket stands
    for a stored one or has a fresh id, and owned it is only by a session that runs. -/
theorem derives_of_new (new : TicketRecord) (hids : s.nextTicketId ≤ s'.nextTicketId)
    (hgenerations : s'.nextLeaseGeneration = s.nextLeaseGeneration)
    (htickets : ∀ t ∈ s'.tickets, t ∈ s.tickets ∨ t = new)
    (horigin : (∃ t ∈ s.tickets, t.id = new.id ∧
      (new.state.awaitsDispatch = true → t.state.awaitsDispatch = true)) ∨ IssuedId s s' new.id)
    (hleased : ∀ g, new.state.isLeasedBy g = true → ∃ t ∈ s.tickets,
      t.id = new.id ∧ t.state.isLeasedBy g = true)
    (howned : ∀ g, new.state.isOwnedBy g = true → ∃ t ∈ s.tickets,
      t.state.isOwnedBy g = true) : Derives s s' where
  ticketIds := hids
  generations := hgenerations.ge
  known t ht := by
    rcases htickets t ht with hold | rfl
    · exact .inl ⟨t, hold, rfl⟩
    · exact horigin.imp_left fun ⟨u, hu, hid, _⟩ => ⟨u, hu, hid⟩
  awaits t ht ha := by
    rcases htickets t ht with hold | rfl
    · exact .inl ⟨t, hold, rfl, ha⟩
    · exact horigin.imp_left fun ⟨u, hu, hid, hawaits⟩ => ⟨u, hu, hid, hawaits ha⟩
  leased t ht g hg := by
    rcases htickets t ht with hold | rfl
    · exact .inl ⟨t, hold, rfl, hg⟩
    · exact .inl (hleased g hg)
  owned t ht g hg := by
    rcases htickets t ht with hold | rfl
    · exact .inl ⟨t, hold, hg⟩
    · exact .inl (howned g hg)

structure ReserveEffect (s s' : Store) : Prop where
  derives : Derives s s'
  nodup : s'.ids.Nodup

theorem Wf.nextTicketId_not_mem (h : s.Wf) : s.nextTicketId ∉ s.ids := by
  intro hmem
  obtain ⟨t, ht, hid⟩ := List.mem_map.mp hmem
  exact absurd (h.idIssued t ht) (hid ▸ lt_irrefl _)

theorem ReserveEffect.refl (h : s.Wf) : ReserveEffect s s := ⟨.refl s, h.nodup⟩

theorem ReserveEffect.push (h : s.Wf) (hid : new.id = s.nextTicketId)
    (hleased : ∀ g, new.state.isLeasedBy g = false)
    (howned : ∀ g, new.state.isOwnedBy g = true → ∃ t ∈ s.tickets,
      t.state.isOwnedBy g = true) : ReserveEffect s { s with
      nextTicketId := s.nextTicketId + 1, tickets := s.tickets ++ [new] } where
  derives := by
    refine derives_of_new new (Nat.le_succ _) rfl (fun t ht => ?_) (.inr ?_)
      (fun g hg => ?_) howned
    · simpa using ht
    · rw [hid]
      exact ⟨le_refl _, Nat.lt_succ_self _⟩
    · rw [hleased g] at hg
      cases hg
  nodup := by
    rw [ids, List.map_append, List.map_singleton, hid]
    exact List.nodup_append.mpr ⟨h.nodup, List.nodup_singleton _, fun a ha b hb hab =>
      h.nextTicketId_not_mem ((List.mem_singleton.mp hb) ▸ hab ▸ ha)⟩

theorem ReserveEffect.replace (h : s.Wf) {t : TicketRecord} (hfind : s.tickets.find? p = some t)
    (hid : new.id = t.id)
    (hawaits : new.state.awaitsDispatch = true → t.state.awaitsDispatch = true)
    (hleased : ∀ g, new.state.isLeasedBy g = true → t.state.isLeasedBy g = true)
    (howned : ∀ g, new.state.isOwnedBy g = true → ∃ t ∈ s.tickets,
      t.state.isOwnedBy g = true) :
    ReserveEffect s { s with tickets := modifyFirst p (fun _ => new) s.tickets } where
  derives := by
    have hmem := List.mem_of_find?_eq_some hfind
    refine derives_of_new new (le_refl _) rfl (fun u hu => ?_)
      (.inl ⟨t, hmem, hid.symm, hawaits⟩) (fun g hg => ⟨t, hmem, hid.symm, hleased g hg⟩) howned
    exact (mem_modifyFirst hu).imp_right fun ⟨_, _, heq⟩ => heq
  nodup := by
    have hsame : modifyFirst p (fun _ => new) s.tickets =
        modifyFirst p (fun u => { new with id := u.id }) s.tickets := by
      refine modifyFirst_congr fun u hu => ?_
      rw [← Option.some.inj (hfind.symm.trans hu), ← hid]
    have hnodup := nodup_modify (p := p) (f := fun u => { new with id := u.id }) (fun _ => rfl)
      h.nodup
    rwa [← hsame] at hnodup

theorem ReserveEffect.reissue (h : s.Wf) (hid : new.id = s.nextTicketId)
    (hfree : ∀ g, new.state.isLeasedBy g = false) (hunowned : ∀ g, new.state.isOwnedBy g = false) :
    ReserveEffect s { s with
      nextTicketId := s.nextTicketId + 1
      tickets := modifyFirst p (fun _ => new) s.tickets } where
  derives := by
    refine derives_of_new new (Nat.le_succ _) rfl (fun u hu => ?_) (.inr ?_) (fun g hg => ?_)
      fun g hg => ?_
    · exact (mem_modifyFirst hu).imp_right fun ⟨_, _, heq⟩ => heq
    · rw [hid]
      exact ⟨le_refl _, Nat.lt_succ_self _⟩
    · rw [hfree g] at hg
      cases hg
    · rw [hunowned g] at hg
      cases hg
  nodup := nodup_modifyFirst (fun _ => hid) h.nodup h.nextTicketId_not_mem

theorem Reserves.effect (h : Reserves r request r') (hwf : r.Wf) : ReserveEffect r r' := by
  cases h with
  | refused => exact .refl hwf
  | opened new id peer lifetime unleased owned => exact .push hwf id unleased owned
  | @joined p t found restores state kept =>
    have hmem := List.mem_of_find?_eq_some found
    refine .replace hwf found rfl (fun ha => ?_) (fun g hg => ?_) fun g hg => ?_ <;>
      rcases kept with ⟨-, rfl⟩ | ⟨generation, rfl, hactive⟩
    · exact ha
    · cases ha
    · exact hg
    · cases hg
    · exact ⟨t, hmem, hg⟩
    · obtain rfl : generation = g := of_decide_eq_true hg
      exact hactive
  | reissued => exact .reissue hwf rfl (fun _ => rfl) (fun _ => rfl)

theorem reserve_effect (hwf : s.Wf) (clockMax : Nat) (request : TicketRequest) (now : Instant) :
    ReserveEffect (s.reap now) (s.reserve clockMax request now).1 := by
  rcases reserve_cases clockMax s request now with heq | ⟨valid, -, hreserves⟩
  · rw [heq]
    exact .refl (hwf.reap now)
  · exact hreserves.effect (hwf.reap now)

end EmuleBB.Callback.Store
