import EmuleBB.Callback.Tickets

/-!
# What a call does to the tickets

The store's calls are compared through three facts about a ticket: whether a dispatch permit may
still settle it, which lease generation holds it, and which session generation owns it. `Follows`
says that a ticket only lost such facts; `Derives` says the same of a whole store, up to the
identifiers the call issued; and `Uses` says that a call changed nothing but the tickets it has
authority over. **Expiry is not counted as a change**: two stores are compared after `reap` at the
time of the call.
-/

namespace EmuleBB.Callback

open FirstMatch Peer TicketState List Store

variable {t : TicketRecord}

/-- A dispatch permit may still begin, arm or cancel the ticket. -/
def TicketState.awaitsDispatch : TicketState → Bool
  | .reserved | .dispatching => true
  | .leased _ _ priorState | .sessionOwned _ priorState => priorState ≠ .armed
  | .armed | .needsDispatch => false

def TicketState.holder : TicketState → Option Nat
  | .leased generation _ _ | .sessionOwned generation _ => some generation
  | .reserved | .dispatching | .armed | .needsDispatch => none

theorem TicketState.holder_of_leased {state : TicketState} {g : Nat}
    (h : state.isLeasedBy g = true) : state.holder = some g := by
  cases state <;> simp_all [isLeasedBy, holder]

theorem TicketState.holder_of_owned {state : TicketState} {g : Nat}
    (h : state.isOwnedBy g = true) : state.holder = some g := by
  cases state <;> simp_all [isOwnedBy, holder]

/-- The later ticket is the earlier one, with nothing gained. -/
structure Follows (t t' : TicketRecord) : Prop where
  id : t'.id = t.id
  awaits : t'.state.awaitsDispatch = true → t.state.awaitsDispatch = true
  leased : ∀ g, t'.state.isLeasedBy g = true → t.state.isLeasedBy g = true
  owned : ∀ g, t'.state.isOwnedBy g = true → t.state.isOwnedBy g = true

theorem Follows.refl (t : TicketRecord) : Follows t t :=
  ⟨rfl, fun h => h, fun _ h => h, fun _ h => h⟩

theorem Follows.trans {u v : TicketRecord} (h : Follows t u) (h' : Follows u v) : Follows t v :=
  ⟨h'.id.trans h.id, fun hv => h.awaits (h'.awaits hv), fun g hv => h.leased g (h'.leased g hv),
    fun g hv => h.owned g (h'.owned g hv)⟩

theorem Follows.of_idle {t' : TicketRecord} (hid : t'.id = t.id)
    (hstate : t'.state = .armed ∨ t'.state = .needsDispatch) : Follows t t' := by
  refine ⟨hid, fun h => ?_, fun g h => ?_, fun g h => ?_⟩ <;>
    rcases hstate with hs | hs <;>
      simp [hs, awaitsDispatch, isLeasedBy, isOwnedBy] at h

theorem Follows.of_state {t' : TicketRecord} (hid : t'.id = t.id) (hstate : t'.state = t.state) :
    Follows t t' := by
  refine ⟨hid, fun h => ?_, fun g h => ?_, fun g h => ?_⟩ <;> rwa [hstate] at h

/-! ## Expiry -/

section Reap

variable {now later : Instant} {t t' : TicketRecord} {s : Store}

section

variable (h : reapTicket now t = some t')

include h

theorem reapTicket_cases :
    t' = t ∨ ∃ g deadline priorState, t.state = .leased g deadline priorState ∧
      (priorState = .dispatching ∨ now < t.expiresAt) ∧
      t' = setState t priorState.toState := by
  cases hstate : t.state with
  | leased g deadline priorState =>
    simp only [reapTicket, hstate] at h
    by_cases hlapsed : deadline ≤ now
    · rw [if_pos hlapsed] at h
      by_cases hkept : priorState = .dispatching ∨ now < t.expiresAt
      · rw [if_pos hkept] at h
        exact .inr ⟨g, deadline, priorState, rfl, hkept, (Option.some.inj h).symm⟩
      · rw [if_neg hkept] at h
        cases h
    · rw [if_neg hlapsed] at h
      exact .inl (Option.some.inj h).symm
  | dispatching | sessionOwned =>
    simp only [reapTicket, hstate] at h
    exact .inl (Option.some.inj h).symm
  | reserved | armed | needsDispatch =>
    simp only [reapTicket, hstate] at h
    split at h
    case isTrue => exact .inl (Option.some.inj h).symm
    case isFalse => cases h

theorem follows_of_reapTicket : Follows t t' := by
  rcases reapTicket_cases h with rfl | ⟨g, deadline, priorState, hstate, -, rfl⟩
  · exact .refl _
  · refine ⟨rfl, fun ha => ?_, fun g hl => ?_, fun g ho => ?_⟩ <;>
      cases priorState <;>
        simp_all [setState, ReadyState.toState, awaitsDispatch,
          isLeasedBy, isOwnedBy]

/-- Expiry does not settle a ticket that it leaves. -/
theorem awaits_of_reapTicket : t'.state.awaitsDispatch = t.state.awaitsDispatch := by
  rcases reapTicket_cases h with rfl | ⟨g, deadline, priorState, hstate, -, rfl⟩
  · rfl
  · cases priorState <;> simp [hstate, setState, ReadyState.toState,
      awaitsDispatch]

theorem reapTicket_idem : reapTicket now t' = some t' := by
  rcases reapTicket_cases h with rfl | ⟨g, deadline, priorState, -, hkept, rfl⟩
  · exact h
  · cases priorState <;> simp_all [reapTicket, setState, ReadyState.toState]

end

theorem reapTicket_earlier (hle : now ≤ later) (h : reapTicket later t = some t') :
    ∃ u, reapTicket now t = some u ∧ Follows u t' := by
  cases hstate : t.state with
  | leased g deadline priorState =>
    by_cases hlapsed : deadline ≤ now
    · simp only [reapTicket, hstate, hlapsed, le_trans hlapsed hle, if_true] at h ⊢
      by_cases hkept : priorState = .dispatching ∨ later < t.expiresAt
      · rw [if_pos hkept] at h
        have hearlier : priorState = .dispatching ∨ now < t.expiresAt :=
          hkept.imp id (lt_of_le_of_lt hle)
        rw [if_pos hearlier]
        exact ⟨_, rfl, Option.some.inj h ▸ .refl _⟩
      · rw [if_neg hkept] at h
        cases h
    · refine ⟨t, ?_, follows_of_reapTicket h⟩
      simp [reapTicket, hstate, hlapsed]
  | dispatching | sessionOwned => exact ⟨t, by simp [reapTicket, hstate], follows_of_reapTicket h⟩
  | reserved | armed | needsDispatch =>
    refine ⟨t, ?_, follows_of_reapTicket h⟩
    simp only [reapTicket, hstate] at h ⊢
    split at h
    case isTrue hlater => rw [if_pos (lt_of_le_of_lt hle hlater)]
    case isFalse => cases h

theorem mem_reap : t' ∈ (s.reap now).tickets ↔ ∃ t ∈ s.tickets, reapTicket now t = some t' :=
  mem_filterMap

theorem reapTicket_of_mem_reap (h : t ∈ (s.reap now).tickets) : reapTicket now t = some t := by
  obtain ⟨u, -, hu⟩ := mem_reap.mp h
  exact reapTicket_idem hu

theorem reap_reap : (s.reap now).reap now = s.reap now := by
  have htickets : (s.reap now).tickets.filterMap (reapTicket now) = (s.reap now).tickets := by
    conv_rhs => rw [← filterMap_some (l := (s.reap now).tickets)]
    exact filterMap_congr fun t ht => reapTicket_of_mem_reap ht
  rw [reap, htickets]

end Reap

/-! ## Stores -/

def Store.ids (s : Store) : List Nat := s.tickets.map TicketRecord.id

structure Store.Wf (s : Store) : Prop where
  nodup : s.ids.Nodup
  idIssued : ∀ t ∈ s.tickets, t.id < s.nextTicketId
  holderIssued : ∀ t ∈ s.tickets, ∀ g, t.state.holder = some g → g < s.nextLeaseGeneration

def IssuedId (s s' : Store) (id : Nat) : Prop := s.nextTicketId ≤ id ∧ id < s'.nextTicketId

def IssuedGeneration (s s' : Store) (g : Nat) : Prop :=
  s.nextLeaseGeneration ≤ g ∧ g < s'.nextLeaseGeneration

/-- Up to what was issued on the way, the tickets of the later store have nothing the earlier
    store's did not have: no id, no open dispatch, no lease, no session. -/
structure Derives (s s' : Store) : Prop where
  ticketIds : s.nextTicketId ≤ s'.nextTicketId
  generations : s.nextLeaseGeneration ≤ s'.nextLeaseGeneration
  known : ∀ t' ∈ s'.tickets, (∃ t ∈ s.tickets, t.id = t'.id) ∨ IssuedId s s' t'.id
  awaits : ∀ t' ∈ s'.tickets, t'.state.awaitsDispatch = true →
    (∃ t ∈ s.tickets, t.id = t'.id ∧ t.state.awaitsDispatch = true) ∨ IssuedId s s' t'.id
  leased : ∀ t' ∈ s'.tickets, ∀ g, t'.state.isLeasedBy g = true →
    (∃ t ∈ s.tickets, t.id = t'.id ∧ t.state.isLeasedBy g = true) ∨ IssuedGeneration s s' g
  owned : ∀ t' ∈ s'.tickets, ∀ g, t'.state.isOwnedBy g = true →
    (∃ t ∈ s.tickets, t.state.isOwnedBy g = true) ∨ IssuedGeneration s s' g

section Derives

variable {s s' s'' : Store} {g : Nat} {t : TicketRecord}

theorem IssuedId.mono (h : Derives s s') (h' : Derives s' s'') {id : Nat} :
    IssuedId s s' id ∨ IssuedId s' s'' id → IssuedId s s'' id := by
  rintro (⟨hl, hr⟩ | ⟨hl, hr⟩)
  · exact ⟨hl, lt_of_lt_of_le hr h'.ticketIds⟩
  · exact ⟨le_trans h.ticketIds hl, hr⟩

theorem IssuedGeneration.mono (h : Derives s s') (h' : Derives s' s'') :
    IssuedGeneration s s' g ∨ IssuedGeneration s' s'' g → IssuedGeneration s s'' g := by
  rintro (⟨hl, hr⟩ | ⟨hl, hr⟩)
  · exact ⟨hl, lt_of_lt_of_le hr h'.generations⟩
  · exact ⟨le_trans h.generations hl, hr⟩

theorem Derives.trans (h : Derives s s') (h' : Derives s' s'') : Derives s s'' where
  ticketIds := le_trans h.ticketIds h'.ticketIds
  generations := le_trans h.generations h'.generations
  known t'' ht'' := by
    rcases h'.known t'' ht'' with ⟨t', ht', hid⟩ | hissued
    · rw [← hid]
      exact (h.known t' ht').imp id fun hi => .mono h h' (.inl hi)
    · exact .inr (.mono h h' (.inr hissued))
  awaits t'' ht'' ha := by
    rcases h'.awaits t'' ht'' ha with ⟨t', ht', hid, ha'⟩ | hissued
    · rw [← hid]
      exact (h.awaits t' ht' ha').imp id fun hi => .mono h h' (.inl hi)
    · exact .inr (.mono h h' (.inr hissued))
  leased t'' ht'' g hg := by
    rcases h'.leased t'' ht'' g hg with ⟨t', ht', hid, hg'⟩ | hissued
    · rw [← hid]
      exact (h.leased t' ht' g hg').imp id fun hi => .mono h h' (.inl hi)
    · exact .inr (.mono h h' (.inr hissued))
  owned t'' ht'' g hg := by
    rcases h'.owned t'' ht'' g hg with ⟨t', ht', hg'⟩ | hissued
    · exact (h.owned t' ht' g hg').imp id fun hi => .mono h h' (.inl hi)
    · exact .inr (.mono h h' (.inr hissued))

theorem Derives.of_follows (hid : s'.nextTicketId = s.nextTicketId)
    (hg : s'.nextLeaseGeneration = s.nextLeaseGeneration)
    (h : ∀ t' ∈ s'.tickets, ∃ t ∈ s.tickets, Follows t t') : Derives s s' where
  ticketIds := hid.ge
  generations := hg.ge
  known t' ht' := by
    obtain ⟨t, ht, hf⟩ := h t' ht'
    exact .inl ⟨t, ht, hf.id.symm⟩
  awaits t' ht' ha := by
    obtain ⟨t, ht, hf⟩ := h t' ht'
    exact .inl ⟨t, ht, hf.id.symm, hf.awaits ha⟩
  leased t' ht' g hl := by
    obtain ⟨t, ht, hf⟩ := h t' ht'
    exact .inl ⟨t, ht, hf.id.symm, hf.leased g hl⟩
  owned t' ht' g ho := by
    obtain ⟨t, ht, hf⟩ := h t' ht'
    exact .inl ⟨t, ht, hf.owned g ho⟩

theorem Derives.refl (s : Store) : Derives s s :=
  .of_follows rfl rfl fun t ht => ⟨t, ht, .refl t⟩

theorem derives_reap {now : Instant} : Derives s (s.reap now) := by
  refine .of_follows rfl rfl fun t' ht' => ?_
  obtain ⟨t, ht, hreap⟩ := mem_reap.mp ht'
  exact ⟨t, ht, follows_of_reapTicket hreap⟩

/-- Expiry only takes away: a store reaped later derives from the store reaped now. -/
theorem derives_reap_later {now later : Instant} (hle : now ≤ later) :
    Derives (s.reap now) (s.reap later) := by
  refine .of_follows rfl rfl fun t' ht' => ?_
  obtain ⟨t, ht, hreap⟩ := mem_reap.mp ht'
  obtain ⟨u, hu, hf⟩ := reapTicket_earlier hle hreap
  exact ⟨u, mem_reap.mpr ⟨t, ht, hu⟩, hf⟩

theorem Store.Wf.leased_lt (h : s.Wf) (ht : t ∈ s.tickets) (hl : t.state.isLeasedBy g = true) :
    g < s.nextLeaseGeneration :=
  h.holderIssued t ht g (holder_of_leased hl)

theorem Store.Wf.owned_lt (h : s.Wf) (ht : t ∈ s.tickets) (ho : t.state.isOwnedBy g = true) :
    g < s.nextLeaseGeneration :=
  h.holderIssued t ht g (holder_of_owned ho)

theorem Store.Wf.eq_of_id (h : s.Wf) {u : TicketRecord} (ht : t ∈ s.tickets) (hu : u ∈ s.tickets)
    (hid : t.id = u.id) : t = u :=
  eq_of_key h.nodup ht hu hid

theorem TicketState.holder_cases {state : TicketState} (h : state.holder = some g) :
    state.isLeasedBy g = true ∨ state.isOwnedBy g = true := by
  cases state <;> simp_all [holder, isLeasedBy, isOwnedBy]

/-- A store derives from another, and has each id once if that had. -/
structure Evolves (s s' : Store) : Prop extends Derives s s' where
  nodup : s.ids.Nodup → s'.ids.Nodup

theorem Evolves.trans (h : Evolves s s') (h' : Evolves s' s'') : Evolves s s'' :=
  ⟨h.toDerives.trans h'.toDerives, fun hs => h'.nodup (h.nodup hs)⟩

theorem Store.Wf.evolves (h : s.Wf) (hd : Evolves s s') : s'.Wf where
  nodup := hd.nodup h.nodup
  idIssued t' ht' := by
    rcases hd.known t' ht' with ⟨t, ht, hid⟩ | hissued
    · exact hid ▸ lt_of_lt_of_le (h.idIssued t ht) hd.ticketIds
    · exact hissued.2
  holderIssued t' ht' g hg := by
    rcases holder_cases hg with hl | ho
    · rcases hd.leased t' ht' g hl with ⟨t, ht, -, hl⟩ | hissued
      · exact lt_of_lt_of_le (h.leased_lt ht hl) hd.generations
      · exact hissued.2
    · rcases hd.owned t' ht' g ho with ⟨t, ht, ho⟩ | hissued
      · exact lt_of_lt_of_le (h.owned_lt ht ho) hd.generations
      · exact hissued.2

theorem Store.nodup_reap (h : s.ids.Nodup) {now : Instant} : (s.reap now).ids.Nodup :=
  nodup_filterMap (fun _ _ ht => (follows_of_reapTicket ht).id) h

theorem evolves_reap {now : Instant} : Evolves s (s.reap now) :=
  ⟨derives_reap, fun h => nodup_reap h⟩

/-- Expiry keeps the store well formed. -/
theorem Store.Wf.reap (h : s.Wf) (now : Instant) : (s.reap now).Wf := h.evolves evolves_reap

end Derives

/-! ## Using a token or a permit -/

/-- Between the two stores only tickets with `P` were changed or dropped, and a changed ticket
    gained nothing. -/
structure Uses (P : TicketRecord → Prop) (s s' : Store) : Prop where
  nextTicketId : s'.nextTicketId = s.nextTicketId
  nextLeaseGeneration : s'.nextLeaseGeneration = s.nextLeaseGeneration
  kept : ∀ t ∈ s.tickets, ¬P t → t ∈ s'.tickets
  origin : ∀ t' ∈ s'.tickets, t' ∈ s.tickets ∨ ∃ t ∈ s.tickets, P t ∧ Follows t t'

section Uses

variable {P : TicketRecord → Prop} {s s' : Store} {f : TicketRecord → TicketRecord}
  {p : TicketRecord → Bool}

theorem Uses.refl (P : TicketRecord → Prop) (s : Store) : Uses P s s :=
  ⟨rfl, rfl, fun _ ht _ => ht, fun _ ht => .inl ht⟩

theorem Uses.derives (h : Uses P s s') : Derives s s' := by
  refine .of_follows h.nextTicketId h.nextLeaseGeneration fun t' ht' => ?_
  rcases h.origin t' ht' with ht | ⟨t, ht, -, hf⟩
  · exact ⟨t', ht, .refl t'⟩
  · exact ⟨t, ht, hf⟩

theorem Uses.reap {now : Instant} (h : Uses P (s.reap now) s') :
    Uses P (s.reap now) (s'.reap now) where
  nextTicketId := h.nextTicketId
  nextLeaseGeneration := h.nextLeaseGeneration
  kept t ht hP := mem_reap.mpr ⟨t, h.kept t ht hP, reapTicket_of_mem_reap ht⟩
  origin t'' ht'' := by
    obtain ⟨t', ht', hreap⟩ := mem_reap.mp ht''
    rcases h.origin t' ht' with ht | ⟨t, ht, hP, hf⟩
    · cases hreap.symm.trans (reapTicket_of_mem_reap ht)
      exact .inl ht
    · exact .inr ⟨t, ht, hP, hf.trans (follows_of_reapTicket hreap)⟩

structure Settles (P : TicketRecord → Prop) (s s' : Store) : Prop extends Uses P s s' where
  nodup : s.ids.Nodup → s'.ids.Nodup

theorem Settles.refl (P : TicketRecord → Prop) (s : Store) : Settles P s s :=
  ⟨.refl P s, fun h => h⟩

theorem Settles.evolves (h : Settles P s s') : Evolves s s' := ⟨h.toUses.derives, h.nodup⟩

theorem Settles.reap {now : Instant} (h : Settles P (s.reap now) s') :
    Settles P (s.reap now) (s'.reap now) :=
  ⟨h.toUses.reap, fun hs => nodup_reap (h.nodup hs)⟩

/-- Changing tickets one by one: `g` leaves alone what has not `P`. -/
theorem Settles.filterMap {g : TicketRecord → Option TicketRecord}
    (hid : ∀ t t', g t = some t' → t'.id = t.id) (hkept : ∀ t ∈ s.tickets, ¬P t → g t = some t)
    (hg : ∀ t ∈ s.tickets, ∀ t', P t → g t = some t' → Follows t t') :
    Settles P s { s with tickets := s.tickets.filterMap g } where
  nextTicketId := rfl
  nextLeaseGeneration := rfl
  kept t ht hP := mem_filterMap.mpr ⟨t, ht, hkept t ht hP⟩
  origin t' ht' := by
    obtain ⟨t, ht, hgt⟩ := mem_filterMap.mp ht'
    by_cases hP : P t
    · exact .inr ⟨t, ht, hP, hg t ht t' hP hgt⟩
    · cases (hkept t ht hP).symm.trans hgt
      exact .inl ht
  nodup h := nodup_filterMap hid h

theorem Settles.map (hid : ∀ t, (f t).id = t.id)
    (hkept : ∀ t ∈ s.tickets, ¬P t → f t = t) (hf : ∀ t ∈ s.tickets, P t → Follows t (f t)) :
    Settles P s { s with tickets := s.tickets.map f } := by
  rw [← filterMap_eq_map]
  refine .filterMap (fun t t' hft => Option.some.inj hft ▸ hid t)
    (fun t ht hP => congrArg some (hkept t ht hP)) fun t ht t' hP hft => ?_
  exact Option.some.inj hft ▸ hf t ht hP

theorem Store.nodup_modify
    (hf : ∀ t, (f t).id = t.id) (h : s.ids.Nodup) :
    ({ s with tickets := modifyFirst p f s.tickets } : Store).ids.Nodup := by
  rw [ids, map_modifyFirst hf]
  exact h

theorem Settles.modifyFirst
    (hid : ∀ t, (f t).id = t.id) (hp : ∀ t, p t = true → P t)
    (hf : ∀ t, s.tickets.find? p = some t → Follows t (f t)) :
    Settles P s { s with tickets := modifyFirst p f s.tickets } where
  nextTicketId := rfl
  nextLeaseGeneration := rfl
  kept t ht hP := mem_modifyFirst_of_not ht (by
    cases hpt : p t with
    | false => rfl
    | true => exact absurd (hp t hpt) hP)
  origin t' ht' := by
    rcases mem_modifyFirst ht' with ht | ⟨t, hfind, rfl⟩
    · exact .inl ht
    · exact .inr ⟨t, mem_of_find?_eq_some hfind, hp t (find?_some hfind), hf t hfind⟩
  nodup h := nodup_modify hid h

end Uses

/-! ## Permits -/

namespace Store

variable {clockMax : Nat} {s : Store} {permit : DispatchPermit} {now : Instant} {id : Nat}
  {t : TicketRecord} {state : TicketState} {state' : TicketState}

@[simp] theorem hasId_iff : hasId id t = true ↔ t.id = id := by
  simp [hasId]

theorem cancellable_iff :
    cancellable id t = true ↔ t.id = id ∧ (t.state = .reserved ∨ t.state = .dispatching) := by
  simp [cancellable]

def permitIsCurrent (s : Store) (permit : DispatchPermit) : Bool :=
  s.tickets.any fun t => hasId permit.ticketId t && t.state.awaitsDispatch

theorem permitIsCurrent_of_mem (ht : t ∈ s.tickets) (hid : t.id = permit.ticketId)
    (ha : t.state.awaitsDispatch = true) : s.permitIsCurrent permit = true :=
  any_eq_true.mpr ⟨t, ht, by simp [hid, ha]⟩

theorem awaits_of_beginState (h : beginState state = some state') :
    state.awaitsDispatch = true := by
  unfold beginState at h
  split at h <;> simp_all [awaitsDispatch]

theorem follows_beginState (h : beginState t.state = some state) :
    Follows t (setState t state) := by
  unfold beginState at h
  split at h <;> cases h <;> rename_i hstate <;>
    refine ⟨rfl, ?_, ?_, ?_⟩ <;>
      simp [setState, hstate, awaitsDispatch, isLeasedBy,
        isOwnedBy]

theorem beginDispatch_settles :
    Settles (fun t => t.id = permit.ticketId) (s.reap now) (s.beginDispatch permit now).1 := by
  unfold beginDispatch
  cases hfind : (s.reap now).tickets.find? (hasId permit.ticketId) with
  | none => simp only [hfind]; exact .refl _ _
  | some ticket =>
    cases hstate : beginState ticket.state with
    | none => simp only [hfind, hstate]; exact .refl _ _
    | some =>
      simp only [hfind, hstate]
      refine .modifyFirst (fun _ => rfl) (fun t ht => hasId_iff.mp ht) fun t ht => ?_
      cases hfind.symm.trans ht
      exact follows_beginState hstate

theorem beginDispatch_retired (h : (s.reap now).permitIsCurrent permit = false) :
    s.beginDispatch permit now = (s.reap now, false) := by
  unfold beginDispatch
  cases hfind : (s.reap now).tickets.find? (hasId permit.ticketId) with
  | none => simp only [hfind]
  | some ticket =>
    cases hstate : beginState ticket.state with
    | none => simp only [hfind, hstate]
    | some =>
      have hcurrent := permitIsCurrent_of_mem (mem_of_find?_eq_some hfind)
        (hasId_iff.mp (find?_some hfind)) (awaits_of_beginState hstate)
      rw [h] at hcurrent
      cases hcurrent

theorem awaits_of_markState (h : markState state = some state') : state.awaitsDispatch = true := by
  unfold markState at h
  split at h <;> simp_all [awaitsDispatch]

theorem follows_markState (h : markState t.state = some state) (clockMax : Nat) (now : Instant) :
    Follows t (restart clockMax now (setState t state)) := by
  unfold markState at h
  split at h <;> cases h <;> rename_i hstate <;>
    refine ⟨rfl, ?_, ?_, ?_⟩ <;>
      simp [restart, setState, hstate, awaitsDispatch, isLeasedBy,
        isOwnedBy]

/-- An armed ticket follows what the reaping leaves of the ticket before: where a lapsed lease is
    taken back, it is taken back from both. -/
theorem follows_markState_reap {u t' : TicketRecord} (h : markState t.state = some state)
    (hu : reapTicket now t = some u)
    (ht' : reapTicket now (restart clockMax now (setState t state)) = some t') : Follows u t' := by
  have hfollows := (follows_markState h clockMax now).trans (follows_of_reapTicket ht')
  rcases reapTicket_cases hu with rfl | ⟨g, deadline, priorState, hstate, -, rfl⟩
  · exact hfollows
  · -- the lease lapsed for the armed ticket too, which is then simply armed
    have harmed : state = .leased g deadline .armed := by
      cases priorState <;> simp_all [markState]
    have hlapsed : deadline ≤ now := by
      by_contra hopen
      simp only [reapTicket, hstate, if_neg hopen] at hu
      have hsame := congrArg TicketRecord.state (Option.some.inj hu)
      rw [hstate] at hsame
      cases priorState <;> cases hsame
    refine .of_idle hfollows.id (.inl ?_)
    simp only [harmed, reapTicket, restart, setState, if_pos hlapsed] at ht'
    split at ht'
    · rw [← Option.some.inj ht']
      rfl
    · cases ht'

/-- The ticket's time is over, but it is stored until the next reaping, and a settlement that
    does not reap first still finds it awaiting its dispatch. -/
def overdue (now : Instant) (t : TicketRecord) : Bool :=
  t.state.awaitsDispatch && (reapTicket now t).isNone

def marksOverdue (s : Store) (permit : DispatchPermit) (now : Instant) : Bool :=
  s.tickets.any fun t => hasId permit.ticketId t && overdue now t

theorem reaped_of_not_marksOverdue (h : s.marksOverdue permit now = false) (ht : t ∈ s.tickets)
    (hid : t.id = permit.ticketId) (ha : t.state.awaitsDispatch = true) :
    ∃ u, reapTicket now t = some u := by
  have hquiet := any_eq_false.mp h t ht
  cases hreap : reapTicket now t with
  | some u => exact ⟨u, rfl⟩
  | none => simp [overdue, hid, ha, hreap] at hquiet

/-- What `mark_dispatched` does, by what it finds. -/
theorem markDispatched_cases (clockMax : Nat) (s : Store) (permit : DispatchPermit)
    (now : Instant) :
    (s.tickets.find? (hasId permit.ticketId) = none ∧
      s.markDispatched clockMax permit now = (s.reap now, .settled)) ∨
    (∃ t, s.tickets.find? (hasId permit.ticketId) = some t ∧ markState t.state = none ∧
      s.markDispatched clockMax permit now = (s, .settled)) ∨
    ∃ t state, s.tickets.find? (hasId permit.ticketId) = some t ∧
      markState t.state = some state ∧
      s.markDispatched clockMax permit now = ({ s with
        tickets := modifyFirst (hasId permit.ticketId)
          (fun t => restart clockMax now (setState t state)) s.tickets }, .armed) := by
  unfold markDispatched
  cases hfind : s.tickets.find? (hasId permit.ticketId) with
  | none => exact .inl ⟨rfl, rfl⟩
  | some t =>
    cases hstate : markState t.state with
    | none => exact .inr (.inl ⟨t, rfl, hstate, by simp only [hstate]⟩)
    | some state => exact .inr (.inr ⟨t, state, rfl, hstate, by simp only [hstate]⟩)

theorem markDispatched_evolves : Evolves s (s.markDispatched clockMax permit now).1 := by
  rcases markDispatched_cases clockMax s permit now with
    ⟨-, heq⟩ | ⟨t, -, -, heq⟩ | ⟨t, state, hfind, hstate, heq⟩ <;> rw [heq]
  · exact evolves_reap
  · exact ⟨.refl s, fun h => h⟩
  · refine Settles.evolves
      (.modifyFirst (fun _ => rfl) (fun t ht => hasId_iff.mp ht) fun u hu => ?_)
    cases hfind.symm.trans hu
    exact follows_markState hstate clockMax now

theorem markDispatched_uses (hdue : s.marksOverdue permit now = false) :
    Uses (fun t => t.id = permit.ticketId) (s.reap now)
      ((s.markDispatched clockMax permit now).1.reap now) := by
  rcases markDispatched_cases clockMax s permit now with
    ⟨-, heq⟩ | ⟨t, -, -, heq⟩ | ⟨t, state, hfind, hstate, heq⟩ <;> rw [heq]
  · rw [reap_reap]
    exact .refl _ _
  · exact .refl _ _
  · have hid : t.id = permit.ticketId := hasId_iff.mp (find?_some hfind)
    have hmem := mem_of_find?_eq_some hfind
    obtain ⟨u, hu⟩ := reaped_of_not_marksOverdue hdue hmem hid (awaits_of_markState hstate)
    refine ⟨rfl, rfl, fun v hv hne => ?_, fun t'' ht'' => ?_⟩
    · obtain ⟨w, hw, hreap⟩ := mem_reap.mp hv
      have hne' : hasId permit.ticketId w = false := by
        rw [Bool.eq_false_iff, Ne, hasId_iff, ← (follows_of_reapTicket hreap).id]
        exact hne
      exact mem_reap.mpr ⟨w, mem_modifyFirst_of_not hw hne', hreap⟩
    · obtain ⟨t', ht', hreap⟩ := mem_reap.mp ht''
      rcases mem_modifyFirst ht' with hmem' | ⟨x, hx, rfl⟩
      · exact .inl (mem_reap.mpr ⟨t', hmem', hreap⟩)
      · cases hfind.symm.trans hx
        exact .inr ⟨u, mem_reap.mpr ⟨t, hmem, hu⟩, (follows_of_reapTicket hu).id.trans hid,
          follows_markState_reap hstate hu hreap⟩

theorem markDispatched_retired (hdue : s.marksOverdue permit now = false)
    (h : (s.reap now).permitIsCurrent permit = false) :
    (s.markDispatched clockMax permit now).1.reap now = s.reap now ∧
      (s.markDispatched clockMax permit now).2 = .settled := by
  rcases markDispatched_cases clockMax s permit now with
    ⟨-, heq⟩ | ⟨t, -, -, heq⟩ | ⟨t, state, hfind, hstate, -⟩
  · rw [heq]
    exact ⟨reap_reap, rfl⟩
  · rw [heq]
    exact ⟨rfl, rfl⟩
  · have hid : t.id = permit.ticketId := hasId_iff.mp (find?_some hfind)
    have hmem := mem_of_find?_eq_some hfind
    have hawaits := awaits_of_markState hstate
    obtain ⟨u, hu⟩ := reaped_of_not_marksOverdue hdue hmem hid hawaits
    have hcurrent := permitIsCurrent_of_mem (mem_reap.mpr ⟨t, hmem, hu⟩)
      ((follows_of_reapTicket hu).id.trans hid) ((awaits_of_reapTicket hu).trans hawaits)
    rw [h] at hcurrent
    cases hcurrent

def cancelsOverdue (s : Store) (permit : DispatchPermit) (now : Instant) : Bool :=
  s.tickets.any fun t => cancellable permit.ticketId t && overdue now t

theorem awaits_of_cancellable (h : cancellable id t = true) : t.state.awaitsDispatch = true := by
  rcases (cancellable_iff.mp h).2 with hs | hs <;> rw [hs] <;> rfl

/-- A ticket nobody holds that `cancel` may settle is one the reaping leaves alone. -/
theorem reaped_of_not_cancelsOverdue (h : s.cancelsOverdue permit now = false) (ht : t ∈ s.tickets)
    (hc : cancellable permit.ticketId t = true) : reapTicket now t = some t := by
  have hquiet := any_eq_false.mp h t ht
  cases hreap : reapTicket now t with
  | none => simp [overdue, hc, awaits_of_cancellable hc, hreap] at hquiet
  | some =>
    rcases reapTicket_cases hreap with rfl | ⟨g, deadline, priorState, hstate, -, -⟩
    · rfl
    · rw [cancellable_iff, hstate] at hc
      rcases hc.2 with hc | hc <;> cases hc

/-- What `cancel` does, by where it finds the ticket. -/
theorem cancel_cases (clockMax : Nat) (s : Store) (permit : DispatchPermit) (now : Instant) :
    (∃ t, s.tickets.find? (cancellable permit.ticketId) = some t ∧
      s.cancel clockMax permit now = ((s.cancelTicket clockMax t now).reap now, true)) ∨
    (∃ t, (s.reap now).tickets.find? (cancellable permit.ticketId) = some t ∧
      s.cancel clockMax permit now = (((s.reap now).cancelTicket clockMax t now).reap now, true)) ∨
    (s.tickets.find? (cancellable permit.ticketId) = none ∧
      (s.reap now).tickets.find? (cancellable permit.ticketId) = none ∧
      s.cancel clockMax permit now = ({ s.reap now with
        tickets := modifyFirst (hasId permit.ticketId)
          (fun t => setState t (uncancelledState t.state)) (s.reap now).tickets }, false)) := by
  unfold cancel
  cases hfind : s.tickets.find? (cancellable permit.ticketId) with
  | some t => exact .inl ⟨t, rfl, rfl⟩
  | none =>
    cases hfind' : (s.reap now).tickets.find? (cancellable permit.ticketId) with
    | some t => exact .inr (.inl ⟨t, rfl, by simp only [hfind']⟩)
    | none => exact .inr (.inr ⟨rfl, rfl, by simp only [hfind']⟩)

theorem follows_uncancelledState : Follows t (setState t (uncancelledState t.state)) := by
  unfold uncancelledState
  split <;> rename_i hstate <;> refine ⟨rfl, ?_, ?_, ?_⟩ <;>
    simp [setState, hstate, awaitsDispatch, isLeasedBy,
      isOwnedBy]

theorem id_of_find_cancellable (h : s.tickets.find? (cancellable id) = some t) : t.id = id :=
  (cancellable_iff.mp (find?_some h)).1

theorem cancelTicket_settles (hfind : s.tickets.find? (cancellable id) = some t) :
    Settles (fun u => u.id = id) s (s.cancelTicket clockMax t now) := by
  obtain rfl := id_of_find_cancellable hfind
  unfold cancelTicket
  split
  · refine .modifyFirst (fun _ => rfl) (fun u hu => (cancellable_iff.mp hu).1) fun u hu => ?_
    cases hfind.symm.trans hu
    exact .of_idle rfl (.inr rfl)
  · refine ⟨⟨rfl, rfl, fun u hu hne => ?_, fun u hu => .inl (mem_of_mem_eraseP hu)⟩,
      fun h => h.sublist (eraseP_sublist.map _)⟩
    exact (mem_eraseP_of_neg fun hc => hne (cancellable_iff.mp hc).1).mpr hu

/-- The reaping before and after `cancelTicket` treat every other ticket alike. -/
theorem cancelTicket_reap_uses (hfind : s.tickets.find? (cancellable id) = some t)
    (hlive : reapTicket now t = some t) :
    Uses (fun u => u.id = id) (s.reap now) ((s.cancelTicket clockMax t now).reap now) := by
  have huses : Settles (fun u => u.id = id) s (s.cancelTicket clockMax t now) :=
    cancelTicket_settles hfind
  obtain rfl := id_of_find_cancellable hfind
  have hmem := mem_of_find?_eq_some hfind
  refine ⟨huses.nextTicketId, huses.nextLeaseGeneration, fun v hv hne => ?_, fun t'' ht'' => ?_⟩
  · obtain ⟨w, hw, hreap⟩ := mem_reap.mp hv
    rw [(follows_of_reapTicket hreap).id] at hne
    exact mem_reap.mpr ⟨w, huses.kept w hw hne, hreap⟩
  · obtain ⟨t', ht', hreap⟩ := mem_reap.mp ht''
    by_cases hold : t' ∈ s.tickets
    · exact .inl (mem_reap.mpr ⟨t', hold, hreap⟩)
    · -- the only new ticket is the cancelled one, back to needing dispatch
      have hnew : t' = restart clockMax now (setState t .needsDispatch) := by
        unfold cancelTicket at ht'
        split at ht'
        · rcases mem_modifyFirst ht' with hin | ⟨u, hu, rfl⟩
          · exact absurd hin hold
          · rw [Option.some.inj (hfind.symm.trans hu)]
        · exact absurd (mem_of_mem_eraseP ht') hold
      subst hnew
      have hidle : Follows t (restart clockMax now (setState t .needsDispatch)) :=
        .of_idle rfl (.inr rfl)
      exact .inr ⟨t, mem_reap.mpr ⟨t, hmem, hlive⟩, rfl, hidle.trans (follows_of_reapTicket hreap)⟩

theorem cancel_uses (hdue : s.cancelsOverdue permit now = false) :
    Uses (fun t => t.id = permit.ticketId) (s.reap now)
      ((s.cancel clockMax permit now).1.reap now) := by
  rcases cancel_cases clockMax s permit now with
    ⟨t, hfind, heq⟩ | ⟨t, hfind, heq⟩ | ⟨-, -, heq⟩ <;> rw [heq]
  · have hlive := reaped_of_not_cancelsOverdue hdue (mem_of_find?_eq_some hfind)
      (find?_some hfind)
    rw [reap_reap]
    exact cancelTicket_reap_uses hfind hlive
  · rw [reap_reap]
    exact (cancelTicket_settles hfind).reap.toUses
  · refine Uses.reap (Settles.toUses (.modifyFirst (fun _ => rfl) (fun t ht => hasId_iff.mp ht)
      fun t _ => ?_))
    exact follows_uncancelledState

theorem cancel_evolves : Evolves s (s.cancel clockMax permit now).1 := by
  rcases cancel_cases clockMax s permit now with
    ⟨t, hfind, heq⟩ | ⟨t, hfind, heq⟩ | ⟨-, -, heq⟩ <;> rw [heq]
  · exact (cancelTicket_settles hfind).evolves.trans evolves_reap
  · exact evolves_reap.trans ((cancelTicket_settles hfind).evolves.trans evolves_reap)
  · refine evolves_reap.trans (Settles.evolves (.modifyFirst (fun _ => rfl)
      (fun t ht => hasId_iff.mp ht) fun t _ => ?_))
    exact follows_uncancelledState

theorem cancel_retired (hdue : s.cancelsOverdue permit now = false)
    (h : (s.reap now).permitIsCurrent permit = false) :
    s.cancel clockMax permit now = (s.reap now, false) := by
  -- a ticket the call would settle makes the permit current
  have hnone {t : TicketRecord} (ht : t ∈ (s.reap now).tickets) (hid : t.id = permit.ticketId)
      (ha : t.state.awaitsDispatch = true) : False := by
    have hcurrent := permitIsCurrent_of_mem ht hid ha
    rw [h] at hcurrent
    cases hcurrent
  rcases cancel_cases clockMax s permit now with
    ⟨t, hfind, -⟩ | ⟨t, hfind, -⟩ | ⟨-, -, heq⟩
  · have hmem := mem_of_find?_eq_some hfind
    have hlive := reaped_of_not_cancelsOverdue hdue hmem (find?_some hfind)
    exact (hnone (mem_reap.mpr ⟨t, hmem, hlive⟩) (id_of_find_cancellable hfind)
      (awaits_of_cancellable (find?_some hfind))).elim
  · exact (hnone (mem_of_find?_eq_some hfind) (id_of_find_cancellable hfind)
      (awaits_of_cancellable (find?_some hfind))).elim
  · rw [heq]
    refine Prod.ext ?_ rfl
    have hsame : ∀ t ∈ (s.reap now).tickets, hasId permit.ticketId t = true →
        setState t (uncancelledState t.state) = t := by
      intro t ht hid
      have hsettled : t.state.awaitsDispatch ≠ true := fun ha => hnone ht (hasId_iff.mp hid) ha
      have hstate : uncancelledState t.state = t.state := by
        cases hs : t.state with
        | leased g deadline priorState | sessionOwned g priorState =>
          cases priorState <;> simp_all [uncancelledState, awaitsDispatch]
        | reserved | dispatching | armed | needsDispatch => rfl
      rw [hstate]
      rfl
    simp only [modifyFirst_of_fixed hsame]

end Store

end EmuleBB.Callback
