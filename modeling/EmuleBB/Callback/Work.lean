import EmuleBB.Callback.Linear
import EmuleBB.Lib.Except

/-!
# Callback work does not disappear

Files are merged into tickets in every state, a running session absorbs them, a left-over ticket is
dispatched again under a new id, and almost every call reaps first. `Carries` follows **one ticket
through one call**: what stands for it afterwards keeps its route, every hash it expects and every
file it lists. `Leaves` lists the four ways a file has out of its ticket: the owning session
acknowledges it, the lease is committed, the permit of a first dispatch is cancelled, or the ticket
expires where nobody holds it.

Where `Instant::checked_add` cannot represent a new deadline, a finished session keeps its tickets
and a cancelled re-dispatch its old deadline, so the results about those two are for clocks with
room for the longest lifetime of a ticket.
-/

namespace EmuleBB.Callback

open FirstMatch Run Store TicketRecord TicketState List

variable {permit : DispatchPermit} {token : SessionToken} {state : TicketState}

/-- The files the ticket is for. -/
def TicketRecord.files (t : TicketRecord) : List Md4Digest := t.downloads.map Download.fileHash

/-! ## Expiry, as an equation -/

def TicketState.expires : TicketState → Bool
  | .reserved | .armed | .needsDispatch => true
  | .dispatching | .leased .. | .sessionOwned .. => false

def TicketRecord.lapsed (now : Instant) (t : TicketRecord) : TicketState :=
  match t.state with
  | .leased _ deadline priorState => if deadline ≤ now then priorState.toState else t.state
  | state => state

section Reap

variable {now : Instant} {t u : TicketRecord} {s : Store}

theorem setState_of_eq (h : t.state = state) : setState t state = t := by
  subst h
  rfl

/-- **Expiry removes a ticket whose deadline counts and is over**, and gives back a lapsed lease. -/
theorem reapTicket_eq :
    reapTicket now t = if (t.lapsed now).expires = true ∧ t.expiresAt ≤ now then none
      else some (setState t (t.lapsed now)) := by
  have hdue : ¬now < t.expiresAt ↔ t.expiresAt ≤ now := Nat.not_lt
  cases hstate : t.state with
  | reserved | armed | needsDispatch =>
    rw [lapsed, hstate, setState_of_eq hstate]
    simp only [reapTicket, hstate, expires, true_and, ← hdue]
    rw [ite_not]
  | dispatching | sessionOwned =>
    rw [lapsed, hstate, setState_of_eq hstate]
    simp [reapTicket, hstate, expires]
  | leased g deadline priorState =>
    by_cases hlapsed : deadline ≤ now
    · simp only [reapTicket, lapsed, hstate, if_pos hlapsed, setState]
      by_cases hover : t.expiresAt ≤ now
      · cases priorState <;>
          simp [ReadyState.toState, expires, hover, hdue.mpr hover]
      · cases priorState <;>
          simp [ReadyState.toState, expires, hover, Nat.lt_of_not_le hover]
    · simp only [reapTicket, lapsed, hstate, if_neg hlapsed]
      rw [setState_of_eq hstate]
      simp [expires]

theorem lapsed_of_free (h : ∀ g deadline priorState, t.state ≠ .leased g deadline priorState) :
    t.lapsed now = t.state := by
  unfold lapsed
  split
  · rename_i g deadline priorState hstate
    exact absurd hstate (h g deadline priorState)
  · rfl

theorem reap_fate (ht : t ∈ s.tickets) (now : Instant) :
    ((t.lapsed now).expires = true ∧ t.expiresAt ≤ now) ∨
      setState t (t.lapsed now) ∈ (s.reap now).tickets := by
  by_cases hgone : (t.lapsed now).expires = true ∧ t.expiresAt ≤ now
  · exact .inl hgone
  · refine .inr (mem_reap.mpr ⟨t, ht, ?_⟩)
    rw [reapTicket_eq, if_neg hgone]

end Reap

/-! ## One ticket through one call -/

/-- A ticket that has to be dialled again is handed out again. -/
def Reissues (t t' : TicketRecord) : Prop :=
  t.state = .needsDispatch ∧ t'.state = .reserved ∧ t'.cancelRestoresNeedsDispatch = true

/-- **What stands for a ticket after a call.** -/
structure Carries (lost : Md4Digest → Prop) (t t' : TicketRecord) : Prop where
  ticket : t'.id = t.id ∨ Reissues t t'
  route : t'.route = t.route
  clientId : t'.peer.clientId = t.peer.clientId
  sourceIp : t'.peer.sourceIp = t.peer.sourceIp
  sourceTcpPort : t'.peer.sourceTcpPort = t.peer.sourceTcpPort
  expects : ∀ hash, t.peer.expectedUserHash = some hash → t'.peer.expectedUserHash = some hash
  files : ∀ f ∈ t.files, lost f ∨ f ∈ t'.files
  /-- A ticket that can still be cancelled was so before, and cancelling it does the same. -/
  residual : t'.id = t.id → t'.state.awaitsDispatch = true → t.state.awaitsDispatch = true ∧
    t'.cancelRestoresNeedsDispatch = t.cancelRestoresNeedsDispatch

namespace Carries

variable {lost : Md4Digest → Prop} {t t' : TicketRecord} {now : Instant}

theorem refl (t : TicketRecord) : Carries lost t t :=
  ⟨.inl rfl, rfl, rfl, rfl, rfl, fun _ h => h, fun _ h => .inr h, fun _ h => ⟨h, rfl⟩⟩

theorem of_state (hid : t'.id = t.id) (hroute : t'.route = t.route) (hpeer : t'.peer = t.peer)
    (hdownloads : t'.downloads = t.downloads)
    (hrestores : t'.cancelRestoresNeedsDispatch = t.cancelRestoresNeedsDispatch)
    (hawaits : t'.state.awaitsDispatch = true → t.state.awaitsDispatch = true) :
    Carries lost t t' :=
  ⟨.inl hid, hroute, by rw [hpeer], by rw [hpeer], by rw [hpeer], fun _ h => hpeer ▸ h,
    fun _ h => .inr (by rwa [TicketRecord.files, hdownloads]), fun _ h => ⟨hawaits h, hrestores⟩⟩

theorem awaits_lapsed : (t.lapsed now).awaitsDispatch = t.state.awaitsDispatch := by
  unfold lapsed
  split
  · rename_i g deadline priorState hstate
    split
    · cases priorState <;> rw [hstate] <;> rfl
    · rfl
  · rfl

/-- A lapsed lease does not leave a ticket that needs dispatch. -/
theorem needsDispatch_of_lapsed (h : t.lapsed now = .needsDispatch) : t.state = .needsDispatch := by
  unfold lapsed at h
  split at h
  · rename_i g deadline priorState hleased
    split at h
    · cases priorState <;> cases h
    · rw [hleased] at h
      cases h
  · exact h

theorem after_reap (h : Carries lost (setState t (t.lapsed now)) t') : Carries lost t t' where
  ticket := h.ticket.imp_right fun hnew => ⟨needsDispatch_of_lapsed hnew.1, hnew.2⟩
  route := h.route
  clientId := h.clientId
  sourceIp := h.sourceIp
  sourceTcpPort := h.sourceTcpPort
  expects := h.expects
  files := h.files
  residual hid ha := by
    obtain ⟨hawaits, hrestores⟩ := h.residual hid ha
    exact ⟨awaits_lapsed.symm.trans hawaits, hrestores⟩

end Carries

def Event.releases (e : Event) (t : TicketRecord) : Bool :=
  match e with
  | .release token _ => t.id ∈ token.ticketIds && t.state.isLeasedBy token.generation
  | _ => false

/-- The state of a ticket once a lease that has lapsed, or that the call gives back, is taken from
    it. -/
def TicketRecord.freed (e : Event) (t : TicketRecord) : TicketState :=
  match t.state with
  | .leased _ _ priorState => if e.releases t then priorState.toState else t.lapsed e.now
  | _ => t.lapsed e.now

/-- **The ways a file has out of its ticket.** -/
inductive Leaves (s : Store) : Event → TicketRecord → Md4Digest → Prop
  | acknowledged {token : SessionToken} {now : Instant} {t : TicketRecord} {current : Download}
      (owned : t.state.isOwnedBy token.generation = true)
      (turn : (s.sessionCurrent token now).2 = .ok (some current)) :
      Leaves s (.acknowledgeSessionCurrent token now) t current.fileHash
  | committed {token : ClaimToken} {now : Instant} {t : TicketRecord} {f : Md4Digest}
      (held : t.id ∈ token.ticketIds) (leased : t.state.isLeasedBy token.generation = true) :
      Leaves s (.commit token now) t f
  | cancelled {permit : DispatchPermit} {now : Instant} {t : TicketRecord} {f : Md4Digest}
      (own : t.id = permit.ticketId)
        (state : t.lapsed now = .reserved ∨ t.lapsed now = .dispatching)
      (first : t.cancelRestoresNeedsDispatch = false) : Leaves s (.cancel permit now) t f
  | expired {e : Event} {t : TicketRecord} {f : Md4Digest} (state : (t.freed e).expires = true)
      (due : t.expiresAt ≤ e.now) : Leaves s e t f

/-! ## Reservations -/

section Reserves

variable {r r' : Store} {request : TicketRequest} {t : TicketRecord}

theorem files_withDownload (peer : CallbackPeer) (download : Download) :
    ∀ f ∈ t.files, f ∈ (t.withDownload peer download).files := by
  intro f hf
  obtain ⟨d, hd, rfl⟩ := mem_map.mp hf
  simp only [TicketRecord.files, withDownload]
  split
  · rcases @mem_modifyFirst_of_mem _ (fun existing => existing.fileHash = download.fileHash)
      (fun _ => download) _ _ hd with hmem | hfind
    · exact mem_map_of_mem hmem
    · -- the replaced entry is for the same file
      have hsame : d.fileHash = download.fileHash := by simpa using find?_some hfind
      rw [hsame]
      exact mem_map_of_mem (mem_modifyFirst_of_find hfind)
  · exact mem_map_of_mem (mem_append_left _ hd)

theorem expects_withDownload (peer : CallbackPeer) (download : Download) {hash : UserHash}
    (h : t.peer.expectedUserHash = some hash) :
    (t.withDownload peer download).peer.expectedUserHash = some hash := by
  simp [withDownload, h]

/-- **A reservation carries every ticket.** -/
theorem Store.Reserves.carries {lost : Md4Digest → Prop} (h : Reserves r request r') (hwf : r.Wf)
    (ht : t ∈ r.tickets) : ∃ t' ∈ r'.tickets, Carries lost t t' := by
  cases h with
  | refused => exact ⟨t, ht, .refl t⟩
  | opened => exact ⟨t, mem_append_left _ ht, .refl t⟩
  | joined found restores state kept =>
    rcases mem_modifyFirst_of_mem ht with hmem | hfind
    · exact ⟨t, hmem, .refl t⟩
    · cases found.symm.trans hfind
      refine ⟨_, mem_modifyFirst_of_find hfind, .inl rfl, rfl, rfl, rfl, rfl, fun _ =>
        expects_withDownload request.peer request.download,
        fun f hf => .inr (files_withDownload request.peer request.download f hf), fun _ ha => ?_⟩
      rcases kept with ⟨hrestores, hstate⟩ | ⟨generation, rfl, -⟩
      · exact ⟨hstate ▸ ha, hrestores⟩
      · cases ha
  | reissued found left =>
    rcases mem_modifyFirst_of_mem ht with hmem | hfind
    · exact ⟨t, hmem, .refl t⟩
    · cases found.symm.trans hfind
      refine ⟨_, mem_modifyFirst_of_find hfind, .inr ⟨left, rfl, rfl⟩, rfl, rfl, rfl, rfl, fun _ =>
        expects_withDownload request.peer request.download,
        fun f hf => .inr (files_withDownload request.peer request.download f hf), fun hid _ => ?_⟩
      exact absurd hid.symm (Nat.ne_of_lt (hwf.idIssued _ ht))

end Reserves

/-! ## The other calls -/

/-- **What becomes of a ticket in a call**: it has no files, every file of it leaves, or something
    stands for it afterwards. -/
def Fate (s : Store) (e : Event) (t : TicketRecord) (after : Store) : Prop :=
  t.files = [] ∨ (∀ f, Leaves s e t f) ∨ ∃ t' ∈ after.tickets, Carries (Leaves s e t) t t'

section Calls

variable {clockMax : Nat} {s s' : Store} {e : Event} {t u : TicketRecord} {now : Instant}
  {lost : Md4Digest → Prop} {g id : Nat}

theorem freed_of_not_releases (h : e.releases t = false) : t.freed e = t.lapsed e.now := by
  unfold freed
  split
  · rw [h]
    rfl
  · rfl

theorem Fate.of_reap (ht : t ∈ s.tickets) (hrel : e.releases t = false)
    (h : setState t (t.lapsed e.now) ∈ (s.reap e.now).tickets →
      t.files = [] ∨ (∀ f, Leaves s e t f) ∨
        ∃ t' ∈ s'.tickets, Carries (Leaves s e t) (setState t (t.lapsed e.now)) t') :
    Fate s e t s' := by
  rcases reap_fate ht e.now with ⟨hexpires, hdue⟩ | hmem
  · exact .inr (.inl fun f => .expired (by rwa [freed_of_not_releases hrel]) hdue)
  · exact (h hmem).imp_right
      (Or.imp_right fun ⟨t', ht', hcarries⟩ => ⟨t', ht', hcarries.after_reap⟩)

theorem carries_setState
    (h : state.awaitsDispatch = true → t.state.awaitsDispatch = true) :
    Carries lost t (setState t state) :=
  .of_state rfl rfl rfl rfl rfl h

theorem beginDispatch_fate (ht : t ∈ s.tickets) :
    Fate s (.beginDispatch permit now) t (s.beginDispatch permit now).1 := by
  refine .of_reap ht rfl fun hmem => .inr (.inr ?_)
  simp only [Event.now] at hmem ⊢
  generalize setState t (t.lapsed now) = u at hmem ⊢
  unfold beginDispatch
  cases hfind : (s.reap now).tickets.find? (hasId permit.ticketId) with
  | none => exact ⟨u, by simpa only [hfind] using hmem, .refl u⟩
  | some ticket =>
    cases hstate : beginState ticket.state with
    | none => exact ⟨u, by simpa only [hfind, hstate] using hmem, .refl u⟩
    | some =>
      simp only [hfind, hstate]
      rcases mem_modifyFirst_of_mem hmem with hmem' | hfirst
      · exact ⟨u, hmem', .refl u⟩
      · cases hfind.symm.trans hfirst
        exact ⟨_, mem_modifyFirst_of_find hfirst,
          carries_setState (follows_beginState hstate).awaits⟩

theorem markDispatched_fate (ht : t ∈ s.tickets) :
    Fate s (.markDispatched permit now) t (s.markDispatched clockMax permit now).1 := by
  rcases markDispatched_cases clockMax s permit now with
    ⟨-, heq⟩ | ⟨ticket, -, -, heq⟩ | ⟨ticket, state, hfind, hstate, heq⟩ <;> rw [heq]
  · exact .of_reap ht rfl fun hmem => .inr (.inr ⟨_, hmem, .refl _⟩)
  · exact .inr (.inr ⟨t, ht, .refl t⟩)
  · rcases mem_modifyFirst_of_mem ht with hmem | hfirst
    · exact .inr (.inr ⟨t, hmem, .refl t⟩)
    · cases hfind.symm.trans hfirst
      exact .inr (.inr ⟨_, mem_modifyFirst_of_find hfirst, .of_state rfl rfl rfl rfl rfl
        (follows_markState hstate clockMax now).awaits⟩)

/-- A leased or session-owned ticket is so before the lapsed leases are taken back. -/
theorem lapsed_of_held (h : (t.lapsed now).holder = some g) : t.lapsed now = t.state := by
  unfold lapsed at h ⊢
  split at h
  · rename_i generation deadline priorState hstate
    split at h
    · cases priorState <;> cases h
    · rename_i hopen
      rw [if_neg hopen]
  · rfl

theorem commit_fate (hwf : s.Wf) (ht : t ∈ s.tickets) {token : ClaimToken} :
    Fate s (.commit token now) t (s.commit token now).1 := by
  refine .of_reap ht rfl fun hmem => .inr ?_
  simp only [commit]
  split
  · exact .inr ⟨_, hmem, .refl _⟩
  · rename_i hcurrent
    rw [Bool.not_eq_true, Bool.not_eq_false'] at hcurrent
    by_cases hheld : t.id ∈ token.ticketIds
    · have hleased : (t.lapsed now).isLeasedBy token.generation = true :=
        (hwf.reap now).leased_of_current hcurrent hmem hheld
      exact .inl fun f => .committed hheld (lapsed_of_held (holder_of_leased hleased) ▸ hleased)
    · exact .inr ⟨_, mem_filter.mpr ⟨hmem, decide_eq_true hheld⟩, .refl _⟩

theorem acknowledge_fate (ht : t ∈ s.tickets) :
    Fate s (.acknowledgeSessionCurrent token now) t (s.acknowledgeSessionCurrent token now).1 := by
  refine .of_reap ht rfl fun hmem => .inr (.inr ?_)
  rcases acknowledge_cases s token now with heq | ⟨current, hturn, heq⟩ <;> rw [heq]
  · exact ⟨_, hmem, .refl _⟩
  · refine ⟨_, mem_map_of_mem hmem, ?_⟩
    unfold acknowledgeTicket
    split
    · rename_i howned
      refine ⟨.inl rfl, rfl, rfl, rfl, rfl, fun _ h => h, fun f hf => ?_, fun _ h => ⟨h, rfl⟩⟩
      by_cases hcurrent : f = current.fileHash
      · rw [hcurrent]
        exact .inl (.acknowledged (lapsed_of_held (holder_of_owned howned) ▸ howned) hturn)
      · obtain ⟨d, hd, rfl⟩ := mem_map.mp hf
        exact .inr (mem_map_of_mem (mem_filter.mpr ⟨hd, decide_eq_true hcurrent⟩))
    · exact .refl _

def leftOver (now : Instant) (t : TicketRecord) : TicketRecord :=
  { setState t .needsDispatch with expiresAt := now + t.redispatchLifetime }

theorem finishTicket_owned (howned : u.state.isOwnedBy token.generation = true)
    (hfiles : u.downloads ≠ []) : finishTicket token now u = some (leftOver now u) := by
  simp [finishTicket, howned, hfiles, leftOver, setState]

theorem finishSession_fate (ht : t ∈ s.tickets) :
    Fate s (.finishSession token now) t (s.finishSession clockMax token now).1 := by
  refine .of_reap ht rfl fun hmem => ?_
  simp only [finishSession]
  split
  · exact .inr (.inr ⟨_, hmem, .refl _⟩)
  · split
    · exact .inr (.inr ⟨_, hmem, .refl _⟩)
    · by_cases howned : (t.lapsed now).isOwnedBy token.generation = true
      · by_cases hempty : t.downloads = []
        · exact .inl (by rw [TicketRecord.files, hempty, map_nil])
        · exact .inr (.inr ⟨_, mem_filterMap.mpr ⟨_, hmem, finishTicket_owned howned hempty⟩,
            .of_state rfl rfl rfl rfl rfl fun h => by cases h⟩)
      · refine .inr (.inr ⟨_, mem_filterMap.mpr ⟨_, hmem, ?_⟩, .refl _⟩)
        exact if_neg howned

theorem carries_leaseTicket {deadline : Instant} {ids : List Nat} :
    Carries lost t (leaseTicket g deadline ids t) := by
  unfold leaseTicket
  split
  · cases hstate : t.state with
    | reserved | dispatching | armed =>
      exact carries_setState fun h => by rw [hstate]; exact h
    | leased | sessionOwned | needsDispatch => exact .refl t
  · exact .refl t

theorem carries_ownTicket (hello : HelloIdentity) {token : ClaimToken} :
    Carries lost t (ownTicket hello token t) := by
  unfold ownTicket
  split
  · cases hstate : t.state with
    | leased =>
      refine ⟨.inl rfl, rfl, rfl, rfl, rfl, fun hash h => ?_, fun _ h => .inr h,
        fun _ h => ⟨?_, rfl⟩⟩
      · simp [h]
      · rw [hstate]
        exact h
    | reserved | dispatching | armed | sessionOwned | needsDispatch => exact .refl t
  · exact .refl t

theorem Carries.trans_same {v : TicketRecord} (h : Carries (fun _ => False) t u) (hid : u.id = t.id)
    (h' : Carries lost u v) (hid' : v.id = u.id) : Carries lost t v where
  ticket := .inl (hid'.trans hid)
  route := h'.route.trans h.route
  clientId := h'.clientId.trans h.clientId
  sourceIp := h'.sourceIp.trans h.sourceIp
  sourceTcpPort := h'.sourceTcpPort.trans h.sourceTcpPort
  expects hash hh := h'.expects hash (h.expects hash hh)
  files f hf := (h.files f hf).elim False.elim (h'.files f)
  residual _ ha := by
    obtain ⟨ha', hrestores'⟩ := h'.residual hid' ha
    obtain ⟨ha, hrestores⟩ := h.residual hid ha'
    exact ⟨ha, hrestores'.trans hrestores⟩

theorem lease_carries (hu : u ∈ (s.reap now).tickets) (hello : HelloIdentity) :
    ∃ v ∈ (s.lease clockMax hello now).1.tickets, v.id = u.id ∧ Carries (fun _ => False) u v := by
  rcases lease_cases clockMax s hello now with ⟨next, result, heq, -, -⟩ |
    ⟨deadline, claim, heq, -, -⟩ <;> rw [heq]
  · exact ⟨u, hu, rfl, .refl u⟩
  · exact ⟨_, mem_map_of_mem hu, id_leaseTicket .., carries_leaseTicket ..⟩

theorem lease_fate (ht : t ∈ s.tickets) (hello : HelloIdentity) :
    Fate s (.lease hello now) t (s.lease clockMax hello now).1 := by
  refine .of_reap ht rfl fun hmem => .inr (.inr ?_)
  obtain ⟨v, hv, hid, hcarries⟩ := lease_carries hmem hello
  exact ⟨v, hv, hcarries.trans_same hid (.refl v) rfl⟩

theorem claimSession_fate (ht : t ∈ s.tickets) (hello : HelloIdentity) :
    Fate s (.claimSession hello now) t (s.claimSession clockMax hello now).1 := by
  refine .of_reap ht rfl fun hmem => .inr (.inr ?_)
  obtain ⟨v, hv, hid, hcarries⟩ := lease_carries hmem hello
  rcases claimSession_cases clockMax s hello now with heq | ⟨claim, -, heq⟩ <;> rw [heq]
  · exact ⟨v, hv, hcarries.trans_same hid (.refl v) rfl⟩
  · exact ⟨_, mem_map_of_mem hv, hcarries.trans_same hid (carries_ownTicket hello)
      (id_ownTicket ..)⟩

theorem mem_reap_again (hu : u ∈ (s.reap now).tickets) (hmem : u ∈ s'.tickets) :
    u ∈ (s'.reap now).tickets :=
  mem_reap.mpr ⟨u, hmem, reapTicket_of_mem_reap hu⟩

theorem release_fate (hwf : s.Wf) (ht : t ∈ s.tickets) {token : ClaimToken} :
    Fate s (.release token now) t (s.release token now).1 := by
  rcases reap_fate ht now with ⟨hexpires, hdue⟩ | hmem
  · -- a ticket whose deadline counts is not leased, or its lease has lapsed
    refine .inr (.inl fun f => .expired ?_ hdue)
    unfold freed
    split
    · rename_i g deadline priorState hstate
      split
      · rw [lapsed, hstate] at hexpires
        simp only at hexpires
        split at hexpires
        · exact hexpires
        · cases hexpires
      · exact hexpires
    · exact hexpires
  · refine .inr ?_
    simp only [release]
    split
    · exact .inr ⟨_, hmem, .after_reap (.refl _)⟩
    · rename_i hcurrent
      rw [Bool.not_eq_true, Bool.not_eq_false'] at hcurrent
      have hmapped := mem_map_of_mem (f := releaseTicket token) hmem
      by_cases hheld : t.id ∈ token.ticketIds
      · -- the token's tickets are leased by it, and are freed
        have hleased : (t.lapsed now).isLeasedBy token.generation = true :=
          (hwf.reap now).leased_of_current hcurrent hmem hheld
        have hsame := lapsed_of_held (holder_of_leased hleased)
        rw [hsame] at hleased hmapped
        obtain ⟨deadline, priorState, hstate, heq⟩ := releaseTicket_leased hheld hleased
        rw [setState_of_eq rfl, heq] at hmapped
        have hfree : (setState t priorState.toState).lapsed now = priorState.toState :=
          lapsed_of_free fun _ _ _ h => by cases priorState <;> cases h
        rcases @reap_fate _
          { s.reap now with tickets := (s.reap now).tickets.map (releaseTicket token) }
          hmapped now with ⟨hexpires, hdue⟩ | hstays
        · rw [hfree] at hexpires
          have hreleases : Event.releases (.release token now) t = true := by
            simp [Event.releases, hheld, hleased]
          refine .inl fun f => .expired ?_ hdue
          rw [freed, hstate]
          simp only [hreleases, if_true]
          exact hexpires
        · refine .inr ⟨_, hstays, .of_state rfl rfl rfl rfl rfl fun h => ?_⟩
          rw [hstate]
          cases priorState with
          | reserved | dispatching => rfl
          | armed => cases h
      · have hkept : releaseTicket token (setState t (t.lapsed now)) = setState t (t.lapsed now) :=
          if_neg hheld
        rw [hkept] at hmapped
        exact .inr ⟨_, mem_reap_again hmem hmapped, .after_reap (.refl _)⟩

/-- The longest lifetime of a ticket can be added to the time of the call. -/
def ClockHasRoom (clockMax : Nat) (e : Event) : Prop :=
  e.now + callbackTicketMaxLifetime ≤ clockMax

structure TicketRecord.Valid (t : TicketRecord) : Prop where
  positive : 0 < t.redispatchLifetime
  bounded : t.redispatchLifetime ≤ callbackTicketMaxLifetime
  hash : t.peer.expectedUserHash ≠ some zeroUserHash

theorem expiresAt_restart (hv : t.Valid) (hclock : now + callbackTicketMaxLifetime ≤ clockMax) :
    now < (restart clockMax now t).expiresAt := by
  have hadd : checkedAdd clockMax now t.redispatchLifetime = some (now + t.redispatchLifetime) :=
    if_pos (le_trans (Nat.add_le_add_left hv.bounded now) hclock)
  rw [restart, hadd]
  exact Nat.lt_add_of_pos_right hv.positive

theorem mem_of_restart (hv : t.Valid) (hclock : now + callbackTicketMaxLifetime ≤ clockMax)
    (h : restart clockMax now (setState t .needsDispatch) ∈ s.tickets) :
    restart clockMax now (setState t .needsDispatch) ∈ (s.reap now).tickets := by
  rcases reap_fate h now with ⟨-, hdue⟩ | hmem
  · have hahead := @expiresAt_restart clockMax (setState t .needsDispatch) now
      ⟨hv.positive, hv.bounded, hv.hash⟩ hclock
    exact absurd hdue (Nat.not_le.mpr hahead)
  · exact hmem

/-- What `cancel` does to the tickets where it finds its own. -/
theorem cancelTicket_fate (hwf : s.Wf) (hfind : s.tickets.find? (cancellable id) = some u)
    (ht : t ∈ s.tickets) : (t = u ∧ ((u.cancelRestoresNeedsDispatch = false) ∨
      restart clockMax now (setState t .needsDispatch) ∈ (s.cancelTicket clockMax u now).tickets)) ∨
    (t.id ≠ id ∧ t ∈ (s.cancelTicket clockMax u now).tickets) := by
  have huses : Settles (fun v => v.id = id) s (s.cancelTicket clockMax u now) :=
    cancelTicket_settles hfind
  obtain rfl := id_of_find_cancellable hfind
  by_cases hid : t.id = u.id
  · obtain rfl := hwf.eq_of_id ht (mem_of_find?_eq_some hfind) hid
    refine .inl ⟨rfl, ?_⟩
    cases hrestores : t.cancelRestoresNeedsDispatch with
    | false => exact .inl rfl
    | true =>
      rw [cancelTicket, if_pos hrestores]
      exact .inr (mem_modifyFirst_of_find (f := fun v => restart clockMax now (setState v _)) hfind)
  · exact .inr ⟨hid, huses.kept t ht hid⟩

theorem lapsed_of_cancellable (h : cancellable id t = true) : t.lapsed now = t.state := by
  refine lapsed_of_free fun g deadline priorState hstate => ?_
  rcases (cancellable_iff.mp h).2 with hs | hs <;> rw [hs] at hstate <;> cases hstate

theorem TicketRecord.Valid.setState (h : t.Valid) (state : TicketState) :
    (Store.setState t state).Valid :=
  ⟨h.positive, h.bounded, h.hash⟩

theorem cancel_fate (hwf : s.Wf) (hvalid : ∀ v ∈ s.tickets, v.Valid)
    (hclock : now + callbackTicketMaxLifetime ≤ clockMax) (ht : t ∈ s.tickets) :
    Fate s (.cancel permit now) t (s.cancel clockMax permit now).1 := by
  have hv := hvalid t ht
  rcases cancel_cases clockMax s permit now with
    ⟨u, hfind, heq⟩ | ⟨u, hfind, heq⟩ | ⟨-, -, heq⟩ <;> rw [heq]
  · refine .inr ?_
    have hstate := (cancellable_iff.mp (find?_some hfind)).2
    have hlapsed : u.lapsed now = u.state := lapsed_of_cancellable (find?_some hfind)
    rcases cancelTicket_fate hwf hfind ht with ⟨rfl, hfirst | hmem⟩ | ⟨-, hmem⟩
    · refine .inl fun f => .cancelled (id_of_find_cancellable hfind) ?_ hfirst
      rw [hlapsed]
      exact hstate
    · exact .inr
        ⟨_, mem_of_restart hv hclock hmem, .of_state rfl rfl rfl rfl rfl fun h => by cases h⟩
    · rcases reap_fate hmem now with ⟨hexpires, hdue⟩ | hstays
      · exact .inl fun f => .expired (by rwa [freed_of_not_releases rfl]) hdue
      · exact .inr ⟨_, hstays, .after_reap (.refl _)⟩
  · refine .of_reap ht rfl fun hmem => .inr ?_
    rcases cancelTicket_fate (hwf.reap now) hfind hmem with ⟨rfl, hfirst | hmem'⟩ | ⟨-, hmem'⟩
    · have hown : (setState t (t.lapsed now)).id = permit.ticketId := id_of_find_cancellable hfind
      exact .inl fun f => .cancelled hown (cancellable_iff.mp (find?_some hfind)).2 hfirst
    · exact .inr ⟨_, mem_of_restart (hv.setState _) hclock hmem',
        .of_state rfl rfl rfl rfl rfl fun h => by cases h⟩
    · exact .inr ⟨_, mem_reap_again hmem hmem', .refl _⟩
  · refine .of_reap ht rfl fun hmem => .inr (.inr ?_)
    rcases mem_modifyFirst_of_mem hmem with hmem' | hfirst
    · exact ⟨_, hmem', .refl _⟩
    · exact ⟨_, mem_modifyFirst_of_find hfirst, carries_setState follows_uncancelledState.awaits⟩

/-- **No call loses a ticket but through the ways out.** -/
theorem call_fate (hwf : s.Wf) (hvalid : ∀ v ∈ s.tickets, v.Valid)
    (hclock : ClockHasRoom clockMax e)
    (ht : t ∈ s.tickets) : Fate s e t (call clockMax s e).1 := by
  cases e with
  | reserve request now =>
    refine .of_reap ht rfl fun hmem => .inr (.inr ?_)
    rcases reserve_cases clockMax s request now with heq | ⟨valid, -, hreserves⟩
    · exact ⟨_, heq ▸ hmem, .refl _⟩
    · exact hreserves.carries (hwf.reap now) hmem
  | beginDispatch permit now => exact beginDispatch_fate ht
  | markDispatched permit now => exact markDispatched_fate ht
  | cancel permit => exact cancel_fate hwf hvalid hclock ht
  | lease hello now => exact lease_fate ht hello
  | release token now => exact release_fate hwf ht
  | commit token now => exact commit_fate hwf ht
  | claimSession hello now => exact claimSession_fate ht hello
  | sessionCurrent =>
    refine .of_reap ht rfl fun hmem => .inr (.inr ⟨_, ?_, .refl _⟩)
    simp only [call, Prod.map_fst, id_eq, sessionCurrent_fst]
    exact hmem
  | acknowledgeSessionCurrent token now => exact acknowledge_fate ht
  | finishSession token now => exact finishSession_fate ht

end Calls

/-! ## What every stored ticket promises -/

section Valid

variable {clockMax : Nat} {s s' r r' : Store} {e : Event} {t t' : TicketRecord} {now : Instant}
  {f : TicketRecord → TicketRecord} {request : TicketRequest}

structure SameTerms (t t' : TicketRecord) : Prop where
  lifetime : t'.redispatchLifetime = t.redispatchLifetime
  hash : t'.peer.expectedUserHash = t.peer.expectedUserHash

theorem TicketRecord.Valid.sameTerms (h : t.Valid) (hsame : SameTerms t t') : t'.Valid :=
  ⟨hsame.lifetime ▸ h.positive, hsame.lifetime ▸ h.bounded, hsame.hash ▸ h.hash⟩

theorem sameTerms_of_reapTicket (h : reapTicket now t = some t') : SameTerms t t' := by
  rcases reapTicket_cases h with rfl | ⟨g, deadline, priorState, -, -, rfl⟩
  · exact ⟨rfl, rfl⟩
  · exact ⟨rfl, rfl⟩

def KeepsTerms (s s' : Store) : Prop := ∀ t' ∈ s'.tickets, ∃ t ∈ s.tickets, SameTerms t t'

theorem KeepsTerms.valid (h : KeepsTerms s s') (hs : ∀ t ∈ s.tickets, t.Valid) :
    ∀ t ∈ s'.tickets, t.Valid := by
  intro t' ht'
  obtain ⟨t, ht, hsame⟩ := h t' ht'
  exact (hs t ht).sameTerms hsame

theorem KeepsTerms.refl (s : Store) : KeepsTerms s s := fun t ht => ⟨t, ht, rfl, rfl⟩

theorem KeepsTerms.trans (h : KeepsTerms s r) (h' : KeepsTerms r s') : KeepsTerms s s' := by
  intro v hv
  obtain ⟨u, hu, huv⟩ := h' v hv
  obtain ⟨t, ht, htu⟩ := h u hu
  exact ⟨t, ht, huv.lifetime.trans htu.lifetime, huv.hash.trans htu.hash⟩

theorem keepsTerms_reap (s : Store) (now : Instant) : KeepsTerms s (s.reap now) := by
  intro t' ht'
  obtain ⟨t, ht, hreap⟩ := mem_reap.mp ht'
  exact ⟨t, ht, sameTerms_of_reapTicket hreap⟩

theorem keepsTerms_map (hf : ∀ t, SameTerms t (f t)) :
    KeepsTerms s { s with tickets := s.tickets.map f } := by
  intro t' ht'
  obtain ⟨t, ht, rfl⟩ := mem_map.mp ht'
  exact ⟨t, ht, hf t⟩

theorem keepsTerms_modifyFirst {p : TicketRecord → Bool} (hf : ∀ t, SameTerms t (f t)) :
    KeepsTerms s { s with tickets := modifyFirst p f s.tickets } := by
  intro t' ht'
  rcases mem_modifyFirst ht' with ht | ⟨t, hfind, rfl⟩
  · exact ⟨t', ht, rfl, rfl⟩
  · exact ⟨t, mem_of_find?_eq_some hfind, hf t⟩

theorem keepsTerms_cancelTicket {u : TicketRecord} :
    KeepsTerms s (s.cancelTicket clockMax u now) := by
  unfold cancelTicket
  split
  · exact keepsTerms_modifyFirst fun _ => ⟨rfl, rfl⟩
  · exact fun t ht => ⟨t, mem_of_mem_eraseP ht, rfl, rfl⟩

theorem keepsTerms_lease (s : Store) (hello : HelloIdentity) (now : Instant) :
    KeepsTerms s (s.lease clockMax hello now).1 := by
  refine (keepsTerms_reap s now).trans ?_
  rcases lease_cases clockMax s hello now with ⟨next, result, heq, -, -⟩ |
    ⟨deadline, claim, heq, -, -⟩ <;> rw [heq]
  · exact fun t ht => ⟨t, ht, rfl, rfl⟩
  · intro t' ht'
    obtain ⟨t, ht, rfl⟩ := mem_map.mp ht'
    refine ⟨t, ht, ?_⟩
    unfold leaseTicket
    split
    · split <;> exact ⟨rfl, rfl⟩
    · exact ⟨rfl, rfl⟩

theorem valid_ownTicket (h : t.Valid) (hello : HelloIdentity) {token : ClaimToken} :
    (ownTicket hello token t).Valid := by
  unfold ownTicket
  split
  · split
    · refine ⟨h.positive, h.bounded, ?_⟩
      split
      · rename_i hnew
        exact fun hzero => hnew.1 (Option.some.inj hzero)
      · exact h.hash
    · exact h
  · exact h

theorem validateTicketRequest_valid {valid : TicketRequest}
    (h : validateTicketRequest request = .ok valid) :
    0 < valid.validFor ∧ valid.validFor ≤ callbackTicketMaxLifetime ∧
      valid.peer.expectedUserHash ≠ some zeroUserHash := by
  simp only [validateTicketRequest, Except.guard_eq_ok] at h
  obtain ⟨hpositive, hbounded, -, h⟩ := h
  have hlife : 0 < request.validFor ∧ request.validFor ≤ callbackTicketMaxLifetime :=
    ⟨Nat.pos_of_ne_zero hpositive, Nat.not_lt.mp hbounded⟩
  -- a server request drops a zero hash, the other two routes ask for a hash that is not zero
  have hkeeps (hmissing : ¬isMissingHash request.peer.expectedUserHash = true) :
      request.peer.expectedUserHash ≠ some zeroUserHash := fun hzero =>
    hmissing (by simp [isMissingHash, hzero])
  cases hroute : request.route with
  | server =>
    simp only [hroute, Except.guard_eq_ok] at h
    obtain ⟨-, -, h⟩ := h
    rw [← Except.ok.inj h]
    refine ⟨hlife.1, hlife.2, ?_⟩
    split
    · exact Option.some_ne_none _ |>.symm
    · assumption
  | kadBuddy =>
    simp only [hroute, Except.guard_eq_ok] at h
    obtain ⟨-, -, hmissing, -, h⟩ := h
    rw [← Except.ok.inj h]
    exact ⟨hlife.1, hlife.2, hkeeps hmissing⟩
  | directUdp =>
    simp only [hroute] at h
    split at h
    · cases h
    simp only [Except.guard_eq_ok] at h
    obtain ⟨-, hmissing, h⟩ := h
    rw [← Except.ok.inj h]
    exact ⟨hlife.1, hlife.2, hkeeps hmissing⟩

theorem Store.Reserves.valid (h : Reserves r request r') (hr : ∀ t ∈ r.tickets, t.Valid)
    (hpositive : 0 < request.validFor) (hbounded : request.validFor ≤ callbackTicketMaxLifetime)
    (hhash : request.peer.expectedUserHash ≠ some zeroUserHash) : ∀ t ∈ r'.tickets, t.Valid := by
  -- a merged ticket expects what it did, or what the request does
  have hmerged {t : TicketRecord} (ht : t ∈ r.tickets) :
      (t.withDownload request.peer request.download).peer.expectedUserHash ≠ some zeroUserHash := by
    cases hexpected : t.peer.expectedUserHash with
    | none => simpa [withDownload, hexpected] using hhash
    | some =>
      rw [expects_withDownload _ _ hexpected, ← hexpected]
      exact (hr t ht).hash
  cases h with
  | refused => exact hr
  | opened new id peer lifetime =>
    intro t ht
    rcases mem_append.mp ht with ht | ht
    · exact hr t ht
    · obtain rfl := mem_singleton.mp ht
      exact ⟨lifetime ▸ hpositive, lifetime ▸ hbounded, peer ▸ hhash⟩
  | joined found =>
    intro t ht
    rcases mem_modifyFirst ht with ht | ⟨u, -, rfl⟩
    · exact hr t ht
    · have hmem := mem_of_find?_eq_some found
      exact ⟨lt_of_lt_of_le hpositive (le_max_right _ _), max_le (hr _ hmem).bounded hbounded,
        hmerged hmem⟩
  | reissued found =>
    intro t ht
    rcases mem_modifyFirst ht with ht | ⟨u, -, rfl⟩
    · exact hr t ht
    · exact ⟨hpositive, hbounded, hmerged (mem_of_find?_eq_some found)⟩

/-- **Every call stores valid tickets.** -/
theorem call_valid (h : ∀ t ∈ s.tickets, t.Valid) :
    ∀ t ∈ (call clockMax s e).1.tickets, t.Valid := by
  have hreap (now : Instant) := (keepsTerms_reap s now).valid h
  cases e with
  | reserve request now =>
    rcases reserve_cases clockMax s request now with heq | ⟨valid, hvalid, hreserves⟩
    · exact fun t ht => hreap now t (heq ▸ ht)
    · obtain ⟨hpositive, hbounded, hhash⟩ := validateTicketRequest_valid hvalid
      exact hreserves.valid (hreap now) hpositive hbounded hhash
  | beginDispatch permit now =>
    refine KeepsTerms.valid ?_ (hreap now)
    simp only [call, Prod.map_fst, id_eq, beginDispatch]
    split
    · exact .refl _
    · split
      · exact .refl _
      · exact keepsTerms_modifyFirst fun _ => ⟨rfl, rfl⟩
  | markDispatched permit now =>
    refine KeepsTerms.valid ?_ h
    simp only [call, Prod.map_fst, id_eq]
    rcases markDispatched_cases clockMax s permit now with
      ⟨-, heq⟩ | ⟨ticket, -, -, heq⟩ | ⟨ticket, state, -, -, heq⟩ <;> rw [heq]
    · exact keepsTerms_reap s now
    · exact .refl s
    · exact keepsTerms_modifyFirst fun _ => ⟨rfl, rfl⟩
  | cancel permit now =>
    refine KeepsTerms.valid ?_ h
    simp only [call, Prod.map_fst, id_eq]
    rcases cancel_cases clockMax s permit now with
      ⟨u, -, heq⟩ | ⟨u, -, heq⟩ | ⟨-, -, heq⟩ <;> rw [heq]
    · exact keepsTerms_cancelTicket.trans (keepsTerms_reap _ now)
    · exact (keepsTerms_reap s now).trans
        (keepsTerms_cancelTicket.trans (keepsTerms_reap _ now))
    · exact (keepsTerms_reap s now).trans (keepsTerms_modifyFirst fun _ => ⟨rfl, rfl⟩)
  | lease hello now => exact (keepsTerms_lease s hello now).valid h
  | release token now =>
    refine KeepsTerms.valid ?_ (hreap now)
    simp only [call, Prod.map_fst, id_eq, release]
    split
    · exact .refl _
    · refine (keepsTerms_map fun t => ?_).trans (keepsTerms_reap _ now)
      unfold releaseTicket
      split
      · split <;> exact ⟨rfl, rfl⟩
      · exact ⟨rfl, rfl⟩
  | commit token now =>
    refine KeepsTerms.valid ?_ (hreap now)
    simp only [call, Prod.map_fst, id_eq, commit]
    split
    · exact .refl _
    · exact fun t ht => ⟨t, (mem_filter.mp ht).1, rfl, rfl⟩
  | claimSession hello now =>
    have hlease := (@keepsTerms_lease clockMax s hello now).valid h
    simp only [call, Prod.map_fst, id_eq]
    rcases claimSession_cases clockMax s hello now with heq | ⟨claim, -, heq⟩ <;> rw [heq]
    · exact hlease
    · intro t ht
      obtain ⟨u, hu, rfl⟩ := mem_map.mp ht
      exact valid_ownTicket (hlease u hu) hello
  | sessionCurrent token now =>
    simp only [call, Prod.map_fst, id_eq, sessionCurrent_fst]
    exact hreap now
  | acknowledgeSessionCurrent token now =>
    refine KeepsTerms.valid ?_ (hreap now)
    simp only [call, Prod.map_fst, id_eq]
    rcases acknowledge_cases s token now with heq | ⟨current, -, heq⟩ <;> rw [heq]
    · exact .refl _
    · refine keepsTerms_map fun t => ?_
      unfold acknowledgeTicket
      split <;> exact ⟨rfl, rfl⟩
  | finishSession token now =>
    refine KeepsTerms.valid ?_ (hreap now)
    simp only [call, Prod.map_fst, id_eq, finishSession]
    split
    · exact .refl _
    · split
      · exact .refl _
      · intro t' ht'
        obtain ⟨t, ht, hfinish⟩ := mem_filterMap.mp ht'
        refine ⟨t, ht, ?_⟩
        unfold finishTicket at hfinish
        split at hfinish
        · split at hfinish
          · cases hfinish
          · rw [← Option.some.inj hfinish]
            exact ⟨rfl, rfl⟩
        · rw [← Option.some.inj hfinish]
          exact ⟨rfl, rfl⟩

end Valid

/-! ## The conservation law -/

def TicketRecord.Engaged (now : Instant) (t : TicketRecord) : Prop :=
  match t.state with
  | .dispatching | .sessionOwned .. => True
  | .leased _ deadline _ => now < deadline
  | .reserved | .armed | .needsDispatch => False

/-- **A call keeps the callback work.** -/
structure WorkKept (clockMax : Nat) (s : Store) (e : Event) : Prop where
  /-- A file leaves its ticket by one of the ways out, or is still listed by what stands for the
      ticket. -/
  leaves : ∀ t ∈ s.tickets, ∀ f ∈ t.files, Leaves s e t f ∨
    ∃ t' ∈ (call clockMax s e).1.tickets, Carries (Leaves s e t) t t' ∧ f ∈ t'.files
  /-- Time alone does nothing to a ticket that is engaged. -/
  untimed : ∀ t ∈ s.tickets, t.Engaged e.now → t ∈ (s.reap e.now).tickets
  /-- A finished session leaves every file it has not acknowledged to a fresh dispatch. -/
  finished : ∀ token, e = .finishSession token e.now → ∀ t ∈ s.tickets,
    t.state.isOwnedBy token.generation = true → ∀ f ∈ t.files,
      ∃ t' ∈ (call clockMax s e).1.tickets, t'.id = t.id ∧ t'.state = .needsDispatch ∧
        e.now < t'.expiresAt ∧ f ∈ t'.files
  /-- A cancelled re-dispatch waits for another one, with all its files. -/
  recancelled : ∀ permit, e = .cancel permit e.now → ∀ t ∈ s.tickets, t.id = permit.ticketId →
    t.state = .reserved ∨ t.state = .dispatching → t.cancelRestoresNeedsDispatch = true →
      ∃ t' ∈ (call clockMax s e).1.tickets, t'.id = t.id ∧ t'.state = .needsDispatch ∧
        e.now < t'.expiresAt ∧ t'.downloads = t.downloads

section Law

variable {clockMax : Nat} {s : Store} {e : Event} {t : TicketRecord} {now : Instant}

theorem engaged_of_owned {g : Nat} (h : t.state.isOwnedBy g = true) : t.Engaged now := by
  unfold TicketRecord.Engaged
  cases hstate : t.state with
  | sessionOwned => trivial
  | reserved | dispatching | armed | leased | needsDispatch =>
    rw [hstate] at h
    cases h

/-- **Time does nothing to an engaged ticket.** -/
theorem mem_reap_of_engaged (ht : t ∈ s.tickets) (h : t.Engaged now) :
    t ∈ (s.reap now).tickets := by
  refine mem_reap.mpr ⟨t, ht, ?_⟩
  unfold TicketRecord.Engaged at h
  cases hstate : t.state with
  | dispatching | sessionOwned => simp [reapTicket, hstate]
  | leased =>
    rw [hstate] at h
    simp [reapTicket, hstate, Nat.not_le.mpr h]
  | reserved | armed | needsDispatch =>
    rw [hstate] at h
    exact h.elim

theorem finishSession_leavesOver (hvalid : ∀ v ∈ s.tickets, v.Valid)
    (hclock : now + callbackTicketMaxLifetime ≤ clockMax)
    (ht : t ∈ s.tickets) (howned : t.state.isOwnedBy token.generation = true)
    (hfiles : t.downloads ≠ []) : leftOver now t ∈
      (s.finishSession clockMax token now).1.tickets := by
  have hmem : t ∈ (s.reap now).tickets := mem_reap_of_engaged ht (engaged_of_owned howned)
  have hcurrent : (s.reap now).sessionTokenIsCurrent token = true :=
    sessionTokenIsCurrent_iff.mpr ⟨t, hmem, howned⟩
  -- no deadline is out of the clock's range
  have hrange : (((s.reap now).tickets.filter fun ticket =>
      ticket.state.isOwnedBy token.generation && ticket.downloads ≠ []).any
        fun ticket => clockMax < now + ticket.redispatchLifetime) = false := by
    refine any_eq_false.mpr fun u hu hover => ?_
    have hv := (keepsTerms_reap s now).valid hvalid u (mem_filter.mp hu).1
    have hbound := Nat.add_le_add_left hv.bounded now
    exact absurd (of_decide_eq_true hover) (Nat.not_lt.mpr (le_trans hbound hclock))
  simp only [finishSession, hcurrent, hrange]
  exact mem_filterMap.mpr ⟨t, hmem, finishTicket_owned howned hfiles⟩

theorem cancel_restores (hwf : s.Wf) (hv : t.Valid)
    (hclock : now + callbackTicketMaxLifetime ≤ clockMax)
    (ht : t ∈ s.tickets) (hid : t.id = permit.ticketId)
    (hstate : t.state = .reserved ∨ t.state = .dispatching)
    (hrestores : t.cancelRestoresNeedsDispatch = true) :
    restart clockMax now (setState t .needsDispatch) ∈
      (s.cancel clockMax permit now).1.tickets := by
  have hcancellable : cancellable permit.ticketId t = true := cancellable_iff.mpr ⟨hid, hstate⟩
  unfold cancel
  cases hfind : s.tickets.find? (cancellable permit.ticketId) with
  | none => exact absurd hcancellable (find?_eq_none.mp hfind t ht)
  | some =>
    rcases cancelTicket_fate hwf hfind ht with ⟨rfl, hfirst | hmem⟩ | ⟨hne, -⟩
    · rw [hrestores] at hfirst
      cases hfirst
    · exact mem_of_restart hv hclock hmem
    · exact absurd hid hne

/-- **Every call keeps the callback work.** -/
theorem call_keeps (hwf : s.Wf) (hvalid : ∀ v ∈ s.tickets, v.Valid)
    (hclock : ClockHasRoom clockMax e) : WorkKept clockMax s e where
  leaves t ht f hf := by
    rcases call_fate hwf hvalid hclock ht with hempty | hleaves | ⟨t', ht', hcarries⟩
    · rw [hempty] at hf
      cases hf
    · exact .inl (hleaves f)
    · exact (hcarries.files f hf).imp_right fun hf' => ⟨t', ht', hcarries, hf'⟩
  untimed _ := mem_reap_of_engaged
  finished token he t ht howned f hf := by
    have hfiles : t.downloads ≠ [] := by
      rintro hempty
      rw [TicketRecord.files, hempty] at hf
      cases hf
    rw [he]
    exact ⟨leftOver e.now t, finishSession_leavesOver hvalid hclock ht howned hfiles, rfl, rfl,
      Nat.lt_add_of_pos_right (hvalid t ht).positive, hf⟩
  recancelled permit he t ht hid hstate hrestores := by
    have hv := hvalid t ht
    rw [he]
    exact ⟨_, cancel_restores hwf hv hclock ht hid hstate hrestores, rfl, rfl,
      expiresAt_restart (hv.setState _) hclock, rfl⟩

/-- In every state of a run all tickets are valid. -/
theorem valid_run {y : System} (h : ∀ t ∈ y.store.tickets, t.Valid) {events : List Event} :
    ∀ t ∈ (run (System.step clockMax) y events).store.tickets, t.Valid :=
  @Run.invariant _ _ (System.step clockMax) y (fun y => ∀ t ∈ y.store.tickets, t.Valid)
    (fun _ _ hy => call_valid hy) events h

/-- **Owned callback work cannot disappear.** In every state that any calls lead to, the next call
    keeps the work: a file leaves its ticket only by an acknowledgement of the owning session, a
    commit of the lease, a cancel of a first dispatch or an expiry where nobody holds the ticket; an
    engaged ticket loses nothing to time; a finished session and a cancelled re-dispatch leave
    everything to a fresh dispatch. -/
theorem callback_work_conserved (clockMax ticketCapacity downloadCapacity : Nat) (start : Instant)
    (before : List Event) (e : Event) (hclock : ClockHasRoom clockMax e) :
    WorkKept clockMax
      (run (System.step clockMax) (System.init ticketCapacity downloadCapacity start)
        before).store e :=
  call_keeps (wf_run Store.new_wf)
    (valid_run (fun _ h => absurd h (by simp [System.init, Store.new]))) hclock

/-- A session that is finished at once leaves its file to a fresh dispatch. -/
theorem callback_work_conserved_finished :
    let events : List Event := [.reserve serverRequest 0, .beginDispatch firstPermit 0,
      .markDispatched firstPermit 0, .claimSession lowIdHello 0]
    let y := run (System.step u64Max) (System.init 8 8 0) events
    ∃ t' ∈ (call u64Max y.store (.finishSession ⟨1⟩ 1)).1.tickets,
      t'.state = .needsDispatch ∧ oneFile.fileHash ∈ t'.files := by
  intro events y
  have hkept := callback_work_conserved u64Max 8 8 0 events (.finishSession ⟨1⟩ 1)
    (show (1 : Nat) + callbackTicketMaxLifetime ≤ u64Max by decide +kernel)
  obtain ⟨t, ht, howned, hfile⟩ : ∃ t ∈ y.store.tickets,
      t.state.isOwnedBy 1 = true ∧ oneFile.fileHash ∈ t.files := by decide +kernel
  obtain ⟨t', ht', -, hstate, -, hfile'⟩ := hkept.finished ⟨1⟩ rfl t ht howned _ hfile
  exact ⟨t', ht', hstate, hfile'⟩

end Law

end EmuleBB.Callback
