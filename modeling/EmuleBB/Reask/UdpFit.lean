import EmuleBB.Reask.Loop

/-!
# Sources that UDP no longer serves

A source whose share of lost requests is too high is to be asked over TCP: its timeout then comes to
`RetryTcp`, and the loop hands the source back with its lease. `due_datagrams` skips such a source,
so **one that stays in the loop is never asked again**.

A timeout is not the only reply that can bring the share into effect. The test needs more than three
attempts, so a source that lost requests before its fourth attempt may be disqualified by an answer;
the answer keeps it, and it is parked (`answered_source_parked`). As long as no answer does that,
and no registration takes an endpoint from another file, every source that is held is fit for UDP
(`held_sources_udp_fit`). A tick is the hard case: it disqualifies sources file by file and removes
them at its end, so meanwhile they are known to be *leaving* (`Fit`).
-/

namespace EmuleBB.Reask

open Peer Run ReaskService

namespace ReaskService

variable {service service' : ReaskService} {fileHash : Md4Digest} {endpoint : Endpoint}
  {set set' : ReaskSourceSet} {now : Instant}

/-- Something holds of the sources of every file. -/
def AllSets (service : ReaskService) (P : ReaskSourceSet → Prop) : Prop :=
  ∀ fileHash set, service.perFile.lookup fileHash = some set → P set

section

variable {P Q : ReaskSourceSet → Prop} (h : AllSets service P)

include h

theorem AllSets.setFile (hPQ : ∀ set, P set → Q set) (hset : Q set') :
    AllSets (service.setFile fileHash set') Q := by
  intro file set hfile
  rw [ReaskService.setFile, Map.lookup_insert] at hfile
  split at hfile
  · cases hfile
    exact hset
  · exact hPQ set (h file set hfile)

theorem AllSets.removeSource (hP : ∀ set, P set → P (set.remove endpoint).2) :
    AllSets (service.removeSource endpoint).2 P := by
  unfold ReaskService.removeSource
  split
  · exact h
  · split
    · exact h
    · rename_i set hset
      exact AllSets.setFile h (fun _ hP => hP) (hP set (h _ set hset))

theorem AllSets.setNoNeededParts {noNeededParts : Bool}
    (hP : ∀ set, P set → P (set.setNoNeededParts endpoint noNeededParts now).2) :
    AllSets (service.setNoNeededParts endpoint noNeededParts now).2 P := by
  unfold ReaskService.setNoNeededParts
  split
  · exact h
  · split
    · exact h
    · rename_i set hset
      exact AllSets.setFile h (fun _ hP => hP) (hP set (h _ set hset))

theorem AllSets.routeReply {reply : ReaskReply} {status : Option ReaskAckPartStatus}
    (hPQ : ∀ set, P set → Q set)
    (hQ : ∀ fileHash set, service.endpointIndex.lookup endpoint = some fileHash →
      service.perFile.lookup fileHash = some set → Q (set.applyReply endpoint reply now).2) :
    AllSets (service.routeReply endpoint reply status now).2 Q := by
  have hsame : AllSets service Q := fun file set hset => hPQ set (h file set hset)
  unfold ReaskService.routeReply
  split
  · exact hsame
  · rename_i fileHash hindex
    split
    · exact hsame
    · rename_i set hset
      have hrouted : AllSets (service.setFile fileHash (set.applyReply endpoint reply now).2) Q :=
        AllSets.setFile h hPQ (hQ fileHash set hindex hset)
      split
      · exact hsame
      · split
        · exact hsame
        · dsimp only
          split
          · exact hrouted
          · dsimp only
            split
            · exact hrouted
            · exact hrouted

end

end ReaskService

/-! ## Sources that UDP no longer serves -/

namespace ReaskLoop

variable {service : ReaskService} {set : ReaskSourceSet} {endpoint : Endpoint} {now : Instant}
  {leaving : Endpoint → Prop}

/-- The source is asked over UDP, and its counters allow that. -/
def UdpFit (source : ReaskSource) : Prop :=
  source.fallbackTcpOnly = false ∧ shouldFallBackToTcp source.udpTotal source.udpFailed = false

/-- Every source of the set is fit for UDP, but for those that are about to be removed. -/
def Fit (leaving : Endpoint → Prop) (set : ReaskSourceSet) : Prop :=
  ∀ endpoint source, set.sources.lookup endpoint = some source → UdpFit source ∨ leaving endpoint

/-- The source that a reply from here is for. -/
def asked (service : ReaskService) (endpoint : Endpoint) : Option ReaskSource :=
  (service.endpointIndex.lookup endpoint).bind fun fileHash =>
    (service.perFile.lookup fileHash).bind fun set =>
      if set.isPending endpoint then set.sources.lookup endpoint else none

/-- One more reply does not bring the share of failures of a source into effect. -/
def StaysFit (service : ReaskService) (endpoint : Endpoint) : Prop :=
  ∀ source ∈ asked service endpoint,
    shouldFallBackToTcp (saturatingSucc32 source.udpTotal) source.udpFailed = false

/-- A registration does not find its endpoint indexed for another file, and a source that answers
    `OP_REASKACK` or `OP_QUEUEFULL` stays fit by its answer. -/
def KeepsFit (loop : ReaskLoop) : LoopInput → Prop
  | .command (.register args) =>
    ∀ file ∈ loop.service.endpointIndex.lookup args.endpoint, file = args.fileHash
  | .inbound (.ok (.ack _ _)) ⟨.v4 ip, port⟩ _ | .inbound (.ok .queueFull) ⟨.v4 ip, port⟩ _ =>
    StaysFit loop.service (ip, port)
  | _ => True

instance (loop : ReaskLoop) (input : LoopInput) : Decidable (KeepsFit loop input) := by
  unfold KeepsFit StaysFit
  -- not over all digests, which are finitely many
  split <;> first | exact Option.decidableForallMem _ | infer_instance

/-- What every step keeps. The index has to lead to the one set that has a source, or the removal of
    one that is disqualified would miss it. -/
structure Sound (service : ReaskService) : Prop where
  synced : service.InSync
  fit : service.AllSets (Fit fun _ => False)

theorem fit_remove (h : Fit leaving set) : Fit leaving (set.remove endpoint).2 := by
  intro other source hsource
  simp only [ReaskSourceSet.remove, Map.lookup_erase] at hsource
  split at hsource
  · cases hsource
  · exact h other source hsource

theorem fit_setNoNeededParts {noNeededParts : Bool} (h : Fit leaving set) :
    Fit leaving (set.setNoNeededParts endpoint noNeededParts now).2 := by
  intro other source hsource
  simp only [ReaskSourceSet.setNoNeededParts, Map.lookup_modify] at hsource
  split at hsource
  · obtain ⟨before, hbefore, rfl⟩ := Option.map_eq_some_iff.mp hsource
    exact h other before hbefore
  · exact h other source hsource

/-- A source that stays where it is asked by UDP after its timeout is fit. -/
theorem fit_drainTimeouts {timeout : Duration} (h : Fit leaving set) :
    Fit (fun endpoint =>
        leaving endpoint ∨ (endpoint, .retryTcp) ∈ (set.drainTimeouts now timeout).1)
      (set.drainTimeouts now timeout).2 := by
  intro other source hsource
  rw [ReaskSourceSet.lookup_drainTimeouts] at hsource
  split at hsource
  · rename_i hexpired
    obtain ⟨before, hbefore, rfl⟩ := Option.map_eq_some_iff.mp hsource
    cases hverdict : (before.recordFailure now).1 with
    | false => exact .inl ⟨hverdict, hverdict⟩
    | true =>
      refine .inr (.inr (List.mem_filterMap.mpr ⟨other, hexpired, ?_⟩))
      simp [hbefore, applyReaskReply, hverdict]
  · exact (h other source hsource).imp_right .inl

/-- **The removal takes a source that is leaving out of the one set that has it.** -/
theorem fit_removeSource (hsync : service.InSync)
    (h : service.AllSets (Fit fun other => other = endpoint ∨ leaving other)) :
    (service.removeSource endpoint).2.AllSets (Fit leaving) := by
  intro file set hset other source hsource
  refine (h.removeSource (fun _ => fit_remove) file set hset other source hsource).imp_right ?_
  rintro (rfl | hleaving)
  · -- nothing leads to the endpoint any more
    have hlease : ((service.removeSource other).2.lease file other).isSome := by
      rw [lease_of_lookup hset, ReaskSourceSet.lease, hsource]
      rfl
    have hindex := (hsync.removeSource other file).mpr hlease
    rcases @removeSource_cases service other with ⟨hnone, hsame⟩ | ⟨_, -, -, hdrop⟩
    · rw [hsame, hnone] at hindex
      cases hindex
    · rw [hdrop.index, if_pos rfl] at hindex
      cases hindex
  · exact hleaving

theorem fit_applyReply {reply : ReaskReply} (h : Fit leaving set)
    (hreply : ∀ source, set.sources.lookup endpoint = some source → set.isPending endpoint = true →
      (applyReaskReply source reply now).1 ≠ .dropSource →
        UdpFit (applyReaskReply source reply now).2 ∨ leaving endpoint) :
    Fit leaving (set.applyReply endpoint reply now).2 := by
  rcases @ReaskSourceSet.applyReply_cases set endpoint now reply with
    happly | ⟨-, happly⟩ | ⟨source, hsource, hpending, happly⟩
  · rw [happly]
    exact h
  · rw [happly]
    exact h
  · rw [happly]
    split
    · exact @fit_remove set endpoint leaving h
    · rename_i hkept
      intro other after hafter
      rw [Map.lookup_insert] at hafter
      split at hafter
      · rename_i heq
        cases hafter
        rw [heq]
        exact hreply source hsource hpending hkept
      · exact h other after hafter

section

variable (h : Sound service)

include h

theorem Sound.removeSource : Sound (service.removeSource endpoint).2 :=
  ⟨h.synced.removeSource, h.fit.removeSource fun _ => fit_remove⟩

theorem Sound.setNoNeededParts {noNeededParts : Bool} :
    Sound (service.setNoNeededParts endpoint noNeededParts now).2 :=
  ⟨h.synced.of_same (sameRoutes_setNoNeededParts _),
    h.fit.setNoNeededParts fun _ => fit_setNoNeededParts⟩

/-- A reply changes the one source it is for; the condition speaks of that source. -/
theorem Sound.handleInbound {parsed : Except InboundReaskParseError InboundReaskMessage}
    {sender : SocketAddr} {bitmapApplied : Bool}
    (hkeeps : KeepsFit ⟨service, now⟩ (.inbound parsed sender bitmapApplied)) :
    Sound (service.handleInbound parsed sender now).2 := by
  refine ⟨h.synced.handleInbound parsed sender, ?_⟩
  have hasked {fileHash endpoint set source}
      (hindex : service.endpointIndex.lookup endpoint = some fileHash)
      (hset : service.perFile.lookup fileHash = some set)
      (hsource : set.sources.lookup endpoint = some source)
      (hpending : set.isPending endpoint = true) : source ∈ asked service endpoint := by
    simp [asked, hindex, hset, hsource, hpending]
  obtain ⟨ip, port⟩ := sender
  cases ip with
  | v6 => exact h.fit
  | v4 ip =>
    rcases parsed with error | message
    · exact h.fit
    · cases message with
      | ack rank status =>
        refine h.fit.routeReply (fun _ hfit => hfit) fun file set hindex hset => ?_
        refine fit_applyReply (h.fit file set hset) fun source hsource hpending _ => .inl ?_
        have hstays := hkeeps source (hasked hindex hset hsource hpending)
        exact ⟨hstays, hstays⟩
      | queueFull =>
        refine h.fit.routeReply (fun _ hfit => hfit) fun file set hindex hset => ?_
        refine fit_applyReply (h.fit file set hset) fun source hsource hpending _ => ?_
        refine (h.fit file set hset _ source hsource).imp_left fun hfit => ?_
        exact ⟨hfit.1, hkeeps source (hasked hindex hset hsource hpending)⟩
      | fileNotFound =>
        refine h.fit.routeReply (fun _ hfit => hfit) fun file set _ hset => ?_
        exact fit_applyReply (h.fit file set hset) fun _ _ _ hkept => absurd rfl hkept
      | _ => exact h.fit

theorem Sound.applyRoutedReply {routed : RoutedReply} {bitmapApplied : Bool} :
    Sound (applyRoutedReply service routed bitmapApplied now).2 := by
  have hremoved {marked : ReaskService} (hmarked : Sound marked) :
      Sound (if reengages routed.action then (marked.removeSource routed.endpoint).2
        else marked) := by
    split
    · exact hmarked.removeSource
    · exact hmarked
  refine hremoved ?_
  split
  · exact h.setNoNeededParts
  · exact h

theorem Sound.inbound {parsed : Except InboundReaskParseError InboundReaskMessage}
    {sender : SocketAddr} {bitmapApplied : Bool}
    (hkeeps : KeepsFit ⟨service, now⟩ (.inbound parsed sender bitmapApplied)) :
    Sound (handleInboundDatagram service parsed sender bitmapApplied now).2 := by
  have hhandled := h.handleInbound hkeeps
  unfold handleInboundDatagram
  dsimp only
  split
  · exact hhandled.applyRoutedReply
  · exact hhandled

end

/-- A removal for every source whose timeout disqualified it. -/
theorem sound_fallBack {timedOut : List (Endpoint × ReaskAction)} (hsync : service.InSync)
    (h : service.AllSets (Fit fun endpoint => (endpoint, .retryTcp) ∈ timedOut)) :
    Sound (fallBack service timedOut).2 := by
  induction timedOut generalizing service with
  | nil => exact ⟨hsync, by simpa [fallBack] using h⟩
  | cons entry timedOut ih =>
    obtain ⟨endpoint, action⟩ := entry
    rw [fallBack]
    split
    · refine ih hsync.removeSource (fit_removeSource hsync ?_)
      rename_i haction
      simpa [haction] using h
    · refine ih hsync ?_
      rename_i haction
      simpa [Ne.symm haction] using h

theorem fit_dispatchScheduled {sentAt : ReaskSend → Option Instant} {sends : List ReaskSend}
    (h : service.AllSets (Fit leaving)) :
    (dispatchScheduled sentAt service sends).AllSets (Fit leaving) := by
  unfold dispatchScheduled
  induction sends generalizing service with
  | nil => exact h
  | cons send sends ih =>
    rw [List.foldl_cons]
    refine ih ?_
    split
    · rename_i sent _
      unfold markReaskSent
      split
      · exact h
      · split
        · exact h
        · rename_i set hset
          refine h.setFile (fun _ hfit => hfit) ?_
          rcases @ReaskSourceSet.markReasked_cases set send.sourceEndpoint sent
            send.requestPartStatus with ⟨hsame, -⟩ | ⟨reask, hmarked⟩
          · rw [hsame]
            exact h _ set hset
          · rw [hmarked]
            exact h _ set hset
    · exact h

/-- **A tick removes every source it disqualifies.** -/
theorem Sound.tick (h : Sound service) {pacing : ReaskTickPacing} {firewalled : Bool}
    {sentAt : ReaskSend → Option Instant} :
    Sound (driveReaskTick service now pacing firewalled sentAt).2 := by
  have hroutes := @sameRoutes_tickPaced service now reaskReplyTimeout pacing
  have hticked : (service.tickPaced now reaskReplyTimeout pacing).2.AllSets
      (Fit fun endpoint => (endpoint, .retryTcp) ∈
        (service.tickPaced now reaskReplyTimeout pacing).1.timedOut) := by
    refine @tickPaced_invariant service now (fun ticked => ticked.2.AllSets
      (Fit fun endpoint => (endpoint, .retryTcp) ∈ ticked.1.timedOut)) _ pacing
      (by simpa using h.fit) ?_
    intro ticked fileHash hfit
    unfold tickFile
    split
    · exact hfit
    · rename_i set hset
      refine hfit.setFile (fun set hset other source hsource => ?_) ?_
      · exact (hset other source hsource).imp_right (List.mem_append_left _)
      · simpa using fit_drainTimeouts (hfit fileHash set hset)
  unfold driveReaskTick
  dsimp only
  split
  · exact sound_fallBack (h.synced.of_same hroutes) hticked
  · exact sound_fallBack (h.synced.of_same (hroutes.trans sameRoutes_dispatchScheduled))
      (fit_dispatchScheduled hticked)

/-- What one input preserves. -/
theorem Sound.step {loop : ReaskLoop} (h : Sound loop.service) {input : LoopInput}
    (hkeeps : loop.KeepsFit input) : Sound (loop.step input).service := by
  cases input with
  | elapse => exact h
  | command command =>
    cases command with
    | register args =>
      refine ⟨h.synced.registerSource_iff.mpr hkeeps, ?_⟩
      refine h.fit.setFile (fun _ hfit => hfit) ?_
      intro other source hsource
      simp only [ReaskSourceSet.insert, Map.lookup_insert] at hsource
      split at hsource
      · cases hsource
        exact .inl ⟨rfl, rfl⟩
      · cases hset : loop.service.perFile.lookup args.fileHash with
        | none => simp [hset, ReaskSourceSet.empty] at hsource
        | some set => exact h.fit _ set hset other source (by simpa [hset] using hsource)
    | remove => exact h.removeSource
    | markNoNeededParts => exact h.setNoNeededParts
  | inbound => exact h.inbound hkeeps
  | tick => exact h.tick

/-- **A source is held only while UDP serves it**, in every run in which no registration takes an
    endpoint from another file and no answer brings a share of failures into effect: its flag is
    what its counters say, and it is not set. -/
theorem held_sources_udp_fit (inputs : List LoopInput) (h : Along step KeepsFit init inputs)
    (fileHash : Md4Digest) (set : ReaskSourceSet) (endpoint : Endpoint) (source : ReaskSource)
    (hset : (run step init inputs).service.perFile.lookup fileHash = some set)
    (hsource : set.sources.lookup endpoint = some source) :
    source.fallbackTcpOnly = shouldFallBackToTcp source.udpTotal source.udpFailed ∧
      source.fallbackTcpOnly = false := by
  have hsound : Sound (run step init inputs).service := by
    refine @Along.invariant _ _ step KeepsFit init inputs (fun loop => Sound loop.service)
      (fun _ _ hsound hkeeps => hsound.step hkeeps) h ⟨?_, ?_⟩
    · intro endpoint fileHash
      simp [init, ReaskService.new, ReaskService.lease]
    · intro fileHash set hset
      simp [init, ReaskService.new] at hset
  obtain ⟨hflag, hcounters⟩ | hfalse := hsound.fit fileHash set hset endpoint source hsource
  · exact ⟨hflag.trans hcounters.symm, hflag⟩
  · exact hfalse.elim

/-- An hour passes, and a tick asks the source that is due or finds its request unanswered. -/
def round : List LoopInput :=
  [.elapse (seconds 3600), .tick ⟨0, fun _ _ => true, fun _ => none⟩ false fun _ => some 0]

def answer : LoopInput := .inbound (.ok (.ack 9 .notIncluded)) ⟨.v4 ⟨203, 0, 113, 7⟩, 4672⟩ false

def heldSource (inputs : List LoopInput) : Option ReaskSource :=
  ((run step init (.command (.register (detach 4662)) :: inputs)).service.perFile.lookup
    (detach 4662).fileHash).bind (·.sources.lookup (detach 4662).endpoint)

/-- One request is answered, and the source is held with its flag clear. -/
theorem held_sources_udp_fit_answered :
    let inputs := .command (.register (detach 4662)) :: (round ++ [answer])
    Along step KeepsFit init inputs ∧
      ∀ set source, (run step init inputs).service.perFile.lookup
        (detach 4662).fileHash = some set →
        set.sources.lookup (detach 4662).endpoint = some source →
          source.fallbackTcpOnly = false := by
  intro inputs
  have hkeeps : Along step KeepsFit init inputs := by decide +kernel
  exact ⟨hkeeps, fun set source hset hsource =>
    (held_sources_udp_fit inputs hkeeps _ set _ source hset hsource).2⟩

/-- **Two requests are lost and two answered: the second answer disqualifies the source**, and the
    source stays. Had the second answer been `OP_QUEUEFULL`, its flag would deny what
    its counters say. -/
theorem answered_source_parked :
    let lost := round ++ round ++ round ++ round
    (heldSource (lost ++ round ++ [answer] ++ round ++ [answer])).map ReaskSource.fallbackTcpOnly =
        some true ∧
      (heldSource (lost ++ round ++ [answer] ++ round ++ [.inbound (.ok .queueFull)
        ⟨.v4 ⟨203, 0, 113, 7⟩, 4672⟩ false])).map (fun source => (source.fallbackTcpOnly,
          shouldFallBackToTcp source.udpTotal source.udpFailed)) = some (false, true) := by
  decide +kernel

end ReaskLoop

end EmuleBB.Reask
