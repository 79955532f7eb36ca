import EmuleBB.Lib.Map
import EmuleBB.Lib.Run
import EmuleBB.Wire

/-!
# The served buddy's socket

A firewalled client asks to be served (`FINDBUDDY_REQ`). The handler claims it in one structure,
sends the reply, and records whom to expect in another; the client's HELLO is matched against the
expectation and its session attaches a relay writer. All three are keyed by a buddy id that the
client chooses, and each is given up in a step of its own.

**Every later step trusts what an earlier one saw.** A session whose writer was cleared away takes
the next session's writer with it when it ends, if that one has the same id
(`stale_session_detaches_successor`). With an id taken into use only when nothing is left under it,
an expectation recorded only for the client still claimed, and a writer attached only for the client
still expected, a writer belongs to its session (`buddy_socket_owned`).
-/

namespace EmuleBB.Kad

open Function Run Peer

/-- A Kad id in wire order, `[u8; 16]`. -/
abbrev NodeId := Vector UInt8 16

structure ExpectedInboundBuddy where
  ip : Ipv4Addr
  userHash : UserHash
  buddyId : NodeId
  deriving DecidableEq

/-- `IncomingBuddy`: both its addresses have the request's source IP. -/
structure IncomingBuddy extends ExpectedInboundBuddy where
  tcpPort : UInt16
  udpPort : UInt16
  registeredAt : Nat
  deriving DecidableEq

/-- A handler of `FINDBUDDY_REQ` after its claim: it sends the reply, and then
    sets the expectation. -/
inductive BuddyHandler
  | idle
  | reply (buddy : IncomingBuddy)
  | expect (buddy : IncomingBuddy)
  deriving DecidableEq

/-- A connection of the client that is expected: matched, then the writer of its frames. -/
inductive BuddySession
  | absent
  | matched (hello : ExpectedInboundBuddy)
  | held (hello : ExpectedInboundBuddy)
  deriving DecidableEq

/-- The id whose writer the session detaches when it ends. -/
def BuddySession.heldId : BuddySession → Option NodeId
  | .held hello => some hello.buddyId
  | _ => none

theorem BuddySession.heldId_eq_some {session : BuddySession} {id : NodeId} :
    session.heldId = some id ↔ ∃ hello, session = .held hello ∧ hello.buddyId = id := by
  cases session <;> simp [heldId]

/-- Where a tick of the buddy manager stands. It has the lock of the claim until it
    is idle again. -/
inductive BuddyTick
  | idle
  | check
  | reconcile (attached : Bool)
  | clear (last : Bool)
  deriving DecidableEq

/-- The slot of the incoming buddy, the tick, and the handlers and sessions around it. -/
structure BuddyState where
  incoming : Option IncomingBuddy
  incomingAttachWatermark : Option Nat
  tick : BuddyTick
  expectedInbound : Option ExpectedInboundBuddy
  inbound : Option (NodeId × Nat)
  handlers : Nat → BuddyHandler
  sessions : Nat → BuddySession
  /-- How many sessions have said HELLO. -/
  opened : Nat

namespace BuddyState

def init : BuddyState := ⟨none, none, .idle, none, none, fun _ => .idle, fun _ => .absent, 0⟩

/-- The steps of handlers, sessions and the tick. -/
inductive Event
  | claim (handler : Nat) (buddy : IncomingBuddy)
  | replied (handler : Nat) (sent : Bool)
  | expect (handler : Nat)
  | hello (ip : Ipv4Addr) (userHash : UserHash)
  | attach (session : Nat)
  | finish (session : Nat)
  | drop (session : Nat)
  | relay (buddyId : NodeId)
  | release (tcpFirewalled dropsOutgoing : Bool)
  | tick (now timeout : Nat)

section

variable (s : BuddyState)

def setHandler (i : Nat) (handler : BuddyHandler) : BuddyState :=
  { s with handlers := update s.handlers i handler }

def setSession (i : Nat) (session : BuddySession) : BuddyState :=
  { s with sessions := update s.sessions i session }

def releaseBuddiesIfUnneeded (tcpFirewalled dropsOutgoing : Bool) : BuddyState :=
  let next : BuddyTick :=
    if tcpFirewalled && (dropsOutgoing || s.incoming.isSome) then .clear false else .check
  if tcpFirewalled && s.incoming.isSome then
    { s with incoming := none, incomingAttachWatermark := none, tick := next }
  else { s with tick := next }

def reconcileIncomingBuddy (attached : Bool) (now timeout : Nat) : BuddyState :=
  if s.incoming.isNone then { s with tick := .idle }
  else if attached then { s with incomingAttachWatermark := some now, tick := .idle }
  else if s.incomingAttachWatermark.all fun watermark => timeout + watermark ≤ now then
    { s with incoming := none, incomingAttachWatermark := none, tick := .clear true }
  else { s with tick := .idle }

def matchConnectingPeer (ip : Ipv4Addr) (userHash : UserHash) : Option NodeId :=
  if s.inbound.isSome then none
  else (s.expectedInbound.filter fun expected =>
    expected.ip = ip && expected.userHash = userHash).map
    ExpectedInboundBuddy.buddyId

def detachInbound (buddyId : NodeId) : BuddyState :=
  if s.inbound.any fun socket => socket.1 = buddyId then { s with inbound := none } else s

def relayTarget (buddyId : NodeId) : Option Nat :=
  s.inbound.bind fun socket =>
    if socket.1 = buddyId && s.sessions socket.2 matches .held _ then some socket.2 else none

/-- `relay_to_inbound`: a writer whose session is gone is dropped. -/
def relayToInbound (buddyId : NodeId) : BuddyState :=
  if (s.relayTarget buddyId).isSome then s else s.detachInbound buddyId

def Accepts (i : Nat) : Prop :=
  s.tick = .idle ∧ s.incoming = none ∧ s.handlers i = .idle

instance (s : BuddyState) (i : Nat) : Decidable (s.Accepts i) :=
  inferInstanceAs (Decidable (_ ∧ _ ∧ _))

def step : Event → BuddyState
  | .claim i buddy =>
    if s.Accepts i then
      { s with
        incoming := some buddy
        incomingAttachWatermark := some buddy.registeredAt }.setHandler i (.reply buddy)
    else s
  | .replied i sent =>
    match s.handlers i with
    | .reply buddy =>
      if sent then s.setHandler i (.expect buddy)
      else if s.tick ≠ .idle then s
      -- `release_incoming_buddy`
      else if s.incoming = some buddy then
        { s with incoming := none, incomingAttachWatermark := none }.setHandler i .idle
      else s.setHandler i .idle
    | _ => s
  | .expect i =>
    match s.handlers i with
    | .expect buddy =>
      { s with expectedInbound := some buddy.toExpectedInboundBuddy }.setHandler i .idle
    | _ => s
  | .hello ip userHash =>
    { s with opened := s.opened + 1 }.setSession s.opened
      (match s.matchConnectingPeer ip userHash with
      | some buddyId => .matched ⟨ip, userHash, buddyId⟩
      | none => .absent)
  | .attach i =>
    match s.sessions i with
    | .matched hello =>
      if s.inbound.isSome then s.setSession i .absent
      else { s with inbound := some (hello.buddyId, i) }.setSession i (.held hello)
    | _ => s
  | .finish i =>
    match (s.sessions i).heldId with
    | some buddyId => (s.detachInbound buddyId).setSession i .absent
    | none => s.setSession i .absent
  -- the session sees its writer gone, or its task is dropped
  | .drop i => s.setSession i .absent
  | .relay buddyId => s.relayToInbound buddyId
  | .release tcpFirewalled dropsOutgoing =>
    if s.tick = .idle then s.releaseBuddiesIfUnneeded tcpFirewalled dropsOutgoing else s
  | .tick now timeout =>
    match s.tick with
    | .idle => s
    | .check => { s with tick := .reconcile s.inbound.isSome }
    | .reconcile attached => s.reconcileIncomingBuddy attached now timeout
    -- `clear_inbound`
    | .clear last =>
      { s with
        expectedInbound := none
        inbound := none
        tick := if last then .idle else .check }

/-- The end of a session takes no other session's writer away, and a frame for a claimed client is
    written to a session of that client. -/
def Owned : Event → Prop
  | .finish i => ∀ socket, s.inbound = some socket → (s.step (.finish i)).inbound = none →
    socket.2 = i
  | .relay buddyId => ∀ buddy, s.incoming = some buddy → buddy.buddyId = buddyId →
      ∀ i, s.relayTarget buddyId = some i → ∃ hello, s.sessions i = .held hello ∧
        hello.ip = buddy.ip ∧ hello.userHash = buddy.userHash
  | _ => True

/-- An id is claimed when no session holds it and nobody else is expected under it, and the later
    steps find their client still claimed and still expected. -/
def Current : Event → Prop
  | .claim handler buddy => s.Accepts handler →
      (∀ i < s.opened, (s.sessions i).heldId ≠ some buddy.buddyId) ∧
      ∀ expected ∈ s.expectedInbound, expected.buddyId = buddy.buddyId →
        expected = buddy.toExpectedInboundBuddy
  | .expect i =>
    match s.handlers i with
    | .expect buddy =>
      s.incoming.map IncomingBuddy.toExpectedInboundBuddy = some buddy.toExpectedInboundBuddy
    | _ => True
  | .attach i =>
    match s.sessions i with
    | .matched hello => s.expectedInbound = some hello
    | _ => True
  | _ => True

end

instance (s : BuddyState) (e : Event) : Decidable (s.Current e) := by
  cases e <;> unfold Current <;> (try dsimp only; split) <;> infer_instance

/-- **The writer of the frames is the session of the client that is claimed**, and of
    nobody else. -/
structure Sound (s : BuddyState) : Prop where
  clearing : ∀ last, s.tick = .clear last → s.incoming = none
  later : ∀ i, s.opened ≤ i → s.sessions i = .absent
  attached : ∀ id i hello, s.inbound = some (id, i) → s.sessions i = .held hello →
    hello.buddyId = id
  same : ∀ buddy expected, s.incoming = some buddy → s.expectedInbound = some expected →
    expected.buddyId = buddy.buddyId → expected = buddy.toExpectedInboundBuddy
  served : ∀ buddy i hello, s.incoming = some buddy → s.inbound = some (buddy.buddyId, i) →
    s.sessions i = .held hello → hello = buddy.toExpectedInboundBuddy
  claimed : ∀ buddy i hello, s.incoming = some buddy → s.sessions i = .held hello →
    hello.buddyId = buddy.buddyId → s.inbound = some (hello.buddyId, i)
  expected : ∀ expected i hello, s.expectedInbound = some expected → s.sessions i = .held hello →
    hello.buddyId = expected.buddyId → s.inbound = some (hello.buddyId, i)
  own : ∀ i j hello, s.sessions i = .held hello → s.inbound = some (hello.buddyId, j) → j = i

variable {s : BuddyState} {watermark : Option Nat} {tick : BuddyTick}
  {handlers : Nat → BuddyHandler}

theorem detachInbound_cases (s : BuddyState) (id : NodeId) :
    s.detachInbound id = s ∨
      ∃ i, s.inbound = some (id, i) ∧ s.detachInbound id = { s with inbound := none } := by
  rw [detachInbound]
  cases hinbound : s.inbound with
  | none => exact .inl rfl
  | some socket =>
    by_cases hid : socket.1 = id
    · exact .inr ⟨socket.2, by rw [← hid], by simp [hid]⟩
    · exact .inl (by simp [hid])

/-- A session may always be given up. -/
theorem Sound.drop (h : s.Sound) (i : Nat) : (s.setSession i .absent).Sound := by
  obtain ⟨hself, hother⟩ := update_spec s.sessions i .absent
  cases h
  constructor <;> simp only [setSession] at * <;> grind

/-- So may the claim, at every point of a handler and of a tick. -/
theorem Sound.release (h : s.Sound) : { s with
      incoming := none, incomingAttachWatermark := watermark, tick := tick
      handlers := handlers : BuddyState }.Sound := by
  cases h
  constructor <;> grind

theorem Sound.keep (h : s.Sound) (htick : ∀ last, tick = .clear last → s.incoming = none) : { s with
      incomingAttachWatermark := watermark, tick := tick
      handlers := handlers : BuddyState }.Sound := by
  cases h
  constructor <;> assumption

theorem Sound.step (h : s.Sound) (e : Event) (hcurrent : s.Current e) : (s.step e).Sound := by
  cases e with
  | claim =>
    simp only [BuddyState.step]
    split
    · rename_i haccepts
      obtain ⟨hheld, hexpected⟩ := hcurrent haccepts
      cases h
      constructor <;> simp only [setHandler, Accepts] at * <;> grind [BuddySession.heldId]
    · exact h
  | replied =>
    simp only [BuddyState.step, setHandler]
    split
    · split
      · exact h.keep h.clearing
      · split
        · exact h
        · split
          · exact h.release
          · exact h.keep h.clearing
    · exact h
  | expect =>
    simp only [BuddyState.step]
    split
    · rename_i buddy hi
      simp only [Current, hi] at hcurrent
      obtain ⟨claim, hclaim, heq⟩ := Option.map_eq_some_iff.mp hcurrent
      cases h
      constructor <;> simp only [setHandler] at * <;> grind
    · exact h
  | hello ip userHash =>
    obtain ⟨hself, hother⟩ := update_spec s.sessions s.opened
      (match s.matchConnectingPeer ip userHash with
      | some buddyId => .matched ⟨ip, userHash, buddyId⟩
      | none => .absent)
    cases h
    constructor <;> simp only [BuddyState.step, setSession] at * <;> grind
  | attach i =>
    simp only [BuddyState.step]
    split
    · rename_i hello hi
      simp only [Current, hi] at hcurrent
      split
      · exact h.drop i
      · obtain ⟨hself, hother⟩ := update_spec s.sessions i (.held hello)
        cases h
        constructor <;> simp only [setSession] at * <;> grind
    · exact h
  | finish i =>
    simp only [BuddyState.step]
    split
    · rename_i id hid
      obtain ⟨hello, hheld, rfl⟩ := BuddySession.heldId_eq_some.mp hid
      obtain hsame | ⟨j, hinbound, hdetached⟩ := s.detachInbound_cases hello.buddyId
      · rw [hsame]
        exact h.drop i
      · obtain rfl := h.own i j hello hheld hinbound
        obtain ⟨hself, hother⟩ := update_spec s.sessions j .absent
        cases h
        constructor <;> simp only [setSession] at * <;> grind
    · exact h.drop i
  | drop i => exact h.drop i
  | relay =>
    cases h
    constructor <;>
      simp only [BuddyState.step, relayToInbound, detachInbound, relayTarget] at * <;> grind
  | release =>
    simp only [BuddyState.step, releaseBuddiesIfUnneeded]
    split
    · split
      · exact h.release
      · exact h.keep (by grind [Option.isSome_iff_ne_none])
    · exact h
  | tick =>
    simp only [BuddyState.step, reconcileIncomingBuddy]
    split
    · exact h
    · exact h.keep nofun
    · split
      · exact h.keep nofun
      · split
        · exact h.keep nofun
        · split
          · exact h.release
          · exact h.keep nofun
    · cases h
      constructor <;> grind

/-- **Sessions and relays keep to their own client.** -/
theorem Sound.owned (h : s.Sound) (e : Event) : s.Owned e := by
  cases e with
  | finish i =>
    intro socket hsocket hnone
    simp only [BuddyState.step] at hnone
    split at hnone
    · rename_i id hid
      obtain ⟨hello, hheld, rfl⟩ := BuddySession.heldId_eq_some.mp hid
      obtain hsame | ⟨j, hinbound, -⟩ := s.detachInbound_cases hello.buddyId
      · rw [hsame] at hnone
        cases hsocket.symm.trans hnone
      · cases hsocket.symm.trans hinbound
        exact h.own i j hello hheld hinbound
    · cases hsocket.symm.trans hnone
  | relay =>
    intro buddy hbuddy hid i htarget
    simp only [relayTarget, Option.bind_eq_some_iff] at htarget
    obtain ⟨socket, hsocket, htarget⟩ := htarget
    have hserved := h.served buddy i
    grind
  | _ => trivial

/-- **The served buddy's socket belongs to its session**, in every interleaving of requests, HELLOs,
    relays, ends of sessions and ticks in which an id is claimed only when it is free and the later
    steps find their client still claimed and still expected. -/
theorem buddy_socket_owned (es : List Event) (h : Along step Current init es) :
    Along step Owned init es := by
  have hinit : init.Sound := by constructor <;> simp [init]
  exact h.along (fun s e (hs : s.Sound) he => ⟨hs.owned e, hs.step e he⟩) hinit

/-- A peer that asks for a buddy. -/
def sampleBuddy : IncomingBuddy where
  ip := ⟨10, 0, 0, 1⟩
  userHash := Vector.replicate 16 1
  buddyId := Vector.replicate 16 2
  tcpPort := 4662
  udpPort := 4672
  registeredAt := 0

/-- The request, the reply and the connection of one buddy. -/
def served (session : Nat) : List Event :=
  [.claim 0 sampleBuddy, .replied 0 true, .expect 0, .hello sampleBuddy.ip sampleBuddy.userHash,
    .attach session]

/-- A served client reconnects, and its claim ends after its second session did. -/
theorem buddy_socket_owned_reconnected :
    Along step Owned init (served 0 ++ [.relay sampleBuddy.buddyId, .finish 0,
      .hello sampleBuddy.ip sampleBuddy.userHash, .attach 1, .finish 1, .release true false,
      .tick 9 5, .tick 9 5, .tick 9 5] ++ served 2) :=
  buddy_socket_owned _ (by decide +kernel)

/-- **A session that was cleared away detaches its successor.** We become firewalled and the tick
    gives the client up; it asks again under the same id and attaches from a new session before the
    first one sees that its writer is gone, and the first one ends. -/
theorem stale_session_detaches_successor :
    let before := run step init
      (served 0 ++ [.release true false, .tick 9 5, .tick 9 5, .tick 9 5] ++ served 1)
    before.inbound = some (sampleBuddy.buddyId, 1) ∧
      before.sessions 1 = .held sampleBuddy.toExpectedInboundBuddy ∧
      (before.step (.finish 0)).inbound = none := by
  decide +kernel

end BuddyState

end EmuleBB.Kad
