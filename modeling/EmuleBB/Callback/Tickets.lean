import Mathlib.Data.List.Dedup
import EmuleBB.Lib.FirstMatch
import EmuleBB.Wire

/-!
# The callback ticket store

A LowID peer cannot be dialled: the client asks for a connection back, and `CallbackTicketStore`
remembers what that connection may be used for. A ticket is **reserved** before the wire request,
**dispatching** while the request is being written, **armed** once it was sent, **leased** or
**session-owned** by the connection that came back, and **needs dispatch** when a session ended with
files left over. `reap` puts a lapsed lease back into the state its ticket was in.

`checked_add` fails above `clockMax`, the platform's last instant. A call returns the new store with
its result: every early return keeps what the call had done to the store so far.
-/

namespace EmuleBB.Callback

open FirstMatch Peer

def callbackClaimDownloadCapacity : Nat := 256

def callbackClaimLease : Duration := seconds 5

def callbackTicketMaxLifetime : Duration := seconds (5 * 60)

/-! ## Tickets, tokens and errors -/

inductive ReadyState
  | reserved
  | dispatching
  | armed
  deriving DecidableEq

/-- Where a ticket stands between its reservation and the session that serves it. -/
inductive TicketState
  | reserved
  | dispatching
  | armed
  | leased (generation : Nat) (leaseDeadline : Instant) (priorState : ReadyState)
  | sessionOwned (generation : Nat) (priorState : ReadyState)
  | needsDispatch
  deriving DecidableEq

def ReadyState.toState : ReadyState → TicketState
  | .reserved => .reserved
  | .dispatching => .dispatching
  | .armed => .armed

def TicketState.isClaimable : TicketState → Bool
  | .reserved | .dispatching | .armed => true
  | .leased .. | .sessionOwned .. | .needsDispatch => false

def TicketState.ready? : TicketState → Option ReadyState
  | .reserved => some .reserved
  | .dispatching => some .dispatching
  | .armed => some .armed
  | .leased .. | .sessionOwned .. | .needsDispatch => none

def TicketState.isLeasedBy (generation : Nat) : TicketState → Bool
  | .leased g _ _ => g = generation
  | _ => false

def TicketState.isOwnedBy (generation : Nat) : TicketState → Bool
  | .sessionOwned g _ => g = generation
  | _ => false

inductive Route
  | server (serverEndpoint : SocketAddr)
  | kadBuddy (buddyId : Md4Digest) (buddyEndpoint : Option SocketAddr)
  | directUdp (sourceEndpoint : SocketAddr)
  deriving DecidableEq

structure CallbackPeer where
  clientId : UInt32
  expectedUserHash : Option UserHash
  sourceIp : Option Ipv4Addr
  sourceTcpPort : UInt16
  deriving DecidableEq

structure Download where
  fileHash : Md4Digest
  displayName : String
  fileSize : Nat
  deriving DecidableEq

/-- What a download asks of the store. -/
structure TicketRequest where
  route : Route
  peer : CallbackPeer
  download : Download
  validFor : Duration
  deriving DecidableEq

/-- What a peer that connects back says of itself. -/
structure HelloIdentity where
  userHash : UserHash
  clientId : UInt32
  serverEndpoint : Option SocketAddr
  peerIp : Option Ipv4Addr
  tcpPort : UInt16
  deriving DecidableEq

/-- One callback that was asked for, and the downloads that wait for it. -/
structure TicketRecord where
  id : Nat
  route : Route
  peer : CallbackPeer
  downloads : List Download
  expiresAt : Instant
  redispatchLifetime : Duration
  cancelRestoresNeedsDispatch : Bool
  state : TicketState
  deriving DecidableEq

structure DispatchPermit where
  ticketId : Nat
  expiresAt : Instant
  deriving DecidableEq

structure ClaimToken where
  ticketIds : List Nat
  generation : Nat
  deriving DecidableEq

structure SessionToken where
  generation : Nat
  deriving DecidableEq

/-- What a lease hands out. -/
structure Claim where
  token : ClaimToken
  downloads : List Download
  deriving DecidableEq

/-- The caller is to dial, or joins a ticket that is on its way. -/
inductive Reservation
  | dispatch (permit : DispatchPermit)
  | joined (ticketId : Nat)
  deriving DecidableEq

inductive DispatchOutcome
  | armed
  | settled
  deriving DecidableEq

inductive TicketError
  | zeroLifetime
  | lifetimeTooLong
  | deadlineOverflow
  | ticketCapacity
  | downloadCapacity
  | identifierExhausted
  | invalidServerEndpoint
  | invalidServerClientId
  | invalidBuddyId
  | invalidBuddyEndpoint
  | invalidDirectEndpoint
  | missingUserHash
  | zeroTcpPort
  deriving DecidableEq

inductive ClaimError
  | ambiguousPeer
  | claimCapacity
  | deadlineOverflow
  | identifierExhausted
  | staleClaim
  deriving DecidableEq

inductive FallbackKey
  | server (serverEndpoint : SocketAddr) (clientId : UInt32)
  | endpoint (ip : Ipv4Addr) (tcpPort : UInt16)
  deriving DecidableEq

/-- The tickets, in the order they were made, and the counters they take their identities from. -/
structure Store where
  nextTicketId : Nat
  nextLeaseGeneration : Nat
  ticketCapacity : Nat
  downloadCapacity : Nat
  tickets : List TicketRecord
  deriving DecidableEq

def Store.new (ticketCapacity downloadCapacity : Nat) : Store where
  nextTicketId := 1
  nextLeaseGeneration := 1
  ticketCapacity := ticketCapacity
  downloadCapacity := downloadCapacity
  tickets := []

/-! ## Requests, matching and merging -/

def isMissingHash (hash : Option UserHash) : Bool := hash = none || hash = some zeroUserHash

def validateTicketRequest (request : TicketRequest) : Except TicketError TicketRequest :=
  if request.validFor = 0 then .error .zeroLifetime
  else if callbackTicketMaxLifetime < request.validFor then .error .lifetimeTooLong
  else if request.peer.sourceTcpPort = 0 then .error .zeroTcpPort
  else match request.route with
    | .server serverEndpoint =>
      if !serverEndpoint.isValidIpv4Endpoint then .error .invalidServerEndpoint
      else if request.peer.clientId = 0 || 0x01000000 ≤ request.peer.clientId then
        .error .invalidServerClientId
      else
        let expectedUserHash :=
          if request.peer.expectedUserHash = some zeroUserHash then none
          else request.peer.expectedUserHash
        .ok { request with
          peer := { request.peer with expectedUserHash := expectedUserHash, sourceIp := none } }
    | .kadBuddy buddyId buddyEndpoint =>
      if buddyId = Vector.replicate 16 0 then .error .invalidBuddyId
      else if buddyEndpoint.any (fun endpoint => !endpoint.isValidIpv4Endpoint) then
        .error .invalidBuddyEndpoint
      else if isMissingHash request.peer.expectedUserHash then .error .missingUserHash
      else if request.peer.sourceIp.all Ipv4Addr.isUnspecified then .error .invalidBuddyEndpoint
      else .ok request
    | .directUdp sourceEndpoint =>
      match sourceEndpoint.ip with
      | .v6 _ => .error .invalidDirectEndpoint
      | .v4 endpointIp =>
        if endpointIp.isUnspecified || sourceEndpoint.port = 0
            || request.peer.sourceIp ≠ some endpointIp then .error .invalidDirectEndpoint
        else if isMissingHash request.peer.expectedUserHash then .error .missingUserHash
        else .ok request

def peersCanMerge (route : Route) (existing incoming : CallbackPeer) : Bool :=
  match existing.expectedUserHash, incoming.expectedUserHash with
  | some left, some right => left = right
  | _, _ =>
    match route with
    | .server _ => existing.clientId = incoming.clientId
    | .kadBuddy .. | .directUdp _ =>
      existing.sourceIp = incoming.sourceIp && existing.sourceIp.isSome
        && existing.sourceTcpPort = incoming.sourceTcpPort

variable (ticket : TicketRecord)

def TicketRecord.matchesRequest (request : TicketRequest) : Bool :=
  ticket.route = request.route && peersCanMerge ticket.route ticket.peer request.peer

def TicketRecord.hasFile (fileHash : Md4Digest) : Bool :=
  ticket.downloads.any fun existing => existing.fileHash = fileHash

def TicketRecord.canAcceptDownload (download : Download) (downloadCapacity : Nat) : Bool :=
  ticket.hasFile download.fileHash || ticket.downloads.length < downloadCapacity

/-- `merge_ticket_download` after its capacity check. -/
def TicketRecord.withDownload (peer : CallbackPeer) (download : Download) : TicketRecord :=
  { ticket with
    peer := { ticket.peer with
      expectedUserHash := ticket.peer.expectedUserHash <|> peer.expectedUserHash }
    downloads :=
      if ticket.hasFile download.fileHash then
        modifyFirst (fun existing => existing.fileHash = download.fileHash) (fun _ => download)
          ticket.downloads
      else ticket.downloads ++ [download] }

def mergeTicketDownload (peer : CallbackPeer) (download : Download) (downloadCapacity : Nat) :
    Except TicketError TicketRecord :=
  if !ticket.hasFile download.fileHash && downloadCapacity ≤ ticket.downloads.length then
    .error .downloadCapacity
  else .ok (ticket.withDownload peer download)

def fallbackMatchKey (hello : HelloIdentity) : Option FallbackKey :=
  if ticket.peer.expectedUserHash.isSome then none
  else match ticket.route with
    | .server serverEndpoint =>
      if hello.serverEndpoint = some serverEndpoint && hello.clientId = ticket.peer.clientId then
        some (.server serverEndpoint ticket.peer.clientId)
      else none
    | .kadBuddy .. | .directUdp _ =>
      match ticket.peer.sourceIp with
      | none => none
      | some sourceIp =>
        if hello.peerIp ≠ some sourceIp || ticket.peer.sourceTcpPort ≠ hello.tcpPort then none
        else some (.endpoint sourceIp hello.tcpPort)

/-! ## Expiry -/

/-- What `reap` makes of one ticket. A dispatching ticket outlives its deadline: the guard that
    owns the wire request settles it. -/
def reapTicket (now : Instant) (ticket : TicketRecord) : Option TicketRecord :=
  match ticket.state with
  | .reserved | .armed | .needsDispatch => if now < ticket.expiresAt then some ticket else none
  | .dispatching => some ticket
  | .leased _ leaseDeadline priorState =>
    if leaseDeadline ≤ now then
      if priorState = .dispatching ∨ now < ticket.expiresAt then
        some { ticket with state := priorState.toState }
      else none
    else some ticket
  | .sessionOwned .. => some ticket

namespace Store

variable (clockMax : Nat)

variable (s : Store)

/-- Expired tickets go, and expired leases fall back. -/
def reap (now : Instant) : Store :=
  { s with tickets := s.tickets.filterMap (reapTicket now) }

/-! ## Reserving -/

def allocateTicketId : Option (Nat × Store) :=
  (checkedAdd u64Max s.nextTicketId 1).map fun next =>
    (s.nextTicketId, { s with nextTicketId := next })

def activeSessionGenerationFor (route : Route) (peer : CallbackPeer) : Option Nat :=
  s.tickets.findSome? fun ticket =>
    match ticket.state with
    | .sessionOwned generation _ =>
      let isMatch : Bool :=
        match peer.expectedUserHash with
        | some userHash => ticket.peer.expectedUserHash = some userHash
        | none => ticket.route = route && peersCanMerge route ticket.peer peer
      if isMatch then some generation else none
    | _ => none

def sessionCandidate (generation : Nat) (request : TicketRequest) (ticket : TicketRecord) : Bool :=
  ticket.matchesRequest request
    && (ticket.state.isOwnedBy generation || ticket.state = .needsDispatch)

def sessionCanAcceptDownload (generation : Nat) (candidate : Option TicketRecord)
    (fileHash : Md4Digest) : Bool :=
  let owned := s.tickets.filter fun ticket => ticket.state.isOwnedBy generation
  let waiting := candidate.toList.filter fun ticket => ticket.state = .needsDispatch
  let hashes := (owned ++ waiting).flatMap fun ticket => ticket.downloads.map Download.fileHash
  (fileHash :: hashes).dedup.length ≤ callbackClaimDownloadCapacity

def joinSession (generation : Nat) (request : TicketRequest) (expiresAt : Instant) :
    Store × Except TicketError Reservation :=
  match s.tickets.find? (sessionCandidate generation request) with
  | some ticket =>
    match mergeTicketDownload ticket request.peer request.download s.downloadCapacity with
    | .error e => (s, .error e)
    | .ok merged =>
      let joined := { merged with
        redispatchLifetime := max ticket.redispatchLifetime request.validFor
        cancelRestoresNeedsDispatch := false
        state := .sessionOwned generation .armed }
      ({ s with
          tickets := modifyFirst (sessionCandidate generation request)
            (fun _ => joined) s.tickets },
        .ok (.joined ticket.id))
  | none =>
    if s.ticketCapacity ≤ s.tickets.length then (s, .error .ticketCapacity)
    else match s.allocateTicketId with
      | none => (s, .error .identifierExhausted)
      | some (id, s) =>
        let ticket : TicketRecord := {
          id := id
          route := request.route
          peer := request.peer
          downloads := [request.download]
          expiresAt := expiresAt
          redispatchLifetime := request.validFor
          cancelRestoresNeedsDispatch := false
          state := .sessionOwned generation .armed }
        ({ s with tickets := s.tickets ++ [ticket] }, .ok (.joined id))

def redispatchable (request : TicketRequest) (ticket : TicketRecord) : Bool :=
  ticket.state = .needsDispatch && ticket.matchesRequest request

def joinable (request : TicketRequest) (ticket : TicketRecord) : Bool :=
  ticket.state.isClaimable && ticket.matchesRequest request

def redispatch (ticket : TicketRecord) (request : TicketRequest) (expiresAt : Instant) :
    Store × Except TicketError Reservation :=
  if !ticket.canAcceptDownload request.download s.downloadCapacity then
    (s, .error .downloadCapacity)
  else match s.allocateTicketId with
    | none => (s, .error .identifierExhausted)
    | some (id, s) =>
      match mergeTicketDownload ticket request.peer request.download s.downloadCapacity with
      | .error e => (s, .error e)
      | .ok merged =>
        let fresh := { merged with
          id := id
          expiresAt := expiresAt
          redispatchLifetime := request.validFor
          cancelRestoresNeedsDispatch := true
          state := .reserved }
        ({ s with tickets := modifyFirst (redispatchable request) (fun _ => fresh) s.tickets },
          .ok (.dispatch ⟨id, expiresAt⟩))

def reserveWithoutSession (request : TicketRequest) (expiresAt : Instant) :
    Store × Except TicketError Reservation :=
  match s.tickets.find? (redispatchable request) with
  | some ticket => s.redispatch ticket request expiresAt
  | none =>
    match s.tickets.find? (joinable request) with
    | some ticket =>
      match mergeTicketDownload ticket request.peer request.download s.downloadCapacity with
      | .error e => (s, .error e)
      | .ok merged =>
        let joined := { merged with
          redispatchLifetime := max ticket.redispatchLifetime request.validFor }
        ({ s with tickets := modifyFirst (joinable request) (fun _ => joined) s.tickets },
          .ok (.joined ticket.id))
    | none =>
      if s.ticketCapacity ≤ s.tickets.length then (s, .error .ticketCapacity)
      else match s.allocateTicketId with
        | none => (s, .error .identifierExhausted)
        | some (id, s) =>
          let ticket : TicketRecord := {
            id := id
            route := request.route
            peer := request.peer
            downloads := [request.download]
            expiresAt := expiresAt
            redispatchLifetime := request.validFor
            cancelRestoresNeedsDispatch := false
            state := .reserved }
          ({ s with tickets := s.tickets ++ [ticket] }, .ok (.dispatch ⟨id, expiresAt⟩))

/-- A request joins a ticket of its peer, sends one out again, or makes a new one. -/
def reserve (request : TicketRequest) (now : Instant) : Store × Except TicketError Reservation :=
  let s := s.reap now
  match validateTicketRequest request with
  | .error e => (s, .error e)
  | .ok request =>
    match checkedAdd clockMax now request.validFor with
    | none => (s, .error .deadlineOverflow)
    | some expiresAt =>
      match s.activeSessionGenerationFor request.route request.peer with
      | none => s.reserveWithoutSession request expiresAt
      | some generation =>
        if s.sessionCanAcceptDownload generation
            (s.tickets.find? (sessionCandidate generation request)) request.download.fileHash then
          s.joinSession generation request expiresAt
        else s.reserveWithoutSession request expiresAt

/-! ## Dispatching -/

def hasId (id : Nat) (ticket : TicketRecord) : Bool := ticket.id = id

def setState (ticket : TicketRecord) (state : TicketState) : TicketRecord :=
  { ticket with state := state }

/-- The state of a ticket whose wire request is being written; `none` when the permit has nothing
    left to begin. -/
def beginState : TicketState → Option TicketState
  | .reserved => some .dispatching
  | .leased generation leaseDeadline .reserved =>
    some (.leased generation leaseDeadline .dispatching)
  | .sessionOwned generation .reserved => some (.sessionOwned generation .dispatching)
  | _ => none

def beginDispatch (permit : DispatchPermit) (now : Instant) : Store × Bool :=
  let s := s.reap now
  match s.tickets.find? (hasId permit.ticketId) with
  | none => (s, false)
  | some ticket =>
    match beginState ticket.state with
    | none => (s, false)
    | some state =>
      ({ s with
          tickets := modifyFirst (hasId permit.ticketId) (fun ticket => setState ticket state)
            s.tickets }, true)

def markState : TicketState → Option TicketState
  | .reserved | .dispatching => some .armed
  | .leased generation leaseDeadline .reserved
  | .leased generation leaseDeadline .dispatching => some (.leased generation leaseDeadline .armed)
  | .sessionOwned generation .reserved
  | .sessionOwned generation .dispatching => some (.sessionOwned generation .armed)
  | _ => none

def restart (now : Instant) (ticket : TicketRecord) : TicketRecord :=
  { ticket with
    expiresAt := (checkedAdd clockMax now ticket.redispatchLifetime).getD ticket.expiresAt }

def markDispatched (permit : DispatchPermit) (now : Instant) : Store × DispatchOutcome :=
  match s.tickets.find? (hasId permit.ticketId) with
  | none => (s.reap now, .settled)
  | some ticket =>
    match markState ticket.state with
    | none => (s, .settled)
    | some state =>
      ({ s with
          tickets := modifyFirst (hasId permit.ticketId)
            (fun ticket => restart clockMax now (setState ticket state)) s.tickets }, .armed)

def cancellable (id : Nat) (ticket : TicketRecord) : Bool :=
  hasId id ticket && (ticket.state = .reserved || ticket.state = .dispatching)

/-- `cancel` of a ticket nobody holds: a re-dispatched one goes back to needing dispatch. -/
def cancelTicket (ticket : TicketRecord) (now : Instant) : Store :=
  if ticket.cancelRestoresNeedsDispatch then
    { s with
      tickets := modifyFirst (cancellable ticket.id)
        (fun ticket => restart clockMax now (setState ticket .needsDispatch)) s.tickets }
  else { s with tickets := s.tickets.eraseP (cancellable ticket.id) }

def uncancelledState : TicketState → TicketState
  | .leased generation leaseDeadline .dispatching => .leased generation leaseDeadline .reserved
  | .sessionOwned generation .dispatching => .sessionOwned generation .reserved
  | state => state

def cancel (permit : DispatchPermit) (now : Instant) : Store × Bool :=
  match s.tickets.find? (cancellable permit.ticketId) with
  | some ticket => ((s.cancelTicket clockMax ticket now).reap now, true)
  | none =>
    let s := s.reap now
    match s.tickets.find? (cancellable permit.ticketId) with
    | some ticket => ((s.cancelTicket clockMax ticket now).reap now, true)
    | none =>
      ({ s with
          tickets := modifyFirst (hasId permit.ticketId)
            (fun ticket => setState ticket (uncancelledState ticket.state)) s.tickets }, false)

/-! ## Leases and sessions -/

def selectFallbackKey (hello : HelloIdentity) :
    List TicketRecord → Option FallbackKey → Except ClaimError (Option FallbackKey)
  | [], selected => .ok selected
  | ticket :: tickets, selected =>
    match fallbackMatchKey ticket hello with
    | none => selectFallbackKey hello tickets selected
    | some key =>
      if selected.any (fun selected => selected ≠ key) then .error .ambiguousPeer
      else selectFallbackKey hello tickets (some key)

variable (hello : HelloIdentity)

def claimCandidates : Except ClaimError (List Nat) :=
  let claimable := s.tickets.filter fun ticket => ticket.state.isClaimable
  let strong := claimable.filter fun ticket => ticket.peer.expectedUserHash = some hello.userHash
  if hello.userHash ≠ zeroUserHash ∧ strong ≠ [] then .ok (strong.map TicketRecord.id)
  else match selectFallbackKey hello claimable none with
    | .error e => .error e
    | .ok none => .ok []
    | .ok (some key) =>
      .ok ((claimable.filter fun ticket => fallbackMatchKey ticket hello = some key).map
        TicketRecord.id)

def selectTickets : List TicketRecord → List Nat × List Download → List Nat × List Download
  | [], selected => selected
  | ticket :: tickets, (ids, downloads) =>
    let newDownloads := ticket.downloads.filter fun download =>
      !downloads.any fun seen => seen.fileHash = download.fileHash
    if callbackClaimDownloadCapacity < downloads.length + newDownloads.length then
      selectTickets tickets (ids, downloads)
    else selectTickets tickets (ids ++ [ticket.id], downloads ++ newDownloads)

def leaseTicket (generation : Nat) (leaseDeadline : Instant) (ids : List Nat)
    (ticket : TicketRecord) : TicketRecord :=
  if ticket.id ∈ ids then
    match ticket.state.ready? with
    | some priorState => setState ticket (.leased generation leaseDeadline priorState)
    | none => ticket
  else ticket

def leaseSelected (ids : List Nat) (downloads : List Download) (now : Instant) :
    Store × Except ClaimError (Option Claim) :=
  match checkedAdd u64Max s.nextLeaseGeneration 1 with
  | none => (s, .error .identifierExhausted)
  | some next =>
    let generation := s.nextLeaseGeneration
    let s := { s with nextLeaseGeneration := next }
    match checkedAdd clockMax now callbackClaimLease with
    | none => (s, .error .deadlineOverflow)
    | some leaseDeadline =>
      ({ s with tickets := s.tickets.map (leaseTicket generation leaseDeadline ids) },
        .ok (some ⟨⟨ids, generation⟩, downloads⟩))

/-- The tickets a HELLO claims are leased to it, all at once. -/
def lease (now : Instant) : Store × Except ClaimError (Option Claim) :=
  let s := s.reap now
  match s.claimCandidates hello with
  | .error e => (s, .error e)
  | .ok candidateIds =>
    if candidateIds.isEmpty then (s, .ok none)
    else
      let selected :=
        selectTickets (s.tickets.filter fun ticket => ticket.id ∈ candidateIds) ([], [])
      if selected.1.isEmpty then (s, .error .claimCapacity)
      else s.leaseSelected clockMax selected.1 selected.2 now

def leaseTokenIsCurrent (token : ClaimToken) : Bool :=
  token.ticketIds ≠ [] && token.ticketIds.all fun id =>
    s.tickets.any fun ticket => hasId id ticket && ticket.state.isLeasedBy token.generation

def sessionTokenIsCurrent (token : SessionToken) : Bool :=
  s.tickets.any fun ticket => ticket.state.isOwnedBy token.generation

def commit (token : ClaimToken) (now : Instant) : Store × Except ClaimError Unit :=
  let s := s.reap now
  if !s.leaseTokenIsCurrent token then (s, .error .staleClaim)
  else ({ s with tickets := s.tickets.filter fun ticket => ticket.id ∉ token.ticketIds }, .ok ())

/-- What `release` makes of a ticket. The source has `unreachable!` for one that is not leased,
    which no ticket of a current token is. -/
def releaseTicket (token : ClaimToken) (ticket : TicketRecord) : TicketRecord :=
  if ticket.id ∈ token.ticketIds then
    match ticket.state with
    | .leased _ _ priorState => setState ticket priorState.toState
    | _ => ticket
  else ticket

def release (token : ClaimToken) (now : Instant) : Store × Except ClaimError Unit :=
  let s := s.reap now
  if !s.leaseTokenIsCurrent token then (s, .error .staleClaim)
  else (({ s with tickets := s.tickets.map (releaseTicket token) }).reap now, .ok ())

def ownTicket (token : ClaimToken) (ticket : TicketRecord) : TicketRecord :=
  if ticket.id ∈ token.ticketIds then
    match ticket.state with
    | .leased generation _ priorState =>
      let expectedUserHash :=
        if hello.userHash ≠ zeroUserHash ∧ ticket.peer.expectedUserHash = none then
          some hello.userHash
        else ticket.peer.expectedUserHash
      { ticket with
        peer := { ticket.peer with expectedUserHash := expectedUserHash }
        state := .sessionOwned generation priorState }
    | _ => ticket
  else ticket

/-- A lease that is turned into the ownership of a session. -/
def claimSession (now : Instant) : Store × Except ClaimError (Option SessionToken) :=
  match s.lease clockMax hello now with
  | (s, .error e) => (s, .error e)
  | (s, .ok none) => (s, .ok none)
  | (s, .ok (some claim)) =>
    ({ s with tickets := s.tickets.map (ownTicket hello claim.token) },
      .ok (some ⟨claim.token.generation⟩))

def sessionCurrent (token : SessionToken) (now : Instant) :
    Store × Except ClaimError (Option Download) :=
  let s := s.reap now
  if !s.sessionTokenIsCurrent token then (s, .error .staleClaim)
  else
    let owned := s.tickets.filter fun ticket => ticket.state.isOwnedBy token.generation
    (s, .ok (owned.findSome? fun ticket => ticket.downloads.head?))

def acknowledgeTicket (token : SessionToken) (current : Download) (ticket : TicketRecord) :
    TicketRecord :=
  if ticket.state.isOwnedBy token.generation then
    { ticket with
      downloads := ticket.downloads.filter fun download => download.fileHash ≠ current.fileHash }
  else ticket

def acknowledgeSessionCurrent (token : SessionToken) (now : Instant) :
    Store × Except ClaimError Unit :=
  match s.sessionCurrent token now with
  | (s, .error e) => (s, .error e)
  | (s, .ok none) => (s, .ok ())
  | (s, .ok (some current)) =>
    ({ s with tickets := s.tickets.map (acknowledgeTicket token current) }, .ok ())

/-- What `finish_session` makes of a ticket of the session: files left over wait for a fresh
    dispatch, and a ticket without any is dropped. -/
def finishTicket (token : SessionToken) (now : Instant) (ticket : TicketRecord) :
    Option TicketRecord :=
  if ticket.state.isOwnedBy token.generation then
    if ticket.downloads = [] then none
    else some { ticket with
      expiresAt := now + ticket.redispatchLifetime, state := .needsDispatch }
  else some ticket

def finishSession (token : SessionToken) (now : Instant) : Store × Except ClaimError Unit :=
  let s := s.reap now
  if !s.sessionTokenIsCurrent token then (s, .error .staleClaim)
  else
    let leftOver := s.tickets.filter fun ticket =>
      ticket.state.isOwnedBy token.generation && ticket.downloads ≠ []
    if leftOver.any fun ticket => clockMax < now + ticket.redispatchLifetime then
      (s, .error .deadlineOverflow)
    else ({ s with tickets := s.tickets.filterMap (finishTicket token now) }, .ok ())

end Store

end EmuleBB.Callback
