import EmuleBB.Lib.Run
import EmuleBB.Upload.Operations

/-!
# The upload queue in use

The queue with the **work guards** that are alive outside it. A guard is taken by
`begin_upload_work` and dropped when the request it was taken for is served or fails, with or
without the queue's lock; bytes on the wire are counted the same way. Every other event is a call
on the queue.

The map of sessions is iterated in an order nobody controls. `bringForward` moves one session to
the front of that order, so the runs of this system contain every order of every call.
-/

namespace EmuleBB.Upload

open Peer

/-- The calls of the queue, each at its time. -/
inductive Event
  | configure (config : QueueConfig) (now : Instant)
  | capacitySnapshot (now : Instant)
  | snapshot (now : Instant)
  | beginSession (key : SessionKey) (connectionId : Nat) (inputs : ScoreInputs)
      (liveSameIpConnections : Nat) (now : Instant)
  | beginUploadWork (handle : SessionHandle) (now : Instant)
  | dropGuard (lease : Nat)
  | noteWireProgress (lease byteCount : Nat)
  | pollSession (handle : SessionHandle) (now : Instant) (refreshActivity : Bool)
  | refreshSessionPeer (handle : SessionHandle) (peer : PeerIdentity) (inputs : ScoreInputs)
      (now : Instant)
  | noteRequestParts (handle : SessionHandle) (now : Instant)
  | noteQueuedBlockRequest (peer : PeerIdentity) (now : Instant)
  | noteRequestedRange (handle : SessionHandle) (start finish : Nat) (now : Instant)
  | noteServedRange (handle : SessionHandle) (start finish : Nat) (now : Instant)
  | noteUploadedBytes (handle : SessionHandle) (byteCount : Nat) (now : Instant)
  | releaseSession (handle : SessionHandle) (now : Instant)
  | noteFailedPromotion (peer : PeerIdentity) (now : Instant)
  | releaseClient (clientId : ClientSelector) (waitingQueue : Bool) (now : Instant)
  | lookupWaitingReaskClient (ip : IpAddr) (udpPort : UInt16) (now : Instant)
  | refreshWaitingReaskState (key : SessionKey) (now : Instant)
  | takePendingPromotions (now : Instant) (connectTimeout : Duration)
      (nextConnectionId : Nat → Nat)
  | beginCallbackDispatch (permit : CallbackPermit) (route : CallbackRoute) (now : Instant)
  | cancelCallbackKnownNotSent (permit : CallbackPermit) (now : Instant)
  | claimCallbackPromotion (observedPeer : PeerIdentity) (connectionId : Nat) (now : Instant)
  | updateFilePriority (fileHash : Md4Digest) (filePriorityScore : Int)
  | maintain (sharedFileHashes : List Md4Digest) (now : Instant)
  | bringForward (key : SessionKey)

/-- The peers that the call presents have a user hash. -/
def Event.identified : Event → Bool
  | .beginSession key .. => key.peer.hasUserHash
  | .refreshSessionPeer _ peer .. => peer.hasUserHash
  | .claimCallbackPromotion observedPeer .. => observedPeer.hasUserHash
  | _ => true

def Event.reconfigures : Event → Bool
  | .configure .. => true
  | _ => false

/-- The time of the maintenance that an event's call does before anything else. -/
def Event.reapsAt : Event → Option Instant
  | .capacitySnapshot now => some now
  | .snapshot now => some now
  | .beginSession _ _ _ _ now => some now
  | .pollSession _ now _ => some now
  | .refreshSessionPeer _ _ _ now => some now
  | .noteRequestParts _ now => some now
  | .noteRequestedRange _ _ _ now => some now
  | .noteServedRange _ _ _ now => some now
  | .noteUploadedBytes _ _ now => some now
  | .releaseClient _ _ now => some now
  | .lookupWaitingReaskClient _ _ now => some now
  | .beginCallbackDispatch _ _ now => some now
  | .cancelCallbackKnownNotSent _ now => some now
  | .claimCallbackPromotion _ _ now => some now
  | _ => none

namespace Queue

/-- Change the session that holds a lease, as its handles and guards do without the lock. -/
def shareLease (q : Queue) (lease : Nat) (f : Session → Session) : Queue :=
  { q with
    sessions := q.sessions.map fun session =>
      if session.lease = lease then f session else session }

def noteWireProgress (q : Queue) (lease byteCount : Nat) : Queue :=
  q.shareLease lease fun session =>
    { session with wireProgressBytes := (session.wireProgressBytes + byteCount) % 2 ^ 64 }

def endUploadWork (q : Queue) (lease : Nat) : Queue :=
  q.shareLease lease fun session => { session with inFlightWork := session.inFlightWork - 1 }

def bringForward (q : Queue) (key : SessionKey) : Queue :=
  { q with
    sessions := q.sessions.filter (fun session => session.key.same key)
      ++ q.sessions.filter (fun session => !session.key.same key) }

def apply (q : Queue) : Event → Queue
  | .configure config now => q.configure config now
  | .capacitySnapshot now => q.capacitySnapshot now
  | .snapshot now => q.reapExpiredSessions now
  | .beginSession key connectionId inputs live now =>
    (q.beginSessionWithLiveConnections key connectionId inputs live now).1
  | .beginUploadWork handle now => (q.beginUploadWork handle now).1
  | .dropGuard lease => q.endUploadWork lease
  | .noteWireProgress lease byteCount => q.noteWireProgress lease byteCount
  | .pollSession handle now refreshActivity => (q.pollSession handle now refreshActivity).1
  | .refreshSessionPeer handle peer inputs now => (q.refreshSessionPeer handle peer inputs now).1
  | .noteRequestParts handle now => (q.noteRequestParts handle now).1
  | .noteQueuedBlockRequest peer now => (q.noteQueuedBlockRequest peer now).1
  | .noteRequestedRange handle start finish now => (q.noteRequestedRange handle start finish now).1
  | .noteServedRange handle start finish now => (q.noteServedRange handle start finish now).1
  | .noteUploadedBytes handle byteCount now => (q.noteUploadedBytes handle byteCount now).1
  | .releaseSession handle now => q.releaseSession handle now
  | .noteFailedPromotion peer now => q.noteFailedPromotion peer now
  | .releaseClient clientId waitingQueue now => (q.releaseClient clientId waitingQueue now).1
  | .lookupWaitingReaskClient ip udpPort now => (q.lookupWaitingReaskClient ip udpPort now).1
  | .refreshWaitingReaskState key now => (q.refreshWaitingReaskState key now).1
  | .takePendingPromotions now connectTimeout nextConnectionId =>
    (q.takePendingPromotions now connectTimeout nextConnectionId).1
  | .beginCallbackDispatch permit route now => (q.beginCallbackDispatch permit route now).1
  | .cancelCallbackKnownNotSent permit now => (q.cancelCallbackKnownNotSent permit now).1
  | .claimCallbackPromotion observedPeer connectionId now =>
    (q.claimCallbackPromotion observedPeer connectionId now).1
  | .updateFilePriority fileHash filePriorityScore =>
    q.updateFilePriority fileHash filePriorityScore
  | .maintain sharedFileHashes now => q.maintain sharedFileHashes now
  | .bringForward key => q.bringForward key

end Queue

/-- The queue, and the leases of the guards that are held. -/
structure System where
  queue : Queue
  guards : List Nat

namespace System

def start (config : QueueConfig) : System := ⟨.new config, []⟩

def step (s : System) (event : Event) : System :=
  match event with
  | .beginUploadWork handle now =>
    ⟨s.queue.apply event, (s.queue.beginUploadWork handle now).2.toList ++ s.guards⟩
  | .dropGuard lease =>
    if lease ∈ s.guards then ⟨s.queue.apply event, s.guards.erase lease⟩ else s
  | event => ⟨s.queue.apply event, s.guards⟩

def run (config : QueueConfig) (events : List Event) : System := Run.run step (start config) events

theorem step_queue (s : System) (event : Event) :
    (s.step event).queue = s.queue.apply event ∨ (s.step event) = s := by
  cases event with
  | dropGuard lease =>
    by_cases h : lease ∈ s.guards
    · exact .inl (by simp [step, h])
    · exact .inr (by simp [step, h])
  | _ => exact .inl rfl

end System

end EmuleBB.Upload
