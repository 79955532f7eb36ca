import EmuleBB.Tcp.Cancellation
import EmuleBB.Tcp.Obfuscation

/-!
# An obfuscated session between two sides

One side connects and negotiates, the other accepts, and then each writes frames and reads packets
in an order of its own. All that a side can tell of the other is the bytes on the two wires. So a
session is described by **what stands on the two wires from the first byte to the last** (`Linked`):
each carries what the side at its one end writes when the side reads what is on the other. How the
sides take turns and in what pieces the bytes come in is left open: every read has a schedule
of its own.

The handshake puts the two ciphers of each direction at one position (`ensures_negotiate`,
`ensures_accept`), reading never moves the cipher a side writes with (`keeps_readPacket`), and the
reader takes exactly one frame a call. So the obfuscation is **transparent**: each side reads
exactly the packets the other wrote, in order.
-/

namespace EmuleBB.Tcp

open PacketSession

variable {frames : List Frame} {inflate : Inflate}

/-- What a side does with the open transport. A read comes with the pieces its bytes arrive in. -/
inductive SessionAct where
  | write (f : Frame)
  | read (schedule : Nat → Nat)

namespace SessionAct

def framesWritten : List SessionAct → List Frame
  | [] => []
  | write f :: acts => f :: framesWritten acts
  | read _ :: acts => framesWritten acts

def readsMade : List SessionAct → Nat
  | [] => 0
  | write _ :: acts => readsMade acts
  | read _ :: acts => readsMade acts + 1

end SessionAct

open SessionAct

def converse (inflate : Inflate) :
    List SessionAct → Ed2kTransport → List UInt8 → List UInt8 × List PacketResult
  | [], _, _ => ([], [])
  | .write f :: acts, t, wire =>
    let later := converse inflate acts (t.writeAll f.bytes).1 wire
    ((t.writeAll f.bytes).2 ++ later.1, later.2)
  | .read schedule :: acts, t, wire =>
    let packet := (t.readPacket inflate).run schedule wire
    let later := converse inflate acts packet.1 packet.2.2
    (later.1, packet.2.1 :: later.2)

/-- **What a side writes does not depend on what it reads**: its frames, under the cipher it had. -/
theorem converse_sent (acts : List SessionAct) (t : Ed2kTransport) (wire : List UInt8) :
    (converse inflate acts t wire).1 =
      (cipherApply t.sendCipher (streamOf (framesWritten acts))).1 := by
  induction acts generalizing t wire with
  | nil => simp [converse, framesWritten, streamOf]
  | cons act acts ih =>
    cases act with
    | write f =>
      show (t.writeAll f.bytes).2 ++ (converse inflate acts (t.writeAll f.bytes).1 wire).1 =
        (cipherApply t.sendCipher (f.bytes ++ streamOf (framesWritten acts))).1
      rw [ih, cipherApply, cipherApply, StreamCipher.applyOption_append]
      rfl
    | read schedule =>
      have hkept : ((t.readPacket inflate).run schedule wire).1.sendCipher = t.sendCipher :=
        (Ed2kTransport.keeps_readPacket inflate rfl).run schedule wire
      show (converse inflate acts _ _).1 = _
      rw [ih, hkept]
      rfl

/-- **What a side reads**: from the `n`-th frame of the stream on, one a call. -/
theorem converse_results (inflate : Inflate) (acts : List SessionAct) {t : Ed2kTransport}
    {wire : List UInt8} (n : Nat) (hstream : t.pending wire = streamOf (frames.drop n)) :
    (converse inflate acts t wire).2 =
      (List.range' n (readsMade acts)).map (expected inflate frames) := by
  induction acts generalizing t wire n with
  | nil => rfl
  | cons act acts ih =>
    cases act with
    | write => exact ih n hstream
    | read schedule =>
      have hpacket := (@ensures_nextPacket wire t inflate frames n hstream).run schedule
      show ((t.readPacket inflate).run schedule wire).2.1 :: (converse inflate acts _ _).2 = _
      rw [ih (n + 1) hpacket.2, hpacket.1]
      rfl

/-! ## The two sides -/

/-- One obfuscated session: what each side draws at random for the handshake, what it does
    afterwards, and in what pieces the handshake comes in. -/
structure ObfuscatedSession where
  md5 : Md5
  inflate : Inflate
  /-- The user hash of the side that accepts, which the other side addresses. -/
  userHash : UserHash
  randomKeyPart : Vector UInt8 4
  marker : UInt8
  marker_not_plain : isPlainEd2kProtocolMarker marker = false
  requestPadding : List UInt8
  requestPadding_le : requestPadding.length ≤ 128
  responsePadding : List UInt8
  responsePadding_le : responsePadding.length ≤ 128
  requesterActs : List SessionAct
  acceptorActs : List SessionAct
  requesterOpening : Nat → Nat
  acceptorOpening : Nat → Nat

namespace ObfuscatedSession

/-- The side that connects, when `wire` comes in: all that it writes, and what its reads return or
    how the handshake failed. -/
def requesterSide (s : ObfuscatedSession) (wire : List UInt8) :
    List UInt8 × Except HandshakeError (List PacketResult) :=
  let opening := (negotiateOutgoingObfuscationHandshake s.md5 s.userHash s.randomKeyPart s.marker
    s.requestPadding).run s.requesterOpening wire
  match opening.2.1 with
  | .error e => (opening.1, .error e)
  | .ok ciphers =>
    let session := converse s.inflate s.requesterActs
      (.fromParts [] (some ciphers.1) (some ciphers.2)) opening.2.2
    (opening.1 ++ session.1, .ok session.2)

def acceptorSide (s : ObfuscatedSession) (wire : List UInt8) :
    List UInt8 × Except HandshakeError (List PacketResult) :=
  let opening := (accept s.md5 s.userHash s.responsePadding).run s.acceptorOpening wire
  match opening.2.1 with
  | .error e => (opening.1, .error e)
  | .ok t =>
    let session := converse s.inflate s.acceptorActs t opening.2.2
    (opening.1 ++ session.1, .ok session.2)

/-- **The two wires of a session**: each carries what the side at its end writes when it reads what
    the other one carries. -/
def Linked (s : ObfuscatedSession) (toRequester toAcceptor : List UInt8) : Prop :=
  toAcceptor = (s.requesterSide toRequester).1 ∧ toRequester = (s.acceptorSide toAcceptor).1

section

variable (s : ObfuscatedSession)

def requestBytes : List UInt8 :=
  request s.md5 s.userHash s.randomKeyPart s.marker s.requestPadding

def responseBytes : List UInt8 := response s.md5 s.userHash s.randomKeyPart s.responsePadding

def toAcceptorCipher : Rc4KeyStream :=
  requesterCipherAfter s.md5 s.userHash s.randomKeyPart s.requestPadding

def toRequesterCipher : Rc4KeyStream :=
  serverCipherAfter s.md5 s.userHash s.randomKeyPart s.responsePadding

def toAcceptorFrames : List UInt8 :=
  (cipherApply (some s.toAcceptorCipher) (streamOf (framesWritten s.requesterActs))).1

def toRequesterFrames : List UInt8 :=
  (cipherApply (some s.toRequesterCipher) (streamOf (framesWritten s.acceptorActs))).1

theorem requesterSide_request (wire : List UInt8) :
    ∃ rest, (s.requesterSide wire).1 = s.requestBytes ++ rest := by
  have hsent := (@keeps_negotiate s.md5 s.userHash s.randomKeyPart s.marker s.requestPadding).run
    s.requesterOpening wire
  unfold requesterSide
  dsimp only
  split
  · exact ⟨[], by rw [List.append_nil]; exact hsent⟩
  · exact ⟨_, congrArg (· ++ _) hsent⟩

theorem requesterSide_response (rest : List UInt8) : s.requesterSide (s.responseBytes ++ rest) =
      (s.requestBytes ++ s.toAcceptorFrames,
        .ok (converse s.inflate s.requesterActs
          (.fromParts [] (some s.toRequesterCipher) (some s.toAcceptorCipher)) rest).2) := by
  have hpadding := s.responsePadding_le
  obtain ⟨hsent, hresult, hrest⟩ := (@ensures_negotiate s.md5 s.userHash s.randomKeyPart s.marker
    s.requestPadding s.responsePadding rest (by omega)).run s.requesterOpening
  unfold requesterSide
  dsimp only
  rw [responseBytes, hsent, hresult, hrest]
  dsimp only
  rw [converse_sent]
  rfl

theorem acceptorSide_request (rest : List UInt8) : s.acceptorSide (s.requestBytes ++ rest) =
      (s.responseBytes ++ s.toRequesterFrames,
        .ok (converse s.inflate s.acceptorActs
          (.fromParts [] (some s.toAcceptorCipher) (some s.toRequesterCipher)) rest).2) := by
  have hpadding := s.requestPadding_le
  obtain ⟨hsent, hresult, hrest⟩ := (@ensures_accept s.md5 s.userHash s.randomKeyPart s.marker
    s.requestPadding s.responsePadding rest s.marker_not_plain (by omega)).run s.acceptorOpening
  unfold acceptorSide
  dsimp only
  rw [requestBytes, hsent, hresult, hrest]
  dsimp only
  rw [converse_sent]
  rfl

theorem linked_iff {toRequester toAcceptor : List UInt8} : s.Linked toRequester toAcceptor ↔
      toRequester = s.responseBytes ++ s.toRequesterFrames ∧
      toAcceptor = s.requestBytes ++ s.toAcceptorFrames := by
  constructor
  · rintro ⟨hacceptor, hrequester⟩
    -- the request comes first, so the acceptor answers it, so the requester is in session
    obtain ⟨rest, hrest⟩ := s.requesterSide_request toRequester
    rw [hacceptor, hrest, acceptorSide_request] at hrequester
    rw [hrequester, requesterSide_response] at hacceptor
    exact ⟨hrequester, hacceptor⟩
  · rintro ⟨rfl, rfl⟩
    refine ⟨?_, ?_⟩
    · rw [requesterSide_response]
    · rw [acceptorSide_request]

end

end ObfuscatedSession

theorem pending_fromParts (c : Rc4KeyStream) (send : Option Rc4KeyStream) (frames : List Frame) :
    (Ed2kTransport.fromParts [] (some c) send).pending
      (cipherApply (some c) (streamOf frames)).1 = streamOf frames := by
  show [] ++ ([] ++ (cipherApply (some c) (cipherApply (some c) (streamOf frames)).1).1) = _
  simp [cipherApply, StreamCipher.applyOption, StreamCipher.apply_apply]

/-- What the `n`-th read of a side has to return when the other side wrote `frames`. -/
def delivered (frames : List Frame) (n : Nat) : PacketResult :=
  match frames[n]? with
  | some f => .ok (some ⟨f.protocol, f.opcode, f.payload⟩)
  | none => .ok none

theorem expected_eq_delivered (h : ∀ f ∈ frames, f.protocol ≠ opPackedProt) (n : Nat) :
    expected inflate frames n = delivered frames n := by
  unfold expected delivered
  cases hf : frames[n]? with
  | none => rfl
  | some f =>
    have hplain := h f (List.mem_of_getElem? hf)
    simp [Frame.packet, decodePeerPayload, hplain, Except.map]

theorem converse_delivered {c : Rc4KeyStream} (acts : List SessionAct) (send : Option Rc4KeyStream)
    (h : ∀ f ∈ frames, f.protocol ≠ opPackedProt) :
    (converse inflate acts (.fromParts [] (some c) send)
      (cipherApply (some c) (streamOf frames)).1).2 =
        (List.range (readsMade acts)).map (delivered frames) := by
  rw [converse_results inflate acts 0 (pending_fromParts c send frames), List.range_eq_range']
  apply List.map_congr_left
  intro n _
  exact expected_eq_delivered h n

/-- **Obfuscated sessions are transparent.** Whatever both sides draw at random, however the bytes
    are cut into pieces and in whatever order the sides write and read, both handshakes succeed, and
    each read of a side returns the next packet the other side wrote, and nothing
    behind the last. -/
theorem obfuscated_session_transparent (s : ObfuscatedSession)
    (hrequester : ∀ f ∈ framesWritten s.requesterActs, f.protocol ≠ opPackedProt)
    (hacceptor : ∀ f ∈ framesWritten s.acceptorActs, f.protocol ≠ opPackedProt) :
    (∃ toRequester toAcceptor, s.Linked toRequester toAcceptor) ∧
    ∀ toRequester toAcceptor, s.Linked toRequester toAcceptor →
      (s.requesterSide toRequester).2 = .ok ((List.range (readsMade s.requesterActs)).map
        (delivered (framesWritten s.acceptorActs))) ∧
      (s.acceptorSide toAcceptor).2 = .ok ((List.range (readsMade s.acceptorActs)).map
        (delivered (framesWritten s.requesterActs))) := by
  refine ⟨⟨_, _, s.linked_iff.mpr ⟨rfl, rfl⟩⟩, ?_⟩
  intro toRequester toAcceptor hlinked
  obtain ⟨rfl, rfl⟩ := s.linked_iff.mp hlinked
  rw [s.requesterSide_response, s.acceptorSide_request]
  refine ⟨?_, ?_⟩
  · exact congrArg _ (converse_delivered _ _ hacceptor)
  · exact congrArg _ (converse_delivered _ _ hrequester)

def smallExchange : ObfuscatedSession where
  md5 := fun _ => Vector.replicate 16 0
  inflate := fun _ => ([], false)
  userHash := zeroUserHash
  randomKeyPart := #v[1, 2, 3, 4]
  marker := 0x10
  marker_not_plain := by decide
  requestPadding := [7, 7, 7]
  requestPadding_le := by decide
  responsePadding := []
  responsePadding_le := by decide
  requesterActs := [.write smallFrame, .read fun _ => 1, .read fun _ => 1]
  acceptorActs := [.read fun _ => 1, .write smallFrame]
  requesterOpening := fun _ => 1
  acceptorOpening := fun _ => 5

/-- One packet each way, and the end of the stream. -/
theorem small_exchange_transparent :
    ∃ toRequester toAcceptor, smallExchange.Linked toRequester toAcceptor ∧
      (smallExchange.requesterSide toRequester).2 =
        .ok [.ok (some ⟨opEdonkeyProt, 0x46, [0x2A]⟩), .ok none] ∧
      (smallExchange.acceptorSide toAcceptor).2 =
        .ok [.ok (some ⟨opEdonkeyProt, 0x46, [0x2A]⟩)] := by
  obtain ⟨⟨toRequester, toAcceptor, hlinked⟩, hread⟩ :=
    obfuscated_session_transparent smallExchange (by decide) (by decide)
  exact ⟨toRequester, toAcceptor, hlinked, hread toRequester toAcceptor hlinked⟩

end EmuleBB.Tcp
