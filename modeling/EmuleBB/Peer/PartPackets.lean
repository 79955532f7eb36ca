import EmuleBB.Peer.Messages

/-!
# Part data on the wire

A served range leaves as a sequence of packets and comes back as one pending request. The sender
splits the bytes into fragments and picks **the offset width per fragment**, from the fragment's
end; the receiver reads frames off the stream, takes the width from the opcode, and accepts a
fragment only where the pending request left off.

Deflate and inflate are parameters. The receiver is the `OP_SENDINGPART` half of the download
session; compressed parts are built here and not read back.
-/

namespace EmuleBB.Peer

variable {stop : Nat} {bytes : List UInt8}

/-! ## Frames -/

def opEdonkeyprot : UInt8 := 0xE3
def opPackedprot : UInt8 := 0xD4
def opEmuleprot : UInt8 := 0xC5
def opSendingpart : UInt8 := 0x46
def opSendingpartI64 : UInt8 := 0xA2
def opCompressedpart : UInt8 := 0x40
def opCompressedpartI64 : UInt8 := 0xA1

def maxEd2kPacketLen : Nat := 2000000

def maxPeerDecompressedPacketLen : Nat := 50000

/-- The errors of both sides, with what their messages say. -/
inductive PartError
  | invalidProtocol (marker : UInt8)
  | zeroLength
  | oversized (len : Nat)
  | unexpectedEof
  | inflateFailed
  | decompressedTooLong
  | shortSendingPart (len : Nat)
  | invalidRange (start stop : Nat)
  | bodyLength (len start stop : Nat)
  | uploadLength (len start stop : Nat)
  | startOffset
  | endOffset
  | compressedLength
  | compressedStartOffset
  | unexpectedResponse (start stop pendingStart pendingEnd receivedEnd : Nat)
  deriving DecidableEq

structure EmuleTcpPacket where
  protocol : UInt8
  opcode : UInt8
  payload : List UInt8
  deriving DecidableEq

def encodePacket (protocol opcode : UInt8) (payload : List UInt8) : List UInt8 :=
  protocol :: (putLe 4 (payload.length + 1) ++ opcode :: payload)

variable (inflate : List UInt8 → Option (List UInt8))

def decodePeerPayload (protocol : UInt8) (payload : List UInt8) :
    Except PartError (UInt8 × List UInt8) :=
  if protocol ≠ opPackedprot then .ok (protocol, payload)
  else
    match inflate payload with
    | none => .error .inflateFailed
    | some decoded =>
      if maxPeerDecompressedPacketLen < decoded.length then .error .decompressedTooLong
      else .ok (opEmuleprot, decoded)

def readPacket :
    List UInt8 → Except PartError (Option (EmuleTcpPacket × List UInt8))
  | [] => .ok none
  | protocol :: stream =>
    match takeLe 4 stream with
    | none => .error .unexpectedEof
    | some (_, []) => .error .unexpectedEof
    | some (packetLength, opcode :: stream) =>
      if protocol ≠ opEdonkeyprot ∧ protocol ≠ opPackedprot ∧ protocol ≠ opEmuleprot then
        .error (.invalidProtocol protocol)
      else if packetLength = 0 then .error .zeroLength
      else if maxEd2kPacketLen < packetLength - 1 then .error (.oversized (packetLength - 1))
      else
        match takeBytes (packetLength - 1) stream with
        | none => .error .unexpectedEof
        | some (payload, stream) => do
          let (protocol, payload) ← decodePeerPayload inflate protocol payload
          return some (⟨protocol, opcode, payload⟩, stream)

/-- **A frame reads back as it was written**, and leaves the rest of the stream. -/
theorem readPacket_encodePacket {protocol : UInt8}
    (hprotocol : protocol = opEdonkeyprot ∨ protocol = opEmuleprot) (opcode : UInt8)
    {payload : List UInt8} (hlen : payload.length ≤ maxEd2kPacketLen) (stream : List UInt8) :
    readPacket inflate (encodePacket protocol opcode payload ++ stream) =
      .ok (some (⟨protocol, opcode, payload⟩, stream)) := by
  have hfits : payload.length + 1 < 256 ^ 4 := by
    unfold maxEd2kPacketLen at hlen
    omega
  have hplain : protocol ≠ opPackedprot := by
    rcases hprotocol with rfl | rfl <;> decide
  have hknown :
    ¬ (protocol ≠ opEdonkeyprot ∧ protocol ≠ opPackedprot ∧ protocol ≠ opEmuleprot) := by
    rcases hprotocol with rfl | rfl <;> simp
  simp only [encodePacket, List.cons_append, List.append_assoc, readPacket,
    takeLe_putLe hfits, Nat.add_sub_cancel]
  rw [if_neg hknown, if_neg (Nat.succ_ne_zero _), if_neg (Nat.not_lt.mpr hlen),
    takeBytes_append rfl]
  simp [decodePeerPayload, hplain]

/-! ## Sending parts -/

def encodeSendingPart (fileHash : Md4Digest) (start stop : Nat) (bytes : List UInt8)
    (useI64 : Bool) : Except PartError (List UInt8) :=
  if useI64 then
    .ok (encodePacket opEmuleprot opSendingpartI64
      (fileHash.toList ++ (putLe 8 start ++ (putLe 8 stop ++ bytes))))
  else if u32Max < start then .error .startOffset
  else if u32Max < stop then .error .endOffset
  else
    .ok (encodePacket opEdonkeyprot opSendingpart
      (fileHash.toList ++ (putLe 4 start ++ (putLe 4 stop ++ bytes))))

def encodeCompressedPartFragment (fileHash : Md4Digest) (start advertisedCompressedLen : Nat)
    (fragment : List UInt8) (useI64 : Bool) : Except PartError (List UInt8) :=
  if u32Max < advertisedCompressedLen then .error .compressedLength
  else if useI64 then
    .ok (encodePacket opEmuleprot opCompressedpartI64
      (fileHash.toList ++ (putLe 8 start ++ (putLe 4 advertisedCompressedLen ++ fragment))))
  else if u32Max < start then .error .compressedStartOffset
  else
    .ok (encodePacket opEmuleprot opCompressedpart
      (fileHash.toList ++ (putLe 4 start ++ (putLe 4 advertisedCompressedLen ++ fragment))))

def ed2kUploadPacketSplitThreshold : Nat := 13000

def ed2kUploadPacketFragmentLen : Nat := 10240

def uploadPacketFragmentLen (remaining : Nat) : Nat :=
  if remaining < ed2kUploadPacketSplitThreshold then remaining else ed2kUploadPacketFragmentLen

/-- The fragment loop: `encode offset fragment` for each fragment of `bytes` from `offset` on. A
    fragment is never empty, so as many turns as there are bytes left are enough. -/
def fragmentLoop (encode : Nat → List UInt8 → Except PartError (List UInt8))
    (bytes : List UInt8) : Nat → Nat → Except PartError (List (List UInt8))
  | 0, _ => .ok []
  | turns + 1, offset =>
    if bytes.length ≤ offset then .ok []
    else do
      let fragmentLen := uploadPacketFragmentLen (bytes.length - offset)
      let packet ← encode offset ((bytes.drop offset).take fragmentLen)
      let packets ← fragmentLoop encode bytes turns (offset + fragmentLen)
      return packet :: packets

/-- The range as packets, compressed where that pays. -/
def buildUploadPartPackets (compress : List UInt8 → Except PartError (Option (List UInt8)))
    (fileHash : Md4Digest) (start stop : Nat) (bytes : List UInt8) :
    Except PartError (List (List UInt8)) :=
  if stop - start ≠ bytes.length then .error (.uploadLength bytes.length start stop)
  else do
    match ← compress bytes with
    | some compressed =>
      fragmentLoop
        (fun _ fragment =>
          encodeCompressedPartFragment fileHash start compressed.length fragment
            (decide (u32Max < stop)))
        compressed compressed.length 0
    | none =>
      fragmentLoop
        (fun offset fragment =>
          encodeSendingPart fileHash (start + offset) (start + offset + fragment.length) fragment
            (decide (u32Max < start + offset + fragment.length)))
        bytes bytes.length 0

/-! ## Receiving parts -/

def decodeSendingPartPayload (payload : List UInt8) (useI64 : Bool) :
    Except PartError (Md4Digest × Nat × Nat × List UInt8) :=
  let width := if useI64 then 8 else 4
  match takeMd4 payload with
  | none => .error (.shortSendingPart payload.length)
  | some (hash, rest) =>
    match takeLe width rest with
    | none => .error (.shortSendingPart payload.length)
    | some (start, rest) =>
      match takeLe width rest with
      | none => .error (.shortSendingPart payload.length)
      | some (stop, bytes) =>
        if stop < start then .error (.invalidRange start stop)
        else if stop - start ≠ bytes.length then .error (.bodyLength bytes.length start stop)
        else .ok (hash, start, stop, bytes)

/-- A block request of a download session; the lease it may hold is not part of this model. -/
structure PendingPartRequest where
  pieceIndex : Nat
  start : Nat
  stop : Nat
  queued : Bool
  receivedEnd : Nat
  responseBytes : List UInt8
  deriving DecidableEq

namespace PendingPartRequest

def new (pieceIndex start stop : Nat) : PendingPartRequest :=
  ⟨pieceIndex, start, stop, false, start, []⟩

variable (request : PendingPartRequest)

def matchesUncompressedFragment (start stop : Nat) : Bool :=
  request.queued && request.receivedEnd == start && start ≤ stop && stop ≤ request.stop

def bufferResponseBytes (start stop : Nat) (bytes : List UInt8) :
    Except PartError PendingPartRequest :=
  if start ≠ request.receivedEnd ∨ stop ≠ start + bytes.length ∨ request.stop < stop then
    .error (.unexpectedResponse start stop request.start request.stop request.receivedEnd)
  else
    .ok { request with
      responseBytes := request.responseBytes ++ bytes
      receivedEnd := stop }

def isReady : Bool := request.receivedEnd == request.stop

def overlaps (start stop : Nat) : Bool :=
  request.queued && request.start ≤ start && start < request.receivedEnd && stop ≤ request.stop

end PendingPartRequest

open PendingPartRequest List

/-- What a packet is to the requests that wait. -/
inductive PartOutcome
  | buffered
  | duplicatePrefixConsumed
  | duplicateRange
  | unexpectedHash
  | withoutQueuedRequest
  | unexpectedLength
  | unexpectedRange
  deriving DecidableEq

def bufferAt (pending : List PendingPartRequest) (index start stop : Nat) (bytes : List UInt8) :
    Except PartError (List PendingPartRequest) :=
  match pending[index]? with
  | none => .ok pending
  | some request => do
    let request ← request.bufferResponseBytes start stop bytes
    return pending.set index request

/-- The `OP_SENDINGPART` half of `handle_download_part_packet`, for a session none of whose
    compressed streams failed. -/
def handleDownloadPartPacket (fileHash : Md4Digest) (pending : List PendingPartRequest)
    (packet : EmuleTcpPacket) : Except PartError (PartOutcome × List PendingPartRequest) := do
  let (returnedHash, start, stop, bytes) ←
    decodeSendingPartPayload packet.payload (packet.opcode == opSendingpartI64)
  if returnedHash ≠ fileHash then return (.unexpectedHash, pending)
  else if !pending.any (·.queued) then return (.withoutQueuedRequest, pending)
  else
    match pending.findIdx? fun request => request.matchesUncompressedFragment start stop with
    | some index =>
      if stop ≠ start + bytes.length then return (.unexpectedLength, pending)
      else return (.buffered, ← bufferAt pending index start stop bytes)
    | none =>
      match pending.findIdx? fun request => request.overlaps start stop with
      | none => return (.unexpectedRange, pending)
      | some index =>
        let receivedEnd := (pending[index]?.map (·.receivedEnd)).getD 0
        if receivedEnd < stop ∧ stop = start + bytes.length then
          return (.duplicatePrefixConsumed,
            ← bufferAt pending index receivedEnd stop (bytes.drop (receivedEnd - start)))
        else return (.duplicateRange, pending)

/-- A session that read some packets: what became of each with the requests after it, the requests
    now, and the rest of the stream. -/
structure Reception where
  received : List (PartOutcome × List PendingPartRequest)
  pending : List PendingPartRequest
  stream : List UInt8
  deriving DecidableEq

/-- The packets one after the other, as long as they are asked for. -/
def receiveParts (inflate : List UInt8 → Option (List UInt8)) (fileHash : Md4Digest) :
    Nat → List UInt8 → List PendingPartRequest → Except PartError Reception
  | 0, stream, pending => .ok ⟨[], pending, stream⟩
  | count + 1, stream, pending => do
    match ← readPacket inflate stream with
    | none => throw .unexpectedEof
    | some (packet, stream) =>
      let (outcome, pending) ← handleDownloadPartPacket fileHash pending packet
      let rest ← receiveParts inflate fileHash count stream pending
      return { rest with received := (outcome, pending) :: rest.received }

/-! ## One fragment -/

theorem takeMd4_toList (digest : Md4Digest) (rest : List UInt8) :
    takeMd4 (digest.toList ++ rest) = some (digest, rest) := by
  have htake : (digest.toList ++ rest).take 16 = digest.toList := take_left' (by simp)
  have hdrop : (digest.toList ++ rest).drop 16 = rest := drop_left' (by simp)
  unfold takeMd4
  rw [dif_pos (by simp)]
  simp only [htake, hdrop]
  rfl

theorem decodeSendingPartPayload_append (fileHash : Md4Digest) {start : Nat} (useI64 : Bool)
    (hstop : stop = start + bytes.length) (hfits : stop < 256 ^ (if useI64 then 8 else 4)) :
    decodeSendingPartPayload
        (fileHash.toList ++ (putLe (if useI64 then 8 else 4) start ++
          (putLe (if useI64 then 8 else 4) stop ++ bytes))) useI64 =
      .ok (fileHash, start, stop, bytes) := by
  have hstart : start < 256 ^ (if useI64 then 8 else 4) := by omega
  simp only [decodeSendingPartPayload, takeMd4_toList, takeLe_putLe hstart, takeLe_putLe hfits]
  rw [if_neg (by omega), if_neg (by omega)]

def PendingPartRequest.extend (request : PendingPartRequest) (bytes : List UInt8) :
    PendingPartRequest :=
  { request with
    responseBytes := request.responseBytes ++ bytes
    receivedEnd := request.receivedEnd + bytes.length }

theorem PendingPartRequest.extend_nil (request : PendingPartRequest) :
    request.extend [] = request := by
  simp [extend]

theorem PendingPartRequest.extend_append (request : PendingPartRequest) (more : List UInt8) :
    (request.extend bytes).extend more = request.extend (bytes ++ more) := by
  simp [extend, Nat.add_assoc]

theorem handleDownloadPartPacket_expected {fileHash : Md4Digest} {request : PendingPartRequest}
    {packet : EmuleTcpPacket} (hqueued : request.queued = true)
    (hstop : stop = request.receivedEnd + bytes.length) (hle : stop ≤ request.stop)
    (hdecode : decodeSendingPartPayload packet.payload (packet.opcode == opSendingpartI64) =
      .ok (fileHash, request.receivedEnd, stop, bytes)) :
    handleDownloadPartPacket fileHash [request] packet =
      .ok (.buffered, [request.extend bytes]) := by
  have hmatch : request.matchesUncompressedFragment request.receivedEnd stop = true := by
    simp [matchesUncompressedFragment, hqueued, hle]
    omega
  have hfind : [request].findIdx?
      (fun r => r.matchesUncompressedFragment request.receivedEnd stop) = some 0 := by
    rw [findIdx?_cons, hmatch]
    rfl
  have hbuffer : bufferAt [request] 0 request.receivedEnd stop bytes =
      .ok [request.extend bytes] := by
    simp only [bufferAt, getElem?_cons_zero, bufferResponseBytes]
    rw [if_neg (by simp only [ne_eq, not_true_eq_false, false_or]; omega), hstop]
    rfl
  have hany : (!any [request] (·.queued)) = false := by simp [hqueued]
  simp only [handleDownloadPartPacket, hdecode, Except.ok_bind, ne_eq, not_true_eq_false, if_false,
    hany, Bool.false_eq_true, hfind]
  rw [if_neg (by omega), hbuffer]
  rfl

/-- **A fragment crosses the wire.** Whichever width its end asks for, it is encoded, its frame is
    read back, and the opcode gives the width that decodes it. -/
theorem encodeSendingPart_readable (fileHash : Md4Digest) (start : Nat)
    (hstop : stop = start + bytes.length) (hfits : stop < 2 ^ 64)
    (hlen : bytes.length ≤ ed2kUploadPacketSplitThreshold) :
    ∃ packet, encodeSendingPart fileHash start stop bytes (decide (u32Max < stop)) = .ok packet ∧
      ∀ stream, ∃ read, readPacket inflate (packet ++ stream) = .ok (some (read, stream)) ∧
        decodeSendingPartPayload read.payload (read.opcode == opSendingpartI64) =
          .ok (fileHash, start, stop, bytes) := by
  unfold ed2kUploadPacketSplitThreshold at hlen
  by_cases hwide : u32Max < stop
  · refine ⟨_, by simp [encodeSendingPart, hwide]; rfl, fun stream => ?_⟩
    refine ⟨_, readPacket_encodePacket inflate (.inr rfl) _ ?_ stream, ?_⟩
    · simp [maxEd2kPacketLen]
      omega
    · exact decodeSendingPartPayload_append fileHash true hstop (by simpa using hfits)
  · have hnarrow : stop < 256 ^ 4 := by
      unfold u32Max at hwide
      omega
    refine ⟨_, by simp [encodeSendingPart, hwide, show ¬ u32Max < start by omega]; rfl,
      fun stream => ?_⟩
    refine ⟨_, readPacket_encodePacket inflate (.inl rfl) _ ?_ stream, ?_⟩
    · simp [maxEd2kPacketLen]
      omega
    · exact decodeSendingPartPayload_append fileHash false hstop hnarrow

theorem uploadPacketFragmentLen_pos {remaining : Nat} (h : 0 < remaining) :
    0 < uploadPacketFragmentLen remaining := by
  unfold uploadPacketFragmentLen ed2kUploadPacketFragmentLen
  split <;> omega

theorem uploadPacketFragmentLen_le (remaining : Nat) :
    uploadPacketFragmentLen remaining ≤ remaining ∧
      uploadPacketFragmentLen remaining ≤ ed2kUploadPacketSplitThreshold := by
  unfold uploadPacketFragmentLen ed2kUploadPacketFragmentLen ed2kUploadPacketSplitThreshold
  split <;> omega

/-! ## A served range -/

/-- The receiver took every fragment in turn: each was the continuation of the request, none went
    past its end, and the request holds the bytes up to `stop`. -/
structure TakenInTurn (request : PendingPartRequest) (bytes : List UInt8)
    (stream : List UInt8) (result : Reception) : Prop where
  buffered : ∀ step ∈ result.received, step.1 = .buffered ∧ ∀ r ∈ step.2, r.receivedEnd ≤ r.stop
  pending : result.pending = [request.extend bytes]
  stream : result.stream = stream

/-- **What the fragments carry is what is received**, from any offset. -/
theorem fragmentLoop_received (fileHash : Md4Digest) {start : Nat}
    (hfits : start + bytes.length < 2 ^ 64) (turns : Nat) {offset : Nat}
    (hoffset : offset ≤ bytes.length) (hturns : bytes.length ≤ offset + turns) : ∃ packets,
      fragmentLoop
          (fun offset fragment =>
            encodeSendingPart fileHash (start + offset) (start + offset + fragment.length) fragment
              (decide (u32Max < start + offset + fragment.length)))
          bytes turns offset = .ok packets ∧
      ∀ (request : PendingPartRequest) (stream : List UInt8), request.queued = true →
        request.receivedEnd = start + offset → request.stop = start + bytes.length →
        ∃ result,
          receiveParts inflate fileHash packets.length (packets.flatten ++ stream) [request] =
            .ok result ∧
          TakenInTurn request (bytes.drop offset) stream result := by
  induction turns generalizing offset with
  | zero =>
    have hdone : bytes.drop offset = [] := drop_eq_nil_of_le (by omega)
    refine ⟨[], rfl, fun request stream hqueued hreceived hstop => ⟨_, rfl, ?_, ?_, rfl⟩⟩
    · exact fun step hstep => absurd hstep (by simp)
    · rw [hdone, request.extend_nil]
  | succ turns ih =>
    by_cases hend : bytes.length ≤ offset
    · have hdone : bytes.drop offset = [] := drop_eq_nil_of_le hend
      refine ⟨[], by rw [fragmentLoop, if_pos hend], ?_⟩
      refine fun request stream hqueued hreceived hstop => ⟨_, rfl, ?_, ?_, rfl⟩
      · exact fun step hstep => absurd hstep (by simp)
      · rw [hdone, request.extend_nil]
    · -- one fragment, and then the rest by induction
      have hpos := uploadPacketFragmentLen_pos (Nat.sub_pos_of_lt (Nat.lt_of_not_le hend))
      obtain ⟨hle, hsmall⟩ := uploadPacketFragmentLen_le (bytes.length - offset)
      generalize hlen : uploadPacketFragmentLen (bytes.length - offset) = fragmentLen
        at hpos hle hsmall
      have hfragment : ((bytes.drop offset).take fragmentLen).length = fragmentLen := by
        rw [length_take, length_drop]
        omega
      obtain ⟨packet, hpacket, hread⟩ := encodeSendingPart_readable inflate fileHash
        (start + offset) rfl (by rw [hfragment]; omega)
        (by rw [hfragment]; exact hsmall)
      obtain ⟨packets, hpackets, hrest⟩ := @ih (offset + fragmentLen) (by omega) (by omega)
      refine ⟨packet :: packets, ?_, fun request stream hqueued hreceived hstop => ?_⟩
      · rw [fragmentLoop, if_neg hend]
        simp only [hlen, hpacket, hpackets, Except.ok_bind]
        rfl
      · obtain ⟨read, hframe, hdecode⟩ := hread (packets.flatten ++ stream)
        rw [← hreceived] at hdecode
        have hinside : request.receivedEnd + ((bytes.drop offset).take fragmentLen).length ≤
            request.stop := by
          omega
        have htaken := handleDownloadPartPacket_expected hqueued rfl hinside hdecode
        obtain ⟨result, hresult, hturn⟩ := hrest
          (request.extend ((bytes.drop offset).take fragmentLen)) stream hqueued
          (by
            show request.receivedEnd + _ = _
            omega)
          hstop
        refine ⟨{ result with received :=
          (.buffered, [request.extend ((bytes.drop offset).take fragmentLen)]) :: result.received },
          ?_, ?_, ?_, hturn.stream⟩
        · simp only [length_cons, flatten_cons, append_assoc, receiveParts, hframe,
            Except.ok_bind, htaken, hresult]
          rfl
        · intro step hstep
          rcases mem_cons.mp hstep with rfl | hstep
          · refine ⟨rfl, fun r hr => ?_⟩
            obtain rfl := mem_singleton.mp hr
            exact hinside
          · exact hturn.buffered step hstep
        · rw [hturn.pending, request.extend_append, ← drop_drop, take_append_drop]

/-- **A served range arrives whole.** Wherever it lies, also across 4 GiB, the packets built for it
    are all read back, each is the continuation its request expects and none goes past its end, and
    the request is ready with the bytes that were served. -/
theorem upload_fragments_reassemble (inflate : List UInt8 → Option (List UInt8))
    (compress : List UInt8 → Except PartError (Option (List UInt8))) (fileHash : Md4Digest)
    (pieceIndex start stop : Nat) (bytes : List UInt8) (hrange : start ≤ stop)
    (hfits : stop < 2 ^ 64) (hlen : bytes.length = stop - start)
    (hplain : compress bytes = .ok none) :
    ∃ packets, buildUploadPartPackets compress fileHash start stop bytes = .ok packets ∧
      ∃ result,
        receiveParts inflate fileHash packets.length packets.flatten
            [{ new pieceIndex start stop with queued := true }] = .ok result ∧
          (∀ step ∈ result.received,
            step.1 = .buffered ∧ ∀ r ∈ step.2, r.receivedEnd ≤ r.stop) ∧
          result.stream = [] ∧
          ∃ request, result.pending = [request] ∧ request.isReady = true ∧
            request.responseBytes = bytes := by
  obtain ⟨packets, hpackets, hreceive⟩ := fragmentLoop_received inflate fileHash
    (show start + bytes.length < 2 ^ 64 by omega) bytes.length (Nat.zero_le _)
    (by rw [Nat.zero_add])
  obtain ⟨result, hresult, hturn⟩ := hreceive
    { new pieceIndex start stop with queued := true } [] rfl rfl
    (show stop = start + bytes.length by omega)
  rw [append_nil] at hresult
  refine ⟨packets, ?_, result, hresult, hturn.buffered, hturn.stream, _, hturn.pending, ?_, rfl⟩
  · unfold buildUploadPartPackets
    rw [if_neg (by omega), hplain]
    exact hpackets
  · simp [isReady, extend, new]
    omega

/-- A range across 4 GiB: the first fragment ends at `u32::MAX` and the second goes past it. -/
theorem upload_fragments_reassemble_across_4gib : let start := u32Max - ed2kUploadPacketFragmentLen
    let bytes : List UInt8 := replicate 13000 7
    ∃ packets,
      buildUploadPartPackets (fun _ => .ok none) (Vector.replicate 16 0) start (start + 13000)
          bytes = .ok packets ∧
      ∃ result,
        receiveParts (fun _ => none) (Vector.replicate 16 0) packets.length packets.flatten
            [{ new 0 start (start + 13000) with queued := true }] =
              .ok result ∧
          (∀ step ∈ result.received,
            step.1 = .buffered ∧ ∀ r ∈ step.2, r.receivedEnd ≤ r.stop) ∧
          result.stream = [] ∧
          ∃ request, result.pending = [request] ∧ request.isReady = true ∧
            request.responseBytes = bytes :=
  upload_fragments_reassemble (fun _ => none) (fun _ => .ok none) (Vector.replicate 16 0) 0
    (u32Max - ed2kUploadPacketFragmentLen) (u32Max - ed2kUploadPacketFragmentLen + 13000)
    (replicate 13000 7) (Nat.le_add_right _ _) (by decide)
    (by rw [length_replicate, Nat.add_sub_cancel_left]) rfl

end EmuleBB.Peer
