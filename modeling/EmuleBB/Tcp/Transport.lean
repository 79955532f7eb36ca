import EmuleBB.Lib.Reading
import EmuleBB.Lib.StreamCipher
import EmuleBB.Peer.Messages

/-!
# The peer transport

Framed packets over a TCP stream. The reader takes bytes from three places: bytes that were
prefetched when the session was opened, a buffer that is decrypted when it is filled, and, for a
large payload, the socket itself, decrypting in place. The cipher is the same RC4 generator on every
path, so all of them together are a view of **one stream**: what is prefetched, then what is
buffered, then what the cipher makes of the wire (`pending`).

Every reading function is described by what it does to that stream, whatever pieces the socket hands
over: `takes_readExact` takes exactly the bytes it is asked for, and `ensures_readPacket` exactly
one frame. A call that is dropped leaves the transport at the wait it was dropped at, so the
descriptions also say what the stream is at every wait.
-/

namespace EmuleBB.Tcp

open StreamCipher

/-! ## RC4 -/

/-- The state of the generator. The source masks both indices to a byte. -/
structure Rc4KeyStream where
  s : Vector UInt8 256
  i : Fin 256
  j : Fin 256

namespace Rc4KeyStream

/-- One turn of the loop of `apply`: the byte that is mixed in, and the state after it. -/
def next (c : Rc4KeyStream) : UInt8 × Rc4KeyStream :=
  let i := c.i + 1
  let j := c.j + Fin.ofNat 256 c.s[i].toNat
  let s := c.s.swap i j
  (s[Fin.ofNat 256 (s[i].toNat + s[j].toNat)], ⟨s, i, j⟩)

def apply (c : Rc4KeyStream) (bytes : List UInt8) : List UInt8 × Rc4KeyStream :=
  StreamCipher.apply next c bytes

@[simp] theorem length_apply (c : Rc4KeyStream) (bytes : List UInt8) :
    (c.apply bytes).1.length = bytes.length :=
  StreamCipher.length_apply c bytes

theorem apply_append (c : Rc4KeyStream) (xs ys : List UInt8) :
    c.apply (xs ++ ys) = ((c.apply xs).1 ++ ((c.apply xs).2.apply ys).1,
      ((c.apply xs).2.apply ys).2) :=
  StreamCipher.apply_append c xs ys

theorem apply_apply (c : Rc4KeyStream) (bytes : List UInt8) :
    c.apply (c.apply bytes).1 = (bytes, (c.apply bytes).2) :=
  StreamCipher.apply_apply c bytes

def discardLen : Nat := 1024

def new (key : List UInt8) : Rc4KeyStream :=
  let identity : Vector UInt8 256 := Vector.ofFn fun i => UInt8.ofNat i
  let swapped := (List.finRange 256).foldl
    (fun (state : Vector UInt8 256 × Fin 256) (i : Fin 256) =>
    let j := state.2 + Fin.ofNat 256
      (state.1[i].toNat + (key.getD (i % key.length) 0).toNat)
    (state.1.swap i j, j)) (identity, 0)
  (apply ⟨swapped.1, 0, 0⟩ (List.replicate discardLen 0)).2

end Rc4KeyStream

def cipherApply (c : Option Rc4KeyStream) (bytes : List UInt8) :
    List UInt8 × Option Rc4KeyStream :=
  applyOption Rc4KeyStream.next c bytes

@[simp] theorem length_cipherApply (c : Option Rc4KeyStream) (bytes : List UInt8) :
    (cipherApply c bytes).1.length = bytes.length :=
  length_applyOption c bytes

@[simp] theorem cipherApply_nil {c : Option Rc4KeyStream} : cipherApply c [] = ([], c) :=
  applyOption_nil c

theorem cipherApply_cut (c : Option Rc4KeyStream) (wire : List UInt8) (k : Nat) :
    (cipherApply c wire).1 =
      (cipherApply c (wire.take k)).1 ++
        (cipherApply (cipherApply c (wire.take k)).2 (wire.drop k)).1 := by
  have happend := @applyOption_append _ Rc4KeyStream.next c (wire.take k) (wire.drop k)
  rw [List.take_append_drop] at happend
  rw [cipherApply, happend]
  rfl

/-! ## Packets -/

def opEdonkeyProt : UInt8 := 0xE3

def opPackedProt : UInt8 := 0xD4

def opEmuleProt : UInt8 := 0xC5

def isPlainEd2kProtocolMarker (marker : UInt8) : Bool :=
  marker = opEdonkeyProt || marker = opPackedProt || marker = opEmuleProt

def maxEd2kPacketLen : Nat := 2000000

structure EmuleTcpPacket where
  protocol : UInt8
  opcode : UInt8
  payload : List UInt8
  deriving DecidableEq

def maxPeerDecompressedPacketLen : Nat := 50000

inductive TransportError where
  | invalidProtocol (protocol : UInt8)
  | lengthZero
  | oversized (payloadLen : Nat)
  | closedMidFrame
  | inflateFailed
  | inflatedTooLong
  deriving DecidableEq

/-- Zlib: the bytes the decoder gives out, and whether it then ends without an error. -/
abbrev Inflate := List UInt8 → List UInt8 × Bool

/-- The source checks the length after every piece the decoder gives out, so output that is too long
    is reported before an error behind it. -/
def decodePeerPayload (inflate : Inflate) (protocol : UInt8) (payload : List UInt8) :
    Except TransportError (UInt8 × List UInt8) :=
  if protocol ≠ opPackedProt then .ok (protocol, payload)
  else if maxPeerDecompressedPacketLen < (inflate payload).1.length then .error .inflatedTooLong
  else if !(inflate payload).2 then .error .inflateFailed
  else .ok (opEmuleProt, (inflate payload).1)

def encodePacket (protocol opcode : UInt8) (payload : List UInt8) : List UInt8 :=
  protocol :: (putLe 4 (payload.length + 1) ++ opcode :: payload)

/-- A well-formed frame: a known protocol and a payload of at most the accepted length. -/
structure Frame where
  protocol : UInt8
  opcode : UInt8
  payload : List UInt8
  protocol_marker : isPlainEd2kProtocolMarker protocol = true
  payload_le : payload.length ≤ maxEd2kPacketLen

namespace Frame

variable (f : Frame)

def bytes : List UInt8 := encodePacket f.protocol f.opcode f.payload

def packet (inflate : Inflate) (f : Frame) : Except TransportError EmuleTcpPacket :=
  (decodePeerPayload inflate f.protocol f.payload).map fun (protocol, payload) =>
    ⟨protocol, f.opcode, payload⟩

def header : List UInt8 := putLe 4 (f.payload.length + 1) ++ [f.opcode]

theorem bytes_header (rest : List UInt8) : ((f.bytes ++ rest).drop 1).take 5 = f.header := by
  have hlen := length_putLe 4 (f.payload.length + 1)
  simp [bytes, header, encodePacket, List.take_append, hlen]

theorem bytes_payload (rest : List UInt8) : (f.bytes ++ rest).drop 6 = f.payload ++ rest := by
  have hlen := length_putLe 4 (f.payload.length + 1)
  simp [bytes, encodePacket, List.drop_append, hlen]

theorem length_bytes : f.bytes.length = f.payload.length + 6 := by
  simp [bytes, encodePacket]
  omega

theorem header_length : leValue (f.header.take 4) = f.payload.length + 1 := by
  have hle := f.payload_le
  unfold maxEd2kPacketLen at hle
  rw [header, List.take_left' (length_putLe _ _)]
  exact leValue_putLe (by omega)

end Frame

/-! ## The transport -/

def readBufferChunk : Nat := 32 * 1024

structure Ed2kTransport where
  prefetched : List UInt8
  receiveCipher : Option Rc4KeyStream
  sendCipher : Option Rc4KeyStream
  /-- Inbound bytes, decrypted. -/
  readBuf : List UInt8
  readPos : Nat
  readPos_le : readPos ≤ readBuf.length

namespace Ed2kTransport

variable {t : Ed2kTransport}

def fromParts (prefetched : List UInt8) (receiveCipher sendCipher : Option Rc4KeyStream) :
    Ed2kTransport :=
  ⟨prefetched, receiveCipher, sendCipher, [], 0, Nat.le_refl 0⟩

def writeAll (t : Ed2kTransport) (bytes : List UInt8) : Ed2kTransport × List UInt8 :=
  ({ t with sendCipher := (cipherApply t.sendCipher bytes).2 }, (cipherApply t.sendCipher bytes).1)

def buffering (t : Ed2kTransport) (clear : List UInt8) (cipher : Option Rc4KeyStream) :
    Ed2kTransport :=
  { t with readBuf := clear, readPos := 0, readPos_le := Nat.zero_le _, receiveCipher := cipher }

def advance (t : Ed2kTransport) (n : Nat) (h : t.readPos + n ≤ t.readBuf.length) :
    Ed2kTransport :=
  { t with readPos := t.readPos + n, readPos_le := h }

/-- Fill the consumed buffer. It is emptied before the wait, and no byte at all leaves the cipher as
    it is. -/
def fillReadBuf (t : Ed2kTransport) : Reading Ed2kTransport Nat :=
  .await (t.buffering [] t.receiveCipher) readBufferChunk fun bytes =>
    .done (t.buffering (cipherApply t.receiveCipher bytes).1 (cipherApply t.receiveCipher bytes).2)
      bytes.length

def bufferedByte (t : Ed2kTransport) : Reading Ed2kTransport (Option UInt8) :=
  if h : t.readPos < t.readBuf.length then .done (t.advance 1 h) (some t.readBuf[t.readPos])
  else .done t none

def readU8 (t : Ed2kTransport) : Reading Ed2kTransport (Option UInt8) :=
  match t.prefetched with
  | byte :: rest => .done { t with prefetched := rest } (some byte)
  | [] =>
    if t.readPos = t.readBuf.length then
      t.fillReadBuf.bind fun t received =>
        if received = 0 then .done t none else t.bufferedByte
    else t.bufferedByte

/-- The direct path: read into the rest of the caller's slice and decrypt in place. Every turn
    takes at least one byte, so as many turns as bytes are enough. -/
def readDirect : (turns remaining : Nat) → (filled : List UInt8) → Ed2kTransport →
    Reading Ed2kTransport (Except TransportError (List UInt8))
  | 0, _, filled, t => .done t (.ok filled)
  | turns + 1, remaining, filled, t =>
    if remaining = 0 then .done t (.ok filled)
    else
      .await t remaining fun bytes =>
        if bytes.length = 0 then .done t (.error .closedMidFrame)
        else
          readDirect turns (remaining - bytes.length)
            (filled ++ (cipherApply t.receiveCipher bytes).1)
            { t with receiveCipher := (cipherApply t.receiveCipher bytes).2 }

/-- The second loop of `read_exact`. A turn takes at least one byte or fills the buffer for the
    next one, so twice as many turns as bytes are enough. -/
def readExactLoop : (turns remaining : Nat) → (filled : List UInt8) → Ed2kTransport →
    Reading Ed2kTransport (Except TransportError (List UInt8))
  | 0, _, filled, t => .done t (.ok filled)
  | turns + 1, remaining, filled, t =>
    if remaining = 0 then .done t (.ok filled)
    else
      let buffered := t.readBuf.length - t.readPos
      if buffered = 0 then
        if readBufferChunk ≤ remaining then readDirect remaining remaining filled t
        else
          t.fillReadBuf.bind fun t received =>
            if received = 0 then .done t (.error .closedMidFrame)
            else readExactLoop turns remaining filled t
      else
        let take := min buffered remaining
        readExactLoop turns (remaining - take)
          (filled ++ (t.readBuf.drop t.readPos).take take)
          (t.advance take (by have := t.readPos_le; omega))

def readExact (n : Nat) (t : Ed2kTransport) :
    Reading Ed2kTransport (Except TransportError (List UInt8)) :=
  let filled := t.prefetched.take n
  readExactLoop (2 * n) (n - filled.length) filled { t with prefetched := t.prefetched.drop n }

def readPacket (inflate : Inflate) (t : Ed2kTransport) :
    Reading Ed2kTransport (Except TransportError (Option EmuleTcpPacket)) :=
  t.readU8.bind fun t protocol =>
    match protocol with
    | none => .done t (.ok none)
    | some protocol =>
      (t.readExact 5).bind fun t headerRest =>
        match headerRest with
        | .error e => .done t (.error e)
        | .ok headerRest =>
          let packetLength := leValue (headerRest.take 4)
          let opcode := headerRest.getD 4 0
          if !isPlainEd2kProtocolMarker protocol then .done t (.error (.invalidProtocol protocol))
          else if packetLength = 0 then .done t (.error .lengthZero)
          else
            let payloadLen := packetLength - 1
            if maxEd2kPacketLen < payloadLen then .done t (.error (.oversized payloadLen))
            else
              (t.readExact payloadLen).bind fun t payload =>
                match payload with
                | .error e => .done t (.error e)
                | .ok payload =>
                  match decodePeerPayload inflate protocol payload with
                  | .error e => .done t (.error e)
                  | .ok (protocol, payload) => .done t (.ok (some ⟨protocol, opcode, payload⟩))

/-! ## The stream -/

def unread (t : Ed2kTransport) : List UInt8 := t.readBuf.drop t.readPos

/-- **The stream a transport is about to read** when `wire` is still to come. -/
def pending (t : Ed2kTransport) (wire : List UInt8) : List UInt8 :=
  t.prefetched ++ (t.unread ++ (cipherApply t.receiveCipher wire).1)

@[simp] theorem unread_buffering {clear : List UInt8}
    {cipher : Option Rc4KeyStream} : (t.buffering clear cipher).unread = clear := rfl

@[simp] theorem prefetched_buffering {clear : List UInt8}
    {cipher : Option Rc4KeyStream} : (t.buffering clear cipher).prefetched = t.prefetched := rfl

@[simp] theorem unread_advance {n : Nat}
    (h : t.readPos + n ≤ t.readBuf.length) : (t.advance n h).unread = t.unread.drop n := by
  simp [unread, advance]

@[simp] theorem prefetched_advance {n : Nat}
    (h : t.readPos + n ≤ t.readBuf.length) : (t.advance n h).prefetched = t.prefetched := rfl

theorem length_unread (t : Ed2kTransport) : t.unread.length = t.readBuf.length - t.readPos := by
  simp [unread]

theorem unread_eq_nil_iff (t : Ed2kTransport) : t.unread = [] ↔ t.readPos = t.readBuf.length := by
  have hle := t.readPos_le
  simp only [unread, List.drop_eq_nil_iff]
  omega

@[simp] theorem receiveCipher_buffering {clear : List UInt8}
    {cipher : Option Rc4KeyStream} : (t.buffering clear cipher).receiveCipher = cipher := rfl

/-- Bytes that are decrypted into the buffer do not change the stream. -/
theorem pending_buffering {wire : List UInt8} {k : Nat} (h : t.unread = []) :
    (t.buffering (cipherApply t.receiveCipher (wire.take k)).1
      (cipherApply t.receiveCipher (wire.take k)).2).pending (wire.drop k) = t.pending wire := by
  simp only [pending, prefetched_buffering, unread_buffering, receiveCipher_buffering, h,
    List.nil_append]
  rw [← cipherApply_cut]

theorem pending_advance {wire : List UInt8} {n : Nat} (h : t.readPos + n ≤ t.readBuf.length)
    (hprefetched : t.prefetched = []) : (t.advance n h).pending wire = (t.pending wire).drop n := by
  have hn : n ≤ t.unread.length := by
    rw [length_unread]
    omega
  simp only [pending, prefetched_advance, hprefetched, unread_advance, List.nil_append]
  rw [List.drop_append_of_le_length hn]
  rfl

/-! ## What the reading functions do to the stream -/

section Specs

variable {t : Ed2kTransport} {wire stream : List UInt8} {rest filled : List UInt8}
  {program : Reading Ed2kTransport (Except TransportError (List UInt8))} {n : Nat}
  {turns remaining : Nat}

/-- Filling the buffer moves bytes from the wire into it; none come only when the stream is at its
    end. -/
theorem ensures_fillReadBuf (hunread : t.unread = []) (hstream : t.pending wire = stream) :
    Reading.Ensures (fun s w => s.pending w = stream)
      (fun t' received w => t'.prefetched = t.prefetched ∧ t'.pending w = stream ∧
        t'.unread.length = received ∧ (received = 0 → wire = []))
      t.fillReadBuf wire := by
  refine ⟨?_, ?_⟩
  · simpa [pending, hunread] using hstream
  · intro n
    refine ⟨rfl, ?_, ?_, ?_⟩
    · rw [pending_buffering hunread, hstream]
    · rw [unread_buffering, length_cipherApply]
    · intro hnone
      by_contra hwire
      have hpos := Reading.length_piece_pos readBufferChunk n hwire
      omega

theorem bufferedByte_eq {byte : UInt8} (h : t.unread = byte :: rest) :
    ∃ hpos, t.bufferedByte = .done (t.advance 1 hpos) (some byte) := by
  have hlt : t.readPos < t.readBuf.length := by
    have hlen := t.length_unread
    rw [h, List.length_cons] at hlen
    omega
  have hbyte : t.readBuf[t.readPos] = byte := by
    have hdrop := List.drop_eq_getElem_cons hlt
    rw [unread, hdrop] at h
    exact (List.cons.inj h).1
  refine ⟨hlt, ?_⟩
  rw [bufferedByte, dif_pos hlt, hbyte]

/-- Where bytes are buffered, `bufferedByte` takes the first of the stream. -/
theorem ensures_bufferedByte {I : Ed2kTransport → List UInt8 → Prop}
    (hprefetched : t.prefetched = []) (hunread : t.unread ≠ [])
    (hstream : t.pending wire = stream) :
    Reading.Ensures I
      (fun t' result w => result = stream.head? ∧ t'.pending w = stream.tail)
      t.bufferedByte wire := by
  obtain ⟨byte, rest, h⟩ := List.exists_cons_of_ne_nil hunread
  obtain ⟨hpos, heq⟩ := bufferedByte_eq h
  rw [heq]
  refine ⟨?_, ?_⟩
  · rw [← hstream, pending, hprefetched, h]
    rfl
  · rw [pending_advance hpos hprefetched, hstream, List.drop_one]

/-- **`read_u8` takes the first byte of the stream**, and returns nothing only at its end. -/
theorem ensures_readU8 (hstream : t.pending wire = stream) :
    Reading.Ensures (fun s w => s.pending w = stream)
      (fun t' result w => result = stream.head? ∧ t'.pending w = stream.tail) t.readU8 wire := by
  unfold readU8
  split
  case h_1 byte rest hprefetched =>
    subst hstream
    simp [Reading.Ensures, pending, unread, hprefetched]
  case h_2 hprefetched =>
    by_cases hempty : t.readPos = t.readBuf.length
    · rw [if_pos hempty]
      have hunread := t.unread_eq_nil_iff.mpr hempty
      apply Reading.Ensures.bind
      apply (ensures_fillReadBuf hunread hstream).mono
      · intro s w h
        exact h
      · intro t' received w ⟨hprefetched', hstream', hlen, hnone⟩
        split
        case isTrue hzero =>
          -- the end of the wire, and nothing in front of it
          have hend : stream = [] := by
            rw [← hstream, pending, hprefetched, hunread, hnone hzero]
            simp
          subst hend
          exact ⟨rfl, hstream'⟩
        case isFalse hpos =>
          apply ensures_bufferedByte (hprefetched'.trans hprefetched) _ hstream'
          intro hnil
          rw [hnil] at hlen
          exact hpos hlen.symm
    · rw [if_neg hempty]
      apply ensures_bufferedByte hprefetched _ hstream
      intro hnil
      exact hempty (t.unread_eq_nil_iff.mp hnil)

/-- The program fills a slice, `filled` of it already there, with the next `n` bytes of the stream
    and leaves the rest; at every wait the stream is what remains behind some of its bytes. -/
def Takes (filled : List UInt8) (n : Nat) (stream : List UInt8)
    (program : Reading Ed2kTransport (Except TransportError (List UInt8)))
    (wire : List UInt8) : Prop :=
  Reading.Ensures (fun s w => ∃ k, s.pending w = stream.drop k)
    (fun t' result w => result = .ok (filled ++ stream.take n) ∧ t'.pending w = stream.drop n)
    program wire

theorem takes_zero (hstream : t.pending wire = stream) :
    Takes filled 0 stream (.done t (.ok filled)) wire := by
  refine ⟨?_, hstream⟩
  rw [List.take_zero, List.append_nil]

theorem Takes.of_part {part : List UInt8} (hpart : part.length ≤ n)
    (h : Takes (filled ++ part) (n - part.length) rest program wire) :
    Takes filled n (part ++ rest) program wire := by
  apply Reading.Ensures.mono _ _ h
  · rintro s w ⟨k, hk⟩
    refine ⟨part.length + k, ?_⟩
    rw [hk, ← List.drop_drop, List.drop_left]
  · rintro t' result w ⟨hresult, hrest⟩
    refine ⟨?_, ?_⟩
    · rw [hresult, List.take_append, List.take_of_length_le hpart, List.append_assoc]
    · rw [hrest, List.drop_append, List.drop_of_length_le hpart, List.nil_append]

theorem Takes.of_buffered {taken : Nat} (hprefetched : t.prefetched = [])
    (hstream : t.pending wire = stream) (htaken : taken ≤ t.unread.length) (hn : taken ≤ n)
    (h : Takes (filled ++ t.unread.take taken) (n - taken) (stream.drop taken) program wire) :
    Takes filled n stream program wire := by
  have hlen : (t.unread.take taken).length = taken := by
    rw [List.length_take]
    omega
  have hfront : t.unread.take taken ++ stream.drop taken = stream := by
    have htake : stream.take taken = t.unread.take taken := by
      rw [← hstream, pending, hprefetched, List.nil_append, List.take_append_of_le_length htaken]
    rw [← htake, List.take_append_drop]
  rw [← hfront]
  apply Takes.of_part (by omega)
  rw [hlen]
  exact h

theorem takes_readDirect (hprefetched : t.prefetched = []) (hunread : t.unread = [])
    (hstream : t.pending wire = stream) (hturns : remaining ≤ turns)
    (henough : remaining ≤ stream.length) :
    Takes filled remaining stream (readDirect turns remaining filled t) wire := by
  induction turns generalizing t wire stream remaining filled with
  | zero =>
    obtain rfl : remaining = 0 := by omega
    exact takes_zero hstream
  | succ turns ih =>
    unfold readDirect
    split
    case isTrue hzero =>
      subst hzero
      exact takes_zero hstream
    case isFalse hpos =>
      have hclear : stream = (cipherApply t.receiveCipher wire).1 := by
        rw [← hstream, pending, hprefetched, hunread]
        rfl
      have hwire : wire ≠ [] := by
        rintro rfl
        rw [hclear, length_cipherApply, List.length_nil] at henough
        omega
      refine ⟨⟨0, hstream⟩, ?_⟩
      intro n
      have hpiece := Reading.length_piece_pos remaining n hwire
      have hle := Reading.length_piece_le wire n (Nat.pos_of_ne_zero hpos)
      dsimp only
      rw [if_neg (by omega)]
      -- the piece, decrypted, is the front of the stream
      generalize Reading.pieceLen remaining n = k at *
      have hlen := length_cipherApply t.receiveCipher (wire.take k)
      rw [cipherApply_cut t.receiveCipher wire k] at hclear
      rw [hclear, List.length_append] at henough
      rw [hclear]
      apply Takes.of_part
      · omega
      · rw [← hlen]
        refine ih hprefetched hunread ?_ ?_ ?_
        · rw [hprefetched]
          exact congrArg (· ++ _) hunread
        · omega
        · omega

/-- The loop takes what is missing from the buffer, filling it when it is empty, or directly. The
    measure is what one turn takes off: a byte at least, or half of one where it only fills. -/
theorem takes_readExactLoop (hprefetched : remaining ≠ 0 → t.prefetched = [])
    (hstream : t.pending wire = stream) (hturns : 2 * remaining ≤ turns + min 1 t.unread.length)
    (henough : remaining ≤ stream.length) :
    Takes filled remaining stream (readExactLoop turns remaining filled t) wire := by
  induction turns generalizing t wire stream remaining filled with
  | zero =>
    obtain rfl : remaining = 0 := by omega
    exact takes_zero hstream
  | succ turns ih =>
    unfold readExactLoop
    split
    case isTrue hzero =>
      subst hzero
      exact takes_zero hstream
    case isFalse hpos =>
      have hnone := hprefetched hpos
      dsimp only
      split
      case isTrue hbuffered =>
        have hunread : t.unread = [] := by
          rw [← List.length_eq_zero_iff, length_unread, hbuffered]
        split
        case isTrue hlarge =>
          exact takes_readDirect hnone hunread hstream (Nat.le_refl _) henough
        case isFalse hsmall =>
          apply Reading.Ensures.bind
          apply (ensures_fillReadBuf hunread hstream).mono
          · intro s w h
            exact ⟨0, h⟩
          · rintro t' received w ⟨hprefetched', hstream', hlen, hend⟩
            have hreceived : received ≠ 0 := by
              intro hzero
              rw [← hstream, pending, hnone, hunread, hend hzero, cipherApply_nil] at henough
              exact hpos (Nat.le_zero.mp henough)
            rw [if_neg hreceived]
            rw [hunread, List.length_nil] at hturns
            apply ih _ hstream' _ henough
            · intro _
              rw [hprefetched', hnone]
            · omega
      case isFalse hbuffered =>
        have hlen := t.length_unread
        apply Takes.of_buffered hnone hstream _ (Nat.min_le_right _ _)
        · refine ih ?_ ?_ ?_ ?_
          · intro _
            exact hnone
          · rw [pending_advance _ hnone, hstream]
          · omega
          · rw [List.length_drop]
            omega
        · omega

/-- **`read_exact` takes exactly the bytes it is asked for.** -/
theorem takes_readExact (hstream : t.pending wire = stream) (henough : n ≤ stream.length) :
    Takes [] n stream (t.readExact n) wire := by
  have hcut : stream = t.prefetched.take n ++
      Ed2kTransport.pending { t with prefetched := t.prefetched.drop n } wire := by
    rw [← hstream]
    show t.prefetched ++ _ = _ ++ (t.prefetched.drop n ++ _)
    rw [← List.append_assoc (t.prefetched.take n), List.take_append_drop]
    rfl
  have hfilled : (t.prefetched.take n).length ≤ n := List.length_take_le _ _
  rw [hcut, List.length_append] at henough
  rw [hcut]
  apply Takes.of_part hfilled
  apply takes_readExactLoop _ rfl _ (by omega)
  · -- bytes are missing only behind the last prefetched one
    intro hmissing
    rw [List.length_take] at hmissing
    exact List.drop_of_length_le (by omega)
  · omega

/-- A call that takes `n` bytes from behind the first `j`, and what follows it. -/
theorem Takes.bind {β : Type} {j : Nat}
    {f : Ed2kTransport → Except TransportError (List UInt8) → Reading Ed2kTransport β}
    {Q : Ed2kTransport → β → List UInt8 → Prop} (h : Takes filled n (stream.drop j) program wire)
    (hnext : ∀ t' w, t'.pending w = stream.drop (j + n) →
      Reading.Ensures (fun s w => ∃ k, s.pending w = stream.drop k) Q
        (f t' (.ok (filled ++ (stream.drop j).take n))) w) :
    Reading.Ensures (fun s w => ∃ k, s.pending w = stream.drop k) Q (program.bind f) wire := by
  apply Reading.Ensures.bind
  apply Reading.Ensures.mono _ _ h
  · rintro s w ⟨k, hk⟩
    exact ⟨j + k, by rw [hk, List.drop_drop]⟩
  · rintro t' result w ⟨rfl, hrest⟩
    rw [List.drop_drop] at hrest
    exact hnext t' w hrest

/-- **`read_packet` takes exactly one frame** and returns what it carries. -/
theorem ensures_readPacket (inflate : Inflate) {f : Frame}
    (hstream : t.pending wire = f.bytes ++ rest) :
    Reading.Ensures (fun s w => ∃ k, s.pending w = (f.bytes ++ rest).drop k)
      (fun t' result w => result = (f.packet inflate).map some ∧ t'.pending w = rest)
      (t.readPacket inflate) wire := by
  have hlen := f.length_bytes
  apply Reading.Ensures.bind
  apply (ensures_readU8 hstream).mono
  · intro s w h
    exact ⟨0, h⟩
  · rintro t₁ protocol w₁ ⟨rfl, hheader⟩
    rw [← List.drop_one] at hheader
    apply Takes.bind (takes_readExact hheader _)
    · intro t₂ w₂ hpayload
      dsimp only
      rw [List.nil_append, f.bytes_header, f.header_length, f.protocol_marker]
      simp only [Bool.not_true, Bool.false_eq_true, if_false, Nat.add_one_ne_zero,
        Nat.add_sub_cancel, Nat.not_lt.mpr f.payload_le]
      apply Takes.bind (takes_readExact hpayload _)
      · intro t₃ w₃ hrest
        rw [← List.drop_drop, f.bytes_payload, List.drop_left] at hrest
        rw [List.nil_append, f.bytes_payload, List.take_left, Frame.packet]
        dsimp only
        cases decodePeerPayload inflate f.protocol f.payload with
        | error | ok => exact ⟨rfl, hrest⟩
      · rw [f.bytes_payload, List.length_append]
        omega
    · simp only [List.length_drop, List.length_append]
      omega

theorem ensures_readPacket_end (inflate : Inflate) (hstream : t.pending wire = []) :
    Reading.Ensures (fun s w => s.pending w = [])
      (fun t' result w => result = .ok none ∧ t'.pending w = []) (t.readPacket inflate) wire := by
  apply Reading.Ensures.bind
  apply (ensures_readU8 hstream).mono
  · intro s w h
    exact h
  · rintro t' result w ⟨rfl, hrest⟩
    exact ⟨rfl, hrest⟩

end Specs

/-! ## Reading leaves the cipher of the other direction alone -/

section Sending

open Reading (Keeps)

variable {c : Option Rc4KeyStream} {t : Ed2kTransport} {turns remaining : Nat} {filled : List UInt8}

section

variable (h : t.sendCipher = c)

include h

theorem keeps_bufferedByte : Keeps (fun s => s.sendCipher = c) t.bufferedByte := by
  unfold bufferedByte
  split <;> exact h

theorem keeps_readU8 : Keeps (fun s => s.sendCipher = c) t.readU8 := by
  unfold readU8
  split
  · exact h
  · split
    · refine ⟨h, ?_⟩
      intro bytes
      show Keeps _ (if bytes.length = 0 then _ else bufferedByte _)
      split
      · exact h
      · exact keeps_bufferedByte h
    · exact keeps_bufferedByte h

theorem keeps_readDirect :
    Keeps (fun s => s.sendCipher = c) (readDirect turns remaining filled t) := by
  induction turns generalizing t remaining filled with
  | zero => exact h
  | succ turns ih =>
    unfold readDirect
    split
    · exact h
    · refine ⟨h, ?_⟩
      intro bytes
      dsimp only
      split
      · exact h
      · exact ih h

theorem keeps_readExactLoop :
    Keeps (fun s => s.sendCipher = c) (readExactLoop turns remaining filled t) := by
  induction turns generalizing t remaining filled with
  | zero => exact h
  | succ turns ih =>
    unfold readExactLoop
    split
    · exact h
    · dsimp only
      split
      · split
        · exact keeps_readDirect h
        · refine ⟨h, ?_⟩
          intro bytes
          show Keeps _ (if bytes.length = 0 then _ else readExactLoop _ _ _ _)
          split
          · exact h
          · exact ih h
      · exact ih h

theorem keeps_readExact {n : Nat} : Keeps (fun s => s.sendCipher = c) (t.readExact n) :=
  keeps_readExactLoop h

end

theorem keeps_readPacket (inflate : Inflate) (h : t.sendCipher = c) :
    Keeps (fun s => s.sendCipher = c) (t.readPacket inflate) := by
  apply (keeps_readU8 h).bind
  intro t₁ protocol h₁
  cases protocol with
  | none => exact h₁
  | some protocol =>
    apply (keeps_readExact h₁).bind
    intro t₂ header h₂
    cases header with
    | error => exact h₂
    | ok =>
      dsimp only
      split
      · exact h₂
      · split
        · exact h₂
        · split
          · exact h₂
          · apply (keeps_readExact h₂).bind
            intro t₃ payload h₃
            cases payload with
            | error => exact h₃
            | ok payload =>
              dsimp only
              cases decodePeerPayload inflate protocol payload with
              | error | ok => exact h₃

end Sending

end Ed2kTransport

end EmuleBB.Tcp
