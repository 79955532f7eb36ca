import EmuleBB.Lib.Run
import EmuleBB.Tcp.Transport

/-!
# Dropped packet reads

A session wraps each read of a packet in a timeout or races it against other work. When the other
side wins, the future of `read_packet` is **dropped at the await it stands at**; the loop goes round
and calls `read_packet` again on the same transport.

What a dropped call had taken from the stream is gone: the protocol byte is a local of
`read_packet`, the bytes of the header and of the payload are in its slices, and the direct path
even has its bytes off the wire. So a call may be dropped only while it is **waiting for its first
byte** (`Untouched`). That is enough: in a run where no call is dropped later, the calls that
complete return the frames of the stream, in order and each once (`ReturnsFrames`).
-/

namespace EmuleBB.Tcp

open Reading Ed2kTransport

abbrev PacketResult := Except TransportError (Option EmuleTcpPacket)

/-- Between two calls, or inside one: the transport as it is at the wait, what the call goes on
    with, and how many bytes there were to read when it was made. -/
inductive Phase where
  | idle (t : Ed2kTransport)
  | waiting (t : Ed2kTransport) (limit : Nat)
      (resume : List UInt8 → Reading Ed2kTransport PacketResult) (atCall : Nat)

/-- One session over one transport: where it stands, the bytes still on the wire and what the
    completed calls returned. -/
structure PacketSession where
  phase : Phase
  wire : List UInt8
  returned : List PacketResult

/-- What happens to a call that reads. -/
inductive SessionEvent where
  | call
  /-- `n` bytes come in for the waiting call, or as many of them as it asked for. -/
  | deliver (n : Nat)
  /-- The timeout or another branch of the select fires. -/
  | drop

namespace PacketSession

variable {wire : List UInt8} {t : Ed2kTransport}

def unconsumed (t : Ed2kTransport) (wire : List UInt8) : Nat :=
  t.prefetched.length + t.unread.length + wire.length

def proceed (s : PacketSession) (atCall : Nat) :
    Reading Ed2kTransport PacketResult → PacketSession
  | .done t result => { s with phase := .idle t, returned := s.returned ++ [result] }
  | .await t limit resume => { s with phase := .waiting t limit resume atCall }

def step (inflate : Inflate) (s : PacketSession) (e : SessionEvent) : PacketSession :=
  match s.phase, e with
  | .idle t, .call => s.proceed (unconsumed t s.wire) (t.readPacket inflate)
  | .waiting _ limit resume atCall, .deliver n =>
    { s with wire := s.wire.drop (pieceLen limit n) }.proceed atCall
      (resume (s.wire.take (pieceLen limit n)))
  | .waiting t _ _ _, .drop => { s with phase := .idle t }
  | _, _ => s

def run (inflate : Inflate) (s : PacketSession) (events : List SessionEvent) : PacketSession :=
  Run.run (step inflate) s events

/-- **A call is dropped only while it waits for its first byte.** -/
def Untouched (s : PacketSession) (e : SessionEvent) : Prop :=
  match s.phase, e with
  | .waiting t _ _ atCall, .drop => unconsumed t s.wire = atCall
  | _, _ => True

/-! ## The frames of the stream -/

def streamOf (frames : List Frame) : List UInt8 := frames.flatMap Frame.bytes

/-- What the call after `n` completed ones has to return: the packet of the next frame, or nothing
    at the end of the stream. -/
def expected (inflate : Inflate) (frames : List Frame) (n : Nat) : PacketResult :=
  match frames[n]? with
  | some f => (f.packet inflate).map some
  | none => .ok none

/-- **The completed calls have returned the frames of the stream**, in order and each once. -/
def ReturnsFrames (inflate : Inflate) (frames : List Frame) (s : PacketSession) : Prop :=
  s.returned = (List.range s.returned.length).map (expected inflate frames)

theorem length_pending : (t.pending wire).length = unconsumed t wire := by
  simp [pending, unconsumed, Nat.add_assoc]

section

variable {inflate : Inflate} {frames : List Frame} {s : PacketSession}

/-- What the call after `n` completed ones does to the stream behind them, in both of its cases: it
    takes the next frame, or meets the end. -/
theorem ensures_nextPacket {n : Nat} (hstream : t.pending wire = streamOf (frames.drop n)) :
    Ensures (fun s w => ∃ k, s.pending w = (streamOf (frames.drop n)).drop k)
      (fun t' result w => result = expected inflate frames n ∧
        t'.pending w = streamOf (frames.drop (n + 1)))
      (t.readPacket inflate) wire := by
  have hdrop : frames.drop (n + 1) = (frames.drop n).tail := by
    rw [List.tail_drop]
  have hhead : frames[n]? = (frames.drop n).head? := by
    rw [List.head?_drop]
  rw [expected, hdrop, hhead]
  cases h : frames.drop n with
  | nil =>
    rw [h] at hstream
    apply (ensures_readPacket_end inflate hstream).mono
    · intro s w hs
      exact ⟨0, hs⟩
    · intro t' result w hdone
      exact hdone
  | cons =>
    rw [h] at hstream
    exact ensures_readPacket inflate hstream

/-- Between two calls the stream starts with the next frame. Inside a call it is what the call has
    left of it, and the call will take exactly that frame if it is let go on. -/
def InStep (inflate : Inflate) (frames : List Frame) (s : PacketSession) : Prop :=
  ReturnsFrames inflate frames s ∧
    match s.phase with
    | .idle t => t.pending s.wire = streamOf (frames.drop s.returned.length)
    | .waiting t limit resume atCall =>
      atCall = (streamOf (frames.drop s.returned.length)).length ∧
      Ensures (fun s' w => ∃ k, s'.pending w = (streamOf (frames.drop s.returned.length)).drop k)
        (fun t' result w => result = expected inflate frames s.returned.length ∧
          t'.pending w = streamOf (frames.drop (s.returned.length + 1)))
        (.await t limit resume) s.wire

theorem InStep.proceed {atCall : Nat}
    {program : Reading Ed2kTransport PacketResult} (hreturned : ReturnsFrames inflate frames s)
    (hatCall : atCall = (streamOf (frames.drop s.returned.length)).length)
    (h : Ensures
      (fun s' w => ∃ k, s'.pending w = (streamOf (frames.drop s.returned.length)).drop k)
      (fun t' result w => result = expected inflate frames s.returned.length ∧
        t'.pending w = streamOf (frames.drop (s.returned.length + 1))) program s.wire) :
    InStep inflate frames (s.proceed atCall program) := by
  cases program with
  | done t result =>
    obtain ⟨hresult, hstream⟩ := h
    refine ⟨?_, ?_⟩
    · show s.returned ++ [result] = _
      rw [PacketSession.proceed, List.length_append, List.length_singleton, List.range_succ,
        List.map_append, ← hreturned, hresult]
      rfl
    · show t.pending s.wire = streamOf (frames.drop (s.returned ++ [result]).length)
      rw [List.length_append]
      exact hstream
  | await => exact ⟨hreturned, hatCall, h⟩

theorem InStep.step {e : SessionEvent} (h : InStep inflate frames s)
    (he : Untouched s e) : InStep inflate frames (s.step inflate e) := by
  obtain ⟨phase, wire, returned⟩ := s
  obtain ⟨hreturned, hphase⟩ := h
  cases phase with
  | idle =>
    cases e with
    | call =>
      apply InStep.proceed hreturned
      · rw [← length_pending]
        exact congrArg List.length hphase
      · exact ensures_nextPacket hphase
    | deliver | drop => exact ⟨hreturned, hphase⟩
  | waiting t limit =>
    obtain ⟨hatCall, hcall⟩ := hphase
    cases e with
    | call => exact ⟨hreturned, hatCall, hcall⟩
    | deliver n =>
      exact InStep.proceed hreturned hatCall (hcall.2 n)
    | drop =>
      refine ⟨hreturned, ?_⟩
      obtain ⟨k, hk⟩ := hcall.1
      -- as many bytes are left as there were at the call, so the call has taken none
      have hlen : ((streamOf (frames.drop returned.length)).drop k).length =
          (streamOf (frames.drop returned.length)).length := by
        rw [← hk, length_pending, ← hatCall]
        exact he
      show t.pending wire = _
      rw [hk]
      exact (List.drop_sublist k _).eq_of_length hlen

end

end PacketSession

open PacketSession

/-- **A packet read that is dropped before it took a byte loses nothing.** Over every stream of
    frames, every way the socket delivers it and every run in which calls are dropped only while
    they wait for their first byte, the completed calls return the frames, in order. -/
theorem completed_reads_return_frames (inflate : Inflate) (frames : List Frame)
    (t : Ed2kTransport) (wire : List UInt8) (hstream : t.pending wire = streamOf frames)
    (events : List SessionEvent)
    (h : Run.Along (step inflate) Untouched ⟨.idle t, wire, []⟩ events) :
    ReturnsFrames inflate frames (run inflate ⟨.idle t, wire, []⟩ events) := by
  have hinv : InStep inflate frames (run inflate ⟨.idle t, wire, []⟩ events) := by
    apply h.invariant
    · intro s e hs he
      exact hs.step he
    · exact ⟨rfl, hstream⟩
  exact hinv.1

def smallFrame : Frame := ⟨opEdonkeyProt, 0x46, [0x2A], by decide, by decide⟩

def smallSession : PacketSession :=
  ⟨.idle (.fromParts [] none none), smallFrame.bytes, []⟩

/-- A read that timed out while the peer was silent, then one that gets the frame in two pieces. -/
theorem completed_reads_return_small_frame : (smallSession.run (fun _ => ([], false))
        [.call, .drop, .call, .deliver 3, .deliver 4]).returned =
      [.ok (some ⟨opEdonkeyProt, 0x46, [0x2A]⟩)] ∧
    ReturnsFrames (fun _ => ([], false)) [smallFrame]
      (smallSession.run (fun _ => ([], false)) [.call, .drop, .call, .deliver 3, .deliver 4]) := by
  refine ⟨by decide +kernel, ?_⟩
  apply completed_reads_return_frames
  · decide +kernel
  · exact ⟨trivial, rfl, trivial, trivial, trivial, trivial⟩

/-- **Dropped one byte into a frame.** The protocol byte was all that had come in when the read
    timed out; the next read takes the length field for a protocol, and the frame
    is never returned. -/
theorem dropped_after_protocol_byte :
    (fromParts [] none none).pending smallFrame.bytes = streamOf [smallFrame] ∧
    (smallSession.run (fun _ => ([], false))
        [.call, .deliver 1, .drop, .call, .deliver 6]).returned =
      [.error (.invalidProtocol 2)] ∧
    ¬ ReturnsFrames (fun _ => ([], false)) [smallFrame]
      (smallSession.run (fun _ => ([], false)) [.call, .deliver 1, .drop, .call, .deliver 6]) := by
  unfold ReturnsFrames
  decide +kernel

end EmuleBB.Tcp
