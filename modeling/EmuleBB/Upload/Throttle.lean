import Mathlib
import EmuleBB.Lib.Run
import EmuleBB.Wire

/-!
# The upload throttle

A payload that is about to be sent reserves its place on the line: it goes out when the one before
it is through, or at once when the line is idle, and it takes the nanoseconds that its bytes last at
the limit, rounded up. **The limit is kept up to any payload** (`upload_limit_kept`). A reservation
of no bytes does not queue, so its time may lie before those of
earlier ones (`empty_payload_overtakes`).
-/

namespace EmuleBB.Upload

/-- At a byte a second `n` bytes last `seconds n`. -/
def uploadPayloadInterval (byteCount limitBytesPerSec : Nat) : Duration :=
  min (chunkCount (seconds byteCount) (max limitBytesPerSec 1)) u64Max

/-- A payload that is to be sent, and the time of the call. -/
structure Payload where
  byteCount : Nat
  now : Instant

section

variable (limit : Nat)

/-- The new `throttle_next_send_at` and the delay. -/
def reserveUploadPayload (nextSendAt : Option Instant) (payload : Payload) :
    Option Instant × Duration :=
  if payload.byteCount = 0 ∨ limit = 0 then (nextSendAt, 0)
  else
    let scheduledAt := (nextSendAt.filter (payload.now < ·)).getD payload.now
    (some (scheduledAt + uploadPayloadInterval payload.byteCount limit), scheduledAt - payload.now)

def nextSendAt (earlier : List Payload) : Option Instant :=
  Run.run (fun next payload => (reserveUploadPayload limit next payload).1) none earlier

def delay (earlier : List Payload) (payload : Payload) : Duration :=
  (reserveUploadPayload limit (nextSendAt limit earlier) payload).2

/-- When the payload goes out. -/
def sendTime (earlier : List Payload) (payload : Payload) : Instant :=
  payload.now + delay limit earlier payload

/-- The time it takes is not cut to 64 bits. -/
def Payload.Paced (payload : Payload) : Prop :=
  0 < limit ∧ seconds payload.byteCount ≤ limit * u64Max

/-- When the line is free for a payload asked for at `now`. -/
def freeAt (earlier : List Payload) (now : Instant) : Instant :=
  max ((nextSendAt limit earlier).getD 0) now

end

variable {limit : Nat} {earlier : List Payload} {payload : Payload} {now : Instant}

theorem Payload.Paced.le_interval (h : payload.Paced limit) :
    seconds payload.byteCount ≤ limit * uploadPayloadInterval payload.byteCount limit := by
  obtain ⟨hpos, hfits⟩ := h
  rw [uploadPayloadInterval, Nat.max_eq_left hpos]
  rcases Nat.le_total (chunkCount (seconds payload.byteCount) limit) u64Max with hle | hge
  · rw [Nat.min_eq_left hle, Nat.mul_comm limit]
    exact Nat.le_of_not_lt fun hlt => Nat.lt_irrefl _ ((lt_chunkCount_iff hpos).mpr hlt)
  · rwa [Nat.min_eq_right hge]

theorem freeAt_mono {later : Instant} (h : now ≤ later) :
    limit * freeAt limit earlier now ≤ limit * freeAt limit earlier later :=
  Nat.mul_le_mul_left limit (Nat.max_le.mpr ⟨Nat.le_max_left _ _, h.trans (Nat.le_max_right _ _)⟩)

/-- The reservation starts where the line is free. -/
theorem reserve_eq (hpos : 0 < limit) (hbytes : 0 < payload.byteCount) :
    reserveUploadPayload limit (nextSendAt limit earlier) payload =
      (some (freeAt limit earlier payload.now + uploadPayloadInterval payload.byteCount limit),
        freeAt limit earlier payload.now - payload.now) := by
  have hscheduled : ((nextSendAt limit earlier).filter (payload.now < ·)).getD payload.now =
      freeAt limit earlier payload.now := by
    rw [freeAt]
    cases nextSendAt limit earlier with
    | none => simp
    | some free =>
      by_cases hlt : payload.now < free
      · simp [Option.filter, hlt, Nat.max_eq_left (Nat.le_of_lt hlt)]
      · simp [Option.filter, hlt, Nat.max_eq_right (Nat.le_of_not_lt hlt)]
  rw [reserveUploadPayload, if_neg (by omega), hscheduled]

theorem nextSendAt_snoc : nextSendAt limit (earlier ++ [payload]) =
    (reserveUploadPayload limit (nextSendAt limit earlier) payload).1 := by
  rw [nextSendAt, Run.run_append]
  rfl

theorem reserve_empty (h : payload.byteCount = 0) (next : Option Instant) :
    reserveUploadPayload limit next payload = (next, 0) :=
  if_pos (.inl h)

theorem sendTime_eq (hpos : 0 < limit) (hbytes : 0 < payload.byteCount) :
    sendTime limit earlier payload = freeAt limit earlier payload.now := by
  rw [sendTime, delay, reserve_eq hpos hbytes]
  exact Nat.add_sub_cancel' (Nat.le_max_right _ _)

theorem sendTime_le (hpos : 0 < limit) :
    sendTime limit earlier payload ≤ freeAt limit earlier payload.now := by
  rcases Nat.eq_zero_or_pos payload.byteCount with hempty | hbytes
  · rw [sendTime, delay, reserve_empty hempty]
    exact Nat.le_max_right _ _
  · exact Nat.le_of_eq (sendTime_eq hpos hbytes)

theorem freeAt_snoc (h : payload.Paced limit) :
    limit * freeAt limit earlier payload.now + seconds payload.byteCount ≤
      limit * freeAt limit (earlier ++ [payload]) payload.now := by
  rcases Nat.eq_zero_or_pos payload.byteCount with hempty | hbytes
  · rw [freeAt, freeAt, nextSendAt_snoc, reserve_empty hempty, hempty, seconds, Nat.zero_mul]
    exact Nat.le_refl _
  · refine Nat.le_trans ?_ (Nat.mul_le_mul_left limit (Nat.le_max_left _ _))
    rw [nextSendAt_snoc, reserve_eq h.1 hbytes, Option.getD_some, Nat.mul_add]
    exact Nat.add_le_add_left h.le_interval _

/-- **The line is booked for all that is reserved.** -/
theorem booked {first : Payload} {between : List Payload}
    (h : ∀ p ∈ first :: between, p.Paced limit)
    (htimes : ((first :: between).map Payload.now ++ [now]).IsChain (· ≤ ·)) :
    limit * freeAt limit earlier first.now +
      seconds ((first :: between).map Payload.byteCount).sum ≤
      limit * freeAt limit (earlier ++ first :: between) now := by
  induction between generalizing earlier first with
  | nil =>
    have hlater : first.now ≤ now := by simpa using htimes
    exact (freeAt_snoc (h first List.mem_cons_self)).trans (freeAt_mono hlater)
  | cons payload between ih =>
    obtain ⟨hlater, hrest⟩ := List.isChain_cons_cons.mp htimes
    have hfirst := (@freeAt_snoc limit earlier first (h first List.mem_cons_self)).trans
      (freeAt_mono hlater)
    have hbooked := @ih (earlier ++ [first]) payload
      (fun p hp => h p (List.mem_cons_of_mem _ hp)) hrest
    rw [List.append_assoc] at hbooked
    refine Nat.le_trans ?_ hbooked
    rw [List.map_cons, List.sum_cons, seconds, Nat.add_mul, ← seconds, ← seconds]
    generalize seconds ((payload :: between).map Payload.byteCount).sum = total
    rw [← Nat.add_assoc]
    exact Nat.add_le_add_right hfirst total

theorem nextSendAt_le (hpos : 0 < limit) (hidle : ∀ before payload after,
    earlier = before ++ payload :: after →
      sendTime limit before payload + uploadPayloadInterval payload.byteCount limit ≤ now) :
    (nextSendAt limit earlier).getD 0 ≤ now := by
  induction earlier using List.reverseRecOn with
  | nil => exact Nat.zero_le _
  | append_singleton before payload ih =>
    rw [nextSendAt_snoc]
    rcases Nat.eq_zero_or_pos payload.byteCount with hempty | hbytes
    · rw [reserve_empty hempty]
      refine ih fun older p after heq => hidle older p (after ++ [payload]) ?_
      simp [heq]
    · rw [reserve_eq hpos hbytes, Option.getD_some, ← sendTime_eq hpos hbytes]
      exact hidle before payload [] rfl

/-- **The limit is kept from any payload to any later one that is not empty**, and these go out in
    the order of their reservations; and one that finds all before it through goes out at once. -/
theorem upload_limit_kept (limit : Nat) (earlier between : List Payload) (first last : Payload)
    (h : ∀ payload ∈ earlier ++ first :: (between ++ [last]), payload.Paced limit)
    (htimes : ((first :: between).map Payload.now ++ [last.now]).IsChain (· ≤ ·)) :
    (0 < last.byteCount →
      sendTime limit earlier first ≤ sendTime limit (earlier ++ first :: between) last ∧
      seconds ((first :: between).map Payload.byteCount).sum ≤ limit *
        (sendTime limit (earlier ++ first :: between) last - sendTime limit earlier first)) ∧
    ((∀ before payload after, earlier = before ++ payload :: after → sendTime limit before payload +
        uploadPayloadInterval payload.byteCount limit ≤ first.now) →
          delay limit earlier first = 0) := by
  have hpos := (h first (by simp)).1
  refine ⟨fun hbytes => ?_, fun hidle => ?_⟩
  · have hspan : limit * sendTime limit earlier first +
        seconds ((first :: between).map Payload.byteCount).sum ≤
          limit * sendTime limit (earlier ++ first :: between) last := by
      rw [sendTime_eq hpos hbytes]
      refine (Nat.add_le_add_right (Nat.mul_le_mul_left limit (sendTime_le hpos)) _).trans
        (booked (fun p hp => h p (by simp at hp ⊢; tauto)) htimes)
    refine ⟨Nat.le_of_mul_le_mul_left ((Nat.le_add_right _ _).trans hspan) hpos, ?_⟩
    rw [Nat.mul_sub]
    exact Nat.le_sub_of_add_le' hspan
  · rcases Nat.eq_zero_or_pos first.byteCount with hempty | hbytes
    · rw [delay, reserve_empty hempty]
    · rw [delay, reserve_eq hpos hbytes]
      exact Nat.sub_eq_zero_of_le (Nat.max_le.mpr ⟨nextSendAt_le hpos hidle, Nat.le_refl _⟩)

/-- A payload that lasts a second, one that has to wait for it, and one of no bytes. -/
theorem empty_payload_overtakes : let earlier := [Payload.mk 1000 0, ⟨1000, 100⟩]
    sendTime 1000 (earlier.take 1) ⟨1000, 100⟩ = seconds 1 ∧
      sendTime 1000 earlier ⟨0, 100⟩ = 100 := by
  decide

/-- Three payloads that all come in the first second leave in the first, the second
    and the third. -/
theorem upload_limit_kept_three : seconds 2000 ≤
    1000 * (sendTime 1000 [⟨1000, 0⟩, ⟨1000, 100⟩] ⟨500, 200⟩ - sendTime 1000 [] ⟨1000, 0⟩) :=
  ((upload_limit_kept 1000 [] [⟨1000, 100⟩] ⟨1000, 0⟩ ⟨500, 200⟩
    (by simp [Payload.Paced, seconds, u64Max]) (by simp)).1 (by decide)).2

end EmuleBB.Upload
