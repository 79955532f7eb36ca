import Mathlib.Logic.Function.Basic
import EmuleBB.Lib.Run
import EmuleBB.Wire

/-!
# The flood tracker

Each packet family of an IP has a bucket of millisecond tokens: idle time refills it, a packet
spends its cost, and a packet that leaves the balance negative is dropped. A new bucket has its
first packet spent already.

**Whether a bucket is new is read off its contents**, so a packet that finds the balance of a new
bucket at the bucket's own instant costs nothing (`burst_is_free`). **A pruned bucket is not always
full**: it has been idle for one window, and a flood leaves a deficit of several
(`prune_forgives_flood`). Where every packet is charged, the budget holds (`kad_rate_limited`);
where only full buckets are pruned, nobody can tell (`prune_unobservable`).
-/

namespace EmuleBB.Kad

open Function Run Peer

/-- So many packets within the window. -/
structure PacketTrackerLimit where
  maxPackets : Nat
  window : Nat

def asMillis (d : Nat) : Nat := d / 1000000

def i64Max : Int := 2 ^ 63 - 1

def saturateI64 (x : Int) : Int := max (-2 ^ 63) (min x i64Max)

namespace PacketTrackerLimit

variable (limit : PacketTrackerLimit)

def bucketCapMs : Int := min ↑(asMillis limit.window) i64Max

def perPacketTokenCostMs : Int :=
  max (limit.bucketCapMs / ↑(max limit.maxPackets 1)) 1

/-- The balance of a bucket that was full and has spent one packet. -/
def fresh : Int := limit.bucketCapMs - limit.perPacketTokenCostMs

end PacketTrackerLimit

open PacketTrackerLimit

structure TokenBucketState where
  tokens : Int
  lastTick : Nat
  deriving DecidableEq

namespace TokenBucketState

variable (limit : PacketTrackerLimit) (state : TokenBucketState) (now : Nat)

def refilled : Int :=
  min (saturateI64 (state.tokens + min ↑(asMillis (now - state.lastTick)) i64Max)) limit.bucketCapMs

/-- The balance after a packet. -/
def spent : Int :=
  if state.lastTick ≠ now ∨ state.tokens ≠ limit.fresh then
    saturateI64 (state.refilled limit now - limit.perPacketTokenCostMs)
  else state.tokens

end TokenBucketState

open TokenBucketState

/-- What becomes of a packet. -/
inductive PacketTrackerAction
  | allow
  | drop
  | massiveDrop
  deriving DecidableEq

/-- `-3 * cap` wraps around. -/
def actionFor (limit : PacketTrackerLimit) (tokens : Int) : PacketTrackerAction :=
  if tokens < Int.bmod (-3 * limit.bucketCapMs) (2 ^ 64) then .massiveDrop
  else if tokens < 0 then .drop
  else .allow

section

variable {Family : Type} {limits : Family → PacketTrackerLimit}

/-- One bucket for each sender and family, and the senders that are banned. -/
structure PacketTracker (Family : Type) where
  buckets : IpAddr × Family → Option TokenBucketState
  bannedUntil : IpAddr → Option Nat

namespace PacketTracker

def empty : PacketTracker Family := ⟨fun _ => none, fun _ => none⟩

def isBanned (t : PacketTracker Family) (ip : IpAddr) (now : Nat) : Bool :=
  (t.bannedUntil ip).any (now < ·)

def recordAndCheckAt [DecidableEq Family] (limits : Family → PacketTrackerLimit)
    (t : PacketTracker Family)
    (key : IpAddr × Family) (now : Nat) : PacketTracker Family × PacketTrackerAction :=
  let limit := limits key.2
  let tokens := ((t.buckets key).getD ⟨limit.fresh, now⟩).spent limit now
  let action := actionFor limit tokens
  ({ buckets := update t.buckets key (some ⟨tokens, now⟩)
     bannedUntil :=
      if action = .massiveDrop then update t.bannedUntil key.1 (some (now + seconds 3600))
      else t.bannedUntil }, action)

def prune (limits : Family → PacketTrackerLimit) (t : PacketTracker Family) (now : Nat) :
    PacketTracker Family where
  buckets key := (t.buckets key).filter fun state =>
    now - state.lastTick < millis (max (limits key.2).bucketCapMs 0).toNat
  bannedUntil ip := (t.bannedUntil ip).filter (now < ·)

/-! ## The budget of a key -/

/-- A tracker, and how many packets of a key in a closed interval it has allowed. -/
structure Watch (Family : Type) where
  tracker : PacketTracker Family
  allowed : Nat

/-- One packet, and whether it is one of those allowed between the two times. -/
def watch [DecidableEq Family] (limits : Family → PacketTrackerLimit) (key : IpAddr × Family)
    (first last : Nat) (w : Watch Family) (now : Nat) : Watch Family :=
  let (tracker, action) := w.tracker.recordAndCheckAt limits key now
  ⟨tracker, if action = .allow ∧ first ≤ now ∧ now ≤ last then w.allowed + 1 else w.allowed⟩

end PacketTracker

open PacketTracker

section Budget

variable {limit : PacketTrackerLimit} {stored : Option TokenBucketState} {state : TokenBucketState}
  {first last now allowed : Nat}

abbrev InOrder (stored : Option TokenBucketState) (now : Nat) : Prop :=
  ∀ s ∈ stored, s.lastTick ≤ now

/-- The packet does not find the contents of a new bucket. -/
abbrev Charged (limit : PacketTrackerLimit) (stored : Option TokenBucketState) (now : Nat) : Prop :=
  stored ≠ some ⟨limit.fresh, now⟩

theorem cost_pos (limit : PacketTrackerLimit) : 0 < limit.perPacketTokenCostMs := by
  unfold perPacketTokenCostMs
  omega

theorem cap_nonneg (limit : PacketTrackerLimit) : 0 ≤ limit.bucketCapMs :=
  le_min (Int.natCast_nonneg _) (by decide)

/-- A balance that is not negative was paid for, out of a full bucket or out of what was there. -/
theorem spent_paid (hcharged : Charged limit (some state) now) (h : 0 ≤ state.spent limit now) :
    state.spent limit now + limit.perPacketTokenCostMs ≤ limit.bucketCapMs ∧
      state.spent limit now + limit.perPacketTokenCostMs ≤
        state.tokens + ↑(asMillis (now - state.lastTick)) := by
  have hcharge : state.lastTick ≠ now ∨ state.tokens ≠ limit.fresh := by
    rw [← not_and_or]
    rintro ⟨rfl, htokens⟩
    exact hcharged (by rw [← htokens])
  have hpos := cost_pos limit
  rw [spent] at h ⊢
  unfold refilled saturateI64 i64Max at *
  omega

/-- **What the balance says of the packets that were allowed**: what they cost, with what is left,
    came out of one full bucket and the time since the interval began. -/
structure Budget (limit : PacketTrackerLimit) (first last : Nat) (stored : Option TokenBucketState)
    (allowed : Nat) : Prop where
  total : allowed * limit.perPacketTokenCostMs ≤ limit.bucketCapMs + ↑(asMillis (last - first))
  early : (∀ s ∈ stored, s.lastTick < first) → allowed = 0
  within : ∀ s ∈ stored, first ≤ s.lastTick → s.lastTick ≤ last →
    allowed * limit.perPacketTokenCostMs + max s.tokens 0 ≤
      limit.bucketCapMs + ↑(asMillis (s.lastTick - first))

theorem nonneg_of_allow {tokens : Int} (h : actionFor limit tokens = .allow) : 0 ≤ tokens := by
  unfold actionFor at h
  split_ifs at h
  omega

section

variable (h : Budget limit first last stored allowed) (horder : InOrder stored now)
  (hcharged : Charged limit stored now) {tokens : Int}
  (htokens : tokens = (stored.getD ⟨limit.fresh, now⟩).spent limit now)

include h horder hcharged htokens

/-- A packet of the interval finds its cost in the books, if it is allowed. -/
theorem Budget.covers (hfirst : first ≤ now) (hlast : now ≤ last) :
    allowed * limit.perPacketTokenCostMs + max tokens 0 +
      (if 0 ≤ tokens then limit.perPacketTokenCostMs else 0) ≤
        limit.bucketCapMs + ↑(asMillis (now - first)) := by
  have hcap := cap_nonneg limit
  cases stored with
  | none =>
    have hnone : allowed = 0 := h.early (by simp)
    have hfresh : tokens = limit.fresh := by simpa [spent] using htokens
    rw [hnone, hfresh, fresh]
    split <;> omega
  | some state =>
    have hle : state.lastTick ≤ now := horder state rfl
    have hpaid := spent_paid hcharged
    rw [Option.getD_some] at htokens
    by_cases hearly : state.lastTick < first
    · have hnone : allowed = 0 := h.early (by simpa using hearly)
      rw [hnone]
      split <;> omega
    · have hwithin := h.within state rfl (by omega) (by omega)
      unfold asMillis at *
      split <;> omega

/-- What one packet leaves of the budget. -/
theorem Budget.packet : Budget limit first last (some ⟨tokens, now⟩)
    (if actionFor limit tokens = .allow ∧ first ≤ now ∧ now ≤ last then allowed + 1
      else allowed) := by
  have hcovers := h.covers horder hcharged htokens
  by_cases hcounted : actionFor limit tokens = .allow ∧ first ≤ now ∧ now ≤ last
  · have hpaid := hcovers hcounted.2.1 hcounted.2.2
    rw [if_pos (nonneg_of_allow hcounted.1)] at hpaid
    have hcost : ((allowed + 1 : Nat) : Int) * limit.perPacketTokenCostMs =
        allowed * limit.perPacketTokenCostMs + limit.perPacketTokenCostMs := by
      rw [Int.natCast_add, Int.add_mul, Int.natCast_one, Int.one_mul]
    rw [if_pos hcounted]
    refine ⟨?_, fun hearly => ?_, ?_⟩
    · unfold asMillis at *
      omega
    · have : now < first := hearly _ rfl
      omega
    · rintro s ⟨⟩ - -
      dsimp only
      omega
  · rw [if_neg hcounted]
    refine ⟨h.total, fun hearly => h.early fun s hs => ?_, ?_⟩
    · exact (horder s hs).trans_lt (hearly _ rfl)
    · rintro s ⟨⟩ hfirst hlast
      have hpaid := hcovers hfirst hlast
      have hpos := cost_pos limit
      dsimp only
      split at hpaid <;> omega

end

def PacketTracker.Watch.InBudget (limits : Family → PacketTrackerLimit) (key : IpAddr × Family)
    (first last : Nat) (w : PacketTracker.Watch Family) : Prop :=
  Budget (limits key.2) first last (w.tracker.buckets key) w.allowed

/-- **The budget of a key holds where every packet is charged**: of packets in order, none of which
    finds the contents of a new bucket at its own instant, an interval of `T` milliseconds admits at
    most what a full bucket and `T` pay for. -/
theorem kad_rate_limited [DecidableEq Family] (key : IpAddr × Family) (first T : Nat)
    (nows : List Nat) (h : Along (watch limits key first (first + T * 1000000))
      (fun w now => InOrder (w.tracker.buckets key) now ∧
        Charged (limits key.2) (w.tracker.buckets key) now) ⟨.empty, 0⟩ nows) :
    (run (watch limits key first (first + T * 1000000)) ⟨.empty, 0⟩ nows).allowed ≤
      ((limits key.2).bucketCapMs + T) / (limits key.2).perPacketTokenCostMs := by
  have hbudget : (run (watch limits key first (first + T * 1000000)) ⟨.empty, 0⟩
      nows).InBudget limits key first (first + T * 1000000) := by
    refine h.invariant (fun w now hw hcall => ?_) ⟨?_, fun _ => rfl, nofun⟩
    · unfold PacketTracker.Watch.InBudget watch recordAndCheckAt
      dsimp only
      rw [update_self]
      exact hw.packet hcall.1 hcall.2 rfl
    · have := cap_nonneg (limits key.2)
      simp only [Int.natCast_zero, Int.zero_mul]
      omega
  have htotal := hbudget.total
  rw [Nat.add_sub_cancel_left, asMillis, Nat.mul_div_cancel _ (by decide)] at htotal
  exact (Int.le_ediv_iff_mul_le (cost_pos _)).mpr htotal

end Budget

/-! ## Pruning -/

namespace PacketTracker

/-- The calls of the tracker, each at its time. -/
inductive Event (Family : Type)
  | packet (key : IpAddr × Family) (now : Nat)
  | banCheck (ip : IpAddr) (now : Nat)
  | prune (now : Nat)

def Event.now : Event Family → Nat
  | .packet _ now | .banCheck _ now | .prune now => now

def Event.isPrune : Event Family → Bool
  | .prune _ => true
  | _ => false

variable [DecidableEq Family] (limits : Family → PacketTrackerLimit)

/-- The tracker after an event, and what it answers: an action, or whether the IP is banned. -/
def call (t : PacketTracker Family) : Event Family →
    PacketTracker Family × Option (PacketTrackerAction ⊕ Bool)
  | .packet key now => (t.recordAndCheckAt limits key now).map id fun action => some (.inl action)
  | .banCheck ip now => (t, some (.inr (t.isBanned ip now)))
  | .prune now => (t.prune limits now, none)

def step (t : PacketTracker Family) (e : Event Family) : PacketTracker Family := (t.call limits e).1

/-- What the calls answer, in order. -/
def decisions : PacketTracker Family → List (Event Family) → List (PacketTrackerAction ⊕ Bool)
  | _, [] => []
  | t, e :: es => (t.call limits e).2.toList ++ decisions (t.step limits e) es

/-- Idle for a window, the buckets are full. -/
def PrunesFull (t : PacketTracker Family) : Event Family → Prop
  | .prune now => ∀ key, ∀ s ∈ t.buckets key, millis (max (limits key.2).bucketCapMs 0).toNat ≤
      now - s.lastTick → s.refilled (limits key.2) now = (limits key.2).bucketCapMs
  | _ => True

/-- `kept` is `whole`, or has lost an element of which nothing more can be seen. -/
def Lost {α : Type} (Spent : α → Prop) (kept whole : Option α) : Prop :=
  kept = whole ∨ kept = none ∧ ∀ x ∈ whole, Spent x

theorem Lost.filter {α : Type} {Spent : α → Prop} {kept whole : Option α}
    (h : Lost Spent kept whole)
    (keep : α → Bool) (hdropped : ∀ x ∈ kept, ¬keep x → Spent x) :
    Lost Spent (kept.filter keep) whole := by
  obtain rfl | ⟨rfl, hspent⟩ := h
  · cases kept with
    | none => exact .inl rfl
    | some x =>
      by_cases hx : keep x
      · exact .inl (by simp [hx])
      · refine .inr ⟨by simp [hx], ?_⟩
        rintro _ ⟨⟩
        exact hdropped x rfl hx
  · exact .inr ⟨rfl, hspent⟩

/-- What one tracker knows and the other has pruned is a full bucket or a ban that is over. -/
structure Forgets (now : Nat) (pruned full : PacketTracker Family) : Prop where
  buckets key : Lost (fun s => s.refilled (limits key.2) now = (limits key.2).bucketCapMs)
    (pruned.buckets key) (full.buckets key)
  bans ip : Lost (· ≤ now) (pruned.bannedUntil ip) (full.bannedUntil ip)

namespace Forgets

variable {limits} {now later : Nat} {pruned full : PacketTracker Family}

omit [DecidableEq Family] in
theorem mono (h : Forgets limits now pruned full) (hle : now ≤ later) :
    Forgets limits later pruned full := by
  refine ⟨fun key => (h.buckets key).imp_right (And.imp_right fun hfull s hs => ?_), fun ip =>
    (h.bans ip).imp_right (And.imp_right fun hover u hu => (hover u hu).trans hle)⟩
  have := hfull s hs
  unfold refilled saturateI64 i64Max asMillis at *
  omega

omit [DecidableEq Family] in
/-- A full bucket and no bucket are charged alike. -/
theorem spent (h : Forgets limits now pruned full) (key : IpAddr × Family) :
    ((pruned.buckets key).getD ⟨(limits key.2).fresh, now⟩).spent (limits key.2) now =
      ((full.buckets key).getD ⟨(limits key.2).fresh, now⟩).spent (limits key.2) now := by
  obtain heq | ⟨hnone, hfull⟩ := h.buckets key
  · rw [heq]
  · cases hs : full.buckets key with
    | none => rw [hnone]
    | some s =>
      have hrefilled := hfull s hs
      have hcap := cap_nonneg (limits key.2)
      have hpos := cost_pos (limits key.2)
      have hcost : (limits key.2).perPacketTokenCostMs ≤ max (limits key.2).bucketCapMs 1 := by
        have := Int.ediv_le_self (↑(max (limits key.2).maxPackets 1)) hcap
        unfold perPacketTokenCostMs
        omega
      have hmax : (limits key.2).bucketCapMs ≤ i64Max := min_le_right _ _
      rw [hnone, Option.getD_none, Option.getD_some, TokenBucketState.spent, if_neg (by simp),
        TokenBucketState.spent, hrefilled]
      dsimp only
      split
      · unfold saturateI64 i64Max fresh at *
        omega
      · omega

theorem packet (h : Forgets limits now pruned full) (key : IpAddr × Family) :
    (pruned.recordAndCheckAt limits key now).2 = (full.recordAndCheckAt limits key now).2 ∧
      Forgets limits now (pruned.recordAndCheckAt limits key now).1
        (full.recordAndCheckAt limits key now).1 := by
  unfold recordAndCheckAt
  dsimp only
  rw [h.spent]
  refine ⟨rfl, fun other => ?_, fun ip => ?_⟩
  · obtain rfl | hne := eq_or_ne other key
    · simp [Lost]
    · simpa [hne] using h.buckets other
  · split
    · obtain rfl | hne := eq_or_ne ip key.1
      · simp [Lost]
      · simpa [hne] using h.bans ip
    · exact h.bans ip

omit [DecidableEq Family] in
theorem isBanned (h : Forgets limits now pruned full) (ip : IpAddr) :
    pruned.isBanned ip now = full.isBanned ip now := by
  unfold PacketTracker.isBanned
  obtain heq | ⟨hnone, hover⟩ := h.bans ip
  · rw [heq]
  · rw [hnone, eq_comm, Option.any_none, Option.any_eq_false]
    intro until_ hmem
    simpa using hover until_ hmem

omit [DecidableEq Family] in
theorem prune (h : Forgets limits now pruned full) (hfull : PrunesFull limits pruned (.prune now)) :
    Forgets limits now (pruned.prune limits now) full where
  buckets key := (h.buckets key).filter _ fun s hs hidle => hfull key s hs (by simpa using hidle)
  bans ip := (h.bans ip).filter _ fun _ _ hover => by simpa using hover

/-- **A tracker that prunes only full buckets decides as one that never prunes.** -/
theorem decisions_eq {es : List (Event Family)} (h : Forgets limits now pruned full)
    (hnow : ∀ e ∈ es, now ≤ e.now) (horder : es.Pairwise (Event.now · ≤ Event.now ·))
    (hfull : Along (step limits) (PrunesFull limits) pruned es) :
    pruned.decisions limits es = full.decisions limits (es.filter fun e => !e.isPrune) := by
  induction es generalizing now pruned full with
  | nil => rfl
  | cons e es ih =>
    obtain ⟨hlater, hrest⟩ := List.pairwise_cons.mp horder
    have h := h.mono (hnow e (List.mem_cons_self ..))
    cases e with
    | packet key now =>
      obtain ⟨haction, hpacket⟩ := h.packet key
      exact congrArg₂ (Sum.inl · :: ·) haction (ih hpacket hlater hrest hfull.2)
    | banCheck ip now =>
      exact congrArg₂ (Sum.inr · :: ·) (h.isBanned ip) (ih h hlater hrest hfull.2)
    | prune now => exact ih (h.prune hfull.1) hlater hrest hfull.2

end Forgets

end PacketTracker

/-- **Pruning cannot be seen where it drops full buckets only**: the tracker answers packets and ban
    checks as one that is never pruned. -/
theorem prune_unobservable [DecidableEq Family] (es : List (PacketTracker.Event Family))
    (horder : es.Pairwise (·.now ≤ ·.now))
    (h : Along (step limits) (PacketTracker.PrunesFull limits) .empty es) :
    decisions limits .empty es =
      decisions limits .empty (es.filter fun e => !e.isPrune) :=
  PacketTracker.Forgets.decisions_eq ⟨fun _ => .inl rfl, fun _ => .inl rfl⟩
    (fun _ _ => Nat.zero_le _) horder h

/-! ## A limit of one packet a minute -/

section

def perMinute (_ : Unit) : PacketTrackerLimit := ⟨1, seconds 60⟩

def sender : IpAddr × Unit := (.v4 ⟨1, 2, 3, 4⟩, ())

open PacketTracker

/-- Two packets at one instant are both allowed. -/
theorem burst_is_free : ¬((run (watch perMinute sender 0 0) ⟨.empty, 0⟩ [0, 0]).allowed : Int) ≤
    ((perMinute ()).bucketCapMs + 0) / (perMinute ()).perPacketTokenCostMs := by
  decide +kernel

/-- A packet of one nanosecond later is dropped. -/
theorem rate_of_two_packets : ((run (watch perMinute sender 0 (0 + 1 * 1000000)) ⟨.empty, 0⟩
    [0, 1]).allowed : Int) ≤
      ((perMinute ()).bucketCapMs + (1 : Nat)) / (perMinute ()).perPacketTokenCostMs :=
  kad_rate_limited sender 0 1 [0, 1] (by decide +kernel)

/-- Three packets leave a deficit of two windows, and one window later the bucket is dropped: the
    next packet is allowed. -/
def flood : List (PacketTracker.Event Unit) :=
  [.packet sender 0, .packet sender 1, .packet sender 2, .prune (seconds 61),
    .packet sender (seconds 62)]

/-- A flood that is pruned away is allowed again. -/
theorem prune_forgives_flood : flood.Pairwise (·.now ≤ ·.now) ∧ decisions perMinute .empty flood ≠
    decisions perMinute .empty (flood.filter fun e => !e.isPrune) := by
  decide +kernel

def idle : List (PacketTracker.Event Unit) :=
  [.packet sender 0, .prune (seconds 61), .packet sender (seconds 62)]

/-- One packet, a pruning after the window, and a packet. -/
theorem prune_after_idle : decisions perMinute .empty idle =
    decisions perMinute .empty (idle.filter fun e => !e.isPrune) := by
  refine prune_unobservable idle (by decide +kernel) ⟨trivial, ?_, trivial, trivial⟩
  intro key s hs _
  obtain rfl | hne := eq_or_ne key sender
  · obtain rfl : ⟨0, 0⟩ = s := Option.some.inj hs
    decide +kernel
  · have : (none : Option TokenBucketState) = some s := (update_of_ne hne _ _).symm.trans hs
    cases this

end

end

end EmuleBB.Kad
