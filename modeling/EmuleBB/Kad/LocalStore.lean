import EmuleBB.Kad.Buddy
import EmuleBB.Lib.FirstMatch

/-!
# The local publish store

Sources and notes are two **families** of publishes with one rule of admission: what is out of time
goes, a publish takes the place of the first entry it **replaces**, else the oldest place of a file
over its cap, and a full family rejects it.

The rule keeps both caps and leaves other files alone (`kad_store_admission`). It does not keep
endpoints apart: **a source replaces by either port**, so it can take the place of one entry and be
left beside another that has both its ports (`endpoint_stored_twice`).
-/

namespace EmuleBB.Kad

open FirstMatch Run Peer List

/-! ## A family -/

inductive AdmissionDisposition
  | inserted
  | refreshed
  | recycled
  | rejectedGlobalCapacity

def AdmissionDisposition.publishLoad (acceptedLoad : UInt8) : AdmissionDisposition → UInt8
  | .rejectedGlobalCapacity => 100
  | _ => acceptedLoad

/-- A family's part of `KadLocalStoreConfig`. -/
structure PublishCaps where
  enabled : Bool
  ttl : Nat
  perFileCapacity : Nat
  capacity : Nat

structure PublishFamily (Entry : Type) where
  observedAt : Entry → Int
  target : Entry → NodeId
  /-- Its addresses and ports are set. -/
  wellFormed : Entry → Bool
  replaces : Entry → Entry → Bool
  target_eq : ∀ {entry stored}, replaces entry stored → target stored = target entry

/-- A merged snapshot is its entries one by one. A publish whose tags do not pass is no call. -/
inductive StoreCall (Entry : Type)
  | publish (entry : Entry)
  | merge (entry : Entry) (now : Int)
  | search (now : Int)

def StoreCall.entry {Entry : Type} : StoreCall Entry → Option Entry
  | .publish entry | .merge entry _ => some entry
  | .search _ => none

namespace PublishFamily

variable {Entry : Type} (F : PublishFamily Entry) (caps : PublishCaps)

def isOf (target : NodeId) (entry : Entry) : Bool := F.target entry = target

def purgeExpired (now : Int) (entries : List Entry) : List Entry :=
  entries.filter fun entry => now < F.observedAt entry + caps.ttl

def upsert (entries : List Entry) (entry : Entry) : List Entry × AdmissionDisposition :=
  if entries.any (F.replaces entry) then
    (modifyFirst (F.replaces entry) (fun _ => entry) entries, .refreshed)
  else if caps.perFileCapacity < entries.countP (F.isOf (F.target entry)) then
    (entries.eraseP (F.isOf (F.target entry)) ++ [entry], .recycled)
  else if caps.capacity ≤ entries.length then (entries, .rejectedGlobalCapacity)
  else (entries ++ [entry], .inserted)

def stockPublishLoad (entries : List Entry) (entry : Entry) : UInt8 :=
  let targetCount := entries.countP (F.isOf (F.target entry))
  if targetCount = 0 then 1
  else if caps.perFileCapacity < targetCount && !entries.any (F.replaces entry) then 100
  else UInt8.ofNat (targetCount * 100 / max caps.perFileCapacity 1)

def recordPublish (entries : List Entry) (entry : Entry) : List Entry × Option UInt8 :=
  if caps.enabled && F.wellFormed entry then
    let entries := F.purgeExpired caps (F.observedAt entry) entries
    let (stored, disposition) := F.upsert caps entries entry
    (stored, some (disposition.publishLoad (F.stockPublishLoad caps entries entry)))
  else (entries, none)

def step (entries : List Entry) : StoreCall Entry → List Entry
  | .publish entry => (F.recordPublish caps entries entry).1
  | .merge entry now =>
    if caps.enabled && F.wellFormed entry && decide (now < F.observedAt entry + caps.ttl) then
      (F.upsert caps entries entry).1
    else entries
  | .search now => if caps.enabled then F.purgeExpired caps now entries else entries

/-- The entries that a call admits its own to. -/
def before (entries : List Entry) : StoreCall Entry → List Entry
  | .publish entry => F.purgeExpired caps (F.observedAt entry) entries
  | _ => entries

/-- What a publish must not touch: the entries of other files that are in time. -/
def others (entry : Entry) (entries : List Entry) : List Entry :=
  (F.purgeExpired caps (F.observedAt entry) entries).filter fun e => !F.isOf (F.target entry) e

/-- The bounds of the store, and that a publish leaves other entries alone. -/
structure Admission (entries : List Entry) : Prop where
  perFile : ∀ target, entries.countP (F.isOf target) ≤ caps.perFileCapacity + 1
  whole : entries.length ≤ caps.capacity
  frame : ∀ entry, F.others caps entry (F.recordPublish caps entries entry).1 =
    F.others caps entry entries
  rejected : ∀ entry, caps.enabled → F.wellFormed entry →
    let entries' := F.purgeExpired caps (F.observedAt entry) entries
    (F.upsert caps entries' entry).2 = .rejectedGlobalCapacity →
      F.recordPublish caps entries entry = (entries', some 100)

/-! ## Sources and notes -/

end PublishFamily

/-- A source that was published to this node. -/
structure StoredSourcePublish where
  observedAt : Int
  target : NodeId
  publisherId : NodeId
  sourceIp : Ipv4Addr
  sourceTcpPort : UInt16
  sourceUdpPort : UInt16
  deriving DecidableEq

/-- A note that was published to this node. -/
structure StoredNotesPublish where
  observedAt : Int
  target : NodeId
  publisherId : NodeId
  publisherIp : Ipv4Addr

/-- A source replaces one of the same address with one of the two ports the same. -/
def sources : PublishFamily StoredSourcePublish where
  observedAt := (·.observedAt)
  target := (·.target)
  wellFormed e := !e.sourceIp.isUnspecified && e.sourceTcpPort != 0 && e.sourceUdpPort != 0
  replaces entry stored := stored.target = entry.target && stored.sourceIp = entry.sourceIp &&
    (stored.sourceTcpPort = entry.sourceTcpPort || stored.sourceUdpPort = entry.sourceUdpPort)
  target_eq := by simp_all

/-- A note replaces one of the same address or of the same publisher. -/
def notes : PublishFamily StoredNotesPublish where
  observedAt := (·.observedAt)
  target := (·.target)
  wellFormed e := !e.publisherIp.isUnspecified
  replaces entry stored := stored.target = entry.target &&
    (stored.publisherIp = entry.publisherIp || stored.publisherId = entry.publisherId)
  target_eq := by simp_all

def StoredSourcePublish.dedupKey (e : StoredSourcePublish) : NodeId × Ipv4Addr × UInt16 × UInt16 :=
  (e.target, e.sourceIp, e.sourceTcpPort, e.sourceUdpPort)

/-- The entries a source search answers with. -/
def sourceSearchResults (target : NodeId) (offset limit : Nat)
    (sizeMatches : StoredSourcePublish → Bool) (entries : List StoredSourcePublish) :
    List StoredSourcePublish :=
  (((entries.reverse.filter (sources.isOf target)).drop offset).filter sizeMatches).take limit

/-! ## What a publish does -/

namespace PublishFamily

variable {Entry : Type} {F : PublishFamily Entry} {caps : PublishCaps} {entries : List Entry}
  {entry : Entry} {calls : List (StoreCall Entry)}

/-- **The four ends of a publish.** The two that take a place take that of an entry of the same
    file. -/
theorem upsert_cases (F : PublishFamily Entry) (caps : PublishCaps) (entries : List Entry)
    (entry : Entry) :
    (∃ as stored bs, entries = as ++ stored :: bs ∧ F.target stored = F.target entry ∧
      entries.find? (F.replaces entry) = some stored ∧
      F.upsert caps entries entry = (as ++ entry :: bs, .refreshed)) ∨
    (entries.find? (F.replaces entry) = none ∧
      ((∃ as stored bs, entries = as ++ stored :: bs ∧ F.target stored = F.target entry ∧
        F.upsert caps entries entry = (as ++ bs ++ [entry], .recycled)) ∨
      F.upsert caps entries entry = (entries, .rejectedGlobalCapacity) ∨
      (entries.countP (F.isOf (F.target entry)) ≤ caps.perFileCapacity ∧
        entries.length < caps.capacity ∧
        F.upsert caps entries entry = (entries ++ [entry], .inserted)))) := by
  have hany : entries.any (F.replaces entry) = (entries.find? (F.replaces entry)).isSome := by
    rw [Bool.eq_iff_iff]
    simp [find?_isSome]
  simp only [upsert, hany]
  obtain ⟨hnone, -⟩ | ⟨as, stored, bs, heq, hfind, hmodify, -⟩ :=
    modifyFirst_cases (F.replaces entry) (fun _ => entry) entries
  · refine .inr ⟨hnone, ?_⟩
    obtain ⟨hfind, -⟩ | ⟨as, stored, bs, heq, hfind, -, herase⟩ :=
      modifyFirst_cases (F.isOf (F.target entry)) id entries
    · have hzero : entries.countP (F.isOf (F.target entry)) = 0 := by
        rw [countP_eq_zero]
        exact find?_eq_none.mp hfind
      grind
    · have htarget : F.target stored = F.target entry := by simpa [isOf] using find?_some hfind
      grind
  · refine .inl ⟨as, stored, bs, heq, F.target_eq (find?_some hfind), hfind, ?_⟩
    rw [hfind, hmodify]
    rfl

theorem countP_upsert {target : NodeId}
    (h : entries.countP (F.isOf target) ≤ caps.perFileCapacity + 1) :
    (F.upsert caps entries entry).1.countP (F.isOf target) ≤ caps.perFileCapacity + 1 := by
  obtain ⟨as, stored, bs, rfl, htarget, -, heq⟩ | ⟨-, ⟨as, stored, bs, rfl, htarget, heq⟩ | heq |
      ⟨hcount, -, heq⟩⟩ := F.upsert_cases caps entries entry <;> rw [heq]
  · grind [isOf]
  · grind [isOf]
  · exact h
  · by_cases htarget : F.target entry = target
    · grind
    · grind [isOf]

theorem length_upsert (h : entries.length ≤ caps.capacity) :
    (F.upsert caps entries entry).1.length ≤ caps.capacity := by
  obtain ⟨as, stored, bs, rfl, -, -, heq⟩ | ⟨-, ⟨as, stored, bs, rfl, -, heq⟩ | heq |
      ⟨-, hlength, heq⟩⟩ := F.upsert_cases caps entries entry <;> rw [heq] <;> grind

theorem filter_upsert :
    (F.upsert caps entries entry).1.filter (fun e => !F.isOf (F.target entry) e) =
      entries.filter fun e => !F.isOf (F.target entry) e := by
  obtain ⟨as, stored, bs, rfl, htarget, -, heq⟩ | ⟨-, ⟨as, stored, bs, rfl, htarget, heq⟩ | heq |
      ⟨-, -, heq⟩⟩ := F.upsert_cases caps entries entry <;> rw [heq] <;> simp [isOf, *]

theorem frame_recordPublish :
    F.others caps entry (F.recordPublish caps entries entry).1 = F.others caps entry entries := by
  unfold recordPublish
  split
  · rw [others, others, purgeExpired, filter_comm, filter_upsert, filter_comm]
    simp [purgeExpired]
  · rfl

/-- **Runs of the store.** What survives leaving entries out and the admission of an entry holds of
    what a run has stored. -/
theorem run_invariant (P : List Entry → Prop) {Q : List Entry → StoreCall Entry → Prop}
    (hnil : P []) (hsub : ∀ {xs ys : List Entry}, xs.Sublist ys → P ys → P xs)
    (hupsert : ∀ {entries call}, Q entries call → ∀ entry ∈ call.entry,
      P (F.before caps entries call) → P (F.upsert caps (F.before caps entries call) entry).1)
    (h : Along (F.step caps) Q [] calls) : P (run (F.step caps) [] calls) := by
  refine h.invariant (fun entries call h hq => ?_) hnil
  have hpurge (now : Int) : P (F.purgeExpired caps now entries) := hsub filter_sublist h
  cases call with
  | publish entry =>
    simp only [step, recordPublish]
    split
    · exact hupsert hq entry rfl (hpurge _)
    · exact h
  | merge entry now =>
    simp only [step]
    split
    · exact hupsert hq entry rfl h
    · exact h
  | search now =>
    simp only [step]
    split
    · exact hpurge now
    · exact h

theorem admission_run :
    F.Admission caps (run (F.step caps) [] calls) where
  perFile target := run_invariant (fun es => es.countP (F.isOf target) ≤ _) (Nat.zero_le _)
    (fun hsub => hsub.countP_le.trans) (fun _ entry _ => countP_upsert) along_true
  whole := run_invariant (fun es => es.length ≤ _) (Nat.zero_le _)
    (fun hsub => hsub.length_le.trans) (fun _ entry _ => length_upsert) along_true
  frame entry := frame_recordPublish
  rejected entry henabled hformed := by
    intro entries' hrejected
    obtain ⟨_, _, _, -, -, -, heq⟩ | ⟨-, ⟨_, _, _, -, -, heq⟩ | heq | ⟨-, -, heq⟩⟩ :=
      F.upsert_cases caps entries' entry <;> rw [heq] at hrejected <;> cases hrejected
    simp [recordPublish, henabled, hformed, heq, entries', AdmissionDisposition.publishLoad]

end PublishFamily

/-- **The store admits within its caps**: a file has at most one entry over its own, a family no
    more than its own, and a publish leaves the entries of other files as they are. -/
theorem kad_store_admission (source note : PublishCaps)
    (sourceCalls : List (StoreCall StoredSourcePublish))
    (noteCalls : List (StoreCall StoredNotesPublish)) :
    sources.Admission source (run (sources.step source) [] sourceCalls) ∧
      notes.Admission note (run (notes.step note) [] noteCalls) :=
  ⟨PublishFamily.admission_run, PublishFamily.admission_run⟩

/-! ## Endpoints -/

section

variable {caps : PublishCaps} {entries : List StoredSourcePublish} {entry : StoredSourcePublish}

/-- An entry with the endpoint of a publish is the one that the publish replaces. -/
abbrev ReplacesItself (entries : List StoredSourcePublish) (entry : StoredSourcePublish) : Prop :=
  ∀ stored ∈ entries, stored.dedupKey = entry.dedupKey →
    entries.find? (sources.replaces entry) = some stored

/-- No file has an endpoint twice. -/
abbrev Distinct (entries : List StoredSourcePublish) : Prop :=
  (entries.map StoredSourcePublish.dedupKey).Nodup

abbrev EachReplacesItself (caps : PublishCaps) (entries : List StoredSourcePublish)
    (call : StoreCall StoredSourcePublish) : Prop :=
  ∀ entry ∈ call.entry, ReplacesItself (sources.before caps entries call) entry

theorem distinct_upsert (h : Distinct entries) (hself : ReplacesItself entries entry) :
    Distinct (sources.upsert caps entries entry).1 := by
  have hreplaces {stored} (hkey : stored.dedupKey = entry.dedupKey) :
      sources.replaces entry stored := by
    simp_all [StoredSourcePublish.dedupKey, sources]
  obtain ⟨as, stored, bs, rfl, -, hfind, heq⟩ | ⟨hnone, hcases⟩ :=
      sources.upsert_cases caps entries entry
  · rw [heq]
    have hne e (he : e ∈ as ++ bs) : e.dedupKey ≠ entry.dedupKey := by
      intro hkey
      obtain rfl : stored = e :=
        Option.some.inj (hfind.symm.trans (hself e (by grind) hkey))
      grind
    grind
  · have hne e (he : e ∈ entries) : e.dedupKey ≠ entry.dedupKey :=
      fun hkey => find?_eq_none.mp hnone e he (hreplaces hkey)
    obtain ⟨as, stored, bs, rfl, -, heq⟩ | heq | ⟨-, -, heq⟩ := hcases <;> rw [heq] <;> grind

end

/-- **No endpoint is stored twice for a file**, nor found twice by a search, if every publish
    replaces the entry that has its endpoint. -/
theorem endpoints_stored_once (caps : PublishCaps) (calls : List (StoreCall StoredSourcePublish))
    (h : Along (sources.step caps) (EachReplacesItself caps) [] calls) :
    let entries := run (sources.step caps) [] calls
    Distinct entries ∧ ∀ target offset limit sizeMatches,
      Distinct (sourceSearchResults target offset limit sizeMatches entries) := by
  have hsub {xs ys : List StoredSourcePublish} (hsub : xs.Sublist ys) (hys : Distinct ys) :
      Distinct xs := hys.sublist (hsub.map _)
  have hentries := PublishFamily.run_invariant Distinct nodup_nil hsub
    (fun hself entry hentry hbefore => distinct_upsert hbefore (hself entry hentry)) h
  refine ⟨hentries, fun target offset limit sizeMatches => ?_⟩
  refine hsub ((take_sublist ..).trans (filter_sublist.trans
    ((drop_sublist ..).trans filter_sublist))) ?_
  rw [Distinct, map_reverse, nodup_reverse]
  exact hentries

/-- A publish of one file from one address. -/
def sourceAt (tcpPort udpPort : UInt16) : StoreCall StoredSourcePublish :=
  .publish ⟨0, Vector.replicate 16 7, Vector.replicate 16 1, ⟨10, 0, 0, 1⟩, tcpPort, udpPort⟩

def openCaps : PublishCaps := ⟨true, 18000, 1000, 100000⟩

/-- Two sources, the second published twice. -/
theorem endpoints_stored_once_refreshed :
    Distinct (run (sources.step openCaps) [] [sourceAt 1 1, sourceAt 2 2, sourceAt 2 2]) :=
  (endpoints_stored_once openCaps [sourceAt 1 1, sourceAt 2 2, sourceAt 2 2] (by decide +kernel)).1

/-- The third publish takes the first one's place by its TCP port, the fourth takes that place by
    its UDP port, and the second has the fourth's endpoint. -/
theorem endpoint_stored_twice : ¬ Distinct (run (sources.step openCaps) []
      [sourceAt 1 1, sourceAt 2 2, sourceAt 1 2, sourceAt 2 2]) := by
  decide +kernel

end EmuleBB.Kad
