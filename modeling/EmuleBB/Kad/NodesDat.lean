import EmuleBB.Kad.Buddy
import EmuleBB.Peer.PartPackets

/-!
# The nodes.dat codec

The contact file in its five layouts. **What is written is read back**, keys and their addresses
included, and **what is accepted is framed**: its length is that of one header and of the records
the header counts. No input is framed in two ways, because the first word is a count or a zero in
front of a version, and a zero alone is the file of no contact.
-/

namespace EmuleBB.Kad

open Peer

/-- A contact of the file. -/
structure BootstrapContact where
  nodeId : NodeId
  ip : Ipv4Addr
  udpPort : UInt16
  tcpPort : UInt16
  version : UInt8
  udpKey : UInt32
  udpKeyIp : Option Ipv4Addr
  verified : Bool

inductive NodesDatLayout
  | legacy
  | basic
  | extended

def NodesDatLayout.entrySize : NodesDatLayout → Nat
  | legacy | basic => 25
  | extended => 34

/-- `u32::from_be_bytes` of the octets. -/
def ipBits (ip : Ipv4Addr) : Nat :=
  ((ip.a.toNat * 256 + ip.b.toNat) * 256 + ip.c.toNat) * 256 + ip.d.toNat

def ipOfBits (bits : Nat) : Ipv4Addr :=
  ⟨.ofNat (bits / 256 / 256 / 256), .ofNat (bits / 256 / 256), .ofNat (bits / 256), .ofNat bits⟩

/-- One record; without an address or a UDP port it is no contact. -/
def takeEntry (layout : NodesDatLayout) (body : List UInt8) :
    Option (Option BootstrapContact × List UInt8) := do
  let (nodeId, body) ← takeMd4 body
  let (ip, body) ← takeLe 4 body
  let (udpPort, body) ← takeLe 2 body
  let (tcpPort, body) ← takeLe 2 body
  let (version, body) ← takeLe 1 body
  let contact (version udpKey udpKeyIp : Nat) (verified : Bool) : Option BootstrapContact :=
    if ip = 0 ∨ udpPort = 0 then none
    else some ⟨nodeId, ipOfBits ip, .ofNat udpPort, .ofNat tcpPort, .ofNat version, .ofNat udpKey,
      if udpKeyIp = 0 then none else some (ipOfBits udpKeyIp), verified⟩
  match layout with
  -- the last byte is the obsolete contact type
  | .legacy => some (contact 0 0 0 true, body)
  | .basic => some (contact version 0 0 true, body)
  | .extended =>
    let (udpKey, body) ← takeLe 4 body
    let (udpKeyIp, body) ← takeLe 4 body
    let (verified, body) ← takeLe 1 body
    some (contact version udpKey udpKeyIp (verified ≠ 0), body)

def takeEntries (layout : NodesDatLayout) : Nat → List UInt8 → Option (List BootstrapContact)
  | 0, _ => some []
  | count + 1, body => do
    let (contact, body) ← takeEntry layout body
    let contacts ← takeEntries layout count body
    some (contact.toList ++ contacts)

/-- The cursor's read of the word behind `i` others. -/
def word (data : List UInt8) (i : Nat) : Option Nat := (takeLe 4 (data.drop (4 * i))).map (·.1)

/-- The count, the layout and where the header ends. -/
def takeHeader (data : List UInt8) : Option (Nat × NodesDatLayout × Nat) := do
  let first ← word data 0
  if first ≠ 0 then some (first, .legacy, 4)
  else if data.length = 4 then some (0, .legacy, 4)
  else
    match ← word data 1 with
    | 1 => some (← word data 2, .basic, 12)
    | 2 => some (← word data 2, .extended, 12)
    | 3 =>
      let edition ← word data 2
      let count ← word data 3
      match edition with
      | 0 => some (count, .extended, 16)
      | 1 => some (count, .basic, 16)
      | _ => none
    | _ => none

def maxContacts : Nat := 500000

/-- The header decides the layout; the length has to fit it. -/
def parseNodesDat (data : List UInt8) : Option (List BootstrapContact) := do
  let (count, layout, headerEnd) ← takeHeader data
  if maxContacts < count ∨ data.length ≠ headerEnd + count * layout.entrySize then none
  else takeEntries layout count (data.drop headerEnd)

def encodeEntry (contact : BootstrapContact) : List UInt8 :=
  contact.nodeId.toList ++ (putLe 4 (ipBits contact.ip) ++ (putLe 2 contact.udpPort.toNat ++
    (putLe 2 contact.tcpPort.toNat ++ (putLe 1 contact.version.toNat ++
      (putLe 4 contact.udpKey.toNat ++ (putLe 4 (contact.udpKeyIp.elim 0 ipBits) ++
        putLe 1 contact.verified.toNat))))))

/-- Always the extended layout. -/
def encodeNodesDat (contacts : List BootstrapContact) : List UInt8 :=
  putLe 4 0 ++ (putLe 4 2 ++ (putLe 4 contacts.length ++ contacts.flatMap encodeEntry))

/-! ## Reading back -/

theorem ipBits_spec (ip : Ipv4Addr) : ipBits ip < 256 ^ 4 ∧ ipOfBits (ipBits ip) = ip := by
  have ha := ip.a.toNat_lt
  have hb := ip.b.toNat_lt
  have hc := ip.c.toNat_lt
  have hd := ip.d.toNat_lt
  cases ip
  simp only [ipOfBits, ipBits, Ipv4Addr.mk.injEq, ← UInt8.toNat_inj, UInt8.toNat_ofNat'] at *
  omega

theorem ipBits_ne_zero {ip : Ipv4Addr} (h : ¬ ip.isUnspecified) : ipBits ip ≠ 0 := by
  intro hzero
  rw [← (ipBits_spec ip).2, hzero] at h
  exact h rfl

/-- The contacts a file can hold. -/
structure Storable (contact : BootstrapContact) : Prop where
  ip : ¬ contact.ip.isUnspecified
  udpPort : contact.udpPort ≠ 0
  udpKeyIp : ∀ ip, contact.udpKeyIp = some ip → ¬ ip.isUnspecified

theorem takeEntry_encodeEntry {contact : BootstrapContact} (h : Storable contact)
    (rest : List UInt8) :
    takeEntry .extended (encodeEntry contact ++ rest) = some (some contact, rest) := by
  obtain ⟨hip, hback⟩ := ipBits_spec contact.ip
  have hport : contact.udpPort.toNat ≠ 0 := fun hzero => h.udpPort (UInt16.toNat_inj.mp hzero)
  obtain ⟨hkeyIp, hkept⟩ : contact.udpKeyIp.elim 0 ipBits < 256 ^ 4
      ∧ (if contact.udpKeyIp.elim 0 ipBits = 0 then none
        else some (ipOfBits (contact.udpKeyIp.elim 0 ipBits))) = contact.udpKeyIp := by
    cases hkey : contact.udpKeyIp with
    | none => decide
    | some ip =>
      obtain ⟨hlt, hback⟩ := ipBits_spec ip
      refine ⟨hlt, ?_⟩
      simp [ipBits_ne_zero (h.udpKeyIp ip hkey), hback]
  have hverified : contact.verified.toNat < 256 ^ 1 := by
    cases contact.verified <;> decide
  simp only [takeEntry, encodeEntry, List.append_assoc, takeMd4_toList, takeLe_putLe hip,
    @takeLe_putLe 2 _ (UInt16.toNat_lt _), @takeLe_putLe 1 _ (UInt8.toNat_lt _),
    @takeLe_putLe 4 _ (UInt32.toNat_lt _), takeLe_putLe hkeyIp, takeLe_putLe hverified,
    Option.bind_eq_bind, Option.bind_some]
  rw [hkept, hback]
  simp [ipBits_ne_zero h.ip, hport]

/-- **What is written is read back**, entry by entry. -/
theorem takeEntries_flatMap {contacts : List BootstrapContact}
    (h : ∀ contact ∈ contacts, Storable contact) :
    takeEntries .extended contacts.length (contacts.flatMap encodeEntry) = some contacts := by
  induction contacts with
  | nil => rfl
  | cons contact contacts ih =>
    rw [List.forall_mem_cons] at h
    simp [takeEntries, takeEntry_encodeEntry h.1, ih h.2]

theorem word_zero {value : Nat} (h : value < 256 ^ 4) (rest : List UInt8) :
    word (putLe 4 value ++ rest) 0 = some value := by
  simp [word, takeLe_putLe h]

theorem word_succ (value i : Nat) (rest : List UInt8) :
    word (putLe 4 value ++ rest) (i + 1) = word rest i := by
  rfl

/-! ## Framing -/

/-- The five layouts of a file. -/
inductive FileLayout
  | legacy
  | version1
  | version2
  | normal
  | bootstrap

namespace FileLayout

variable {data : List UInt8}

/-- The words in front of so many records. -/
def header : FileLayout → Nat → List Nat
  | legacy, count => [count]
  | version1, count => [0, 1, count]
  | version2, count => [0, 2, count]
  | normal, count => [0, 3, 0, count]
  | bootstrap, count => [0, 3, 1, count]

def recordSize : FileLayout → Nat
  | legacy | version1 | bootstrap => 25
  | version2 | normal => 34

/-- The data have the header and the length of the layout. -/
def Frames (layout : FileLayout) (data : List UInt8) : Prop :=
  ∃ count,
    (List.range (layout.header count).length).map (word data) = (layout.header count).map some ∧
    data.length = 4 * (layout.header count).length + count * layout.recordSize

/-- **No data fit two layouts.** -/
theorem frames_unique {first second : FileLayout} (hfirst : first.Frames data)
    (hsecond : second.Frames data) : first = second := by
  obtain ⟨count, hwords, hlength⟩ := hfirst
  obtain ⟨count', hwords', hlength'⟩ := hsecond
  cases first <;> cases second <;> simp [header, List.range_succ, recordSize] at * <;> grind

/-- A header that is read frames the data if they are as long as it says. -/
theorem frames_of_header {count headerEnd : Nat} {layout : NodesDatLayout}
    (h : takeHeader data = some (count, layout, headerEnd))
    (hlength : data.length = headerEnd + count * layout.entrySize) :
    ∃ file : FileLayout, file.Frames data := by
  simp only [takeHeader, Option.bind_eq_bind, Option.bind_eq_some_iff] at h
  obtain ⟨first, hfirst, h⟩ := h
  split at h
  · cases h
    exact ⟨.legacy, count, by simp [header, hfirst], hlength⟩
  · rename_i hzero
    rw [not_not.mp hzero] at hfirst
    split at h
    · cases h
      exact ⟨.legacy, 0, by simp [header, hfirst], hlength⟩
    · obtain ⟨version, hversion, h⟩ := Option.bind_eq_some_iff.mp h
      split at h
      · obtain ⟨_, hcount, heq⟩ := Option.bind_eq_some_iff.mp h
        cases heq
        exact ⟨.version1, count, by simp [header, List.range_succ, *], hlength⟩
      · obtain ⟨_, hcount, heq⟩ := Option.bind_eq_some_iff.mp h
        cases heq
        exact ⟨.version2, count, by simp [header, List.range_succ, *], hlength⟩
      · obtain ⟨edition, hedition, h⟩ := Option.bind_eq_some_iff.mp h
        obtain ⟨_, hcount, h⟩ := Option.bind_eq_some_iff.mp h
        split at h
        · cases h
          exact ⟨.normal, count, by simp [header, List.range_succ, *], hlength⟩
        · cases h
          exact ⟨.bootstrap, count, by simp [header, List.range_succ, *], hlength⟩
        · cases h
      · cases h

end FileLayout

/-- **The nodes.dat codec.** What is written is read back as it was, and what is accepted has the
    length of exactly one of the five layouts. -/
theorem nodes_dat_codec :
    (∀ contacts : List BootstrapContact, contacts.length ≤ maxContacts →
      (∀ contact ∈ contacts, Storable contact) →
        parseNodesDat (encodeNodesDat contacts) = some contacts)
      ∧ ∀ data contacts, parseNodesDat data = some contacts →
          ∃! layout : FileLayout, layout.Frames data := by
  constructor
  · intro contacts hmany hstorable
    have hcount : contacts.length < 256 ^ 4 := Nat.lt_of_le_of_lt hmany (by decide)
    have hlength (contact : BootstrapContact) : (encodeEntry contact).length = 34 := by
      simp [encodeEntry]
    have hheader : takeHeader (encodeNodesDat contacts) =
        some (contacts.length, .extended, 12) := by
      simp [takeHeader, encodeNodesDat, word_zero, word_succ, word_zero hcount]
    have hbody : (encodeNodesDat contacts).drop 12 = contacts.flatMap encodeEntry := rfl
    have hsize : (encodeNodesDat contacts).length = 12 + contacts.length * 34 := by
      simp [encodeNodesDat, hlength]
      omega
    simp [parseNodesDat, hheader, hbody, hsize, takeEntries_flatMap hstorable, hmany,
      NodesDatLayout.entrySize]
  · intro data contacts h
    refine existsUnique_of_exists_of_unique ?_ fun _ _ => FileLayout.frames_unique
    obtain ⟨⟨count, layout, headerEnd⟩, hheader, h⟩ := Option.bind_eq_some_iff.mp h
    dsimp only at h
    split at h
    · cases h
    · rename_i hframed
      exact FileLayout.frames_of_header hheader (not_not.mp (not_or.mp hframed).2)

def savedContact : BootstrapContact :=
  ⟨Vector.replicate 16 7, ⟨192, 0, 2, 1⟩, 4672, 4662, 9, 7, some ⟨198, 51, 100, 1⟩, true⟩

/-- One contact with a key, written and read back. -/
theorem nodes_dat_codec_saved :
    parseNodesDat (encodeNodesDat [savedContact]) = some [savedContact] := by
  refine nodes_dat_codec.1 _ (by decide) ?_
  rw [List.forall_mem_singleton]
  exact ⟨by decide, by decide, by simp [savedContact, Ipv4Addr.isUnspecified]⟩

end EmuleBB.Kad
