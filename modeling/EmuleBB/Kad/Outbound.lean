import EmuleBB.Kad.Buddy
import EmuleBB.Kad.Keys

/-!
# The receiver key of an outgoing datagram

A datagram in receiver-key mode is encrypted with the key that `receiver_verify_keys` has for the
addressee's IP. Peers announce such keys, and contacts bring persisted ones. The Kad TCP firewall
round writes to the same map the key that *we* announce to the helper (`verify_key_for_ip`), and the
request that follows prefers receiver-key mode, so **the helper is sent a datagram under a key it
never announced** (`helper_request_under_own_key`). Without such a round, every key in use was
announced by the node at the address, under our current public address (`receiver_key_announced`).
-/

namespace EmuleBB.Kad

open Function Run Peer KeyState

def helloReq : UInt8 := 0x11

def firewalled2Req : UInt8 := 0x53

def publishResAck : UInt8 := 0x4C

def shouldLearnSenderVerifyKey (opcode : UInt8) : Bool :=
  opcode ∈ ([0x01, 0x09, helloReq, 0x19, 0x22, 0x21, 0x33, 0x34, 0x35, 0x43, 0x44, 0x45, 0x4B,
    publishResAck, 0x50, firewalled2Req, 0x51, 0x5A, 0x52, 0x60] : List UInt8)

def shouldPreferReceiverVerifyKey (opcode : UInt8) : Bool :=
  opcode = firewalled2Req || opcode = publishResAck

structure PeerCryptoState where
  nodeId : Option NodeId
  kadVersion : Option UInt8

def canUseNodeIdMode (peer : PeerCryptoState) : Bool :=
  peer.nodeId.isSome && peer.kadVersion.all (6 ≤ ·)

/-- How a datagram is sent. -/
inductive OutboundKadEncryptionMode
  | plaintext
  | nodeId
  | receiverVerifyKey
  deriving DecidableEq

/-- The obfuscation layer of a node, with the keys in its routing table. -/
structure ObfuscationLayer where
  enabled : Bool
  currentPublicIp : Option Ipv4Addr
  peerKeyLearningEnabled : Bool
  receiverVerifyKeys : Ipv4Addr → Option UInt32
  peers : Ipv4Addr × UInt16 → PeerCryptoState
  contacts : List KeyBinding
  /-- Ghost: what was announced, with our address at the time, and what was persisted. -/
  announced : List KeyBinding

namespace ObfuscationLayer

def new (enabled : Bool) : ObfuscationLayer :=
  ⟨enabled, none, false, fun _ => none, fun _ => ⟨none, none⟩, [], []⟩

section

variable (s : ObfuscationLayer)

/-- What is known of the receiver, and what the request prefers, decide. -/
def inspectOutbound (addr : Ipv4Addr × UInt16) (opcode : UInt8) : OutboundKadEncryptionMode :=
  if !s.enabled then .plaintext
  else if shouldPreferReceiverVerifyKey opcode && (s.receiverVerifyKeys addr.1).isSome then
    .receiverVerifyKey
  else if canUseNodeIdMode (s.peers addr) then .nodeId
  else if (s.receiverVerifyKeys addr.1).isSome then .receiverVerifyKey
  else .plaintext

def registerPeer (addr : Ipv4Addr × UInt16) (nodeId : Option NodeId) (kadVersion : Option UInt8) :
    ObfuscationLayer :=
  let peer := s.peers addr
  { s with peers := update s.peers addr ⟨nodeId <|> peer.nodeId, kadVersion <|> peer.kadVersion⟩ }

def registerPeerKey (ip : Ipv4Addr) (key : UInt32) : ObfuscationLayer :=
  if s.peerKeyLearningEnabled then
    { s with receiverVerifyKeys := update s.receiverVerifyKeys ip (some key) }
  else s

def announce (binding : KeyBinding) : ObfuscationLayer :=
  { s with announced := binding :: s.announced }

def udpKeyMatchesPublicIp (binding : KeyBinding) : Bool :=
  binding.udpKey ≠ 0 && s.currentPublicIp.isSome && binding.udpKeyIp = s.currentPublicIp

/-- A contact without a key is given the one that is known for its IP. -/
def withKnownKey (contact : KeyBinding) : KeyBinding :=
  match s.receiverVerifyKeys contact.ip, s.currentPublicIp with
  | some key, some address =>
    if contact.udpKey = 0 then ⟨contact.ip, key, some address⟩ else contact
  | _, _ => contact

/-- `add_contact`; the routing table keeps the contact if it is `kept`. -/
def addContact (contact : KeyBinding) (kept : Bool) : ObfuscationLayer :=
  let contact := s.withKnownKey contact
  let s :=
    if s.udpKeyMatchesPublicIp contact then s.registerPeerKey contact.ip contact.udpKey else s
  { s with contacts := if kept then contact :: s.contacts else s.contacts }

def reregister (contact : KeyBinding) : ObfuscationLayer :=
  if contact.udpKey ≠ 0 ∧ contact.udpKeyIp = s.currentPublicIp then
    s.registerPeerKey contact.ip contact.udpKey
  else s

def setPublicIpForUdpKeys (address : Option Ipv4Addr) : ObfuscationLayer :=
  if s.currentPublicIp = address then s
  else
    let cleared := { s with
      currentPublicIp := address
      peerKeyLearningEnabled := address.isSome
      receiverVerifyKeys := fun _ => none }
    if address.isSome then s.contacts.foldl reregister cleared else cleared

/-- The UDP firewall round leaves the map alone. `persisted` contacts bring a key of their own. -/
inductive Event
  | datagram (source : Ipv4Addr × UInt16) (opcode : UInt8) (peerId : Option NodeId)
      (kadVersion : Option UInt8) (senderVerifyKey : Option UInt32)
  | firewallCheckUdpRequest (ip : Ipv4Addr) (internalUdpPort : UInt16) (senderUdpKey : UInt32)
  | persistedContact (contact : KeyBinding) (udpPort : UInt16) (id : NodeId) (kadVersion : UInt8)
      (kept : Bool)
  | keylessContact (addr : Ipv4Addr × UInt16) (id : NodeId) (kadVersion : UInt8) (kept : Bool)
  | setPublicIp (address : Option Ipv4Addr)
  | askTcpHelper (ip : Ipv4Addr)
  | evictKey (ip : Ipv4Addr)
  | evictPeer (addr : Ipv4Addr × UInt16)
  | forgetContact (contact : KeyBinding)

/-- `verifyKeyForIp` is the key that we announce to an IP. -/
def step (verifyKeyForIp : Ipv4Addr → UInt32) (s : ObfuscationLayer) : Event → ObfuscationLayer
  | .datagram source opcode peerId kadVersion senderVerifyKey =>
    let s := s.registerPeer source peerId kadVersion
    match senderVerifyKey with
    | some key =>
      let s := s.announce ⟨source.1, key, s.currentPublicIp⟩
      if shouldLearnSenderVerifyKey opcode then s.registerPeerKey source.1 key else s
    | none => s
  | .firewallCheckUdpRequest ip internalUdpPort senderUdpKey =>
    let s := s.announce ⟨ip, senderUdpKey, s.currentPublicIp⟩
    if internalUdpPort ≠ 0 ∧ senderUdpKey ≠ 0 then s.registerPeerKey ip senderUdpKey else s
  | .persistedContact contact udpPort id kadVersion kept =>
    ((s.announce contact).registerPeer (contact.ip, udpPort) (some id) (some kadVersion)).addContact
      contact kept
  | .keylessContact addr id kadVersion kept =>
    (s.registerPeer addr (some id) (some kadVersion)).addContact ⟨addr.1, 0, none⟩ kept
  | .setPublicIp address => s.setPublicIpForUdpKeys address
  | .askTcpHelper ip =>
    if verifyKeyForIp ip ≠ 0 then s.registerPeerKey ip (verifyKeyForIp ip) else s
  | .evictKey ip => { s with receiverVerifyKeys := update s.receiverVerifyKeys ip none }
  | .evictPeer addr => { s with peers := update s.peers addr ⟨none, none⟩ }
  | .forgetContact contact => { s with contacts := s.contacts.erase contact }

/-- A TCP round asks its helpers only while no keys are learned. -/
def AsksUnkeyed : Event → Prop
  | .askTcpHelper _ => s.peerKeyLearningEnabled = false
  | _ => True

end

instance (s : ObfuscationLayer) (e : Event) : Decidable (s.AsksUnkeyed e) := by
  cases e <;> unfold AsksUnkeyed <;> infer_instance

/-- Every key was announced to us, under the address we have. -/
structure Sound (s : ObfuscationLayer) : Prop where
  keys : ∀ ip key, s.receiverVerifyKeys ip = some key → ⟨ip, key, s.currentPublicIp⟩ ∈ s.announced
  known : ∀ ip, (s.receiverVerifyKeys ip).isSome → s.currentPublicIp.isSome
  learning : s.peerKeyLearningEnabled = s.currentPublicIp.isSome
  contacts : ∀ contact ∈ s.contacts, contact.udpKey ≠ 0 → contact ∈ s.announced

variable {s : ObfuscationLayer} {ip : Ipv4Addr} {key : UInt32} {contact : KeyBinding}

theorem Sound.announce (h : s.Sound) : (s.announce contact).Sound where
  keys ip key hkey := List.mem_cons_of_mem _ (h.keys ip key hkey)
  known := h.known
  learning := h.learning
  contacts c hc hne := List.mem_cons_of_mem _ (h.contacts c hc hne)

theorem Sound.registerPeerKey (h : s.Sound) (hkey : ⟨ip, key, s.currentPublicIp⟩ ∈ s.announced) :
    (s.registerPeerKey ip key).Sound := by
  unfold ObfuscationLayer.registerPeerKey
  split
  · rename_i hlearning
    refine ⟨fun ip' key' hkey' => ?_, fun _ _ => h.learning ▸ hlearning, h.learning, h.contacts⟩
    simp only [update_apply] at hkey'
    split at hkey'
    · rename_i hip
      cases hkey'
      exact hip ▸ hkey
    · exact h.keys ip' key' hkey'
  · exact h

theorem registerPeerKey_announced : (s.registerPeerKey ip key).announced = s.announced := by
  unfold registerPeerKey
  split <;> rfl

/-- A contact's key is the one it brings, or one that is in the map already. -/
theorem Sound.withKnownKey (h : s.Sound) (hcontact : contact.udpKey ≠ 0 → contact ∈ s.announced)
    (hne : (s.withKnownKey contact).udpKey ≠ 0) : s.withKnownKey contact ∈ s.announced := by
  revert hne
  unfold ObfuscationLayer.withKnownKey
  split
  · rename_i key address hkey haddress
    split
    · exact fun _ => haddress ▸ h.keys _ _ hkey
    · exact hcontact
  · exact hcontact

theorem Sound.addContact (h : s.Sound) (hcontact : contact.udpKey ≠ 0 → contact ∈ s.announced)
    (kept : Bool) : (s.addContact contact kept).Sound := by
  have hkeep : ∀ {t : ObfuscationLayer} {c : KeyBinding}, t.Sound →
      (c.udpKey ≠ 0 → c ∈ t.announced) →
        { t with contacts := if kept then c :: t.contacts else t.contacts }.Sound := by
    intro t c ht hc
    refine ⟨ht.keys, ht.known, ht.learning, ?_⟩
    split
    · exact List.forall_mem_cons.mpr ⟨hc, ht.contacts⟩
    · exact ht.contacts
  have hknown := h.withKnownKey hcontact
  unfold ObfuscationLayer.addContact
  dsimp only
  split
  · rename_i hmatches
    simp only [udpKeyMatchesPublicIp, Bool.and_eq_true, decide_eq_true_eq] at hmatches
    obtain ⟨⟨hne, -⟩, hbound⟩ := hmatches
    refine hkeep (h.registerPeerKey (hbound ▸ hknown hne)) fun hne => ?_
    rw [registerPeerKey_announced]
    exact hknown hne
  · exact hkeep h hknown

theorem Sound.setPublicIpForUdpKeys (h : s.Sound) (address : Option Ipv4Addr) :
    (s.setPublicIpForUdpKeys address).Sound := by
  -- the contacts that are registered again are all accounted for
  have hfold : ∀ (cs : List KeyBinding) (t : ObfuscationLayer), t.Sound →
      (∀ c ∈ cs, c.udpKey ≠ 0 → c ∈ t.announced) → (cs.foldl reregister t).Sound := by
    intro cs
    induction cs with
    | nil => exact fun t ht _ => ht
    | cons c cs ih =>
      intro t ht hcs
      obtain ⟨hc, hcs⟩ := List.forall_mem_cons.mp hcs
      simp only [List.foldl_cons, reregister]
      split
      · rename_i hbound
        refine ih _ (ht.registerPeerKey (hbound.2 ▸ hc hbound.1)) ?_
        rw [registerPeerKey_announced]
        exact hcs
      · exact ih t ht hcs
  unfold ObfuscationLayer.setPublicIpForUdpKeys
  split
  · exact h
  · split
    · exact hfold _ _ ⟨nofun, nofun, rfl, h.contacts⟩ h.contacts
    · exact ⟨nofun, nofun, rfl, h.contacts⟩

theorem Sound.step (verifyKeyForIp : Ipv4Addr → UInt32) (h : s.Sound) (e : Event)
    (hasks : s.AsksUnkeyed e) : (s.step verifyKeyForIp e).Sound := by
  have hpeer : ∀ addr id version, (s.registerPeer addr id version).Sound :=
    fun _ _ _ => ⟨h.keys, h.known, h.learning, h.contacts⟩
  cases e with
  | datagram source opcode peerId kadVersion senderVerifyKey =>
    cases senderVerifyKey with
    | none => exact hpeer ..
    | some key =>
      simp only [ObfuscationLayer.step]
      split
      · exact (hpeer ..).announce.registerPeerKey List.mem_cons_self
      · exact (hpeer ..).announce
  | firewallCheckUdpRequest ip internalUdpPort senderUdpKey =>
    simp only [ObfuscationLayer.step]
    split
    · exact h.announce.registerPeerKey List.mem_cons_self
    · exact h.announce
  | persistedContact contact udpPort id kadVersion kept =>
    have hpeer : ((s.announce contact).registerPeer (contact.ip, udpPort) (some id)
        (some kadVersion)).Sound := ⟨h.announce.keys, h.known, h.learning, h.announce.contacts⟩
    exact hpeer.addContact (fun _ => List.mem_cons_self) kept
  | keylessContact addr id kadVersion kept =>
    exact (hpeer ..).addContact (fun hne => absurd rfl hne) kept
  | setPublicIp address => exact h.setPublicIpForUdpKeys address
  | askTcpHelper ip =>
    have hsame : s.registerPeerKey ip (verifyKeyForIp ip) = s := by
      unfold ObfuscationLayer.registerPeerKey
      rw [if_neg (by rw [show s.peerKeyLearningEnabled = false from hasks]; nofun)]
    simp only [ObfuscationLayer.step, hsame, ite_self]
    exact h
  | evictKey ip =>
    have hkey : ∀ ip' key, update s.receiverVerifyKeys ip none ip' = some key →
        s.receiverVerifyKeys ip' = some key := by
      intro ip' key hkey
      simp only [update_apply] at hkey
      split at hkey
      · cases hkey
      · exact hkey
    refine ⟨fun ip' key h' => h.keys ip' key (hkey ip' key h'), fun ip' h' => ?_, h.learning,
      h.contacts⟩
    obtain ⟨key, h'⟩ := Option.isSome_iff_exists.mp h'
    exact h.known ip' (by rw [hkey ip' key h']; rfl)
  | evictPeer addr => exact ⟨h.keys, h.known, h.learning, h.contacts⟩
  | forgetContact contact =>
    exact ⟨h.keys, h.known, h.learning, fun c hc => h.contacts c (List.mem_of_mem_erase hc)⟩

theorem exists_key_of_receiverVerifyKey {addr : Ipv4Addr × UInt16} {opcode : UInt8}
    (h : s.inspectOutbound addr opcode = .receiverVerifyKey) :
    ∃ key, s.receiverVerifyKeys addr.1 = some key := by
  refine Option.isSome_iff_exists.mp ?_
  by_contra hnone
  simp [inspectOutbound, hnone] at h
  grind

/-- **A datagram in receiver-key mode is under the addressee's own key**, in every history whose TCP
    rounds ask their helpers only while no keys are learned: the node at the address announced the
    key for our current public address. If announced keys are verify keys of the nodes that announce
    them, it is the one that this node derives for our address, so the node can
    decrypt the datagram. -/
theorem receiver_key_announced (verifyKeyForIp : Ipv4Addr → UInt32) (enabled : Bool)
    (es : List Event)
    (h : Along (step verifyKeyForIp) AsksUnkeyed (new enabled) es) (addr : Ipv4Addr × UInt16)
    (opcode : UInt8) :
    let s := run (step verifyKeyForIp) (new enabled) es
    s.inspectOutbound addr opcode = .receiverVerifyKey →
      ∃ key address, s.receiverVerifyKeys addr.1 = some key ∧ s.currentPublicIp = some address ∧
        ⟨addr.1, key, some address⟩ ∈ s.announced ∧
        ∀ {Secret : Type} (verifyKey : Secret → Ipv4Addr → UInt32) (secretAt : Ipv4Addr → Secret),
          (∀ binding ∈ s.announced, ∀ bound, binding.udpKeyIp = some bound →
            binding.udpKey = verifyKey (secretAt binding.ip) bound) →
          key = verifyKey (secretAt addr.1) address := by
  intro s hmode
  have hs : s.Sound := h.invariant (fun s e hs he => hs.step verifyKeyForIp e he)
    ⟨nofun, nofun, rfl, nofun⟩
  obtain ⟨key, hkey⟩ := exists_key_of_receiverVerifyKey hmode
  obtain ⟨address, haddress⟩ := Option.isSome_iff_exists.mp (hs.known addr.1 (by rw [hkey]; rfl))
  have hmem := haddress ▸ hs.keys addr.1 key hkey
  exact ⟨key, address, hkey, haddress, hmem, fun _ _ hown => hown _ hmem address rfl⟩

/-- The address is known, and the helper has announced its key 5 in a HELLO. -/
def helperHello : List Event :=
  [.setPublicIp (some home), .datagram (peerIp, 4672) helloReq none none (some 5)]

/-- A helper whose HELLO announced its key. -/
theorem receiver_key_announced_hello :
    let s := run (step fun _ => 9) (new true) helperHello
    ∃ key address, s.receiverVerifyKeys peerIp = some key ∧
      s.currentPublicIp = some address ∧ ⟨peerIp, key, some address⟩ ∈ s.announced := by
  obtain ⟨key, address, hkey, haddress, hmem, -⟩ :=
    receiver_key_announced (fun _ => 9) true helperHello
    (by decide +kernel) (peerIp, 4672) firewalled2Req (by decide +kernel)
  exact ⟨key, address, hkey, haddress, hmem⟩

/-- **The helper's request is under our own key.** The round replaces the key that the helper has
    announced by the key that we announce to it, and the request is encrypted with that. -/
theorem helper_request_under_own_key :
    let s := run (step fun _ => 9) (new true) (helperHello ++ [.askTcpHelper peerIp])
    s.inspectOutbound (peerIp, 4672) firewalled2Req = .receiverVerifyKey ∧
      s.receiverVerifyKeys peerIp = some 9 ∧
      s.announced = [⟨peerIp, 5, some home⟩] := by
  decide +kernel

end ObfuscationLayer

end EmuleBB.Kad
