import EmuleBB.Lib.Map
import EmuleBB.Lib.Run
import EmuleBB.Wire

/-!
# Receiver keys and the address they were learned under

A peer's UDP key is good for one public address of ours. The address, the learning switch, the key
map and the routing table are four cells, each locked for itself: `set_public_ip_for_udp_keys` swaps
the address, disables learning, clears the map, enables learning, locks the routing table and
registers the contacts bound to the new address; `register_peer_key` tests the switch and then
inserts; `add_contact` and the drain of RES contacts read the known key, then the address they bind
it to. Every access is a step.

**A key in hand when the address is swapped outlives it**: a registration that passed its test
inserts after the map was cleared (`key_outlives_its_address`). As long as the address changes only
while nobody has a key in hand and no other change is under way, and no key is read between the swap
and the clear, every key was learned under the current address (`receiver_keys_current`).
-/

namespace EmuleBB.Kad

open Function Run Peer

/-- A key of a peer, and the public address it was issued to. -/
structure KeyBinding where
  ip : Ipv4Addr
  udpKey : UInt32
  udpKeyIp : Option Ipv4Addr
  deriving DecidableEq

/-- What a call does next. `stores` is the contact that `add_contact` puts into the routing table
    afterwards; `registers` tells `add_contact` from the drain. -/
inductive KeyCall
  | done
  | insert (binding : KeyBinding) (stores : Bool)
  | readKey (ip : Ipv4Addr) (registers : Bool)
  | readAddress (ip : Ipv4Addr) (udpKey : UInt32) (registers : Bool)
  | compare (binding : KeyBinding)
  | test (binding : KeyBinding)
  | store (binding : KeyBinding)
  | disable (address : Option Ipv4Addr)
  | clear (address : Option Ipv4Addr)
  | enable (address : Option Ipv4Addr)
  | lockTable (address : Option Ipv4Addr)
  | reregister (address : Option Ipv4Addr) (rest : List KeyBinding)
  | reinsert (address : Option Ipv4Addr) (binding : KeyBinding) (rest : List KeyBinding)
  deriving DecidableEq

namespace KeyCall

/-- A change of the address that has swapped it and not cleared the map. -/
def stale : KeyCall → Bool
  | .disable _ | .clear _ => true
  | _ => false

/-- The call is one that changes the address or the keys. -/
def changes : KeyCall → Bool
  | .disable _ | .clear _ | .enable _ | .lockTable _ | .reregister .. | .reinsert .. => true
  | _ => false

def holdsKey : KeyCall → Bool
  | .insert .. | .readAddress .. | .test _ => true
  | _ => false

/-- What a call knows of the keys it goes on with. -/
def Vouched (current : Option Ipv4Addr) (vouched : List KeyBinding) : KeyCall → Prop
  | .done | .readKey .. => True
  | .insert binding _ | .test binding => binding ∈ vouched ∧ binding.udpKeyIp = current
  | .readAddress ip key _ => ⟨ip, key, current⟩ ∈ vouched
  | .compare binding | .store binding => binding ∈ vouched
  | .disable address | .clear address | .enable address | .lockTable address => address = current
  | .reregister address rest => address = current ∧ ∀ binding ∈ rest, binding ∈ vouched
  | .reinsert address binding rest => (address = current ∧ ∀ binding ∈ rest, binding ∈ vouched) ∧
      binding ∈ vouched ∧ binding.udpKeyIp = current

/-- A call without a key in hand does not mind another address. -/
theorem Vouched.of_quiet {current address : Option Ipv4Addr} {vouched : List KeyBinding}
    {call : KeyCall} (h : call.Vouched current vouched) (hchanges : call.changes = false)
    (hholds : call.holdsKey = false) : call.Vouched address vouched := by
  cases call <;> simp_all [Vouched, changes, holdsKey]

end KeyCall

open KeyCall

/-- The obfuscation layer and the routing table, and the calls that are under way between them. -/
structure KeyState where
  currentPublicIp : Option Ipv4Addr
  peerKeyLearningEnabled : Bool
  receiverVerifyKeys : Ipv4Addr → Option UInt32
  /-- The keys in the routing table. -/
  contacts : List KeyBinding
  calls : Nat → KeyCall
  opened : Nat
  /-- The keys that were announced, with the address that was current, and the persisted ones. -/
  vouched : List KeyBinding

namespace KeyState

def init : KeyState := ⟨none, false, fun _ => none, [], fun _ => .done, 0, []⟩

/-- Calls are numbered as they are made. The routing table keeps what is offered if it is `kept`. -/
inductive Event
  | registerPeerKey (ip : Ipv4Addr) (udpKey : UInt32)
  | addPersisted (binding : KeyBinding)
  | addContact (ip : Ipv4Addr)
  | drainContact (ip : Ipv4Addr)
  | setPublicIp (address : Option Ipv4Addr)
  | call (call : Nat) (kept : Bool)
  | evict (ip : Ipv4Addr)
  | forget (binding : KeyBinding)

def setCall (s : KeyState) (i : Nat) (call : KeyCall) : KeyState :=
  { s with calls := update s.calls i call }

def openCall (s : KeyState) (call : KeyCall) : KeyState :=
  { s with opened := s.opened + 1 }.setCall s.opened call

def insertKey (s : KeyState) (binding : KeyBinding) : KeyState :=
  { s with receiverVerifyKeys := update s.receiverVerifyKeys binding.ip (some binding.udpKey) }

def callStep (s : KeyState) (i : Nat) (kept : Bool) : KeyState :=
  match s.calls i with
  | .done => s
  | .insert binding stores => (s.insertKey binding).setCall i
    (if stores then .store binding else .done)
  | .readKey ip registers =>
    match s.receiverVerifyKeys ip with
    | some key => s.setCall i (.readAddress ip key registers)
    | none => s.setCall i .done
  | .readAddress ip key registers =>
    -- without an address the contact is stored without a key
    if s.currentPublicIp = none then s.setCall i .done
    else if registers then s.setCall i (.compare ⟨ip, key, s.currentPublicIp⟩)
    else s.setCall i (.store ⟨ip, key, s.currentPublicIp⟩)
  | .compare binding =>
    if binding.udpKey ≠ 0 ∧ binding.udpKeyIp ≠ none ∧ binding.udpKeyIp = s.currentPublicIp then
      s.setCall i (.test binding)
    else s.setCall i (.store binding)
  | .test binding =>
    s.setCall i (if s.peerKeyLearningEnabled then .insert binding true else .store binding)
  | .store binding =>
    { s with contacts := if kept then binding :: s.contacts else s.contacts }.setCall i .done
  | .disable address => { s with peerKeyLearningEnabled := false }.setCall i (.clear address)
  | .clear address => { s with receiverVerifyKeys := fun _ => none }.setCall i (.enable address)
  | .enable address =>
    { s with peerKeyLearningEnabled := address.isSome }.setCall i
      (if address.isSome then .lockTable address else .done)
  | .lockTable address => s.setCall i (.reregister address s.contacts)
  | .reregister _ [] => s.setCall i .done
  | .reregister address (binding :: rest) =>
    if binding.udpKey ≠ 0 ∧ binding.udpKeyIp = address ∧ s.peerKeyLearningEnabled then
      s.setCall i (.reinsert address binding rest)
    else s.setCall i (.reregister address rest)
  | .reinsert address binding rest => (s.insertKey binding).setCall i (.reregister address rest)

/-- A key comes in, the public address changes, or a call goes on by one lock. -/
def step (s : KeyState) : Event → KeyState
  | .registerPeerKey ip key =>
    { s with vouched := ⟨ip, key, s.currentPublicIp⟩ :: s.vouched }.openCall
      (if s.peerKeyLearningEnabled then .insert ⟨ip, key, s.currentPublicIp⟩ false else .done)
  | .addPersisted binding => { s with vouched := binding :: s.vouched }.openCall (.compare binding)
  | .addContact ip => s.openCall (.readKey ip true)
  | .drainContact ip => s.openCall (.readKey ip false)
  | .setPublicIp address =>
    if s.currentPublicIp = address then s
    else { s with currentPublicIp := address }.openCall (.disable address)
  | .call i kept => s.callStep i kept
  | .evict ip => { s with receiverVerifyKeys := update s.receiverVerifyKeys ip none }
  | .forget binding => { s with contacts := s.contacts.erase binding }

/-- The address changes while nobody has a key in hand and it is not being changed, and a key is
    read from a map that belongs to the current address. -/
def Settled (s : KeyState) : Event → Prop
  | .setPublicIp address => address ≠ s.currentPublicIp →
      ∀ i < s.opened, (s.calls i).changes = false ∧ (s.calls i).holdsKey = false
  | .call i _ => s.calls i matches .readKey .. → ∀ j < s.opened, (s.calls j).stale = false
  | _ => True

instance (s : KeyState) (e : Event) : Decidable (s.Settled e) := by
  cases e <;> unfold Settled <;> infer_instance

/-- One call changes the address at a time, and every key was vouched for. -/
structure Sound (s : KeyState) : Prop where
  later : ∀ i, s.opened ≤ i → s.calls i = .done
  single : ∀ i j, (s.calls i).changes = true → (s.calls j).changes = true → i = j
  keys : (∀ i, (s.calls i).stale = false) → ∀ ip key, s.receiverVerifyKeys ip = some key →
    ⟨ip, key, s.currentPublicIp⟩ ∈ s.vouched
  contacts : ∀ binding ∈ s.contacts, binding ∈ s.vouched
  calls : ∀ i, (s.calls i).Vouched s.currentPublicIp s.vouched

variable {s : KeyState} {i : Nat} {old call : KeyCall} {binding : KeyBinding}

section

variable (h : s.Sound)

include h

/-- A call goes on to where it is vouched for, and no change of the address begins. -/
theorem Sound.setCall (hi : s.calls i = old) (hold : old ≠ .done)
    (hchanges : call.changes = true → old.changes = true) (hstale : call.stale = old.stale)
    (hcall : call.Vouched s.currentPublicIp s.vouched) : (s.setCall i call).Sound := by
  obtain ⟨hself, hother⟩ := update_spec s.calls i call
  cases h
  constructor <;> simp only [KeyState.setCall] at * <;> grind

theorem Sound.openCall (hchanges : call.changes = false)
    (hcall : call.Vouched s.currentPublicIp s.vouched) : (s.openCall call).Sound := by
  obtain ⟨hself, hother⟩ := update_spec s.calls s.opened call
  cases h
  constructor <;> simp only [KeyState.openCall, KeyState.setCall] at * <;>
    grind [stale, changes]

theorem Sound.vouch : { s with vouched := binding :: s.vouched }.Sound := by
  refine ⟨h.later, h.single, fun hstale ip key hkey =>
    List.mem_cons_of_mem _ (h.keys hstale ip key hkey),
    fun b hb => List.mem_cons_of_mem _ (h.contacts b hb), fun i => ?_⟩
  have := h.calls i
  unfold KeyCall.Vouched at *
  grind

theorem Sound.insertKey (hbinding : binding ∈ s.vouched)
    (hcurrent : binding.udpKeyIp = s.currentPublicIp) : (s.insertKey binding).Sound := by
  refine ⟨h.later, h.single, fun hstale ip key hkey => ?_, h.contacts, h.calls⟩
  simp only [KeyState.insertKey, update_apply] at hkey
  split at hkey
  · rename_i hip
    cases hkey
    rw [hip]
    exact hcurrent ▸ hbinding
  · exact h.keys hstale ip key hkey

theorem Sound.callStep (kept : Bool)
    (hread : s.calls i matches .readKey .. → ∀ j < s.opened, (s.calls j).stale = false) :
    (s.callStep i kept).Sound := by
  have hcall := h.calls i
  revert hcall
  unfold KeyState.callStep
  cases hi : s.calls i with
  | done => exact fun _ => h
  | insert =>
    intro hcall
    refine (h.insertKey hcall.1 hcall.2).setCall hi nofun ?_ ?_ ?_
    · split <;> nofun
    · split <;> rfl
    · split
      · exact hcall.1
      · trivial
  | readKey ip =>
    intro _
    dsimp only
    split
    · rename_i key hkey
      refine h.setCall hi nofun nofun rfl (h.keys (fun j => ?_) ip key hkey)
      obtain hj | hj := Nat.lt_or_ge j s.opened
      · exact hread (by rw [hi]) j hj
      · rw [h.later j hj]
        rfl
    · exact h.setCall hi nofun nofun rfl trivial
  | readAddress =>
    intro hcall
    dsimp only
    split
    · exact h.setCall hi nofun nofun rfl trivial
    · split <;> exact h.setCall hi nofun nofun rfl hcall
  | compare =>
    intro hcall
    dsimp only
    split
    · rename_i hmatches
      exact h.setCall hi nofun nofun rfl ⟨hcall, hmatches.2.2⟩
    · exact h.setCall hi nofun nofun rfl hcall
  | test =>
    intro hcall
    dsimp only
    split
    · exact h.setCall hi nofun nofun rfl hcall
    · exact h.setCall hi nofun nofun rfl hcall.1
  | store =>
    intro hcall
    refine Sound.setCall ⟨h.later, h.single, h.keys, ?_, h.calls⟩ hi nofun nofun rfl trivial
    split
    · exact List.forall_mem_cons.mpr ⟨hcall, h.contacts⟩
    · exact h.contacts
  | disable =>
    intro hcall
    exact Sound.setCall ⟨h.later, h.single, h.keys, h.contacts, h.calls⟩ hi nofun
      (fun _ => rfl) rfl hcall
  | clear address =>
    intro hcall
    obtain ⟨hself, hother⟩ := update_spec s.calls i (.enable address)
    cases h
    constructor <;> simp only [KeyState.setCall] at * <;> grind [changes, KeyCall.Vouched]
  | enable =>
    intro hcall
    refine Sound.setCall ⟨h.later, h.single, h.keys, h.contacts, h.calls⟩ hi nofun
      (fun _ => rfl) ?_ ?_
    · split <;> rfl
    · split
      · exact hcall
      · trivial
  | lockTable =>
    intro hcall
    exact h.setCall hi nofun (fun _ => rfl) rfl ⟨hcall, h.contacts⟩
  | reregister address rest =>
    intro hcall
    cases rest with
    | nil => exact h.setCall hi nofun nofun rfl trivial
    | cons =>
      obtain ⟨haddress, hrest⟩ := hcall
      obtain ⟨hbinding, hrest⟩ := List.forall_mem_cons.mp hrest
      dsimp only
      split
      · rename_i hmatches
        exact h.setCall hi nofun (fun _ => rfl) rfl
          ⟨⟨haddress, hrest⟩, hbinding, hmatches.2.1.trans haddress⟩
      · exact h.setCall hi nofun (fun _ => rfl) rfl ⟨haddress, hrest⟩
  | reinsert =>
    intro hcall
    exact (h.insertKey hcall.2.1 hcall.2.2).setCall hi nofun (fun _ => rfl) rfl hcall.1

theorem Sound.step (e : Event) (hsettled : s.Settled e) : (s.step e).Sound := by
  cases e with
  | registerPeerKey =>
    refine h.vouch.openCall ?_ ?_
    · split <;> rfl
    · split
      · exact ⟨List.mem_cons_self, rfl⟩
      · trivial
  | addPersisted => exact h.vouch.openCall rfl List.mem_cons_self
  | addContact | drainContact => exact h.openCall rfl trivial
  | setPublicIp address =>
    simp only [KeyState.step]
    split
    · exact h
    · rename_i hne
      have hquiet := hsettled (Ne.symm hne)
      obtain ⟨hself, hother⟩ := update_spec s.calls s.opened (.disable address)
      cases h
      constructor <;> simp only [KeyState.openCall, KeyState.setCall] at * <;>
        grind [stale, changes, KeyCall.Vouched, KeyCall.Vouched.of_quiet]
  | call i kept => exact h.callStep kept hsettled
  | evict =>
    refine ⟨h.later, h.single, fun hstale ip' key hkey => h.keys hstale ip' key ?_, h.contacts,
      h.calls⟩
    simp only [KeyState.step, update_apply] at hkey
    grind
  | forget =>
    exact ⟨h.later, h.single, h.keys, fun b hb => h.contacts b (List.mem_of_mem_erase hb), h.calls⟩

end

/-- **A receiver key never outlives the address it was learned under**, in every interleaving in
    which the address changes only while nobody has a key in hand: whenever it is not being changed,
    every key in the map, and every routing contact's key bound to the address, was announced while
    the address was current or was persisted with it. -/
theorem receiver_keys_current (es : List Event) (h : Along step Settled init es) :
    let s := run step init es
    (∀ i < s.opened, (s.calls i).changes = false) →
      (∀ ip key, s.receiverVerifyKeys ip = some key → ⟨ip, key, s.currentPublicIp⟩ ∈ s.vouched) ∧
      ∀ binding ∈ s.contacts, binding.udpKeyIp = s.currentPublicIp → binding ∈ s.vouched := by
  intro s hquiet
  have hinit : init.Sound := by constructor <;> simp [init, changes, KeyCall.Vouched]
  have hs : s.Sound := h.invariant (fun s e hs he => hs.step e he) hinit
  refine ⟨hs.keys fun i => ?_, fun binding hmem _ => hs.contacts binding hmem⟩
  obtain hi | hi := Nat.lt_or_ge i s.opened
  · have hchanges := hquiet i hi
    cases hcall : s.calls i <;> rw [hcall] at hchanges <;> first | rfl | cases hchanges
  · rw [hs.later i hi]
    rfl

def home : Ipv4Addr := ⟨192, 0, 2, 1⟩

def moved : Ipv4Addr := ⟨192, 0, 2, 2⟩

def peerIp : Ipv4Addr := ⟨10, 0, 0, 1⟩

/-- The address becomes `home`, and a peer's key passes the test of the switch. -/
def announced : List Event :=
  .setPublicIp (some home) :: List.replicate 5 (.call 0 true) ++ [.registerPeerKey peerIp 7]

/-- The key is inserted before the address changes; the contact bound to the old one stays bound. -/
theorem receiver_keys_current_moved :
    let es :=
      announced ++ [.call 1 true, .drainContact peerIp, .call 2 true, .call 2 true, .call 2 true,
      .setPublicIp (some moved)] ++ List.replicate 6 (.call 3 true)
    let s := run step init es
    s.contacts = [⟨peerIp, 7, some home⟩] ∧
      ∀ ip key, s.receiverVerifyKeys ip = some key → ⟨ip, key, s.currentPublicIp⟩ ∈ s.vouched := by
  intro es s
  exact ⟨by decide +kernel, (receiver_keys_current es (by decide +kernel) (by decide +kernel)).1⟩

/-- **A key outlives its address.** The registration has passed its test when the address changes,
    and inserts the key after the map was cleared. -/
theorem key_outlives_its_address :
    let s := run step init (announced ++ [.setPublicIp (some moved)] ++
      List.replicate 5 (.call 2 true) ++ [.call 1 true])
    (∀ i < s.opened, s.calls i = .done) ∧ s.currentPublicIp = some moved ∧
      s.receiverVerifyKeys peerIp = some 7 ∧ s.vouched = [⟨peerIp, 7, some home⟩] := by
  decide +kernel

end KeyState

end EmuleBB.Kad
