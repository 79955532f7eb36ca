import Mathlib.Algebra.Group.Int.Defs
import Mathlib.Algebra.Group.Nat.Defs
import Mathlib.Tactic.ByContra
import EmuleBB.Lib.ByteSeq

/-!
# ED2K constants, digests and little-endian fields

What every layer of the client shares: the part and block sizes, the two digest widths, and
the little-endian integer fields of packet bodies. The hash functions themselves are never
defined here: they enter the development as function parameters on byte lists.

A reader takes a field off the front of a body and returns the rest, `none` when the body is
too short; `takeLe_putLe` is the round trip of every integer field.
-/

namespace EmuleBB

def ed2kPartSize : Nat := 9728000

def ed2kEmblockSize : Nat := 184320

def u32Max : Nat := 2 ^ 32 - 1

def u64Max : Nat := 2 ^ 64 - 1

/-- `checked_add`, on instants and on identifiers. -/
def checkedAdd (limit a b : Nat) : Option Nat := if a + b ≤ limit then some (a + b) else none

def saturatingAdd (a b : Nat) : Nat := min (a + b) u64Max

/-- Nanoseconds on the monotonic clock. `saturating_duration_since` is the truncated `-` of
    naturals. -/
abbrev Instant := Nat

abbrev Duration := Nat

def seconds (n : Nat) : Duration := n * 1000000000

def millis (n : Nat) : Duration := n * 1000000

theorem ed2kPartSize_pos : 0 < ed2kPartSize := by decide

theorem ed2kEmblockSize_pos : 0 < ed2kEmblockSize := by decide

abbrev Md4Digest := Vector UInt8 16

abbrev Sha1Digest := Vector UInt8 20

/-- The digest functions are parameters: nothing rests on how they compute. -/
abbrev Md4 := List UInt8 → Md4Digest

abbrev Sha1 := List UInt8 → Sha1Digest

abbrev UserHash := Vector UInt8 16

def zeroUserHash : UserHash := Vector.replicate 16 0

/-- Number of `chunk`-sized pieces that cover `size` bytes: `div_ceil`, also written
    `size / chunk + u64::from(!size.is_multiple_of(chunk))`. -/
def chunkCount (size chunk : Nat) : Nat := size / chunk + if size % chunk = 0 then 0 else 1

theorem lt_chunkCount_iff {size chunk i : Nat} (h : 0 < chunk) :
    i < chunkCount size chunk ↔ i * chunk < size := by
  unfold chunkCount
  have hsplit := Nat.div_add_mod size chunk
  have hmod := Nat.mod_lt size h
  rw [Nat.mul_comm] at hsplit
  constructor
  · intro hlt
    have hle : i * chunk ≤ size / chunk * chunk :=
      Nat.mul_le_mul_right _ (by split at hlt <;> omega)
    by_cases hzero : size % chunk = 0
    · rw [if_pos hzero] at hlt
      have hmul : (i + 1) * chunk ≤ size / chunk * chunk := Nat.mul_le_mul_right _ hlt
      rw [Nat.add_one_mul] at hmul
      omega
    · omega
  · intro hlt
    by_contra hge
    have hmul : (size / chunk + if size % chunk = 0 then 0 else 1) * chunk ≤ i * chunk :=
      Nat.mul_le_mul_right _ (Nat.le_of_not_lt hge)
    rw [Nat.add_mul] at hmul
    by_cases hzero : size % chunk = 0
    · simp only [hzero, if_true] at hmul
      omega
    · simp only [hzero, if_false] at hmul
      omega

/-- A chunk that starts inside `size` ends within the first `k` chunks exactly when it is one of
    them. -/
theorem chunkEnd_le_iff {size chunk i k : Nat} (hpos : 0 < chunk) (hi : i * chunk < size) :
    min (i * chunk + chunk) size ≤ min (k * chunk) size ↔ i < k := by
  constructor
  · intro hend
    by_contra hge
    have hmul : k * chunk ≤ i * chunk := Nat.mul_le_mul_right _ (Nat.le_of_not_lt hge)
    omega
  · intro hlt
    have hmul : (i + 1) * chunk ≤ k * chunk := Nat.mul_le_mul_right _ hlt
    rw [Nat.add_one_mul] at hmul
    omega

/-! ## Little-endian fields -/

/-- `value` as `width` little-endian bytes; higher bits are dropped, as a cast drops them. -/
def putLe : Nat → Nat → List UInt8
  | 0, _ => []
  | width + 1, value => UInt8.ofNat value :: putLe width (value / 256)

def leValue : List UInt8 → Nat
  | [] => 0
  | b :: bs => b.toNat + 256 * leValue bs

def takeBytes (width : Nat) (body : List UInt8) : Option (List UInt8 × List UInt8) :=
  if width ≤ body.length then some (body.take width, body.drop width) else none

def takeLe (width : Nat) (body : List UInt8) : Option (Nat × List UInt8) :=
  (takeBytes width body).map fun (field, rest) => (leValue field, rest)

def takeSha1 (body : List UInt8) : Option (Sha1Digest × List UInt8) :=
  if h : 20 ≤ body.length then
    some (⟨(body.take 20).toArray, by simp [h]⟩, body.drop 20)
  else none

@[simp] theorem length_putLe (width value : Nat) : (putLe width value).length = width := by
  induction width generalizing value with
  | zero => rfl
  | succ width ih => simp [putLe, ih]

theorem leValue_putLe {width value : Nat} (h : value < 256 ^ width) :
    leValue (putLe width value) = value := by
  induction width generalizing value with
  | zero => simp [putLe, leValue]; omega
  | succ width ih =>
    have hdiv : value / 256 < 256 ^ width := by
      omega
    simp only [putLe, leValue, ih hdiv, UInt8.toNat_ofNat']
    omega

theorem takeBytes_append {width : Nat} {field rest : List UInt8} (h : field.length = width) :
    takeBytes width (field ++ rest) = some (field, rest) := by
  subst h
  simp [takeBytes]

/-- **An integer field reads back as it was written**, when it fits its width. -/
theorem takeLe_putLe {width value : Nat} (h : value < 256 ^ width) (rest : List UInt8) :
    takeLe width (putLe width value ++ rest) = some (value, rest) := by
  simp [takeLe, takeBytes_append (length_putLe width value), leValue_putLe h]

end EmuleBB

/-! ## Network addresses -/

namespace EmuleBB.Peer

structure Ipv4Addr where
  a : UInt8
  b : UInt8
  c : UInt8
  d : UInt8
  deriving DecidableEq

def Ipv4Addr.isUnspecified (ip : Ipv4Addr) : Bool := ip = ⟨0, 0, 0, 0⟩

inductive IpAddr
  | v4 (addr : Ipv4Addr)
  | v6 (addr : Nat)
  deriving DecidableEq

def IpAddr.isUnspecified : IpAddr → Bool
  | .v4 addr => addr.isUnspecified
  | .v6 addr => addr = 0

structure SocketAddr where
  ip : IpAddr
  port : UInt16
  deriving DecidableEq

def SocketAddr.isValidIpv4Endpoint (endpoint : SocketAddr) : Bool :=
  match endpoint.ip with
  | .v4 ip => !ip.isUnspecified && endpoint.port ≠ 0
  | .v6 _ => false

end EmuleBB.Peer
