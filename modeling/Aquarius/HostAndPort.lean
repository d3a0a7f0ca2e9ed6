import Aquarius.Library.Decimal
import Mathlib.Data.List.Infix

/-!
# The Key of an Instance

`make_host_and_port` (`serviced/make_host_and_port.hpp`) packs the address and the port of an
instance into the 64-bit key that the pools know it by, and `client_pool::instance_to_host`
(`serviced/client_pool.cpp`) takes the key apart again. The port is an `int32_t`: where the two are
put together it is converted to 64 bits with its sign, and a port with the upper bit set fills the
half of the address with ones.

The conversions between addresses and texts are those of Asio, of which the code uses that they are
inverse.

## Main results

* `lower_hostKey`, `upper_hostKey`: the two halves of a key.
* `packsAddress_iff`: **an address and a port are packed exactly** when the port is not negative.
* `not_packsAddress_negative`: an instance on the local host with the port -1.
-/

open Decoding

namespace Aquarius

/-- What the code uses of `asio::ip`: `make_address(host).to_v4().to_uint()`, where `none` stands for
an exception, and `address_v4(host).to_string()`, which are inverse. -/
structure AsioAddress where
  makeAddress : Bytes → Option (BitVec 32)
  toText : BitVec 32 → Bytes
  makeAddress_toText : ∀ a, makeAddress (toText a) = some a

/-- `(host_u << 32) | port`. The port is converted to the type of the left operand. -/
def hostKey (host port : BitVec 32) : BitVec 64 :=
  (host.setWidth 64 <<< 32) ||| port.signExtend 64

section Packing

variable (asio : AsioAddress)

/-- `make_host_and_port` -/
def makeHostAndPort (host : Bytes) (port : BitVec 32) : Option (BitVec 64) :=
  (asio.makeAddress host).map fun hostU => hostKey hostU port

/-- `client_pool::instance_to_host` -/
def instanceToHost (hostAndPort : BitVec 64) : Bytes × BitVec 32 :=
  let host := (hostAndPort >>> 32).setWidth 32
  let port := hostAndPort.setWidth 32
  (asio.toText host, port)

/-- **An address and a port are packed exactly**: they come back from their key, and no other pair
has the same one. -/
structure PacksAddress (a port : BitVec 32) : Prop where
  roundTrip : (makeHostAndPort asio (asio.toText a) port).map (instanceToHost asio) =
    some (asio.toText a, port)
  distinct : ∀ a' port', (a', port') ≠ (a, port) →
    makeHostAndPort asio (asio.toText a') port' ≠ makeHostAndPort asio (asio.toText a) port

end Packing

/-- The bits of a key: those of the port, and above them those of the address with the sign of the
port. -/
theorem getLsbD_hostKey (host port : BitVec 32) {i : ℕ} (hi : i < 64) :
    (hostKey host port).getLsbD i =
      if i < 32 then port.getLsbD i else (host.getLsbD (i - 32) || port.msb) := by
  rw [hostKey, BitVec.getLsbD_or, BitVec.getLsbD_shiftLeft, BitVec.getLsbD_setWidth,
    BitVec.getLsbD_signExtend]
  by_cases hlow : i < 32
  · simp only [hi, hlow, decide_true, Bool.not_true, Bool.and_false, Bool.false_and, Bool.false_or,
      Bool.true_and, if_true]
  · have hshift : i - 32 < 64 := by omega
    simp only [hi, hlow, hshift, decide_true, decide_false, Bool.not_false, Bool.true_and, if_false]

/-- **The lower half of a key** is the port. -/
theorem lower_hostKey (host port : BitVec 32) : (hostKey host port).setWidth 32 = port := by
  refine BitVec.eq_of_getLsbD_eq fun i hi => ?_
  rw [BitVec.getLsbD_setWidth, getLsbD_hostKey host port (by omega), if_pos hi, decide_eq_true hi,
    Bool.true_and]

/-- **The upper half of a key** is the address, unless the sign of the port fills it. -/
theorem upper_hostKey (host port : BitVec 32) :
    ((hostKey host port) >>> 32).setWidth 32 =
      if port.msb then BitVec.allOnes 32 else host := by
  refine BitVec.eq_of_getLsbD_eq fun i hi => ?_
  rw [BitVec.getLsbD_setWidth, BitVec.getLsbD_ushiftRight, getLsbD_hostKey host port (by omega),
    if_neg (by omega), decide_eq_true hi, Bool.true_and, Nat.add_sub_cancel_left]
  cases port.msb with
  | false => rw [Bool.or_false, if_neg Bool.false_ne_true]
  | true => rw [Bool.or_true, if_pos rfl, BitVec.getLsbD_allOnes, decide_eq_true hi]

/-- With a negative port all addresses have the same key. -/
theorem hostKey_of_msb {port : BitVec 32} (h : port.msb = true) (host host' : BitVec 32) :
    hostKey host port = hostKey host' port := by
  refine BitVec.eq_of_getLsbD_eq fun i hi => ?_
  rw [getLsbD_hostKey host port hi, getLsbD_hostKey host' port hi, h, Bool.or_true, Bool.or_true]

/-- The key of an address. -/
private theorem makeHostAndPort_toText (asio : AsioAddress) (a port : BitVec 32) :
    makeHostAndPort asio (asio.toText a) port = some (hostKey a port) := by
  rw [makeHostAndPort, asio.makeAddress_toText]
  rfl

/-- **When an instance has a key of its own.** For every IPv4 address and every 32-bit port: they are
packed exactly when the port is not negative. -/
theorem packsAddress_iff (asio : AsioAddress) (a port : BitVec 32) :
    PacksAddress asio a port ↔ port.msb = false := by
  constructor
  · intro h
    by_contra hmsb
    rw [Bool.not_eq_false] at hmsb
    have hne : (~~~a, port) ≠ (a, port) := by
      intro heq
      have hnot : (~~~a).getLsbD 0 = a.getLsbD 0 := by rw [(Prod.mk.inj heq).1]
      simp at hnot
    refine h.distinct (~~~a) port hne ?_
    rw [makeHostAndPort_toText, makeHostAndPort_toText, hostKey_of_msb hmsb]
  · intro hmsb
    have hupper : (hostKey a port >>> 32).setWidth 32 = a := by
      rw [upper_hostKey, if_neg (by simp [hmsb])]
    refine ⟨?_, fun a' port' hne hkey => hne ?_⟩
    · rw [makeHostAndPort_toText, Option.map_some, instanceToHost, hupper, lower_hostKey]
    · rw [makeHostAndPort_toText, makeHostAndPort_toText, Option.some.injEq] at hkey
      have hport : port' = port := by
        rw [← lower_hostKey a' port', hkey, lower_hostKey]
      have hhost : a' = a := by
        have hhalf := upper_hostKey a' port'
        rw [hport, if_neg (by simp [hmsb]), ← hport, hkey, hupper] at hhalf
        exact hhalf.symm
      rw [hhost, hport]

/-! ### Dotted quads -/

/-- The four numbers of an address. -/
def octets (a : BitVec 32) : List ℕ :=
  [a.toNat / 2 ^ 24, a.toNat / 2 ^ 16 % 2 ^ 8, a.toNat / 2 ^ 8 % 2 ^ 8, a.toNat % 2 ^ 8]

/-- The text of an address. -/
def quadText (a : BitVec 32) : Bytes := [46].intercalate ((octets a).map decimal)

/-- The number a part of a text stands for, written as numbers are. -/
def readOctet (text : Bytes) : Option ℕ :=
  let n := (readDigits 0 text).1
  if decimal n = text ∧ n < 2 ^ 8 then some n else none

/-- The address a text stands for. -/
def readQuad (text : Bytes) : Option (BitVec 32) :=
  match (text.splitOn 46).mapM readOctet with
  | some [a, b, c, d] => some (BitVec.ofNat 32 (((a * 2 ^ 8 + b) * 2 ^ 8 + c) * 2 ^ 8 + d))
  | _ => none

/-- The number of a part is read back. -/
private theorem readOctet_decimal {n : ℕ} (hn : n < 2 ^ 8) : readOctet (decimal n) = some n := by
  have hdigits := readDigits_decimal n (s := []) (by simp)
  rw [List.append_nil] at hdigits
  rw [readOctet, hdigits]
  exact if_pos ⟨rfl, hn⟩

/-- The numbers of all parts are read back. -/
private theorem mapM_readOctet {l : List ℕ} (hl : ∀ n ∈ l, n < 2 ^ 8) :
    (l.map decimal).mapM readOctet = some l := by
  induction l with
  | nil => rfl
  | cons n l ih =>
      rw [List.map_cons, List.mapM_cons, readOctet_decimal (hl n List.mem_cons_self),
        ih fun m hm => hl m (List.mem_cons_of_mem n hm)]
      rfl

/-- The parts of the text are the numbers of the address. -/
private theorem readQuad_quadText (a : BitVec 32) : readQuad (quadText a) = some a := by
  have hdot : ∀ l ∈ (octets a).map decimal, (46 : UInt8) ∉ l := by
    intro l hl hmem
    obtain ⟨n, -, rfl⟩ := List.mem_map.mp hl
    exact absurd (isDigit_of_mem_decimal hmem) (by decide)
  have hparts : (quadText a).splitOn 46 = (octets a).map decimal :=
    List.splitOn_intercalate 46 hdot (by simp [octets])
  have ha := a.isLt
  have hlt : ∀ n ∈ octets a, n < 2 ^ 8 := by
    intro n hn
    simp only [octets, List.mem_cons, List.not_mem_nil, or_false] at hn
    omega
  rw [readQuad, hparts, mapM_readOctet hlt]
  refine congrArg some (BitVec.eq_of_toNat_eq ?_)
  rw [BitVec.toNat_ofNat]
  omega

/-- The conversions for dotted quads. -/
def dottedQuad : AsioAddress where
  makeAddress := readQuad
  toText := quadText
  makeAddress_toText := readQuad_quadText

/-- **A negative port takes the place of the address**: the local host and 0.0.0.0 have the same key
with the port -1. -/
theorem not_packsAddress_negative :
    (makeHostAndPort dottedQuad (quadText 0x7F000001#32) (-1)).map (instanceToHost dottedQuad) =
        some (quadText 0xFFFFFFFF#32, -1) ∧
      ¬ PacksAddress dottedQuad 0x7F000001#32 (-1) := by
  constructor
  · change (makeHostAndPort dottedQuad (dottedQuad.toText 0x7F000001#32) (-1)).map _ = _
    rw [makeHostAndPort_toText, Option.map_some, instanceToHost, upper_hostKey, lower_hostKey]
    rfl
  · intro h
    refine h.distinct 0 (-1) (by decide) ?_
    rw [makeHostAndPort_toText, makeHostAndPort_toText, hostKey_of_msb rfl]

end Aquarius
