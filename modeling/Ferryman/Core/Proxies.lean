import Ferryman.Core.Error
import Ferryman.Lib.IpAddr

/-! The networks whose forwarding headers are trusted. -/

set_option autoImplicit false

namespace Ferryman.Core

open IpAddr

def addressBits : IpAddr → BitVec 128
  | .v4 bits => bits.setWidth 128
  | .v6 bits => bits

def addressWidth : IpAddr → Nat
  | .v4 _ => 32
  | .v6 _ => 128

structure Network where
  address : IpAddr
  len : Nat
  len_le : len ≤ addressWidth address
deriving DecidableEq

/-- Does the range contain an address that is already canonical? -/
def Network.contains (net : Network) (ip : IpAddr) : Bool :=
  let width := addressWidth ip
  if addressWidth net.address ≠ width then false
  else
    let mask : BitVec 128 :=
      if net.len = 0 then 0 else BitVec.allOnes 128 <<< (width - net.len)
    (addressBits ip ^^^ addressBits net.address) &&& mask &&&
      (BitVec.allOnes 128 >>> (128 - width)) == 0

structure TrustedProxies where
  nets : List Network := []
deriving DecidableEq

namespace TrustedProxies

def splitSlash (raw : Bytes) : Bytes × Option Bytes :=
  match raw.dropWhile (· ≠ Byte.slash) with
  | [] => (raw, none)
  | _ :: rest => (raw.takeWhile (· ≠ Byte.slash), some rest)

def parseLength (max : Nat) (text : Bytes) : Option Nat :=
  if text.all Byte.isDigit then
    (parseWith (readNumber 10 256 none true) text).filter (· ≤ max)
  else none

/-- `::ffff:a.b.c.d/N` with `N >= 96` is the range `a.b.c.d/(N-96)`. -/
def network (bad : String → Error) (ip : IpAddr) (len : Nat)
    (len_le : len ≤ addressWidth ip) : Except Error Network :=
  match ip with
  | .v4 bits => .ok ⟨.v4 bits, len, len_le⟩
  | .v6 bits =>
      match toIpv4Mapped bits with
      | none => .ok ⟨.v6 bits, len, len_le⟩
      | some mapped =>
          if 96 ≤ len then
            .ok ⟨.v4 mapped, len - 96, by simp only [addressWidth] at len_le ⊢; omega⟩
          else .error (bad "IPv4-mapped IPv6 range needs prefix length >= 96")

def parseEntry (raw : Bytes) : Except Error Network :=
  let bad (why : String) : Error := .invalidCidr raw (ascii why)
  let (address, length) := splitSlash raw
  match IpAddr.parse address with
  | none => .error (bad "not an IP address")
  | some ip =>
      match length with
      | none => network bad ip (addressWidth ip) le_rfl
      | some text =>
          match found : parseLength (addressWidth ip) text with
          | none =>
              .error (.invalidCidr raw
                (ascii "prefix length must be 0..=" ++ showNumber 10 (addressWidth ip)))
          | some len =>
              network bad ip len (by
                unfold parseLength at found
                split at found
                · simpa using (Option.filter_eq_some_iff.mp found).2
                · simp at found)

def parse (cidrs : List Bytes) : Except Error TrustedProxies := do
  let nets ← cidrs.mapM parseEntry
  pure ⟨nets⟩

def contains (proxies : TrustedProxies) (ip : IpAddr) : Bool :=
  proxies.nets.any fun net => net.contains ip.toCanonical

end TrustedProxies

end Ferryman.Core
