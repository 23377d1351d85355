import Ferryman.Lib.Numeral

/-!
# IP addresses and their text form

Addresses with the canonical form of IPv4-mapped ones, the standard printer
(decimal octets; hex segments with the first longest run of zeros compressed)
and the standard parser, both over bytes.
-/

set_option autoImplicit false

namespace Ferryman

inductive IpAddr where
  | v4 (bits : BitVec 32)
  | v6 (bits : BitVec 128)
deriving DecidableEq, Repr

namespace IpAddr

open Byte

def toIpv4Mapped (bits : BitVec 128) : Option (BitVec 32) :=
  if bits.toNat / 2 ^ 32 = 0xFFFF then some (bits.setWidth 32) else none

def toCanonical : IpAddr → IpAddr
  | v4 bits => v4 bits
  | v6 bits =>
      match toIpv4Mapped bits with
      | some mapped => v4 mapped
      | none => v6 bits

def octets (bits : BitVec 32) : List Nat := bigEndian 256 4 bits.toNat
def segments (bits : BitVec 128) : List Nat := bigEndian 65536 8 bits.toNat

/-! ## Printing -/

def displayV4 (bits : BitVec 32) : Bytes :=
  List.intercalate [dot] ((octets bits).map (showNumber 10))

structure Span where
  start : Nat
  len : Nat
deriving DecidableEq

/-- The first longest run of zeros: `current` is the run that ends just before
`index`. -/
def zeroRun (index : Nat) (current longest : Span) : List Nat → Span
  | [] => longest
  | segment :: rest =>
      if segment = 0 then
        let current := if current.len = 0 then ⟨index, 1⟩ else ⟨current.start, current.len + 1⟩
        let longest := if longest.len < current.len then current else longest
        zeroRun (index + 1) current longest rest
      else zeroRun (index + 1) ⟨0, 0⟩ longest rest

def displaySegments (chunk : List Nat) : Bytes :=
  List.intercalate [colon] (chunk.map (showNumber 16))

def displayV6 (bits : BitVec 128) : Bytes :=
  match toIpv4Mapped bits with
  | some mapped => ascii "::ffff:" ++ displayV4 mapped
  | none =>
      let groups := segments bits
      let zeroes := zeroRun 0 ⟨0, 0⟩ ⟨0, 0⟩ groups
      if 1 < zeroes.len then
        displaySegments (groups.take zeroes.start) ++ ascii "::" ++
          displaySegments (groups.drop (zeroes.start + zeroes.len))
      else displaySegments groups

def display : IpAddr → Bytes
  | v4 bits => displayV4 bits
  | v6 bits => displayV6 bits

/-! ## Parsing -/

def readSeparator {α : Type} (separator : UInt8) (first : Bool) (inner : Reader α) : Reader α :=
  fun text => if first then inner text else do
    let ((), rest) ← readChar separator text
    inner rest

def readOctet (first : Bool) : Reader Nat :=
  readSeparator dot first (readNumber 10 256 (some 3) false)

def readIpv4 : Reader (BitVec 32) := fun text => do
  let (one, text) ← readOctet true text
  let (two, text) ← readOctet false text
  let (three, text) ← readOctet false text
  let (four, text) ← readOctet false text
  pure (BitVec.ofNat 32 (ofBigEndian 256 [one, two, three, four]), text)

def readGroup (first : Bool) : Reader Nat :=
  readSeparator colon first (readNumber 16 65536 (some 4) true)

/-- Up to `remaining` groups; an embedded IPv4 address fills two and ends the
list. The flag tells whether one was read. -/
def readGroups (first : Bool) : Nat → Bytes → List Nat × Bool × Bytes
  | 0, text => ([], false, text)
  | remaining + 1, text =>
      let embedded := if remaining = 0 then none else readSeparator colon first readIpv4 text
      match embedded with
      | some (bits, rest) => (bigEndian 65536 2 bits.toNat, true, rest)
      | none =>
          match readGroup first text with
          | none => ([], false, text)
          | some (group, rest) =>
              let (groups, sawV4, rest) := readGroups false remaining rest
              (group :: groups, sawV4, rest)

def readIpv6 : Reader (BitVec 128) := fun text =>
  let (head, headV4, rest) := readGroups true 8 text
  if head.length = 8 then some (BitVec.ofNat 128 (ofBigEndian 65536 head), rest)
  else if headV4 then none
  else do
    let ((), rest) ← readChar colon rest
    let ((), rest) ← readChar colon rest
    let (tail, _, rest) := readGroups true (8 - (head.length + 1)) rest
    let zeroes := List.replicate (8 - head.length - tail.length) 0
    pure (BitVec.ofNat 128 (ofBigEndian 65536 (head ++ zeroes ++ tail)), rest)

def readIpAddr : Reader IpAddr := fun text =>
  match readIpv4 text with
  | some (bits, rest) => some (v4 bits, rest)
  | none => (readIpv6 text).map fun (bits, rest) => (v6 bits, rest)

def readPort : Reader Nat := fun text => do
  let ((), rest) ← readChar colon text
  readNumber 10 65536 none true rest

def readScopeId : Reader Nat := fun text => do
  let ((), rest) ← readChar percent text
  readNumber 10 (2 ^ 32) none true rest

def skipScopeId (text : Bytes) : Bytes :=
  match readScopeId text with
  | some (_, rest) => rest
  | none => text

/-- The address of a socket address; port and scope are read and dropped. -/
def readSocketAddr : Reader IpAddr := fun text =>
  let socketV4 : Option (IpAddr × Bytes) := do
    let (bits, rest) ← readIpv4 text
    let (_, rest) ← readPort rest
    pure (v4 bits, rest)
  match socketV4 with
  | some result => some result
  | none => do
      let ((), rest) ← readChar openBracket text
      let (bits, rest) ← readIpv6 rest
      let ((), rest) ← readChar closeBracket (skipScopeId rest)
      let (_, rest) ← readPort rest
      pure (v6 bits, rest)

def parse (text : Bytes) : Option IpAddr := parseWith readIpAddr text
def parseSocketAddr (text : Bytes) : Option IpAddr := parseWith readSocketAddr text

end IpAddr

end Ferryman
