import Ferryman.Lib.Bytes
import Mathlib.Data.Nat.Digits.Defs

/-!
# Numbers as text

Positional notation with a fixed number of places, the printer for numbers
without leading zeros and the reader that takes a maximal run of digits.
-/

set_option autoImplicit false

namespace Ferryman

open Byte

def bigEndian (base count value : Nat) : List Nat :=
  (List.range count).map fun place => value / base ^ (count - 1 - place) % base

def ofBigEndian (base : Nat) (places : List Nat) : Nat :=
  places.foldl (fun value place => value * base + place) 0

/-! ## Printing -/

def digitByte (digit : Nat) : UInt8 :=
  if digit < 10 then UInt8.ofNat (0x30 + digit) else UInt8.ofNat (0x61 + (digit - 10))

def showNumber (radix value : Nat) : Bytes :=
  if value = 0 then [digitByte 0]
  else ((Nat.digits radix value).map digitByte).reverse

/-- The `Debug` form of a string inside its quotes. Bytes outside of ASCII are
taken as printable. -/
def debugByte (byte : UInt8) : Bytes :=
  if byte == 0x00 then ascii "\\0"
  else if byte == tab then ascii "\\t"
  else if byte == 0x0A then ascii "\\n"
  else if byte == 0x0D then ascii "\\r"
  else if byte == quote || byte == backslash then [backslash, byte]
  else if byte < space || byte == 0x7F then
    ascii "\\u\x7b" ++ showNumber 16 byte.toNat ++ ascii "\x7d"
  else [byte]

def debugText (text : Bytes) : Bytes := quote :: text.flatMap debugByte ++ [quote]

/-! ## Reading

A reader consumes a prefix and returns the rest; `none` consumes nothing. -/

abbrev Reader (α : Type) := Bytes → Option (α × Bytes)

def readChar (expected : UInt8) : Reader Unit
  | c :: rest => if c = expected then some ((), rest) else none
  | [] => none

/-- A number below `limit`: the maximal run of digits, at most `maxDigits` of
them, without a leading zero unless allowed. -/
def readNumber (radix limit : Nat) (maxDigits : Option Nat) (allowZeroPrefix : Bool) :
    Reader Nat := fun text =>
  let digits := (text.takeWhile fun byte => (toDigit radix byte).isSome).filterMap (toDigit radix)
  let rest := text.dropWhile fun byte => (toDigit radix byte).isSome
  let value := ofBigEndian radix digits
  if digits = [] then none
  else if maxDigits.any (· < digits.length) then none
  else if !allowZeroPrefix && digits.head? == some 0 && 1 < digits.length then none
  else if value < limit then some (value, rest)
  else none

def parseWith {α : Type} (reader : Reader α) (text : Bytes) : Option α :=
  match reader text with
  | some (value, []) => some value
  | _ => none

end Ferryman
