import Mathlib.Data.List.DropRight
import Mathlib.Data.List.Infix

/-!
# Byte strings

Strings are lists of bytes. The helpers follow the byte-level behaviour of the
standard string functions on ASCII arguments, so that a scanner over bytes can
be compared with one over characters position by position.
-/

set_option autoImplicit false

namespace Ferryman

abbrev Bytes := List UInt8

def ascii (text : String) : Bytes :=
  text.toList.map fun character => UInt8.ofNat character.toNat

namespace Byte

abbrev tab : UInt8 := 0x09
abbrev space : UInt8 := 0x20
abbrev quote : UInt8 := 0x22
abbrev percent : UInt8 := 0x25
abbrev comma : UInt8 := 0x2C
abbrev dash : UInt8 := 0x2D
abbrev dot : UInt8 := 0x2E
abbrev slash : UInt8 := 0x2F
abbrev colon : UInt8 := 0x3A
abbrev semicolon : UInt8 := 0x3B
abbrev openBracket : UInt8 := 0x5B
abbrev backslash : UInt8 := 0x5C
abbrev closeBracket : UInt8 := 0x5D

def isDigit (byte : UInt8) : Bool := 0x30 ≤ byte && byte ≤ 0x39
def isUpper (byte : UInt8) : Bool := 0x41 ≤ byte && byte ≤ 0x5A
def isLower (byte : UInt8) : Bool := 0x61 ≤ byte && byte ≤ 0x7A
def isAlphanumeric (byte : UInt8) : Bool := isDigit byte || isUpper byte || isLower byte

def toUpper (byte : UInt8) : UInt8 := if isLower byte then byte - 0x20 else byte
def toLower (byte : UInt8) : UInt8 := if isUpper byte then byte + 0x20 else byte

def isWhitespace (byte : UInt8) : Bool := (0x09 ≤ byte && byte ≤ 0x0D) || byte == space

def toDigit (radix : Nat) (byte : UInt8) : Option Nat :=
  let value :=
    if isDigit byte then some (byte.toNat - 0x30)
    else if 0x61 ≤ byte && byte ≤ 0x66 then some (byte.toNat - 0x61 + 10)
    else if 0x41 ≤ byte && byte ≤ 0x46 then some (byte.toNat - 0x41 + 10)
    else none
  value.filter (· < radix)

end Byte

theorem Byte.forall_of_fin {property : UInt8 → Prop}
    (checked : ∀ value : Fin 256, property (UInt8.ofFin value)) (byte : UInt8) : property byte := by
  simpa using checked byte.toFin

namespace Bytes

def startsWith (string : Bytes) (literal : String) : Bool :=
  (ascii literal).isPrefixOf string

def containsText (string : Bytes) (literal : String) : Bool :=
  string.tails.any fun suffix => startsWith suffix literal

def trim (string : Bytes) : Bytes :=
  (string.dropWhile Byte.isWhitespace).rdropWhile Byte.isWhitespace

def before (stop : UInt8) (string : Bytes) : Bytes :=
  string.takeWhile (· != stop)

theorem startsWith_iff {string : Bytes} {literal : String} :
    startsWith string literal = true ↔ ascii literal <+: string := by
  rw [startsWith, List.isPrefixOf_iff_prefix]

/-- A literal cannot straddle a byte that does not occur after its first one. -/
theorem startsWith_append_cons {string : Bytes} (nonempty : string ≠ []) {literal : String}
    {boundary : UInt8} (outside : boundary ∉ (ascii literal).tail) (tail : Bytes) :
    startsWith (string ++ boundary :: tail) literal = startsWith string literal := by
  rw [Bool.eq_iff_iff, startsWith_iff, startsWith_iff]
  constructor
  · intro isPrefix
    rcases List.prefix_or_prefix_of_prefix isPrefix (List.prefix_append string _) with
      short | ⟨rest, long⟩
    · exact short
    · cases rest with
      | nil => exact ⟨[], by simpa using long.symm⟩
      | cons first rest =>
          rw [← long, List.prefix_append_right_inj, List.cons_prefix_cons] at isPrefix
          obtain ⟨head, others, rfl⟩ := List.exists_cons_of_ne_nil nonempty
          exact absurd (by simp [← long, isPrefix.1]) outside
  · exact fun isPrefix => isPrefix.trans (List.prefix_append _ _)

theorem containsText_iff {string : Bytes} {literal : String} :
    containsText string literal = true ↔ ascii literal <:+: string := by
  simp only [containsText, List.any_eq_true, List.mem_tails, startsWith_iff]
  constructor
  · intro found
    obtain ⟨suffix, isSuffix, isPrefix⟩ := found
    exact isPrefix.isInfix.trans isSuffix.isInfix
  · intro isInfix
    obtain ⟨left, right, rfl⟩ := isInfix
    exact ⟨ascii literal ++ right, ⟨left, by simp⟩, List.prefix_append _ _⟩

@[simp] theorem before_nil (stop : UInt8) : before stop [] = [] := rfl

@[simp] theorem before_cons_self (stop : UInt8) (rest : Bytes) :
    before stop (stop :: rest) = [] := by
  simp [before]

theorem before_cons_of_ne {stop byte : UInt8} (differs : byte ≠ stop) (rest : Bytes) :
    before stop (byte :: rest) = byte :: before stop rest := by
  simp [before, differs]

theorem before_append_of_notMem {stop : UInt8} {left right : Bytes} (absent : stop ∉ left) :
    before stop (left ++ right) = left ++ before stop right := by
  induction left with
  | nil => rfl
  | cons byte left ih =>
      simp only [List.mem_cons, not_or] at absent
      have differs : byte ≠ stop := fun same => absent.1 same.symm
      rw [List.cons_append, before_cons_of_ne differs, ih absent.2, List.cons_append]

theorem before_append_of_mem {stop : UInt8} {left right : Bytes} (present : stop ∈ left) :
    before stop (left ++ right) = before stop left := by
  induction left with
  | nil => simp at present
  | cons byte left ih =>
      by_cases same : byte = stop
      · simp [before, same]
      · have later : stop ∈ left := by
          cases List.mem_cons.mp present with
          | inl here => exact absurd here.symm same
          | inr later => exact later
        simpa [before, same] using ih later

theorem mem_of_mem_splitOn {separator byte : UInt8} {string piece : Bytes}
    (isPiece : piece ∈ string.splitOn separator) (member : byte ∈ piece) : byte ∈ string := by
  induction string generalizing piece with
  | nil =>
      rw [List.splitOn_nil, List.mem_singleton] at isPiece
      simp [isPiece] at member
  | cons first rest ih =>
      rw [List.splitOn_cons_eq_if_modifyHead] at isPiece
      split at isPiece
      · cases List.mem_cons.mp isPiece with
        | inl same =>
            subst same
            simp at member
        | inr later => exact List.mem_cons_of_mem _ (ih later member)
      · cases pieces : rest.splitOn separator with
        | nil => simp [pieces] at isPiece
        | cons head tail =>
            simp only [pieces, List.modifyHead_cons, List.mem_cons] at isPiece
            rw [pieces] at ih
            cases isPiece with
            | inl same =>
                subst same
                cases List.mem_cons.mp member with
                | inl same =>
                    subst same
                    exact List.mem_cons_self
                | inr inHead => exact List.mem_cons_of_mem _ (ih List.mem_cons_self inHead)
            | inr later => exact List.mem_cons_of_mem _ (ih (List.mem_cons_of_mem _ later) member)

end Bytes

end Ferryman
