import Ferryman.Lib.IpAddrProperties

/-!
# Texts the address parsers accept

What a reader takes off the front of its text stays within the alphabet of
addresses, so accepted texts hold no separator, blank or invisible byte.
-/

set_option autoImplicit false

namespace Ferryman.IpAddr

open Byte Bytes

/-- The text is `rest` behind bytes of addresses. -/
def Uses (text rest : Bytes) : Prop :=
  ∃ used, text = used ++ rest ∧ ∀ byte ∈ used, isAddressByte byte = true

namespace Uses

theorem refl (text : Bytes) : Uses text text := ⟨[], rfl, by simp⟩

theorem trans {text middle rest : Bytes} (first : Uses text middle) (second : Uses middle rest) :
    Uses text rest := by
  obtain ⟨front, rfl, inFront⟩ := first
  obtain ⟨back, rfl, inBack⟩ := second
  refine ⟨front ++ back, by simp, fun byte member => ?_⟩
  cases List.mem_append.mp member with
  | inl isFront => exact inFront byte isFront
  | inr isBack => exact inBack byte isBack

theorem whole {text : Bytes} (uses : Uses text []) : ∀ byte ∈ text, isAddressByte byte = true := by
  obtain ⟨used, rfl, inUsed⟩ := uses
  simpa using inUsed

end Uses

/-! ## One lemma per reader -/

section Readers

variable {text rest : Bytes}

theorem uses_readChar {expected : UInt8} {result : Unit} (inAddress : isAddressByte expected = true)
    (read : readChar expected text = some (result, rest)) : Uses text rest := by
  cases text with
  | nil => simp [readChar] at read
  | cons byte tail =>
      simp only [readChar] at read
      split at read
      · next same =>
          obtain ⟨-, rfl⟩ := Prod.mk.inj (Option.some.inj read)
          exact ⟨[byte], rfl, by simpa [same] using inAddress⟩
      · simp at read

theorem isAddressByte_of_toDigit : ∀ byte : UInt8,
    ((toDigit 10 byte).isSome = true → isAddressByte byte = true) ∧
      ((toDigit 16 byte).isSome = true → isAddressByte byte = true) :=
  forall_of_fin (by decide +kernel)

theorem uses_readNumber {radix limit value : Nat} {maxDigits : Option Nat} {allowZeroPrefix : Bool}
    (supported : radix = 10 ∨ radix = 16)
    (read : readNumber radix limit maxDigits allowZeroPrefix text = some (value, rest)) :
    Uses text rest := by
  refine ⟨text.takeWhile fun byte => (toDigit radix byte).isSome, ?_, fun byte member => ?_⟩
  · rw [readNumber_rest read, List.takeWhile_append_dropWhile]
  · have isDigit := List.mem_takeWhile_imp member
    cases supported with
    | inl same =>
        subst same
        exact (isAddressByte_of_toDigit byte).1 isDigit
    | inr same =>
        subst same
        exact (isAddressByte_of_toDigit byte).2 isDigit

theorem uses_readSeparator {α : Type} {separator : UInt8} {first : Bool} {inner : Reader α}
    {value : α} (inAddress : isAddressByte separator = true)
    (usesInner : ∀ text rest value, inner text = some (value, rest) → Uses text rest)
    (read : readSeparator separator first inner text = some (value, rest)) : Uses text rest := by
  cases first with
  | true => exact usesInner _ _ _ (by simpa [readSeparator] using read)
  | false =>
      simp only [readSeparator, Bool.false_eq_true, if_false, Option.bind_eq_bind,
        Option.bind_eq_some_iff, Prod.exists] at read
      obtain ⟨result, middle, separated, inside⟩ := read
      exact (uses_readChar inAddress separated).trans (usesInner _ _ _ inside)

theorem uses_readOctet {first : Bool} {value : Nat}
    (read : readOctet first text = some (value, rest)) : Uses text rest :=
  uses_readSeparator (by decide) (fun _ _ _ => uses_readNumber (.inl rfl)) read

theorem uses_readIpv4 {bits : BitVec 32} (read : readIpv4 text = some (bits, rest)) :
    Uses text rest := by
  simp only [readIpv4, Option.bind_eq_bind, Option.bind_eq_some_iff, Prod.exists] at read
  obtain ⟨_, _, one, _, _, two, _, _, three, _, _, four, done⟩ := read
  obtain ⟨-, rfl⟩ := Prod.mk.inj (Option.some.inj done)
  exact (uses_readOctet one).trans <| (uses_readOctet two).trans <|
    (uses_readOctet three).trans (uses_readOctet four)

theorem uses_readGroup {first : Bool} {value : Nat}
    (read : readGroup first text = some (value, rest)) : Uses text rest :=
  uses_readSeparator (by decide) (fun _ _ _ => uses_readNumber (.inr rfl)) read

theorem uses_readGroups (first : Bool) (remaining : Nat) (text : Bytes) :
    Uses text (readGroups first remaining text).2.2 := by
  induction remaining generalizing first text with
  | zero => exact Uses.refl text
  | succ remaining ih =>
      rw [readGroups]
      split
      · next embedded =>
          split at embedded
          · simp at embedded
          · exact uses_readSeparator (by decide) (fun _ _ _ => uses_readIpv4) embedded
      · split
        · exact Uses.refl text
        · next group => exact (uses_readGroup group).trans (ih false _)

theorem uses_readIpv6 {bits : BitVec 128} (read : readIpv6 text = some (bits, rest)) :
    Uses text rest := by
  have head := uses_readGroups true 8 text
  simp only [readIpv6] at read
  split at read
  · obtain ⟨-, rfl⟩ := Prod.mk.inj (Option.some.inj read)
    exact head
  · split at read
    · simp at read
    · simp only [Option.bind_eq_bind, Option.bind_eq_some_iff, Prod.exists] at read
      obtain ⟨_, _, one, _, _, two, done⟩ := read
      obtain ⟨-, rfl⟩ := Prod.mk.inj (Option.some.inj done)
      exact head.trans <| (uses_readChar (by decide) one).trans <|
        (uses_readChar (by decide) two).trans (uses_readGroups _ _ _)

theorem uses_readIpAddr {ip : IpAddr} (read : readIpAddr text = some (ip, rest)) :
    Uses text rest := by
  simp only [readIpAddr] at read
  split at read
  · next isV4 =>
      obtain ⟨-, rfl⟩ := Prod.mk.inj (Option.some.inj read)
      exact uses_readIpv4 isV4
  · simp only [Option.map_eq_some_iff, Prod.exists] at read
    obtain ⟨bits, tail, isV6, done⟩ := read
    obtain ⟨-, rfl⟩ := Prod.mk.inj done
    exact uses_readIpv6 isV6

theorem readPort_eq_some {port : Nat} (read : readPort text = some (port, rest)) :
    ∃ digits, text = colon :: digits ∧ readNumber 10 65536 none true digits = some (port, rest) := by
  simp only [readPort, Option.bind_eq_bind, Option.bind_eq_some_iff, Prod.exists] at read
  obtain ⟨_, digits, separated, number⟩ := read
  cases text with
  | nil => simp [readChar] at separated
  | cons byte tail =>
      simp only [readChar] at separated
      split at separated
      · next same =>
          obtain ⟨-, rfl⟩ := Prod.mk.inj (Option.some.inj separated)
          exact ⟨tail, by rw [same], number⟩
      · simp at separated

theorem uses_readPort {port : Nat} (read : readPort text = some (port, rest)) : Uses text rest := by
  obtain ⟨digits, rfl, number⟩ := readPort_eq_some read
  have inAddress : [colon].all isAddressByte = true := by decide
  exact Uses.trans ⟨[colon], rfl, List.all_eq_true.mp inAddress⟩ (uses_readNumber (.inl rfl) number)

theorem uses_readScopeId {scope : Nat} (read : readScopeId text = some (scope, rest)) :
    Uses text rest := by
  simp only [readScopeId, Option.bind_eq_bind, Option.bind_eq_some_iff, Prod.exists] at read
  obtain ⟨_, _, separated, number⟩ := read
  exact (uses_readChar (by decide) separated).trans (uses_readNumber (.inl rfl) number)

theorem uses_skipScopeId (text : Bytes) : Uses text (skipScopeId text) := by
  rw [skipScopeId]
  split
  · next withScope => exact uses_readScopeId withScope
  · exact Uses.refl text

theorem readSocketAddr_eq_some {ip : IpAddr} (read : readSocketAddr text = some (ip, rest)) :
    ∃ port portText, Uses text portText ∧ readPort portText = some (port, rest) ∧
      ((∃ bits, readIpv4 text = some (bits, portText) ∧ ip = v4 bits) ∨
        text.head? = some openBracket) := by
  simp only [readSocketAddr] at read
  split at read
  · next found =>
      obtain rfl := Option.some.inj read
      simp only [Option.bind_eq_bind, Option.bind_eq_some_iff, Prod.exists] at found
      obtain ⟨bits, portText, address, port, _, portRead, done⟩ := found
      obtain ⟨rfl, rfl⟩ := Prod.mk.inj (Option.some.inj done)
      exact ⟨port, portText, uses_readIpv4 address, portRead, .inl ⟨bits, address, rfl⟩⟩
  · simp only [Option.bind_eq_bind, Option.bind_eq_some_iff, Prod.exists] at read
    obtain ⟨_, inside, opened, bits, afterAddress, address, _, portText, closed, port, _,
      portRead, done⟩ := read
    obtain ⟨-, rfl⟩ := Prod.mk.inj (Option.some.inj done)
    refine ⟨port, portText, ?_, portRead, .inr ?_⟩
    · exact (uses_readChar (by decide) opened).trans <| (uses_readIpv6 address).trans <|
        (uses_skipScopeId afterAddress).trans (uses_readChar (by decide) closed)
    · cases text with
      | nil => simp [readChar] at opened
      | cons byte tail =>
          simp only [readChar] at opened
          split at opened
          · next same => rw [same, List.head?_cons]
          · simp at opened

end Readers

/-! ## Whole texts -/

theorem parseWith_eq_some {α : Type} {reader : Reader α} {text : Bytes} {value : α}
    (parsed : parseWith reader text = some value) : reader text = some (value, []) := by
  simp only [parseWith] at parsed
  split at parsed
  · next read => rw [read, Option.some.inj parsed]
  · simp at parsed

theorem parse_alphabet {text : Bytes} {ip : IpAddr} (parsed : parse text = some ip) :
    ∀ byte ∈ text, isAddressByte byte = true :=
  (uses_readIpAddr (parseWith_eq_some parsed)).whole

theorem parseSocketAddr_alphabet {text : Bytes} {ip : IpAddr}
    (parsed : parseSocketAddr text = some ip) : ∀ byte ∈ text, isAddressByte byte = true := by
  obtain ⟨port, portText, address, portRead, -⟩ :=
    readSocketAddr_eq_some (parseWith_eq_some parsed)
  exact (address.trans (uses_readPort portRead)).whole

theorem parse_openBracket {text : Bytes} (bracket : text.head? = some openBracket) :
    parse text = none := by
  obtain ⟨tail, rfl⟩ : ∃ tail, text = openBracket :: tail := by
    cases text with
    | nil => simp at bracket
    | cons byte tail => exact ⟨tail, by rw [Option.some.inj bracket]⟩
  have noV4 : readIpv4 (openBracket :: tail) = none :=
    readIpv4_stuck (forall_head (by decide))
  have noGroups := readGroups_stuck (by decide : toDigit 10 openBracket = none) (by decide) 8 tail
  have noV6 : readIpv6 (openBracket :: tail) = none := by
    have notColon : openBracket ≠ colon := by decide
    simp [readIpv6, noGroups, readChar, notColon]
  simp [parse, parseWith, readIpAddr, noV4, noV6]

theorem parse_of_parseSocketAddr {text : Bytes} {ip : IpAddr}
    (parsed : parseSocketAddr text = some ip) : parse text = none := by
  obtain ⟨port, portText, -, portRead, isV4 | bracket⟩ :=
    readSocketAddr_eq_some (parseWith_eq_some parsed)
  · obtain ⟨bits, address, -⟩ := isV4
    obtain ⟨digits, rfl, -⟩ := readPort_eq_some portRead
    simp [parse, parseWith, readIpAddr, address]
  · exact parse_openBracket bracket

theorem parseSocketAddr_closeBracket (inner : Bytes) :
    parseSocketAddr (inner ++ [closeBracket]) = none := by
  cases parsed : parseSocketAddr (inner ++ [closeBracket]) with
  | none => rfl
  | some ip =>
      obtain ⟨port, portText, ⟨used, shape, -⟩, portRead, -⟩ :=
        readSocketAddr_eq_some (parseWith_eq_some parsed)
      obtain ⟨digits, rfl, number⟩ := readPort_eq_some portRead
      have allDigits := List.dropWhile_eq_nil_iff.mp (readNumber_rest number).symm
      have last : (colon :: digits).getLast? = some closeBracket := by
        simpa using (congrArg List.getLast? shape).symm
      cases List.mem_cons.mp (List.mem_of_getLast? last) with
      | inl isColon => exact absurd isColon (by decide)
      | inr isDigit => exact absurd (allDigits _ isDigit) (by decide)

end Ferryman.IpAddr
