import Ferryman.Lib.Bytes

/-!
# UTF-8 byte strings

The bytes of a string, which byte strings are the bytes of one, and how such a
byte string is taken apart at its front: an ASCII byte stands for itself, every
byte of a longer encoding has its high bit set.
-/

set_option autoImplicit false

namespace Ferryman

def utf8 (text : String) : Bytes :=
  text.toByteArray.data.toList

/-- Checked conversion of bytes to a string. -/
def fromUtf8 (bytes : Bytes) : Option String :=
  String.fromUTF8? ⟨bytes.toArray⟩

def IsUtf8 (bytes : Bytes) : Prop :=
  ∃ characters : List Char, bytes = characters.flatMap String.utf8EncodeChar

theorem isUtf8_utf8 (text : String) : IsUtf8 (utf8 text) := by
  obtain ⟨characters, encoded⟩ := text.isValidUTF8
  refine ⟨characters, ?_⟩
  rw [utf8, encoded]
  simp [List.utf8Encode]

namespace IsUtf8

theorem exists_fromUtf8 {bytes : Bytes} (valid : IsUtf8 bytes) :
    ∃ text, fromUtf8 bytes = some text ∧ utf8 text = bytes := by
  obtain ⟨characters, encoded⟩ := valid
  have isValid : ByteArray.IsValidUTF8 ⟨bytes.toArray⟩ := by
    refine ⟨characters, ?_⟩
    apply ByteArray.ext
    simp [encoded, List.utf8Encode]
  exact ⟨String.fromUTF8 _ isValid, dif_pos isValid, rfl⟩

theorem nil : IsUtf8 [] :=
  ⟨[], rfl⟩

theorem append {left right : Bytes} (validLeft : IsUtf8 left) (validRight : IsUtf8 right) :
    IsUtf8 (left ++ right) := by
  obtain ⟨leftCharacters, rfl⟩ := validLeft
  obtain ⟨rightCharacters, rfl⟩ := validRight
  exact ⟨leftCharacters ++ rightCharacters, List.flatMap_append.symm⟩

theorem singleton {byte : UInt8} (plain : byte < 0x80) : IsUtf8 [byte] := by
  have checked : ∀ value : Fin 256, UInt8.ofFin value < 0x80 →
      [UInt8.ofFin value] = String.utf8EncodeChar (Char.ofNat (UInt8.ofFin value).toNat) := by
    decide +kernel
  refine ⟨[Char.ofNat byte.toNat], ?_⟩
  rw [List.flatMap_singleton]
  exact checked byte.toFin plain

theorem cons {byte : UInt8} {rest : Bytes} (plain : byte < 0x80) (valid : IsUtf8 rest) :
    IsUtf8 (byte :: rest) :=
  append (singleton plain) valid

end IsUtf8

/-- The encoding of a character is one ASCII byte or has no ASCII byte at all. -/
theorem utf8EncodeChar_cases (character : Char) :
    (∃ byte : UInt8, byte < 0x80 ∧ String.utf8EncodeChar character = [byte]) ∨
      ∀ byte ∈ String.utf8EncodeChar character, 0x80 ≤ byte := by
  have high : ∀ value low : Nat, 0x80 ≤ low → value + low < 256 →
      (0x80 : UInt8) ≤ UInt8.ofNat (value + low) := by
    intro value low isHigh fits
    rw [UInt8.le_iff_toNat_le, UInt8.toNat_ofNat', Nat.mod_eq_of_lt fits]
    exact Nat.le_trans isHigh (Nat.le_add_left _ _)
  fun_cases String.utf8EncodeChar character with
  | case1 value short =>
      refine .inl ⟨_, ?_, rfl⟩
      rw [UInt8.lt_iff_toNat_lt, UInt8.toNat_ofNat', Nat.mod_eq_of_lt (by omega)]
      exact Nat.lt_succ_of_le short
  | case2 value _ _ =>
      right
      simp only [List.forall_mem_cons]
      exact ⟨high _ _ (by decide) (by omega), high _ _ (by decide) (by omega), by simp⟩
  | case3 value _ _ _ =>
      right
      simp only [List.forall_mem_cons]
      exact ⟨high _ _ (by decide) (by omega), high _ _ (by decide) (by omega),
        high _ _ (by decide) (by omega), by simp⟩
  | case4 value _ _ _ =>
      right
      simp only [List.forall_mem_cons]
      exact ⟨high _ _ (by decide) (by omega), high _ _ (by decide) (by omega),
        high _ _ (by decide) (by omega), high _ _ (by decide) (by omega), by simp⟩

namespace IsUtf8

/-- What stands at the front: nothing, an ASCII byte, or bytes that are none. -/
theorem front {bytes : Bytes} (valid : IsUtf8 bytes) :
    bytes = [] ∨ (∃ byte rest, bytes = byte :: rest ∧ byte < 0x80 ∧ IsUtf8 rest) ∨
      ∃ lead rest, bytes = lead ++ rest ∧ lead ≠ [] ∧ (∀ byte ∈ lead, 0x80 ≤ byte) ∧
        IsUtf8 lead ∧ IsUtf8 rest := by
  obtain ⟨characters, rfl⟩ := valid
  cases characters with
  | nil => exact .inl rfl
  | cons character characters =>
      right
      rw [List.flatMap_cons]
      cases utf8EncodeChar_cases character with
      | inl plain =>
          obtain ⟨byte, isPlain, encoded⟩ := plain
          exact .inl ⟨byte, _, by rw [encoded]; rfl, isPlain, characters, rfl⟩
      | inr high =>
          exact .inr ⟨_, _, rfl, String.utf8EncodeChar_ne_nil, high,
            ⟨[character], (List.flatMap_singleton _ _).symm⟩, characters, rfl⟩

theorem tail {byte : UInt8} {rest : Bytes} (valid : IsUtf8 (byte :: rest))
    (plain : byte < 0x80) : IsUtf8 rest := by
  rcases valid.front with empty | ⟨first, others, shape, -, validRest⟩ |
    ⟨lead, others, shape, nonempty, high, -, -⟩
  · cases empty
  · obtain ⟨rfl, rfl⟩ := List.cons.inj shape
    exact validRest
  · obtain ⟨first, more, rfl⟩ := List.exists_cons_of_ne_nil nonempty
    obtain ⟨rfl, -⟩ := List.cons.inj shape
    exact absurd plain (UInt8.not_lt.mpr (high byte List.mem_cons_self))

end IsUtf8

end Ferryman
