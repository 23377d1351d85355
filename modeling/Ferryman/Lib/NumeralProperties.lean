import Ferryman.Lib.Numeral
import Mathlib.Data.Nat.Digits.Lemmas

set_option autoImplicit false

namespace Ferryman

open Byte

variable {radix : Nat}

theorem toDigit_digitByte (supported : radix ≤ 16) {digit : Nat} (below : digit < radix) :
    toDigit radix (digitByte digit) = some digit := by
  have table : ∀ digit < 16, toDigit 16 (digitByte digit) = some digit := by decide
  have value := table digit (by omega)
  unfold toDigit at value ⊢
  obtain ⟨isValue, -⟩ := Option.filter_eq_some_iff.mp value
  rw [isValue]
  simpa using below

theorem ofBigEndian_reverse (base : Nat) (places : List Nat) :
    ofBigEndian base places.reverse = Nat.ofDigits base places := by
  rw [ofBigEndian, List.foldl_reverse, Nat.ofDigits_eq_foldr]
  congr 1
  funext place value
  simp [Nat.mul_comm, Nat.add_comm]

theorem showNumber_digits (positive : 1 < radix) (value : Nat) :
    ∃ digits : List Nat, showNumber radix value = digits.map digitByte ∧ digits ≠ [] ∧
      (∀ digit ∈ digits, digit < radix) ∧ ofBigEndian radix digits = value ∧
      (digits.head? = some 0 → digits.length = 1) ∧
      ∀ places, 0 < places → value < radix ^ places → digits.length ≤ places := by
  unfold showNumber
  split
  · next isZero =>
    subst isZero
    refine ⟨[0], rfl, by simp, ?_, by simp [ofBigEndian], by simp, ?_⟩
    · intro digit member
      rw [List.mem_singleton] at member
      omega
    · intro places atLeast _
      exact atLeast
  · next notZero =>
    refine ⟨(Nat.digits radix value).reverse, by rw [List.map_reverse], ?_, ?_, ?_, ?_, ?_⟩
    · simpa [Nat.digits_eq_nil_iff_eq_zero] using notZero
    · intro digit member
      exact Nat.digits_lt_base positive (List.mem_reverse.mp member)
    · rw [ofBigEndian_reverse, Nat.ofDigits_digits]
    · intro leading
      have nonempty : Nat.digits radix value ≠ [] := Nat.digits_ne_nil_iff_ne_zero.mpr notZero
      rw [List.head?_reverse, List.getLast?_eq_some_getLast nonempty] at leading
      exact absurd (Option.some.inj leading) (Nat.getLast_digit_ne_zero radix notZero)
    · intro places _ small
      rw [List.length_reverse]
      exact (Nat.digits_length_le_iff positive value).mpr small

theorem readNumber_digits (supported : radix ≤ 16) {limit : Nat} {maxDigits : Option Nat}
    {allowZeroPrefix : Bool} {digits : List Nat} {rest : Bytes} (nonempty : digits ≠ [])
    (below : ∀ digit ∈ digits, digit < radix)
    (few : ∀ most ∈ maxDigits, digits.length ≤ most)
    (noZero : allowZeroPrefix = false → digits.head? = some 0 → digits.length = 1)
    (small : ofBigEndian radix digits < limit)
    (stops : ∀ byte ∈ rest.head?, toDigit radix byte = none) :
    readNumber radix limit maxDigits allowZeroPrefix (digits.map digitByte ++ rest) =
      some (ofBigEndian radix digits, rest) := by
  have isDigit : ∀ byte ∈ digits.map digitByte, (toDigit radix byte).isSome = true := by
    intro byte member
    obtain ⟨digit, isMember, rfl⟩ := List.mem_map.mp member
    rw [toDigit_digitByte supported (below digit isMember)]
    rfl
  have taken : (digits.map digitByte ++ rest).takeWhile (fun byte => (toDigit radix byte).isSome) =
      digits.map digitByte := by
    rw [List.takeWhile_append_of_pos isDigit]
    cases rest with
    | nil => simp
    | cons first rest => simp [stops first rfl]
  have dropped : (digits.map digitByte ++ rest).dropWhile (fun byte => (toDigit radix byte).isSome) =
      rest := by
    rw [List.dropWhile_append_of_pos isDigit]
    cases rest with
    | nil => rfl
    | cons first rest => simp [stops first rfl]
  have values : (digits.map digitByte).filterMap (toDigit radix) = digits := by
    rw [List.filterMap_map]
    conv => rhs; rw [← List.filterMap_some (l := digits)]
    refine List.filterMap_congr fun digit member => ?_
    exact toDigit_digitByte supported (below digit member)
  have notTooMany : (maxDigits.any fun most => most < digits.length) = false := by
    cases maxDigits with
    | none => rfl
    | some most => simpa using few most rfl
  have noLeadingZero : (!allowZeroPrefix && digits.head? == some 0 && decide (1 < digits.length)) =
      false := by
    cases allowZeroPrefix with
    | true => rfl
    | false =>
        by_cases leading : digits.head? = some 0
        · simp [noZero rfl leading]
        · simp [leading]
  simp only [readNumber, taken, dropped, values, nonempty, notTooMany, noLeadingZero, small,
    if_false, if_true, Bool.false_eq_true]

theorem readNumber_showNumber (positive : 1 < radix) (supported : radix ≤ 16) {places value : Nat}
    {limit : Nat} {allowZeroPrefix : Bool} {rest : Bytes} (atLeast : 0 < places)
    (fits : value < radix ^ places) (small : value < limit)
    (stops : ∀ byte ∈ rest.head?, toDigit radix byte = none) :
    readNumber radix limit (some places) allowZeroPrefix (showNumber radix value ++ rest) =
      some (value, rest) := by
  obtain ⟨digits, shown, nonempty, below, rfl, noZero, few⟩ := showNumber_digits positive value
  rw [shown]
  refine readNumber_digits supported nonempty below ?_ (fun _ => noZero) small stops
  intro most same
  cases same
  exact few places atLeast fits

/-! ## Fixed places -/

theorem length_bigEndian (base count value : Nat) : (bigEndian base count value).length = count := by
  simp [bigEndian]

theorem ofBigEndian_concat (base : Nat) (front : List Nat) (last : Nat) :
    ofBigEndian base (front ++ [last]) = ofBigEndian base front * base + last := by
  simp [ofBigEndian]

theorem bigEndian_succ (base count value : Nat) :
    bigEndian base (count + 1) value = bigEndian base count (value / base) ++ [value % base] := by
  simp only [bigEndian, List.range_succ, List.map_append, List.map_cons, List.map_nil]
  congr 1
  · refine List.map_congr_left fun place member => ?_
    have below := List.mem_range.mp member
    rw [Nat.div_div_eq_div_mul, ← Nat.pow_succ']
    congr 3
    omega
  · simp

theorem ofBigEndian_bigEndian {base count value : Nat} (fits : value < base ^ count) :
    ofBigEndian base (bigEndian base count value) = value := by
  induction count generalizing value with
  | zero =>
      obtain rfl : value = 0 := by simpa using fits
      rfl
  | succ count ih =>
      have shorter : value / base < base ^ count := by
        rw [Nat.pow_succ'] at fits
        exact Nat.div_lt_of_lt_mul fits
      rw [bigEndian_succ, ofBigEndian_concat, ih shorter, Nat.mul_comm, Nat.div_add_mod]

theorem bigEndian_lt {base count value place : Nat} (positive : 0 < base)
    (member : place ∈ bigEndian base count value) : place < base := by
  obtain ⟨index, -, rfl⟩ := List.mem_map.mp member
  exact Nat.mod_lt _ positive

end Ferryman
