import Mathlib
import ArchiveRescue.Bytes

/-
  Facts about byte strings: what a search finds, how strings
  that were put together are cut, and what numbers and sums
  their bytes come to.

  Main statements:
    * `Bytes.indexOf?_eq_some_iff`
    * `Bytes.indexOf?_eq_none_iff`
    * `Bytes.slice_of_append`
    * `Bytes.fit_of_le`
    * `Bytes.ofBigEndian_bigEndian`
    * `Bytes.ofLittleEndian_littleEndian`
-/

namespace ArchiveRescue

namespace Bytes

------------------------------------------------------------
-- Searching
------------------------------------------------------------

/- A search finds the first place where a pattern begins. -/
theorem indexOf?_eq_some_iff
    {pattern : Bytes}
    (hPattern : pattern ≠ [])
    {xs : Bytes}
    {i : Nat} :
    indexOf? pattern xs = some i ↔
      pattern <+: xs.drop i ∧
        ∀ j < i, ¬ pattern <+: xs.drop j := by
  induction xs generalizing i with
  | nil =>
      simp [indexOf?, hPattern]
  | cons b rest ih =>
      unfold indexOf?
      by_cases hHere : pattern <+: b :: rest
      · rw [if_pos (List.isPrefixOf_iff_prefix.mpr hHere)]
        constructor
        · intro hFound
          cases hFound
          exact ⟨hHere, by simp⟩
        · rintro ⟨-, hFirst⟩
          cases i with
          | zero => rfl
          | succ i => exact (hFirst 0 (by omega) hHere).elim
      · rw [if_neg
          (fun h => hHere (List.isPrefixOf_iff_prefix.mp h))]
        cases i with
        | zero => simp [hHere]
        | succ i =>
            simp only [Option.map_eq_some_iff,
              Nat.add_right_cancel_iff, exists_eq_right,
              List.drop_succ_cons]
            rw [ih]
            refine and_congr_right (fun _ => ?_)
            constructor
            · intro hFirst j hj
              cases j with
              | zero => exact hHere
              | succ j => exact hFirst j (by omega)
            · intro hFirst j hj
              exact hFirst (j + 1) (by omega)

/- A search fails where the pattern begins nowhere. -/
theorem indexOf?_eq_none_iff
    {pattern : Bytes}
    (hPattern : pattern ≠ [])
    {xs : Bytes} :
    indexOf? pattern xs = none ↔
      ∀ j, ¬ pattern <+: xs.drop j := by
  induction xs with
  | nil => simp [indexOf?, hPattern]
  | cons b rest ih =>
      unfold indexOf?
      by_cases hHere : pattern <+: b :: rest
      · rw [if_pos (List.isPrefixOf_iff_prefix.mpr hHere)]
        simp only [reduceCtorEq, false_iff, not_forall,
          not_not]
        exact ⟨0, hHere⟩
      · rw [if_neg
          (fun h => hHere (List.isPrefixOf_iff_prefix.mp h)),
          Option.map_eq_none_iff, ih]
        constructor
        · intro hRest j
          cases j with
          | zero => exact hHere
          | succ j => exact hRest j
        · intro hAll j
          exact hAll (j + 1)

/- What has been found lies within the string. -/
theorem add_length_le_of_indexOf?
    {pattern : Bytes}
    (hPattern : pattern ≠ [])
    {xs : Bytes}
    {i : Nat}
    (hFound : indexOf? pattern xs = some i) :
    i + pattern.length ≤ xs.length := by
  have hPlace := ((indexOf?_eq_some_iff hPattern).mp hFound).1
  have hLength := hPlace.length_le
  have hSome := List.length_pos_iff.mpr hPattern
  rw [List.length_drop] at hLength
  omega

------------------------------------------------------------
-- Cutting
------------------------------------------------------------

/- What stands between two strings is cut out again. -/
theorem slice_of_append
    (front back : Bytes)
    {xs field : Bytes}
    {start len : Nat}
    (hBytes : xs = front ++ (field ++ back))
    (hStart : front.length = start)
    (hLen : field.length = len) :
    slice xs start len = field := by
  subst hBytes hStart hLen
  unfold slice
  rw [List.drop_left, List.take_left]

/- A string that is not too long is filled up. -/
theorem fit_of_le
    {n : Nat}
    {xs : Bytes}
    (hFits : xs.length ≤ n) :
    fit n xs = xs ++ zeros (n - xs.length) := by
  unfold fit
  rw [List.take_of_length_le hFits]

/- One of the right length is left alone. -/
theorem fit_of_eq
    {n : Nat}
    {xs : Bytes}
    (hLength : xs.length = n) :
    fit n xs = xs := by
  rw [fit_of_le (Nat.le_of_eq hLength), hLength, Nat.sub_self]
  exact List.append_nil xs

/- A run of zeros begins with a zero. -/
theorem zeros_succ (n : Nat) :
    zeros (n + 1) = 0 :: zeros n :=
  rfl

------------------------------------------------------------
-- Numbers and Sums
------------------------------------------------------------

/- Zeros in front do not count. -/
theorem ofBigEndian_zeros
    (n : Nat)
    (xs : Bytes) :
    ofBigEndian (zeros n ++ xs) = ofBigEndian xs := by
  induction n with
  | zero => rfl
  | succ n ih =>
      rw [zeros_succ, List.cons_append]
      exact ih

/- The lowest byte of a number. -/
theorem toNat_low (n : Nat) :
    (UInt8.ofNat (n % 256)).toNat = n % 256 := by
  rw [UInt8.toNat_ofNat']
  exact Nat.mod_eq_of_lt (Nat.mod_lt n (by decide))

/- A number is read back from the bytes that hold it. -/
theorem ofBigEndian_bigEndian (width n : Nat) :
    ofBigEndian (bigEndian width n) = n % 256 ^ width := by
  induction width generalizing n with
  | zero =>
      rw [pow_zero, Nat.mod_one]
      rfl
  | succ width ih =>
      have hFold :
          ofBigEndian (bigEndian (width + 1) n) =
            ofBigEndian (bigEndian width (n / 256)) * 256 +
              n % 256 := by
        simp only [bigEndian, ofBigEndian, List.foldl_append,
          List.foldl_cons, List.foldl_nil, toNat_low]
      rw [hFold, ih, pow_succ, Nat.mul_comm (256 ^ width) 256,
        Nat.mod_mul]
      omega

/- A little-endian number has the width asked for. -/
theorem length_littleEndian (width n : Nat) :
    (littleEndian width n).length = width := by
  induction width generalizing n with
  | zero => rfl
  | succ width ih =>
      unfold littleEndian
      rw [List.length_cons, ih]

/- It is read back, too. -/
theorem ofLittleEndian_littleEndian (width n : Nat) :
    ofLittleEndian (littleEndian width n) =
      n % 256 ^ width := by
  induction width generalizing n with
  | zero =>
      rw [pow_zero, Nat.mod_one]
      rfl
  | succ width ih =>
      unfold littleEndian ofLittleEndian
      rw [ih, toNat_low, pow_succ,
        Nat.mul_comm (256 ^ width) 256, Nat.mod_mul]

/- Every byte adds less than 256. -/
theorem total_le (xs : Bytes) :
    total xs ≤ 255 * xs.length := by
  induction xs with
  | nil => exact Nat.le_refl 0
  | cons b rest ih =>
      have hByte := b.toNat_lt
      simp only [total, List.length_cons]
      omega

end Bytes

end ArchiveRescue
