import Mathlib
import ArchiveRescue.Proofs.Bytes
import ArchiveRescue.Proofs.Text
import ArchiveRescue.Ustar.Field

/-
  The fields of a header can be read back: texts that fit
  their field and have no blanks at their ends, and numbers,
  whether they are written as numerals or marked.

  Main statements:
    * `Ustar.Field.text_ofText`
    * `Ustar.Field.number_octal`
    * `Ustar.Field.number_ofNumber`
-/

namespace ArchiveRescue

namespace Ustar

namespace Field

------------------------------------------------------------
-- Texts
------------------------------------------------------------

/- Reading stops at the first zero byte. -/
theorem takeWhile_nonzero
    {xs rest : Bytes}
    (hBytes : 0 ∉ xs) :
    (xs ++ 0 :: rest).takeWhile (· != 0) = xs := by
  rw [List.takeWhile_append_of_pos]
  · simp
  · intro b hb
    simp only [bne_iff_ne]
    rintro rfl
    exact hBytes hb

/- A text that fits its field is read back. -/
theorem chars_ofText
    {width : Nat}
    {s : String}
    (hFits : (Text.encode s).length ≤ width)
    (hZero : '\x00' ∉ s.toList) :
    chars (ofText width s) = Text.trimChars s.toList := by
  have hBytes : 0 ∉ Text.encode s :=
    Text.zero_notMem_encodeChars hZero
  have hRead :
      (ofText width s).takeWhile (· != 0) =
        Text.encode s := by
    unfold ofText
    rw [Bytes.fit_of_le hFits]
    cases hRoom : width - (Text.encode s).length with
    | zero =>
        rw [Bytes.zeros, List.replicate_zero, List.append_nil,
          List.takeWhile_eq_self_iff]
        intro b hb
        simp only [bne_iff_ne]
        rintro rfl
        exact hBytes hb
    | succ room =>
        rw [Bytes.zeros_succ]
        exact takeWhile_nonzero hBytes
  unfold chars
  rw [hRead]
  unfold Text.encode
  rw [Text.decodeChars_encodeChars]

theorem text_ofText
    {width : Nat}
    {s : String}
    (hFits : (Text.encode s).length ≤ width)
    (hZero : '\x00' ∉ s.toList)
    (hTrim : Text.trimChars s.toList = s.toList) :
    text (ofText width s) = s := by
  unfold text
  rw [chars_ofText hFits hZero, hTrim, String.ofList_toList]

------------------------------------------------------------
-- Numerals
------------------------------------------------------------

/- The bytes of a numeral are those of its digits. -/
theorem octal_eq_map (digits n : Nat) :
    octal digits n =
      (Text.fixedDigits 8 digits n).map
        (fun c => UInt8.ofNat c.toNat) := by
  apply Text.encodeChars_ascii
  intro c hc
  rcases Text.mem_fixedDigits hc with ⟨d, hDigit, rfl⟩
  exact (Text.digitChar_plain hDigit).2.2.2

/- A numeral takes a byte for each digit. -/
@[simp]
theorem length_octal (digits n : Nat) :
    (octal digits n).length = digits := by
  rw [octal_eq_map, List.length_map, Text.length_fixedDigits]

/- The digits in front of a zero byte are read back. -/
theorem chars_octal
    (digits n : Nat)
    (rest : Bytes) :
    chars (octal digits n ++ 0 :: rest) =
      Text.fixedDigits 8 digits n := by
  have hPlain : ∀ c ∈ Text.fixedDigits 8 digits n,
      Text.isBlank c = false ∧ c ≠ '\x00' := by
    intro c hc
    rcases Text.mem_fixedDigits hc with ⟨d, hDigit, rfl⟩
    have hDigits := Text.digitChar_plain hDigit
    refine ⟨hDigits.1, ?_⟩
    intro hNul
    rw [hNul] at hDigits
    exact absurd hDigits.2.2.1 (by decide)
  have hBytes : 0 ∉ octal digits n :=
    Text.zero_notMem_encodeChars
      (fun hNul => (hPlain _ hNul).2 rfl)
  unfold chars
  rw [takeWhile_nonzero hBytes]
  unfold octal
  rw [Text.decodeChars_encodeChars]
  apply Text.trimChars_eq_self
  · intro c hc
    exact (hPlain c (List.mem_of_head? hc)).1
  · intro c hc
    exact (hPlain c (List.mem_of_getLast? hc)).1

/-
  A numeral of one digit or more is read back when a zero
  byte follows.  Its first byte is not marked.
-/
theorem number_octal
    {digits n : Nat}
    (hFits : n < 8 ^ (digits + 1))
    (hWord : n < 2 ^ 64)
    (rest : Bytes) :
    number (octal (digits + 1) n ++ 0 :: rest) =
      UInt64.ofNat n := by
  have hChars := chars_octal (digits + 1) n rest
  have hLength := Text.length_fixedDigits 8 (digits + 1) n
  have hBytes := octal_eq_map (digits + 1) n
  cases hDigits : Text.fixedDigits 8 (digits + 1) n with
  | nil =>
      rw [hDigits] at hLength
      cases hLength
  | cons c more =>
      have hMem : c ∈ Text.fixedDigits 8 (digits + 1) n := by
        rw [hDigits]
        exact List.mem_cons_self
      rcases Text.mem_fixedDigits hMem with ⟨d, hDigit, rfl⟩
      have hPlain :
          (UInt8.ofNat (Text.digitChar d).toNat &&& 0x80 != 0)
            = false := by
        interval_cases d <;> decide
      rw [hDigits, List.map_cons] at hBytes
      rw [hBytes, List.cons_append] at hChars ⊢
      unfold number
      dsimp only
      rw [hPlain, hChars,
        Text.octalValue?_fixedDigits hFits hWord]
      rfl

------------------------------------------------------------
-- Numbers
------------------------------------------------------------

/-
  Every number of 64 bits is read back from a field of more
  than eight bytes.  What is too large for a numeral stands
  in the last eight bytes, behind a byte that only marks it.
-/
theorem number_ofNumber
    {width : Nat}
    (hWidth : 8 < width)
    (n : UInt64) :
    number (ofNumber width n) = n := by
  have hWord : n.toNat < 2 ^ 64 := n.toNat_lt
  obtain ⟨room, rfl⟩ : ∃ room, width = room + 9 :=
    ⟨width - 9, by omega⟩
  unfold ofNumber
  by_cases hFits : n.toNat < Nat.pow 8 (room + 9 - 1)
  · have hField :
        Bytes.fit (room + 9) (octal (room + 8) n.toNat) =
          octal (room + 8) n.toNat ++ 0 :: [] := by
      rw [Bytes.fit_of_le (by simp), length_octal]
      simp [Bytes.zeros]
    rw [if_pos hFits]
    change number (Bytes.fit (room + 9)
      (octal (room + 8) n.toNat)) = n
    rw [hField, number_octal hFits hWord, UInt64.ofNat_toNat]
  · have hField :
        binary (room + 9) n.toNat =
          0x80 :: (Bytes.zeros room ++
            Bytes.bigEndian 8 n.toNat) := by
      unfold binary
      have hTail : min (room + 9) 8 = 8 := by omega
      have hFront : room + 9 - 8 = room + 1 := by omega
      dsimp only
      rw [hTail, hFront, Bytes.zeros_succ]
      rfl
    rw [if_neg hFits, hField]
    have hValue :
        Bytes.ofBigEndian
            (((0x80 : UInt8) &&& 0x7F) ::
              (Bytes.zeros room ++
                Bytes.bigEndian 8 n.toNat)) =
          n.toNat := by
      change Bytes.ofBigEndian
        (Bytes.zeros (room + 1) ++
          Bytes.bigEndian 8 n.toNat) = n.toNat
      rw [Bytes.ofBigEndian_zeros,
        Bytes.ofBigEndian_bigEndian]
      exact Nat.mod_eq_of_lt hWord
    unfold number
    dsimp only
    rw [if_pos (by decide), hValue, UInt64.ofNat_toNat]

/- A number fills its field. -/
@[simp]
theorem length_ofNumber
    (width : Nat)
    (n : UInt64) :
    (ofNumber width n).length = width := by
  have hMarked : ∀ xs : Bytes,
      (marked xs).length = xs.length := by
    intro xs
    cases xs <;> rfl
  unfold ofNumber
  split
  · exact Bytes.length_fit _ _
  · unfold binary
    simp only [hMarked, List.length_append,
      Bytes.length_zeros, Bytes.length_bigEndian]
    omega

/- So does a text. -/
@[simp]
theorem length_ofText
    (width : Nat)
    (s : String) :
    (ofText width s).length = width :=
  Bytes.length_fit _ _

end Field

end Ustar

end ArchiveRescue
