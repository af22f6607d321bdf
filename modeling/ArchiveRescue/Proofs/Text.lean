import Mathlib
import ArchiveRescue.Text.Blank
import ArchiveRescue.Text.Numeral
import ArchiveRescue.Text.Utf8

/-
  What is written can be read back: characters from their
  UTF-8 bytes and numbers from their octal digits.

  Main statements:
    * `Text.decodeChars_encodeChars`
    * `Text.octalValue?_fixedDigits`
-/

namespace ArchiveRescue

namespace Text

------------------------------------------------------------
-- Bytes of Characters
------------------------------------------------------------

/- Bytes compare like the numbers they are written from. -/
theorem toNat_ofNat
    {n : Nat}
    (hByte : n < 256) :
    (UInt8.ofNat n).toNat = n := by
  rw [UInt8.toNat_ofNat']
  exact Nat.mod_eq_of_lt hByte

/- A byte of ASCII is a character. -/
theorem decodeFrom_ascii
    {n : Nat}
    (hAscii : n < 0x80)
    (rest : Bytes) :
    decodeFrom none (UInt8.ofNat n :: rest) =
      Char.ofNat n :: decodeFrom none rest := by
  have hByte := toNat_ofNat (n := n) (by omega)
  have hLead :
      lead (UInt8.ofNat n) = ([Char.ofNat n], none) := by
    unfold lead
    simp only [UInt8.lt_iff_toNat_lt, hByte,
      UInt8.reduceToNat]
    rw [if_pos hAscii]
  simp only [decodeFrom, step, hLead, List.singleton_append]

/- What the first byte of two says about the second. -/
theorem decodeFrom_two
    {n : Nat}
    (hLow : 0xC2 ≤ n)
    (hHigh : n < 0xE0)
    (rest : Bytes) :
    decodeFrom none (UInt8.ofNat n :: rest) =
      decodeFrom (some ⟨n - 0xC0, 1, 0x80, 0xBF⟩) rest := by
  have hByte := toNat_ofNat (n := n) (by omega)
  have hLead :
      lead (UInt8.ofNat n) =
        ([], some ⟨n - 0xC0, 1, 0x80, 0xBF⟩) := by
    unfold lead
    simp only [UInt8.lt_iff_toNat_lt, hByte,
      UInt8.reduceToNat]
    rw [if_neg (by omega), if_neg (by omega), if_pos hHigh]
  simp only [decodeFrom, step, hLead, List.nil_append]

/- The same for the first byte of three. -/
theorem decodeFrom_three
    {n : Nat}
    (hLow : 0xE0 ≤ n)
    (hHigh : n < 0xF0)
    (rest : Bytes) :
    decodeFrom none (UInt8.ofNat n :: rest) =
      decodeFrom
        (some ⟨n - 0xE0, 2,
          if n = 0xE0 then 0xA0 else 0x80,
          if n = 0xED then 0x9F else 0xBF⟩) rest := by
  have hByte := toNat_ofNat (n := n) (by omega)
  have hLead :
      lead (UInt8.ofNat n) =
        ([], some ⟨n - 0xE0, 2,
          if n = 0xE0 then 0xA0 else 0x80,
          if n = 0xED then 0x9F else 0xBF⟩) := by
    unfold lead
    simp only [UInt8.lt_iff_toNat_lt, ← UInt8.toNat_inj,
      hByte, UInt8.reduceToNat]
    rw [if_neg (by omega), if_neg (by omega),
      if_neg (by omega)]
    by_cases hFirst : n = 0xE0
    · subst hFirst
      rfl
    · by_cases hLast : n = 0xED
      · subst hLast
        rfl
      · rw [if_neg hFirst, if_neg hLast, if_pos hHigh,
          if_neg hFirst, if_neg hLast]
  simp only [decodeFrom, step, hLead, List.nil_append]

/- The same for the first byte of four. -/
theorem decodeFrom_four
    {n : Nat}
    (hLow : 0xF0 ≤ n)
    (hHigh : n ≤ 0xF4)
    (rest : Bytes) :
    decodeFrom none (UInt8.ofNat n :: rest) =
      decodeFrom
        (some ⟨n - 0xF0, 3,
          if n = 0xF0 then 0x90 else 0x80,
          if n = 0xF4 then 0x8F else 0xBF⟩) rest := by
  have hLead :
      lead (UInt8.ofNat n) =
        ([], some ⟨n - 0xF0, 3,
          if n = 0xF0 then 0x90 else 0x80,
          if n = 0xF4 then 0x8F else 0xBF⟩) := by
    have hCases : n = 0xF0 ∨ n = 0xF1 ∨ n = 0xF2 ∨
        n = 0xF3 ∨ n = 0xF4 := by
      omega
    rcases hCases with rfl | rfl | rfl | rfl | rfl <;> rfl
  simp only [decodeFrom, step, hLead, List.nil_append]

/- A byte before the last one is added to the value. -/
theorem decodeFrom_more
    {value missing n : Nat}
    {low high : UInt8}
    (hMissing : 1 < missing)
    (hLow : low.toNat ≤ n)
    (hHigh : n ≤ high.toNat)
    (rest : Bytes) :
    decodeFrom (some ⟨value, missing, low, high⟩)
        (UInt8.ofNat n :: rest) =
      decodeFrom
        (some ⟨value * 64 + (n - 0x80), missing - 1, 0x80,
          0xBF⟩) rest := by
  have hByte := toNat_ofNat (hHigh.trans_lt high.toNat_lt)
  have hStep :
      step (some ⟨value, missing, low, high⟩)
          (UInt8.ofNat n) =
        ([], some ⟨value * 64 + (n - 0x80), missing - 1,
          0x80, 0xBF⟩) := by
    unfold step
    simp only [UInt8.le_iff_toNat_le, hByte]
    rw [if_pos ⟨hLow, hHigh⟩, if_neg (by omega)]
  simp only [decodeFrom, hStep, List.nil_append]

/- The last byte of a character completes it. -/
theorem decodeFrom_last
    {value n : Nat}
    {low high : UInt8}
    (hLow : low.toNat ≤ n)
    (hHigh : n ≤ high.toNat)
    (rest : Bytes) :
    decodeFrom (some ⟨value, 1, low, high⟩)
        (UInt8.ofNat n :: rest) =
      Char.ofNat (value * 64 + (n - 0x80)) ::
        decodeFrom none rest := by
  have hByte := toNat_ofNat (hHigh.trans_lt high.toNat_lt)
  have hStep :
      step (some ⟨value, 1, low, high⟩) (UInt8.ofNat n) =
        ([Char.ofNat (value * 64 + (n - 0x80))], none) := by
    unfold step
    simp only [UInt8.le_iff_toNat_le, hByte]
    rw [if_pos ⟨hLow, hHigh⟩, if_pos (Nat.le_refl 1)]
  simp only [decodeFrom, hStep, List.singleton_append]

------------------------------------------------------------
-- Characters
------------------------------------------------------------

/-
  The bytes of a character are read as that character.  The
  ranges of the second byte leave out what is no character.
-/
theorem decodeFrom_encodeChar
    (c : Char)
    (rest : Bytes) :
    decodeFrom none (String.utf8EncodeChar c ++ rest) =
      c :: decodeFrom none rest := by
  have hChar : Char.ofNat c.val.toNat = c := c.ofNat_toNat
  have hValid : c.val.toNat < 0xD800 ∨
      (0xDFFF < c.val.toNat ∧ c.val.toNat < 0x110000) :=
    c.valid
  unfold String.utf8EncodeChar
  generalize c.val.toNat = v at *
  dsimp only
  by_cases hOne : v ≤ 0x7F
  · rw [if_pos hOne, List.singleton_append,
      decodeFrom_ascii (by omega), hChar]
  · rw [if_neg hOne]
    by_cases hTwo : v ≤ 0x7FF
    · rw [if_pos hTwo, List.cons_append,
        List.singleton_append,
        decodeFrom_two (by omega) (by omega),
        decodeFrom_last (by simp) (by simp; omega)]
      have hValue :
          (v / 64 % 32 + 0xC0 - 0xC0) * 64 +
              (v % 64 + 0x80 - 0x80) =
            v := by
        omega
      rw [hValue, hChar]
    · rw [if_neg hTwo]
      by_cases hThree : v ≤ 0xFFFF
      · rw [if_pos hThree]
        simp only [List.cons_append, List.nil_append]
        rw [decodeFrom_three (by omega) (by omega),
          decodeFrom_more (by omega)
            (by split <;> (simp; try omega))
            (by split <;> (simp; omega)),
          decodeFrom_last (by simp) (by simp; omega)]
        have hValue :
            ((v / 4096 % 16 + 0xE0 - 0xE0) * 64 +
              (v / 64 % 64 + 0x80 - 0x80)) * 64 +
            (v % 64 + 0x80 - 0x80) =
              v := by
          omega
        rw [hValue, hChar]
      · rw [if_neg hThree]
        simp only [List.cons_append, List.nil_append]
        rw [decodeFrom_four (by omega) (by omega),
          decodeFrom_more (by omega)
            (by split <;> (simp; try omega))
            (by split <;> (simp; omega)),
          decodeFrom_more (by omega) (by simp)
            (by simp; omega),
          decodeFrom_last (by simp) (by simp; omega)]
        have hValue :
            (((v / 262144 % 8 + 0xF0 - 0xF0) * 64 +
                (v / 4096 % 64 + 0x80 - 0x80)) * 64 +
              (v / 64 % 64 + 0x80 - 0x80)) * 64 +
            (v % 64 + 0x80 - 0x80) =
              v := by
          omega
        rw [hValue, hChar]

/- A text is read from the bytes that it was written to. -/
theorem decodeChars_encodeChars (cs : List Char) :
    decodeChars (encodeChars cs) = cs := by
  unfold decodeChars encodeChars
  induction cs with
  | nil => rfl
  | cons c rest ih =>
      rw [List.flatMap_cons, decodeFrom_encodeChar, ih]

/- Texts are written one after another. -/
theorem encodeChars_append (cs ds : List Char) :
    encodeChars (cs ++ ds) =
      encodeChars cs ++ encodeChars ds :=
  List.flatMap_append

/- A character of ASCII is written as one byte. -/
theorem encodeChars_ascii
    {cs : List Char}
    (hAscii : ∀ c ∈ cs, c.toNat < 0x80) :
    encodeChars cs = cs.map (fun c => UInt8.ofNat c.toNat) := by
  induction cs with
  | nil => rfl
  | cons c rest ih =>
      have hFirst := hAscii c List.mem_cons_self
      have hRest := ih
        (fun d hd => hAscii d (List.mem_cons_of_mem c hd))
      have hByte :
          String.utf8EncodeChar c = [UInt8.ofNat c.toNat] := by
        unfold String.utf8EncodeChar
        exact if_pos (Nat.le_of_lt_succ hFirst)
      rw [List.map_cons, ← hRest]
      unfold encodeChars
      rw [List.flatMap_cons, hByte, List.singleton_append]

/- Only the zero character is written with a zero byte. -/
theorem zero_notMem_encodeChars
    {cs : List Char}
    (hZero : '\x00' ∉ cs) :
    0 ∉ encodeChars cs := by
  unfold encodeChars
  rw [List.mem_flatMap]
  rintro ⟨c, hc, hByte⟩
  have hChar : c.val.toNat ≠ 0 := by
    intro hValue
    apply hZero
    have hSame : c = '\x00' := Char.ext (UInt32.toNat_inj.mp hValue)
    rwa [← hSame]
  have hValid : c.val.toNat < 0x110000 := by
    have hRange : c.val.toNat < 0xD800 ∨
        (0xDFFF < c.val.toNat ∧ c.val.toNat < 0x110000) :=
      c.valid
    omega
  unfold String.utf8EncodeChar at hByte
  generalize c.val.toNat = v at *
  dsimp only at hByte
  have hNone : ∀ n, n < 256 → 0 < n → (0 : UInt8) ≠ .ofNat n := by
    intro n hSmall hPos hEq
    have hNat := congrArg UInt8.toNat hEq
    rw [toNat_ofNat hSmall] at hNat
    exact absurd hNat (by simp; omega)
  split at hByte
  · rw [List.mem_singleton] at hByte
    exact hNone _ (by omega) (by omega) hByte
  · split at hByte
    · simp only [List.mem_cons, List.not_mem_nil, or_false] at hByte
      rcases hByte with h | h <;>
        exact hNone _ (by omega) (by omega) h
    · split at hByte
      · simp only [List.mem_cons, List.not_mem_nil, or_false] at hByte
        rcases hByte with h | h | h <;>
          exact hNone _ (by omega) (by omega) h
      · simp only [List.mem_cons, List.not_mem_nil, or_false] at hByte
        rcases hByte with h | h | h | h <;>
          exact hNone _ (by omega) (by omega) h

------------------------------------------------------------
-- Blanks
------------------------------------------------------------

/- Nothing is trimmed from a text without blanks at its ends. -/
theorem trimChars_eq_self
    {cs : List Char}
    (hFirst : ∀ c, cs.head? = some c → isBlank c = false)
    (hLast : ∀ c, cs.getLast? = some c → isBlank c = false) :
    trimChars cs = cs := by
  have hKept : ∀ {ds : List Char},
      (∀ c, ds.head? = some c → isBlank c = false) →
        ds.dropWhile isBlank = ds := by
    intro ds hHead
    cases ds with
    | nil => rfl
    | cons d rest =>
        exact List.dropWhile_cons_of_neg
          (by simp [hHead d rfl])
  unfold trimChars trimEnd
  rw [hKept hFirst, hKept, List.reverse_reverse]
  intro c hc
  rw [List.head?_reverse] at hc
  exact hLast c hc

------------------------------------------------------------
-- Octal Numerals
------------------------------------------------------------

/- A digit is read as what it was written for. -/
theorem octalDigit?_digitChar
    {d : Nat}
    (hDigit : d < 8) :
    octalDigit? (digitChar d) = some d := by
  interval_cases d <;> rfl

/- Digits are no blanks, no signs, and take one byte each. -/
theorem digitChar_plain
    {d : Nat}
    (hDigit : d < 8) :
    isBlank (digitChar d) = false ∧ digitChar d ≠ '+' ∧
      0 < (digitChar d).toNat ∧
      (digitChar d).toNat < 0x80 := by
  interval_cases d <;> decide

/- A numeral consists of digits. -/
theorem mem_fixedDigits
    {count n : Nat}
    {c : Char}
    (hMem : c ∈ fixedDigits 8 count n) :
    ∃ d < 8, c = digitChar d := by
  induction count generalizing n with
  | zero => cases hMem
  | succ count ih =>
      rw [fixedDigits, List.mem_append, List.mem_singleton]
        at hMem
      rcases hMem with hFront | hBack
      · exact ih hFront
      · exact ⟨n % 8, Nat.mod_lt n (by decide), hBack⟩

/- A numeral has as many digits as asked for. -/
theorem length_fixedDigits (base count n : Nat) :
    (fixedDigits base count n).length = count := by
  induction count generalizing n with
  | zero => rfl
  | succ count ih => simp [fixedDigits, ih]

/- Numerals are read from left to right. -/
theorem octalFrom?_append
    (acc : Nat)
    (cs ds : List Char) :
    octalFrom? acc (cs ++ ds) =
      (octalFrom? acc cs).bind (octalFrom? · ds) := by
  induction cs generalizing acc with
  | nil => rfl
  | cons c rest ih =>
      rw [List.cons_append]
      simp only [octalFrom?]
      split
      · rfl
      · split
        · exact ih _
        · rfl

/- A number that fits its digits is read back from them. -/
theorem octalFrom?_fixedDigits
    (acc : Nat)
    {count n : Nat}
    (hFits : n < 8 ^ count)
    (hWord : acc * 8 ^ count + n < 2 ^ 64) :
    octalFrom? acc (fixedDigits 8 count n) =
      some (acc * 8 ^ count + n) := by
  induction count generalizing n with
  | zero =>
      have hZero : n = 0 := by omega
      subst hZero
      simp [fixedDigits, octalFrom?]
  | succ count ih =>
      rw [pow_succ] at hFits
      have hShift : acc * 8 ^ (count + 1) + n =
          (acc * 8 ^ count + n / 8) * 8 + n % 8 := by
        rw [pow_succ]
        ring_nf
        omega
      rw [hShift] at hWord ⊢
      rw [fixedDigits, octalFrom?_append,
        ih (by omega) (by omega)]
      simp only [Option.bind_some, octalFrom?,
        octalDigit?_digitChar (Nat.mod_lt n (by decide : 0 < 8))]
      exact if_pos hWord

/- A numeral of one digit or more has a value. -/
theorem octalValue?_fixedDigits
    {count n : Nat}
    (hFits : n < 8 ^ (count + 1))
    (hWord : n < 2 ^ 64) :
    octalValue? (fixedDigits 8 (count + 1) n) = some n := by
  have hValue :=
    octalFrom?_fixedDigits 0 hFits (by simpa)
  have hLength := length_fixedDigits 8 (count + 1) n
  rw [Nat.zero_mul, Nat.zero_add] at hValue
  rw [← hValue]
  cases hDigits : fixedDigits 8 (count + 1) n with
  | nil =>
      rw [hDigits] at hLength
      cases hLength
  | cons c rest =>
      have hMem : c ∈ fixedDigits 8 (count + 1) n := by
        rw [hDigits]
        exact List.mem_cons_self
      rcases mem_fixedDigits hMem with ⟨d, hDigit, rfl⟩
      have hSign := (digitChar_plain hDigit).2.1
      generalize digitChar d = c at *
      unfold octalValue?
      split
      next hNil => cases hNil
      next hPlus => exact (hSign (List.cons.inj hPlus).1).elim
      next hPlus => exact (hSign (List.cons.inj hPlus).1).elim
      next => rfl

end Text

end ArchiveRescue
