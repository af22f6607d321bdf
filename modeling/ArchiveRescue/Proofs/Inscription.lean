import Mathlib
import ArchiveRescue.Proofs.Header

/-
  How a header is written into its block, one field after
  another, and that it is read back from there.  A field is
  copied over a part of the block that must have just as many
  bytes; this never fails, no field runs into another one,
  and each of them is found again where it was put.

  Key definitions include:
    * `Text.numeral`
    * `Bytes.copyOver?`
    * `Ustar.Stroke`
    * `Ustar.Header.inscribe?`
    * `Ustar.Field.Keeps`
    * `Ustar.Header.ReadsBack`

  Main statements:
    * `Text.numeral_eq`
    * `Ustar.Stroke.write?_zeros`
    * `Ustar.Header.inscribe?_eq`
    * `Ustar.Header.field_stroke`
    * `Ustar.Header.inscribed_reads_back`
-/

namespace ArchiveRescue

------------------------------------------------------------
-- Numerals
------------------------------------------------------------

namespace Text

/- An octal numeral with zeros in front up to a width. -/
def numeral (digits n : Nat) : List Char :=
  (Nat.toDigits 8 n).leftpad digits '0'

/- It is not wider exactly if the number fits. -/
theorem length_numeral_le_iff
    {digits : Nat}
    (n : Nat)
    (hSome : 0 < digits) :
    (numeral digits n).length ≤ digits ↔ n < 8 ^ digits := by
  have hFits :=
    Nat.length_toDigits_le_iff (n := n)
      (by decide : 1 < 8) hSome
  rw [← hFits]
  unfold numeral
  rw [List.length_leftpad]
  omega

/- The last digit stands behind the numeral of the others. -/
theorem numeral_succ (digits n : Nat) :
    numeral (digits + 2) n =
      numeral (digits + 1) (n / 8) ++ [Nat.digitChar (n % 8)] := by
  unfold numeral List.leftpad
  rw [Nat.toDigits_eq_if (n := n) (by decide)]
  split
  next hSmall =>
    rw [Nat.div_eq_of_lt hSmall, Nat.mod_eq_of_lt hSmall,
      Nat.toDigits_zero]
    simp [List.replicate_succ']
  next =>
    rw [List.length_append, List.length_singleton,
      ← List.append_assoc]
    congr 3
    omega

/- A number that fits is written with just these digits. -/
theorem numeral_eq
    {digits n : Nat}
    (hFits : n < 8 ^ (digits + 1)) :
    numeral (digits + 1) n = fixedDigits 8 (digits + 1) n := by
  have hDigit : ∀ d < 8, Nat.digitChar d = digitChar d := by
    decide
  induction digits generalizing n with
  | zero =>
      rw [zero_add, pow_one] at hFits
      unfold numeral
      rw [Nat.toDigits_of_lt_base hFits, hDigit n hFits]
      unfold fixedDigits fixedDigits
      rw [Nat.mod_eq_of_lt hFits]
      rfl
  | succ digits ih =>
      rw [pow_succ] at hFits
      rw [numeral_succ, ih (by omega),
        hDigit _ (Nat.mod_lt n (by decide))]
      rfl

end Text

------------------------------------------------------------
-- Copying Over
------------------------------------------------------------

namespace Bytes

/- Copy bytes over a part that has just as many. -/
def copyOver?
    (xs : Bytes)
    (start len : Nat)
    (ys : Bytes) : Option Bytes :=
  if start + len ≤ xs.length ∧ ys.length = len then
    some (overlay xs start ys)
  else none

/- Copy bytes to the front of a field, cut to its width. -/
def copyInto?
    (xs : Bytes)
    (start width : Nat)
    (ys : Bytes) : Option Bytes :=
  let len := min ys.length width
  copyOver? xs start len (ys.take len)

/- Runs of zeros make one run. -/
theorem zeros_append (m n : Nat) :
    zeros m ++ zeros n = zeros (m + n) :=
  List.replicate_append_replicate

/- Over zeros the copy is filled up with zeros. -/
theorem copyOver?_zeros
    (done : Bytes)
    {ys : Bytes}
    {width : Nat}
    (room : Nat)
    (hFits : ys.length ≤ width)
    (hRoom : width ≤ room) :
    copyOver? (done ++ zeros room) done.length ys.length ys =
      some (done ++ fit width ys ++ zeros (room - width)) := by
  have hInside : done.length + ys.length ≤
      (done ++ zeros room).length := by
    rw [List.length_append, length_zeros]
    omega
  have hFront : fit done.length (done ++ zeros room) = done := by
    unfold fit
    rw [List.take_left, List.length_append,
      Nat.sub_eq_zero_of_le (Nat.le_add_right _ _)]
    exact List.append_nil done
  have hBehind :
      (done ++ zeros room).drop (done.length + ys.length) =
        zeros (width - ys.length) ++ zeros (room - width) := by
    rw [← List.drop_drop, List.drop_left, zeros_append]
    unfold zeros
    rw [List.drop_replicate]
    congr 1
    omega
  unfold copyOver?
  rw [if_pos ⟨hInside, rfl⟩]
  unfold overlay
  rw [hFront, hBehind, fit_of_le hFits]
  simp only [List.append_assoc]

theorem copyInto?_zeros
    (done ys : Bytes)
    {width room : Nat}
    (hRoom : width ≤ room) :
    copyInto? (done ++ zeros room) done.length width ys =
      some (done ++ fit width ys ++ zeros (room - width)) := by
  have hLength :
      (ys.take (min ys.length width)).length =
        min ys.length width := by
    rw [List.length_take]
    omega
  have hCut : fit width (ys.take (min ys.length width)) =
      fit width ys := by
    unfold fit
    rw [hLength, List.take_take]
    rcases Nat.le_total ys.length width with hLess | hMore
    · rw [Nat.min_eq_left hLess, Nat.min_eq_right hLess,
        List.take_length, List.take_of_length_le hLess]
    · rw [Nat.min_eq_right hMore, Nat.min_self,
        Nat.sub_self, Nat.sub_eq_zero_of_le hMore]
  have hCopy :=
    copyOver?_zeros done room
      (hLength.trans_le (Nat.min_le_right _ _)) hRoom
  rw [hCut, hLength] at hCopy
  exact hCopy

/- A part is replaced by one of the same length. -/
theorem copyOver?_between
    {before part ys : Bytes}
    {start : Nat}
    (after : Bytes)
    (hStart : before.length = start)
    (hLength : part.length = ys.length) :
    copyOver? (before ++ part ++ after) start ys.length ys =
      some (before ++ ys ++ after) := by
  subst hStart
  have hInside : before.length + ys.length ≤
      (before ++ part ++ after).length := by
    simp only [List.length_append]
    omega
  have hFront :
      fit before.length (before ++ part ++ after) = before := by
    have hLonger : before.length ≤
        (before ++ (part ++ after)).length := by
      rw [List.length_append]
      exact Nat.le_add_right _ _
    unfold fit
    rw [List.append_assoc, List.take_left,
      Nat.sub_eq_zero_of_le hLonger]
    exact List.append_nil before
  have hBehind :
      (before ++ part ++ after).drop
          (before.length + ys.length) = after := by
    apply List.drop_left'
    rw [List.length_append, hLength]
  unfold copyOver?
  rw [if_pos ⟨hInside, rfl⟩]
  unfold overlay
  rw [hFront, hBehind]

/- A small number leaves its first byte zero. -/
theorem bigEndian_succ_of_lt
    {width n : Nat}
    (hSmall : n < 256 ^ width) :
    bigEndian (width + 1) n = 0 :: bigEndian width n := by
  induction width generalizing n with
  | zero =>
      rw [pow_zero, Nat.lt_one_iff] at hSmall
      subst hSmall
      rfl
  | succ width ih =>
      rw [pow_succ] at hSmall
      unfold bigEndian
      rw [ih (by omega)]
      rfl

end Bytes

namespace Ustar

------------------------------------------------------------
-- Strokes
------------------------------------------------------------

/- What is written into a field. -/
inductive Ink where
  | text (s : String)
  | number (n : UInt64)
  | byte (b : UInt8)
  deriving DecidableEq, Repr

/- A field of a block and what is written into it. -/
structure Stroke where
  start : Nat
  width : Nat
  ink : Ink
  deriving DecidableEq, Repr

namespace Stroke

/-
  Write into a field.  Texts are cut to it, and numbers that
  do not fit it as numerals are marked.
-/
def write?
    (s : Stroke)
    (block : Bytes) : Option Bytes :=
  match s.ink with
  | .text t =>
      Bytes.copyInto? block s.start s.width (Text.encode t)
  | .number n =>
      let numeral := Text.numeral (s.width - 1) n.toNat
      if numeral.length ≤ s.width - 1 then
        Bytes.copyInto? block s.start s.width
          (Text.encodeChars numeral)
      else
        Bytes.copyOver? block s.start s.width
          (Field.binary s.width n.toNat)
  | .byte b => Bytes.copyOver? block s.start 1 [b]

/- Write into several fields. -/
def writeAll?
    (strokes : List Stroke)
    (block : Bytes) : Option Bytes :=
  strokes.foldlM (fun written s => s.write? written) block

/- What is found in the field afterwards. -/
def field (s : Stroke) : Bytes :=
  match s.ink with
  | .text t => Field.ofText s.width t
  | .number n => Field.ofNumber s.width n
  | .byte b => Bytes.fit s.width [b]

/- It fills the field. -/
@[simp]
theorem length_field (s : Stroke) :
    s.field.length = s.width := by
  unfold field
  split
  · exact Field.length_ofText _ _
  · exact Field.length_ofNumber _ _
  · exact Bytes.length_fit _ _

/- A field is wide enough for what it is there for. -/
def IsWide (s : Stroke) : Prop :=
  match s.ink with
  | .text _ => True
  | .number _ => 2 ≤ s.width
  | .byte _ => 1 ≤ s.width

/- Writing into zeros fills one field and nothing else. -/
theorem write?_zeros
    {s : Stroke}
    {done : Bytes}
    (room : Nat)
    (hWide : s.IsWide)
    (hStart : s.start = done.length)
    (hRoom : s.width ≤ room) :
    s.write? (done ++ Bytes.zeros room) =
      some (done ++ s.field ++
        Bytes.zeros (room - s.width)) := by
  unfold write? field
  unfold IsWide at hWide
  rw [hStart]
  cases hInk : s.ink with
  | text t => exact Bytes.copyInto?_zeros done _ hRoom
  | byte b =>
      rw [hInk] at hWide
      exact
        @Bytes.copyOver?_zeros done [b] _ room hWide hRoom
  | number n =>
      rw [hInk] at hWide
      dsimp only at hWide ⊢
      have hFits :=
        Text.length_numeral_le_iff n.toNat
          (by omega : 0 < s.width - 1)
      by_cases hSmall : n.toNat < 8 ^ (s.width - 1)
      · have hField : Field.ofNumber s.width n =
            Bytes.fit s.width
              (Field.octal (s.width - 1) n.toNat) :=
          if_pos hSmall
        obtain ⟨digits, hDigits⟩ :
            ∃ digits, s.width - 1 = digits + 1 :=
          ⟨s.width - 2, by omega⟩
        have hNumeral :
            Text.encodeChars
                (Text.numeral (s.width - 1) n.toNat) =
              Field.octal (s.width - 1) n.toNat := by
          rw [hDigits] at hSmall ⊢
          exact congrArg Text.encodeChars
            (Text.numeral_eq hSmall)
        rw [if_pos (hFits.mpr hSmall), hNumeral, hField]
        exact Bytes.copyInto?_zeros done _ hRoom
      · have hField : Field.ofNumber s.width n =
            Field.binary s.width n.toNat :=
          if_neg hSmall
        have hLength := Field.length_ofNumber s.width n
        rw [hField] at hLength
        have hCopy :=
          Bytes.copyOver?_zeros done room
            (Nat.le_of_eq hLength) hRoom
        rw [hLength, Bytes.fit_of_eq hLength] at hCopy
        rw [if_neg (fun hShort => hSmall (hFits.mp hShort)),
          hField]
        exact hCopy

/- Fields are written one after another. -/
theorem writeAll?_append
    (first second : List Stroke)
    (block : Bytes) :
    writeAll? (first ++ second) block =
      (writeAll? first block).bind (writeAll? second) := by
  unfold writeAll?
  rw [List.foldlM_append]
  rfl

/-
  Fields one after another, from a position on, that are wide
  enough.
-/
def Adjoin : Nat → List Stroke → Prop
| _, [] => True
| start, s :: rest =>
    s.start = start ∧ s.IsWide ∧ Adjoin (start + s.width) rest

/- Writing into all of them fills them one after another. -/
theorem writeAll?_zeros
    {strokes : List Stroke}
    (done : Bytes)
    (room : Nat)
    (hAdjoin : Adjoin done.length strokes)
    (hRoom : (strokes.flatMap field).length ≤ room) :
    writeAll? strokes (done ++ Bytes.zeros room) =
      some (done ++ strokes.flatMap field ++
        Bytes.zeros
          (room - (strokes.flatMap field).length)) := by
  induction strokes generalizing done room with
  | nil =>
      rw [List.flatMap_nil, List.append_nil]
      rfl
  | cons s rest ih =>
      rcases hAdjoin with ⟨hStart, hWide, hRest⟩
      rw [List.flatMap_cons, List.length_append, length_field]
        at hRoom
      have hFirst :=
        write?_zeros room hWide hStart (by omega)
      have hNext : Adjoin (done ++ s.field).length rest := by
        rw [List.length_append, length_field]
        exact hRest
      have hRest := ih _ (room - s.width) hNext (by omega)
      unfold writeAll? at hRest ⊢
      rw [List.foldlM_cons, hFirst, Option.bind_eq_bind,
        Option.bind_some, hRest]
      rw [List.flatMap_cons, List.length_append, length_field,
        Nat.sub_sub]
      simp only [List.append_assoc]

/- What was put into a field is found there. -/
theorem slice_stroke
    {strokes : List Stroke}
    {s : Stroke}
    (hMem : s ∈ strokes)
    {before after : Bytes}
    (hAdjoin : Adjoin before.length strokes) :
    Bytes.slice
        (before ++ (strokes.flatMap field ++ after))
        s.start s.width = s.field := by
  induction strokes generalizing before with
  | nil => cases hMem
  | cons first rest ih =>
      rcases hAdjoin with ⟨hStart, -, hRest⟩
      rw [List.flatMap_cons]
      rcases List.mem_cons.mp hMem with rfl | hLater
      · apply Bytes.slice_of_append before
            (rest.flatMap field ++ after)
        · rw [List.append_assoc]
        · exact hStart.symm
        · exact s.length_field
      · have hNext :
            Adjoin (before ++ first.field).length rest := by
          rw [List.length_append, length_field]
          exact hRest
        have hFound := ih hLater hNext
        simp only [List.append_assoc] at hFound ⊢
        exact hFound

end Stroke

------------------------------------------------------------
-- Writing a Header
------------------------------------------------------------

namespace Header

variable (h : Header)

/- The fields in front of the checksum. -/
def frontStrokes : List Stroke :=
  [⟨0, 100, .text h.place.2⟩,
    ⟨100, 8, .number h.mode.toUInt64⟩,
    ⟨108, 8, .number h.uid.toUInt64⟩,
    ⟨116, 8, .number h.gid.toUInt64⟩,
    ⟨124, 12, .number h.size⟩,
    ⟨136, 12, .number h.mtime⟩]

/- The fields behind it. -/
def backStrokes : List Stroke :=
  [⟨156, 1, .byte h.typeflag⟩,
    ⟨157, 100, .text h.linkname⟩,
    ⟨257, 6, .text h.magic⟩,
    ⟨263, 2, .text h.version⟩,
    ⟨265, 32, .text h.uname⟩,
    ⟨297, 32, .text h.gname⟩,
    ⟨329, 8, .number h.devmajor.toUInt64⟩,
    ⟨337, 8, .number h.devminor.toUInt64⟩,
    ⟨345, 155, .text h.place.1⟩]

/-
  Write a header into a block of zeros, field after field.
  The checksum is that of the block with all other fields,
  and its numeral is as long as it comes out.
-/
def inscribe? : Option Bytes :=
  (Stroke.writeAll? (h.frontStrokes ++ h.backStrokes)
    (Bytes.zeros blockSize)).bind (fun filled =>
      let sum := (Block.ofBytes filled).checksum
      Bytes.copyOver? filled 148 8
        (Text.encodeChars (Text.numeral 6 sum) ++ [0, 0x20]))

theorem adjoin_frontStrokes :
    Stroke.Adjoin 0 h.frontStrokes := by
  simp [frontStrokes, Stroke.Adjoin, Stroke.IsWide]

theorem adjoin_backStrokes :
    Stroke.Adjoin 156 h.backStrokes := by
  simp [backStrokes, Stroke.Adjoin, Stroke.IsWide]

theorem flatMap_frontStrokes :
    h.frontStrokes.flatMap Stroke.field = h.front := by
  simp [frontStrokes, front, Stroke.field, short]

theorem flatMap_backStrokes :
    h.backStrokes.flatMap Stroke.field ++ Bytes.zeros 12 =
      h.back := by
  simp [backStrokes, back, Stroke.field, short, Bytes.fit,
    Bytes.zeros]

theorem length_backStrokes :
    (h.backStrokes.flatMap Stroke.field).length = 344 := by
  have hLength := congrArg List.length h.flatMap_backStrokes
  rw [List.length_append, Bytes.length_zeros, length_back]
    at hLength
  omega

/- All fields are written, around zeros for the checksum. -/
theorem writeAll?_strokes :
    Stroke.writeAll? (h.frontStrokes ++ h.backStrokes)
        (Bytes.zeros blockSize) =
      some (h.front ++ Bytes.zeros 8 ++ h.back) := by
  have hGap : (h.front ++ Bytes.zeros 8).length = 156 := by
    rw [List.length_append, length_front, Bytes.length_zeros]
  have hFirst :
      Stroke.writeAll? h.frontStrokes
          (Bytes.zeros blockSize) =
        some (h.front ++ Bytes.zeros 8 ++
          Bytes.zeros 356) := by
    have hWritten :=
      Stroke.writeAll?_zeros [] blockSize
        h.adjoin_frontStrokes
        (by rw [flatMap_frontStrokes, length_front]; decide)
    rw [flatMap_frontStrokes, length_front, List.nil_append,
      List.nil_append] at hWritten
    rw [List.append_assoc h.front, Bytes.zeros_append]
    exact hWritten
  have hSecond :
      Stroke.writeAll? h.backStrokes
          (h.front ++ Bytes.zeros 8 ++ Bytes.zeros 356) =
        some (h.front ++ Bytes.zeros 8 ++ h.back) := by
    rw [Stroke.writeAll?_zeros _ 356
        (hGap ▸ h.adjoin_backStrokes)
        (by rw [length_backStrokes]; decide),
      length_backStrokes, ← flatMap_backStrokes,
      ← List.append_assoc]
  rw [Stroke.writeAll?_append, hFirst, Option.bind_some,
    hSecond]

/-
  Writing never fails: the checksum takes its six digits, and
  the block is that of all fields one after another.
-/
theorem inscribe?_eq : h.inscribe? = some h.toBlock.bytes := by
  have hBytes :
      (Block.ofBytes
          (h.front ++ Bytes.zeros 8 ++ h.back)).bytes =
        h.front ++ Bytes.zeros 8 ++ h.back := by
    apply Bytes.fit_of_eq
    simp [blockSize]
  have hSum :=
    h.checksum_around hBytes (Bytes.length_zeros 8)
  have hField :
      Text.encodeChars
            (Text.numeral 6
              (Block.ofBytes
                (h.front ++ Bytes.zeros 8 ++
                  h.back)).checksum) ++
          [0, 0x20] =
        h.checksumField := by
    rw [hSum, Text.numeral_eq h.sum_lt]
    rfl
  have hZeros :
      (Bytes.zeros 8).length = h.checksumField.length := by
    rw [Bytes.length_zeros, length_checksumField]
  have hLast :=
    Bytes.copyOver?_between h.back h.length_front hZeros
  rw [length_checksumField, ← toBlock_bytes] at hLast
  unfold inscribe?
  rw [writeAll?_strokes, Option.bind_some]
  dsimp only
  rw [hField]
  exact hLast

/- Every field is found again where it was put. -/
theorem field_stroke
    {s : Stroke}
    (hMem : s ∈ h.frontStrokes ++ h.backStrokes) :
    h.toBlock.field s.start s.width = s.field := by
  have hBytes :
      h.toBlock.bytes =
        [] ++ (h.frontStrokes.flatMap Stroke.field ++
          (h.checksumField ++ h.back)) := by
    rw [toBlock_bytes, flatMap_frontStrokes,
      List.append_assoc, List.nil_append]
  have hAgain :
      h.toBlock.bytes =
        (h.front ++ h.checksumField) ++
          (h.backStrokes.flatMap Stroke.field ++
            Bytes.zeros 12) := by
    rw [flatMap_backStrokes, toBlock_bytes]
  unfold Block.field
  rcases List.mem_append.mp hMem with hFront | hBack
  · rw [hBytes]
    exact Stroke.slice_stroke hFront h.adjoin_frontStrokes
  · rw [hAgain]
    apply Stroke.slice_stroke hBack
    rw [List.length_append, length_front,
      length_checksumField]
    exact h.adjoin_backStrokes

end Header

------------------------------------------------------------
-- Reading Fields
------------------------------------------------------------

namespace Field

/-
  A text that a field keeps as it is: it fits the field, has
  no zero character, and neither begins nor ends with a blank.
-/
structure Keeps (width : Nat) (s : String) : Prop where
  fits : (Text.encode s).length ≤ width
  clear : '\x00' ∉ s.toList
  first :
    ∀ c, s.toList.head? = some c → Text.isBlank c = false
  last :
    ∀ c, s.toList.getLast? = some c → Text.isBlank c = false

theorem Keeps.text_eq
    {width : Nat}
    {s : String}
    (hKeeps : Keeps width s) :
    text (ofText width s) = s :=
  text_ofText hKeeps.fits hKeeps.clear
    (Text.trimChars_eq_self hKeeps.first hKeeps.last)

/-
  A number of 32 bits is read back from eight bytes.  If it
  is too large for a numeral, its first byte is zero and only
  marks it.
-/
theorem number_short (n : UInt32) :
    (number (Header.short 8 n)).toUInt32 = n := by
  have hWord : n.toUInt64.toNat < 2 ^ 32 := n.toNat_lt
  have hRead :
      number (ofNumber 8 n.toUInt64) = n.toUInt64 := by
    by_cases hFits : n.toUInt64.toNat < 8 ^ 7
    · have hField :
          ofNumber 8 n.toUInt64 =
            octal 7 n.toUInt64.toNat ++ 0 :: [] := by
        refine (if_pos hFits).trans ?_
        rw [Bytes.fit_of_le (by simp), length_octal]
        rfl
      rw [hField, number_octal hFits (by omega),
        UInt64.ofNat_toNat]
    · have hField :
          ofNumber 8 n.toUInt64 =
            0x80 :: Bytes.bigEndian 7 n.toUInt64.toNat := by
        refine (if_neg hFits).trans ?_
        unfold binary
        dsimp only
        rw [Nat.min_self, Nat.sub_self,
          Bytes.bigEndian_succ_of_lt (by omega)]
        rfl
      have hValue :
          Bytes.ofBigEndian
              (((0x80 : UInt8) &&& 0x7F) ::
                Bytes.bigEndian 7 n.toUInt64.toNat) =
            n.toUInt64.toNat := by
        change Bytes.ofBigEndian
          (Bytes.zeros 1 ++
            Bytes.bigEndian 7 n.toUInt64.toNat) = _
        rw [Bytes.ofBigEndian_zeros,
          Bytes.ofBigEndian_bigEndian]
        exact Nat.mod_eq_of_lt (by omega)
      rw [hField]
      unfold number
      dsimp only
      rw [if_pos (by decide), hValue, UInt64.ofNat_toNat]
  unfold Header.short
  rw [hRead]
  exact UInt32.toUInt32_toUInt64 n

end Field

namespace Header

variable (h : Header)

/- What was written at a place is read there. -/
theorem short_toBlock
    (start : Nat)
    (n : UInt32)
    (hMem :
      ⟨start, 8, .number n.toUInt64⟩ ∈
        h.frontStrokes ++ h.backStrokes) :
    (Field.number (h.toBlock.field start 8)).toUInt32 = n := by
  rw [h.field_stroke hMem]
  exact Field.number_short n

theorem long_toBlock
    (start : Nat)
    (n : UInt64)
    (hMem :
      ⟨start, 12, .number n⟩ ∈
        h.frontStrokes ++ h.backStrokes) :
    Field.number (h.toBlock.field start 12) = n := by
  rw [h.field_stroke hMem]
  exact Field.number_ofNumber (by decide : 8 < 12) n

theorem text_toBlock
    (start width : Nat)
    {s : String}
    (hMem :
      ⟨start, width, .text s⟩ ∈
        h.frontStrokes ++ h.backStrokes)
    (hKeeps : Field.Keeps width s) :
    Field.text (h.toBlock.field start width) = s := by
  rw [h.field_stroke hMem]
  exact hKeeps.text_eq

/-
  The block has the magic word exactly if the header has it.
  The field of the word is a byte longer than the word.
-/
theorem hasMagic_toBlock_iff :
    h.toBlock.hasMagic = true ↔
      Ustar.magic <+: Text.encode h.magic := by
  have hField :
      h.toBlock.field 257 6 = Field.ofText 6 h.magic :=
    @field_stroke h ⟨257, 6, .text h.magic⟩
      (by simp [backStrokes])
  have hWord :
      h.toBlock.field magicStart Ustar.magic.length =
        (Field.ofText 6 h.magic).take 5 := by
    rw [← hField]
    unfold Block.field Bytes.slice
    rw [List.take_take]
    rfl
  unfold Block.hasMagic
  rw [beq_iff_eq, hWord]
  unfold Field.ofText
  generalize Text.encode h.magic = xs
  constructor
  · intro hSame
    by_cases hLong : 5 ≤ xs.length
    · rw [← hSame]
      unfold Bytes.fit
      rw [List.take_append_of_le_length
        (by rw [List.length_take]; omega), List.take_take]
      exact List.take_prefix _ _
    · -- A shorter text is followed by a zero.
      have hZero : (0 : UInt8) ∈ Ustar.magic := by
        rw [← hSame, Bytes.fit_of_le (by omega),
          List.take_append, List.take_of_length_le (by omega)]
        unfold Bytes.zeros
        rw [List.take_replicate, List.mem_append,
          List.mem_replicate]
        exact .inr ⟨by omega, rfl⟩
      exact absurd hZero (by decide)
  · rintro ⟨rest, rfl⟩
    unfold Bytes.fit
    rw [List.take_append_of_le_length (by
      simp [Ustar.magic]), List.take_take]
    exact List.take_left' rfl

/-
  What is read from a block is what a header says, as far as
  fields can hold it.  The name and the folder stand as they
  are unless a long name has to be split.
-/
structure ReadsBack (block : Block) : Prop where
  checksum : block.checksumMatches = true
  magicWord :
    block.hasMagic = true ↔
      Ustar.magic <+: Text.encode h.magic
  mode : block.header.mode = h.mode
  uid : block.header.uid = h.uid
  gid : block.header.gid = h.gid
  size : block.header.size = h.size
  mtime : block.header.mtime = h.mtime
  typeflag : block.header.typeflag = h.typeflag
  devmajor : block.header.devmajor = h.devmajor
  devminor : block.header.devminor = h.devminor
  linkname :
    Field.Keeps 100 h.linkname →
      block.header.linkname = h.linkname
  magic :
    Field.Keeps 6 h.magic → block.header.magic = h.magic
  version :
    Field.Keeps 2 h.version →
      block.header.version = h.version
  uname :
    Field.Keeps 32 h.uname → block.header.uname = h.uname
  gname :
    Field.Keeps 32 h.gname → block.header.gname = h.gname
  name :
    h.folder ≠ "" ∨ (Text.encode h.name).length ≤ 100 →
      Field.Keeps 100 h.name → block.header.name = h.name
  folder :
    h.folder ≠ "" ∨ (Text.encode h.name).length ≤ 100 →
      Field.Keeps 155 h.folder →
        block.header.folder = h.folder

/- Such a name and such a folder are written as they are. -/
theorem place_of_whole
    (hWhole :
      h.folder ≠ "" ∨ (Text.encode h.name).length ≤ 100) :
    h.place = (h.folder, h.name) := by
  by_cases hFolder : h.folder = ""
  · rcases hWhole with hSome | hShort
    · exact (hSome hFolder).elim
    · rw [h.place_of_short hFolder hShort, hFolder]
  · unfold place
    rw [if_neg (by simpa using hFolder)]

/- The name and the folder that are written are read back. -/
theorem name_placed
    (hKeeps : Field.Keeps 100 h.place.2) :
    h.toBlock.header.name = h.place.2 := by
  simp only [Block.header, ofBlock]
  exact h.text_toBlock 0 100 (by simp [frontStrokes]) hKeeps

theorem folder_placed
    (hKeeps : Field.Keeps 155 h.place.1) :
    h.toBlock.header.folder = h.place.1 := by
  simp only [Block.header, ofBlock]
  exact h.text_toBlock 345 155 (by simp [backStrokes]) hKeeps

/-
  Writing a header never fails, and everything that its
  fields can hold is read back, whatever the others hold.
-/
theorem inscribed_reads_back :
    h.inscribe? = some h.toBlock.bytes ∧
      h.ReadsBack h.toBlock := by
  refine ⟨h.inscribe?_eq, ?_⟩
  constructor
  case checksum => exact h.checksumMatches_toBlock
  case magicWord => exact h.hasMagic_toBlock_iff
  case mode =>
    simp only [Block.header, ofBlock]
    exact h.short_toBlock 100 _ (by simp [frontStrokes])
  case uid =>
    simp only [Block.header, ofBlock]
    exact h.short_toBlock 108 _ (by simp [frontStrokes])
  case gid =>
    simp only [Block.header, ofBlock]
    exact h.short_toBlock 116 _ (by simp [frontStrokes])
  case size => exact h.size_toBlock
  case mtime =>
    simp only [Block.header, ofBlock]
    exact h.long_toBlock 136 _ (by simp [frontStrokes])
  case typeflag => exact h.typeflag_toBlock
  case devmajor =>
    simp only [Block.header, ofBlock]
    exact h.short_toBlock 329 _ (by simp [backStrokes])
  case devminor =>
    simp only [Block.header, ofBlock]
    exact h.short_toBlock 337 _ (by simp [backStrokes])
  case linkname =>
    simp only [Block.header, ofBlock]
    exact h.text_toBlock 157 100 (by simp [backStrokes])
  case magic =>
    simp only [Block.header, ofBlock]
    exact h.text_toBlock 257 6 (by simp [backStrokes])
  case version =>
    simp only [Block.header, ofBlock]
    exact h.text_toBlock 263 2 (by simp [backStrokes])
  case uname =>
    simp only [Block.header, ofBlock]
    exact h.text_toBlock 265 32 (by simp [backStrokes])
  case gname =>
    simp only [Block.header, ofBlock]
    exact h.text_toBlock 297 32 (by simp [backStrokes])
  case name =>
    intro hWhole
    have hPlaced := h.name_placed
    rw [h.place_of_whole hWhole] at hPlaced
    exact hPlaced
  case folder =>
    intro hWhole
    have hPlaced := h.folder_placed
    rw [h.place_of_whole hWhole] at hPlaced
    exact hPlaced

end Header

end Ustar

end ArchiveRescue
