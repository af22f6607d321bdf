import Mathlib
import ArchiveRescue.Decompression

/-
  Members that the decoders of all engines take alike.  The
  engines differ in two points: one refuses headers with
  reserved flags, and names and comments that are long.
  Where neither is met, they agree.

  Key definitions include:
    * `Gzip.textField`
    * `Gzip.IsOrdinary`
    * `Gzip.Delivery.Agrees`
    * `Codec.AgreesOn`

  Main statements:
    * `Gzip.IsOrdinary.of_front`
    * `Gzip.afterHeader_ordinary`
    * `Codec.standard_agrees`
-/

namespace ArchiveRescue

namespace Gzip

------------------------------------------------------------
-- Fields
------------------------------------------------------------

/- The flags of a header. -/
def flagByte (data : Bytes) : UInt8 :=
  data.getD 3 0

/- The text up to the zero byte that ends its field. -/
def textField (input : Bytes) : Bytes :=
  input.takeWhile (· != 0)

/- What stands behind such a field. -/
def behindText (input : Bytes) : Bytes :=
  input.drop ((textField input).length + 1)

/- What stands behind the fixed header and the extra field. -/
def behindExtra (data : Bytes) : Bytes :=
  let rest := data.drop 10
  if flagByte data &&& 0x04 != 0 then
    rest.drop (2 + Bytes.ofLittleEndian (rest.take 2))
  else rest

/- What stands behind the name, too. -/
def behindName (data : Bytes) : Bytes :=
  if flagByte data &&& 0x08 != 0 then
    behindText (behindExtra data)
  else behindExtra data

/-
  No reserved flag is set, and neither the name nor the
  comment has more than 65535 bytes.
-/
structure IsOrdinary (data : Bytes) : Prop where
  reserved : flagByte data &&& 0xE0 = 0
  name :
    (flagByte data &&& 0x08 != 0) = true →
      (textField (behindExtra data)).length ≤ 65535
  comment :
    (flagByte data &&& 0x10 != 0) = true →
      (textField (behindName data)).length ≤ 65535

instance (data : Bytes) : Decidable (IsOrdinary data) :=
  decidable_of_iff
    (flagByte data &&& 0xE0 = 0 ∧
      ((flagByte data &&& 0x08 != 0) = true →
        (textField (behindExtra data)).length ≤ 65535) ∧
      ((flagByte data &&& 0x10 != 0) = true →
        (textField (behindName data)).length ≤ 65535))
    ⟨fun h => ⟨h.1, h.2.1, h.2.2⟩,
      fun h => ⟨h.reserved, h.name, h.comment⟩⟩

------------------------------------------------------------
-- Fronts
------------------------------------------------------------

/- A field may be cut short in the front of its input. -/
theorem textField_append
    (input more : Bytes) :
    textField input <+: textField (input ++ more) := by
  unfold textField
  rw [List.takeWhile_append]
  split
  · exact (List.takeWhile_prefix _).trans
      (List.prefix_append input _)
  · exact List.prefix_refl _

/- What stands behind a number of bytes of the front. -/
theorem drop_front
    (n : Nat)
    (input more : Bytes) :
    input.drop n <+: (input ++ more).drop n := by
  rw [List.drop_append]
  exact List.prefix_append _ _

theorem behindText_append
    (input more : Bytes) :
    behindText input <+: behindText (input ++ more) := by
  unfold behindText
  by_cases hWhole : (textField input).length = input.length
  · rw [hWhole, List.drop_eq_nil_of_le (Nat.le_succ _)]
    exact List.nil_prefix
  · have hSame :
        textField (input ++ more) = textField input := by
      unfold textField at hWhole ⊢
      rw [List.takeWhile_append, if_neg hWhole]
    rw [hSame]
    exact drop_front _ input more

section Fronts

variable {data front : Bytes}

/- Short fronts have no flags, others have the same ones. -/
theorem flagByte_front (hFront : front <+: data) :
    flagByte front = 0 ∨ flagByte front = flagByte data := by
  rcases hFront with ⟨more, rfl⟩
  unfold flagByte
  by_cases hLong : 3 < front.length
  · right
    rw [List.getD_append _ _ _ _ hLong]
  · left
    rw [List.getD_eq_default _ _ (by omega)]

/- With the same flags the parts of a front are fronts. -/
theorem behindExtra_front
    (hFront : front <+: data)
    (hFlags : flagByte front = flagByte data) :
    behindExtra front <+: behindExtra data := by
  rcases hFront with ⟨more, rfl⟩
  unfold behindExtra
  dsimp only
  rw [hFlags, List.drop_append]
  split
  · by_cases hLong : 2 ≤ (front.drop 10).length
    · rw [List.take_append_of_le_length hLong]
      exact drop_front _ _ _
    · rw [List.drop_eq_nil_of_le (by omega)]
      exact List.nil_prefix
  · exact List.prefix_append _ _

theorem behindName_front
    (hFront : front <+: data)
    (hFlags : flagByte front = flagByte data) :
    behindName front <+: behindName data := by
  have hExtra := behindExtra_front hFront hFlags
  unfold behindName
  rw [hFlags]
  split
  · rcases hExtra with ⟨more, hMore⟩
    rw [← hMore]
    exact behindText_append _ more
  · exact hExtra

/- So the front of an ordinary input is ordinary. -/
theorem IsOrdinary.of_front
    (hOrdinary : IsOrdinary data)
    (hFront : front <+: data) :
    IsOrdinary front := by
  have hShorter :
      ∀ {xs ys : Bytes}, xs <+: ys →
        (textField ys).length ≤ 65535 →
        (textField xs).length ≤ 65535 := by
    rintro xs _ ⟨more, rfl⟩ hShort
    exact (textField_append xs more).length_le.trans hShort
  rcases flagByte_front hFront with hNone | hFlags
  · constructor
    · rw [hNone]
      rfl
    · rw [hNone]
      nofun
    · rw [hNone]
      nofun
  · constructor
    · rw [hFlags]
      exact hOrdinary.reserved
    · intro hName
      exact hShorter (behindExtra_front hFront hFlags)
        (hOrdinary.name (hFlags ▸ hName))
    · intro hComment
      exact hShorter (behindName_front hFront hFlags)
        (hOrdinary.comment (hFlags ▸ hComment))

end Fronts

------------------------------------------------------------
-- Headers
------------------------------------------------------------

/- Short texts are passed alike by all. -/
theorem skipText_short
    {input : Bytes}
    (hShort : (textField input).length ≤ 65535)
    (mode : Mode) :
    skipText mode input =
      match input.drop (textField input).length with
      | [] => .error (.cut .headerCut)
      | _ :: rest => .ok rest := by
  unfold skipText
  cases mode with
  | blocking =>
      dsimp only [fieldLimit?]
      rw [if_neg (by simpa [textField] using hShort)]
      rfl
  | nonblocking => rfl

/- A text that was passed stands in front of the rest. -/
theorem skipText_ok
    {mode : Mode}
    {input rest : Bytes}
    (hShort : (textField input).length ≤ 65535)
    (hSkip : skipText mode input = .ok rest) :
    rest = behindText input := by
  rw [skipText_short hShort] at hSkip
  split at hSkip
  · cases hSkip
  next first later hLater =>
    cases hSkip
    unfold behindText
    rw [← List.drop_drop, hLater]
    rfl

/- So does an extra field. -/
theorem skipExtra_ok
    {input rest : Bytes}
    (hSkip : skipExtra input = .ok rest) :
    rest =
      input.drop
        (2 + Bytes.ofLittleEndian (input.take 2)) := by
  unfold skipExtra at hSkip
  split at hSkip
  next a b later =>
    dsimp only at hSkip
    split at hSkip
    · cases hSkip
    · cases hSkip
      rw [← List.drop_drop]
      rfl
  · cases hSkip

section Headers

variable {data rest : Bytes}

theorem behindExtra_ok
    (hSkip :
      skipIf (flagByte data &&& 0x04 != 0) skipExtra
          (data.drop 10) =
        .ok rest) :
    rest = behindExtra data := by
  unfold skipIf at hSkip
  unfold behindExtra
  dsimp only
  split at hSkip
  next hFlag =>
    rw [if_pos hFlag]
    exact skipExtra_ok hSkip
  next hFlag =>
    rw [if_neg hFlag]
    cases hSkip
    rfl

theorem behindName_ok
    {mode : Mode}
    (hShort :
      (flagByte data &&& 0x08 != 0) = true →
        (textField (behindExtra data)).length ≤ 65535)
    (hSkip :
      skipIf (flagByte data &&& 0x08 != 0) (skipText mode)
          (behindExtra data) =
        .ok rest) :
    rest = behindName data := by
  unfold skipIf at hSkip
  unfold behindName
  split at hSkip
  next hFlag =>
    rw [if_pos hFlag]
    exact skipText_ok (hShort hFlag) hSkip
  next hFlag =>
    rw [if_neg hFlag]
    cases hSkip
    rfl

/- A field that is short or absent is passed alike. -/
theorem skipIf_eq
    {announced : Bool}
    (hShort :
      announced = true → (textField rest).length ≤ 65535)
    (mode other : Mode) :
    skipIf announced (skipText mode) rest =
      skipIf announced (skipText other) rest := by
  unfold skipIf
  split
  next hFlag =>
    rw [skipText_short (hShort hFlag),
      skipText_short (hShort hFlag)]
  · rfl

/- Headers without reserved flags are acceptable to all. -/
theorem acceptable_ordinary
    (hReserved : flagByte data &&& 0xE0 = 0)
    (mode other : Mode) :
    acceptable mode data = acceptable other data := by
  have hPlain : (data.getD 3 0 &&& 0xE0 == 0) = true :=
    beq_iff_eq.mpr hReserved
  unfold acceptable
  dsimp only
  rw [hPlain, Bool.or_true, Bool.or_true]

/- So ordinary headers are passed alike. -/
theorem afterHeader_ordinary
    (hOrdinary : IsOrdinary data)
    (mode other : Mode) :
    afterHeader mode data = afterHeader other data := by
  unfold afterHeader
  rw [acceptable_ordinary hOrdinary.reserved mode other]
  split
  · rfl
  split
  · rfl
  dsimp only
  change
    (skipIf (flagByte data &&& 0x04 != 0) skipExtra
        (data.drop 10) >>= _) =
      (skipIf (flagByte data &&& 0x04 != 0) skipExtra
        (data.drop 10) >>= _)
  rcases hExtra :
      skipIf (flagByte data &&& 0x04 != 0) skipExtra
        (data.drop 10) with
    verdict | rest
  · rfl
  cases behindExtra_ok hExtra
  have hName := skipIf_eq hOrdinary.name mode other
  change
    (skipIf (flagByte data &&& 0x08 != 0) (skipText mode)
        (behindExtra data) >>= _) =
      (skipIf (flagByte data &&& 0x08 != 0) (skipText other)
        (behindExtra data) >>= _)
  rw [hName]
  rcases hSkip :
      skipIf (flagByte data &&& 0x08 != 0) (skipText other)
        (behindExtra data) with
    verdict | later
  · rfl
  cases behindName_ok hOrdinary.name hSkip
  have hComment := skipIf_eq hOrdinary.comment mode other
  change
    (skipIf (flagByte data &&& 0x10 != 0) (skipText mode)
        (behindName data) >>= _) =
      (skipIf (flagByte data &&& 0x10 != 0) (skipText other)
        (behindName data) >>= _)
  rw [hComment]

end Headers

------------------------------------------------------------
-- Decoders That Agree
------------------------------------------------------------

/-
  Both deliveries are complete and hold the same, or neither
  of them is complete.
-/
structure Delivery.Agrees (d e : Delivery) : Prop where
  complete : e.verdict = .complete ↔ d.verdict = .complete
  bytes : d.verdict = .complete → e.bytes = d.bytes

theorem Delivery.Agrees.refl (d : Delivery) : d.Agrees d :=
  ⟨Iff.rfl, fun _ => rfl⟩

end Gzip

namespace Codec

/-
  Of this input and of the payload in it the decoders of both
  codecs accept the same, and deliver the same of what they
  accept.
-/
structure AgreesOn
    (codec other : Codec)
    (data : Bytes) : Prop where
  gunzip : (codec.gunzip data).Agrees (other.gunzip data)
  inflate :
    (codec.inflate (Decompression.payload data)).Agrees
      (other.inflate (Decompression.payload data))

/- The decoders of this library do so on ordinary inputs. -/
theorem standard_agrees
    {data : Bytes}
    (hOrdinary : Gzip.IsOrdinary data)
    (mode other : Mode) :
    (standard mode).AgreesOn (standard other) data where
  gunzip := by
    have hSame :
        (standard other).gunzip data =
          (standard mode).gunzip data := by
      dsimp only [standard]
      unfold Gzip.gunzip
      rw [Gzip.afterHeader_ordinary hOrdinary other mode]
    rw [hSame]
    exact .refl _
  inflate := .refl _

end Codec

end ArchiveRescue
