import Mathlib
import ArchiveRescue.Decompression

/-
  Payloads with more bytes behind them.  A payload that is
  inflated completely is inflated to the same data whatever
  follows, since decoding never looks beyond the final block.
  So the decoders of this library keep what is expected of
  decoders.

  Key definitions include:
    * `Bits.followed`
    * `Deflate.Local`
    * `Gzip.IsPlainHeader`
    * `Codec.IsFaithful`

  Main statements:
    * `Deflate.local_codes`
    * `Deflate.symbols_followed`
    * `Deflate.blocks_followed`
    * `Deflate.inflate_append`
    * `Codec.isFaithful_standard`
-/

namespace ArchiveRescue

------------------------------------------------------------
-- Bits With More Behind Them
------------------------------------------------------------

namespace Bits

/- The same bits with more bytes behind them. -/
def followed (bits : Bits) (more : Bytes) : Bits :=
  ⟨bits.bytes ++ more, bits.used⟩

/- There are no fewer bits left then. -/
theorem left_le_followed
    (bits : Bits)
    (more : Bytes) :
    bits.left ≤ (bits.followed more).left := by
  unfold left followed
  dsimp only
  rw [List.length_append]
  omega

/- A bit that is there is read. -/
theorem next?_followed
    {bits rest : Bits}
    {bit : Bool}
    (more : Bytes)
    (hNext : bits.next? = some (bit, rest)) :
    (bits.followed more).next? =
      some (bit, rest.followed more) := by
  rcases bits with ⟨bytes, used⟩
  cases bytes with
  | nil => cases hNext
  | cons b bytes =>
      unfold next? followed at *
      dsimp only [List.cons_append] at hNext ⊢
      split at hNext
      next hInside =>
        cases hNext
        rw [if_pos hInside]
        rfl
      next hLast =>
        cases hNext
        rw [if_neg hLast]

/- So is a number of bits that are there. -/
theorem read?_followed
    {count value : Nat}
    {bits rest : Bits}
    (more : Bytes)
    (hRead : read? count bits = some (value, rest)) :
    read? count (bits.followed more) =
      some (value, rest.followed more) := by
  induction count generalizing bits rest value with
  | zero =>
      cases hRead
      rfl
  | succ count ih =>
      unfold read? at hRead ⊢
      cases hNext : bits.next? with
      | none =>
          rw [hNext] at hRead
          cases hRead
      | some first =>
          rcases first with ⟨bit, later⟩
          rw [hNext] at hRead
          rw [next?_followed more hNext]
          dsimp only at hRead ⊢
          cases hHigh : read? count later with
          | none =>
              rw [hHigh] at hRead
              cases hRead
          | some high =>
              rcases high with ⟨high, last⟩
              rw [hHigh] at hRead
              rw [ih hHigh]
              cases hRead
              rfl

/-
  Bytes behind a byte that has been read in part, if there
  are any.
-/
theorem aligned_followed
    {bits : Bits}
    (more : Bytes)
    (hSome : bits.aligned ≠ []) :
    (bits.followed more).aligned = bits.aligned ++ more := by
  rcases bits with ⟨bytes, used⟩
  unfold aligned followed at *
  dsimp only at hSome ⊢
  split
  next => rfl
  next hUsed =>
    rw [if_neg hUsed] at hSome
    cases bytes with
    | nil => exact absurd rfl hSome
    | cons b bytes => rfl

end Bits

namespace Deflate

open Bits

------------------------------------------------------------
-- Readers
------------------------------------------------------------

/- A reader that finds what it reads whatever follows. -/
def Local {α : Type} (reader : Reader α) : Prop :=
  ∀ bits value rest more,
    reader bits = .ok (value, rest) →
      reader (bits.followed more) =
        .ok (value, rest.followed more)

namespace Local

variable {α β : Type}

theorem pure (value : α) :
    Local (Pure.pure value : Reader α) := by
  intro bits value rest more hRead
  cases hRead
  rfl

theorem throw (stop : Stop) :
    Local (throw stop : Reader α) := by
  intro bits value rest more hRead
  cases hRead

/- One reader after another. -/
theorem bind
    {first : Reader α}
    {next : α → Reader β}
    (hFirst : Local first)
    (hNext : ∀ value, Local (next value)) :
    Local (first >>= next) := by
  intro bits value rest more hRead
  change
    (first bits >>= fun read => next read.1 read.2) =
      .ok (value, rest) at hRead
  change
    (first (bits.followed more) >>= fun read =>
      next read.1 read.2) = _
  cases hHere : first bits with
  | error stop =>
      rw [hHere] at hRead
      cases hRead
  | ok here =>
      rcases here with ⟨here, later⟩
      rw [hHere] at hRead
      rw [hFirst bits here later more hHere]
      exact hNext here later value rest more hRead

end Local

theorem local_number (count : Nat) : Local (number count) := by
  intro bits value rest more hRead
  unfold number at hRead ⊢
  cases hSome : bits.read? count with
  | none =>
      rw [hSome] at hRead
      cases hRead
  | some result =>
      rw [hSome] at hRead
      cases hRead
      rw [read?_followed more hSome]

theorem local_amount
    (table : List (Nat × Nat))
    (symbol : Nat) :
    Local (amount table symbol) := by
  unfold amount
  split
  · exact .throw _
  · exact (local_number _).bind fun _ => .pure _

/- The words of a code are read bit by bit. -/
theorem local_symbolFrom
    (table : Array Nat)
    (counts : List Nat)
    (word first index : Nat) :
    Local (Code.symbolFrom table counts word first index) := by
  induction counts generalizing word first index with
  | nil => exact .throw _
  | cons count more ih =>
      unfold Code.symbolFrom
      refine (local_number 1).bind fun bit => ?_
      dsimp only
      split
      · split
        · exact .throw _
        · exact .pure _
      · split
        · exact ih _ _ _
        · exact .throw _

theorem local_symbol (code : Code) : Local code.symbol :=
  local_symbolFrom _ _ _ _ _

theorem local_reference
    (distances : Code)
    (symbol : Nat) :
    Local (reference distances symbol) := by
  unfold reference
  exact (local_amount _ _).bind fun _ =>
    (local_symbol distances).bind fun _ =>
      (local_amount _ _).bind fun _ => .pure _

------------------------------------------------------------
-- Codes of a Block
------------------------------------------------------------

theorem local_shortLengths (count : Nat) :
    Local (shortLengths count) := by
  induction count with
  | zero => exact .pure _
  | succ count ih =>
      exact (local_number 3).bind fun _ =>
        ih.bind fun _ => .pure _

theorem local_lengthRun
    (symbol : Nat)
    (before : Option Nat) :
    Local (lengthRun symbol before) := by
  unfold lengthRun
  split
  · exact .pure _
  · split
    · split
      · exact .throw _
      · exact (local_number 2).bind fun _ => .pure _
    · split
      · exact (local_number 3).bind fun _ => .pure _
      · exact (local_number 7).bind fun _ => .pure _

theorem local_lengthsUpTo
    (code : Code)
    (total fuel : Nat)
    (known : List Nat) :
    Local (lengthsUpTo code total fuel known) := by
  induction fuel generalizing known with
  | zero => exact .throw _
  | succ fuel ih =>
      unfold lengthsUpTo
      split
      · exact .pure _
      · split
        · exact .throw _
        · exact (local_symbol code).bind fun _ =>
            (local_lengthRun _ _).bind fun _ => ih _

theorem local_valid (code? : Option Code) :
    Local (valid code?) := by
  cases code? with
  | none => exact .throw _
  | some code => exact .pure _

/- So the codes that a block describes are read. -/
theorem local_codes : Local codes := by
  unfold codes
  refine (local_number 5).bind fun moreLiterals => ?_
  refine (local_number 5).bind fun moreDistances => ?_
  refine (local_number 4).bind fun moreLengths => ?_
  split
  · exact .throw _
  · exact (local_shortLengths _).bind fun _ =>
      (local_valid _).bind fun _ =>
        (local_lengthsUpTo _ _ _ _).bind fun _ =>
          (local_valid _).bind fun _ =>
            (local_valid _).bind fun _ => .pure _

------------------------------------------------------------
-- Blocks
------------------------------------------------------------

variable {out final : Array UInt8} {bits rest : Bits}

/-
  Symbols are inflated to the same bytes.  There may be more
  fuel, since it was enough before.
-/
theorem symbols_followed
    {literals distances : Code}
    {fuel enough : Nat}
    (more : Bytes)
    (hFuel : fuel ≤ enough)
    (hRun :
      symbols literals distances fuel out bits =
        (final, .ok rest)) :
    symbols literals distances enough out
        (bits.followed more) =
      (final, .ok (rest.followed more)) := by
  induction fuel generalizing out bits enough with
  | zero => cases hRun
  | succ fuel ih =>
      have hSome : enough ≠ 0 := by omega
      rcases Nat.exists_eq_succ_of_ne_zero hSome with
        ⟨enough, rfl⟩
      unfold symbols at hRun ⊢
      cases hSymbol : literals.symbol bits with
      | error stop =>
          rw [hSymbol] at hRun
          cases hRun
      | ok read =>
          rcases read with ⟨symbol, later⟩
          rw [hSymbol] at hRun
          rw [local_symbol literals _ _ _ more hSymbol]
          dsimp only at hRun ⊢
          split at hRun
          next hLiteral =>
            rw [if_pos hLiteral]
            exact ih (by omega) hRun
          next hLiteral =>
            rw [if_neg hLiteral]
            split at hRun
            next hEnd =>
              cases hRun
              rw [if_pos hEnd]
            next hEnd =>
              rw [if_neg hEnd]
              cases hCopy :
                  reference distances symbol later with
              | error stop =>
                  rw [hCopy] at hRun
                  cases hRun
              | ok copy =>
                  rcases copy with ⟨⟨length, distance⟩, last⟩
                  rw [hCopy] at hRun
                  rw [local_reference _ _ _ _ _ more hCopy]
                  exact ih (by omega) hRun

/- A block that is not compressed is copied. -/
theorem stored_followed
    (more : Bytes)
    (hRun : stored out bits = (final, .ok rest)) :
    stored out (bits.followed more) =
      (final, .ok (rest.followed more)) := by
  unfold stored at hRun
  split at hRun
  next a b c d behind hAligned =>
    have hMore :
        (bits.followed more).aligned =
          a :: b :: c :: d :: (behind ++ more) := by
      rw [aligned_followed more (by simp [hAligned]),
        hAligned]
      rfl
    unfold stored
    rw [hMore]
    dsimp only at hRun ⊢
    split at hRun
    next => cases hRun
    next hValid =>
      rw [if_neg hValid]
      split at hRun
      next => cases hRun
      next hWhole =>
        cases hRun
        have hLength :
            Bytes.ofLittleEndian [a, b] ≤ behind.length :=
          Nat.not_lt.mp hWhole
        rw [if_neg (by rw [List.length_append]; omega),
          List.take_append_of_le_length hLength,
          List.drop_append_of_le_length hLength]
        rfl
  next => cases hRun

/- The content of a block is inflated. -/
theorem content_followed
    {type : Nat}
    (more : Bytes)
    (hRun : content type out bits = (final, .ok rest)) :
    content type out (bits.followed more) =
      (final, .ok (rest.followed more)) := by
  unfold content at hRun ⊢
  split
  · exact stored_followed more hRun
  · exact
      symbols_followed more
        (Nat.succ_le_succ (bits.left_le_followed more)) hRun
  · cases hCodes : codes bits with
    | error stop =>
        rw [hCodes] at hRun
        cases hRun
    | ok read =>
        rcases read with ⟨⟨literals, distances⟩, later⟩
        rw [hCodes] at hRun
        rw [local_codes _ _ _ more hCodes]
        exact
          symbols_followed more
            (Nat.succ_le_succ (later.left_le_followed more))
            hRun
  · split at hRun
    all_goals first | contradiction | cases hRun

/- So are the blocks up to the final one. -/
theorem blocks_followed
    {fuel enough : Nat}
    (more : Bytes)
    (hFuel : fuel ≤ enough)
    (hRun : blocks fuel out bits = (final, .ok rest)) :
    blocks enough out (bits.followed more) =
      (final, .ok (rest.followed more)) := by
  induction fuel generalizing out bits enough with
  | zero => cases hRun
  | succ fuel ih =>
      have hSome : enough ≠ 0 := by omega
      rcases Nat.exists_eq_succ_of_ne_zero hSome with
        ⟨enough, rfl⟩
      unfold blocks at hRun ⊢
      cases hHead : number 3 bits with
      | error stop =>
          rw [hHead] at hRun
          cases hRun
      | ok read =>
          rcases read with ⟨head, later⟩
          rw [hHead] at hRun
          rw [local_number 3 _ _ _ more hHead]
          dsimp only at hRun ⊢
          rcases hContent :
              content (head / 2) out later with
            ⟨inflated, outcome⟩
          rw [hContent] at hRun
          cases outcome with
          | error stop => cases hRun
          | ok last =>
              rw [content_followed more hContent]
              dsimp only at hRun ⊢
              split at hRun
              next hFinal =>
                cases hRun
                rw [if_pos hFinal]
              next hFinal =>
                rw [if_neg hFinal]
                exact ih (by omega) hRun

/- A payload that is complete is so whatever follows it. -/
theorem inflate_append
    {payload data rest : Bytes}
    (more : Bytes)
    (hInflate :
      inflate payload = ⟨data, .complete rest⟩) :
    ∃ rest',
      inflate (payload ++ more) =
        ⟨data, .complete rest'⟩ := by
  unfold inflate at hInflate
  split at hInflate
  next out last hRun =>
    cases hInflate
    have hMore :
        blocks (8 * (payload ++ more).length + 1) #[]
            ⟨payload ++ more, 0⟩ =
          (out, .ok (last.followed more)) := by
      refine blocks_followed more ?_ hRun
      rw [List.length_append]
      omega
    refine ⟨(last.followed more).aligned, ?_⟩
    unfold inflate
    rw [hMore]
  next => cases hInflate
  next => cases hInflate

end Deflate

------------------------------------------------------------
-- Decoders
------------------------------------------------------------

namespace Gzip

/-
  A fixed header with the signature that announces no field
  behind it, whatever else it says.
-/
structure IsPlainHeader (header : Bytes) : Prop where
  length : header.length = headerLength
  signed : header.take 2 = signature
  flags : header.getD 3 0 &&& 0x1E = 0

instance (header : Bytes) : Decidable (IsPlainHeader header) :=
  decidable_of_iff
    (header.length = headerLength ∧
      header.take 2 = signature ∧
      header.getD 3 0 &&& 0x1E = 0)
    ⟨fun hAll => ⟨hAll.1, hAll.2.1, hAll.2.2⟩,
      fun hPlain => ⟨hPlain.length, hPlain.signed, hPlain.flags⟩⟩

/- No flag of a field is set if none of them all is. -/
theorem flag_clear
    {flags mask : UInt8}
    (hFlags : flags &&& 0x1E = 0)
    (hMask : 0x1E &&& mask = mask) :
    (flags &&& mask != 0) = false := by
  rw [← hMask, ← UInt8.and_assoc, hFlags, UInt8.zero_and]
  rfl

section PlainHeaders

variable {header : Bytes} {mode : Mode} {behind : Bytes}

/-
  Behind such a header the payload follows at once, if the
  header is accepted.
-/
theorem afterHeader_accepted
    (hPlain : IsPlainHeader header)
    (hAccepted : acceptable mode (header ++ behind) = true) :
    afterHeader mode (header ++ behind) = .ok behind := by
  have hTen : header.length = 10 := hPlain.length
  have hFlags :
      (header ++ behind).getD 3 0 &&& 0x1E = 0 := by
    rw [List.getD_append _ _ _ _ (by omega)]
    exact hPlain.flags
  have hBehind : (header ++ behind).drop 10 = behind :=
    List.drop_left' hTen
  unfold afterHeader
  rw [if_neg (by rw [List.length_append]; omega), hAccepted,
    if_neg (by decide)]
  dsimp only
  rw [flag_clear hFlags (by decide),
    flag_clear hFlags (by decide),
    flag_clear hFlags (by decide),
    flag_clear hFlags (by decide), hBehind]
  rfl

theorem afterHeader_plain
    (mode : Mode)
    (behind : Bytes)
    (hPlain : IsPlainHeader header) :
    afterHeader mode (header ++ behind) =
        .error (.broken .header) ∨
      afterHeader mode (header ++ behind) = .ok behind := by
  cases hAccepted : acceptable mode (header ++ behind) with
  | true => exact .inr (afterHeader_accepted hPlain hAccepted)
  | false =>
      left
      have hTen : header.length = 10 := hPlain.length
      unfold afterHeader
      rw [if_neg (by rw [List.length_append]; omega),
        hAccepted]
      rfl

end PlainHeaders

end Gzip

namespace Codec

/-
  What is expected of decoders.  A payload is inflated up to
  its end, whatever stands behind it.  A member with a plain
  header is rejected for its header, or else its payload is
  delivered, whatever is said about the footer.
-/
structure IsFaithful (codec : Codec) : Prop where
  inflate :
    ∀ payload data more,
      codec.inflate payload = ⟨data, .complete⟩ →
        codec.inflate (payload ++ more) = ⟨data, .complete⟩
  gunzip :
    ∀ header payload data footer,
      Gzip.IsPlainHeader header →
      codec.inflate payload = ⟨data, .complete⟩ →
        (∃ flaw,
          codec.gunzip (header ++ (payload ++ footer)) =
            Gzip.nothing (.broken flaw)) ∨
        ∃ verdict,
          codec.gunzip (header ++ (payload ++ footer)) =
            ⟨data, verdict⟩

/- What is complete for the decoder of payloads is complete. -/
theorem inflate_complete
    {payload data : Bytes}
    (hInflate :
      Gzip.inflate payload = ⟨data, .complete⟩) :
    ∃ rest,
      Deflate.inflate payload = ⟨data, .complete rest⟩ := by
  unfold Gzip.inflate at hInflate
  rcases hPayload : Deflate.inflate payload with
    ⟨bytes, ending⟩
  rw [hPayload] at hInflate
  cases ending with
  | complete rest =>
      cases hInflate
      exact ⟨rest, rfl⟩
  | starved => cases hInflate
  | corrupt => cases hInflate

/- The decoders of this library do what is expected. -/
theorem isFaithful_standard (mode : Mode) :
    (standard mode).IsFaithful where
  inflate payload data more hInflate := by
    rcases inflate_complete hInflate with ⟨rest, hRest⟩
    rcases Deflate.inflate_append more hRest with
      ⟨rest', hMore⟩
    change Gzip.inflate (payload ++ more) = _
    unfold Gzip.inflate
    rw [hMore]
  gunzip header payload data footer hPlain hInflate := by
    rcases inflate_complete hInflate with ⟨rest, hRest⟩
    rcases Deflate.inflate_append footer hRest with
      ⟨rest', hMore⟩
    change
      (∃ flaw, Gzip.gunzip mode _ = _) ∨
        ∃ verdict, Gzip.gunzip mode _ = _
    unfold Gzip.gunzip
    rcases Gzip.afterHeader_plain mode (payload ++ footer)
        hPlain with
      hBroken | hAfter
    · left
      rw [hBroken]
      exact ⟨.header, rfl⟩
    · right
      rw [hAfter]
      dsimp only
      rw [hMore]
      exact ⟨_, rfl⟩

end Codec

end ArchiveRescue
