import Mathlib
import ArchiveRescue.Proofs.Bytes
import ArchiveRescue.Proofs.Salvage

/-
  Members that were written here.  Their payload is a series
  of stored blocks, each of which appends its bytes to what
  was inflated before, and their footer agrees with the data.
  So decoding inverts encoding.

  Key definitions include:
    * `Codec.Inverts`

  Main statements:
    * `Deflate.blocks_storedBlock`
    * `Deflate.inflate_deflate`
    * `Gzip.gunzip_gzip`
    * `Codec.inverts_standard`
    * `Codec.Inverts.produced_eq`
-/

namespace ArchiveRescue

namespace Deflate

open Bytes

------------------------------------------------------------
-- Stored Blocks
------------------------------------------------------------

/- The bytes of a stored block behind its first one. -/
theorem stored_eq
    (out : Array UInt8)
    (head : UInt8)
    {data : Bytes}
    (more : Bytes)
    (hFits : data.length ≤ storedSize) :
    stored out
        ⟨head :: (littleEndian 2 data.length ++
            (littleEndian 2 (storedSize - data.length) ++
              (data ++ more))), 3⟩ =
      (out ++ data.toArray, .ok ⟨more, 0⟩) := by
  have hSize : storedSize = 65535 := rfl
  have hSmall : ∀ n, n ≤ storedSize →
      ofLittleEndian (littleEndian 2 n) = n := by
    intro n hn
    rw [ofLittleEndian_littleEndian]
    exact Nat.mod_eq_of_lt (by omega)
  have hTwo : ∀ n,
      littleEndian 2 n =
        [UInt8.ofNat (n % 256),
          UInt8.ofNat (n / 256 % 256)] :=
    fun _ => rfl
  have hLength := hSmall data.length hFits
  have hInverse :=
    hSmall (storedSize - data.length) (Nat.sub_le _ _)
  rw [hTwo] at hLength hInverse
  have hBoth :
      ¬ (data.length + (storedSize - data.length) ≠ 0xFFFF) :=
    by omega
  have hAligned : ∀ rest : Bytes,
      (Bits.mk (head :: rest) 3).aligned = rest :=
    fun _ => rfl
  rw [hTwo, hTwo]
  unfold stored
  rw [hAligned]
  dsimp only [List.cons_append, List.nil_append]
  rw [hLength, hInverse, if_neg hBoth, List.take_left,
    List.drop_left, if_neg (by rw [List.length_append]; omega)]

/- The bits in front of a stored block. -/
theorem number_head
    (final : Bool)
    (rest : Bytes) :
    number 3 ⟨(if final then 1 else 0) :: rest, 0⟩ =
      .ok (final.toNat,
        ⟨(if final then 1 else 0) :: rest, 3⟩) := by
  unfold number
  cases final with
  | true => simp [Bits.read?, Bits.next?, Nat.testBit]
  | false => simp [Bits.read?, Bits.next?]

/-
  A stored block appends its bytes.  If it is not the final
  one, the blocks behind it are inflated.
-/
theorem blocks_storedBlock
    (fuel : Nat)
    (out : Array UInt8)
    (final : Bool)
    {data : Bytes}
    (more : Bytes)
    (hFits : data.length ≤ storedSize) :
    blocks (fuel + 1) out ⟨storedBlock final data ++ more, 0⟩ =
      if final then (out ++ data.toArray, .ok ⟨more, 0⟩)
      else blocks fuel (out ++ data.toArray) ⟨more, 0⟩ := by
  have hBytes :
      storedBlock final data ++ more =
        (if final then 1 else 0) ::
          (littleEndian 2 data.length ++
            (littleEndian 2 (storedSize - data.length) ++
              (data ++ more))) := by
    unfold storedBlock
    simp only [List.append_assoc, List.cons_append,
      List.nil_append]
  have hStored := stored_eq out (if final then 1 else 0) more
    hFits
  rw [hBytes]
  conv => left; unfold blocks
  rw [number_head]
  cases final with
  | true =>
      dsimp only [content, Bool.toNat, cond, Nat.reduceDiv]
      rw [hStored]
      rfl
  | false =>
      dsimp only [content, Bool.toNat, cond, Nat.reduceDiv]
      rw [hStored]
      rfl

/-
  A series of stored blocks is inflated to its data.  The
  induction is on the blocks in front of the last.
-/
theorem blocks_deflateUpTo
    (count : Nat)
    {fuel : Nat}
    (out : Array UInt8)
    {data : Bytes}
    (more : Bytes)
    (hFits : data.length ≤ (count + 1) * storedSize)
    (hFuel : count < fuel) :
    blocks fuel out ⟨deflateUpTo count data ++ more, 0⟩ =
      (out ++ data.toArray, .ok ⟨more, 0⟩) := by
  induction count generalizing fuel out data with
  | zero =>
      cases fuel with
      | zero => omega
      | succ fuel =>
          unfold deflateUpTo
          rw [blocks_storedBlock fuel out true more (by omega)]
          rfl
  | succ count ih =>
      cases fuel with
      | zero => omega
      | succ fuel =>
          unfold deflateUpTo
          split
          next hLast =>
            rw [blocks_storedBlock fuel out true more hLast]
            rfl
          next hMore =>
            have hFirst :
                (data.take storedSize).length ≤ storedSize :=
              List.length_take_le _ _
            have hRest :
                (data.drop storedSize).length ≤
                  (count + 1) * storedSize := by
              rw [List.length_drop]
              rw [Nat.succ_mul] at hFits
              omega
            have hWhole :
                (data.take storedSize).toArray ++
                    (data.drop storedSize).toArray =
                  data.toArray := by
              simp
            rw [List.append_assoc,
              blocks_storedBlock fuel out false _ hFirst,
              if_neg Bool.false_ne_true, ih _ hRest (by omega),
              Array.append_assoc, hWhole]

/- The blocks are no shorter than their data. -/
theorem le_length_deflateUpTo
    (count : Nat)
    (data : Bytes) :
    data.length ≤ (deflateUpTo count data).length := by
  have hBlock : ∀ final (part : Bytes),
      part.length ≤ (storedBlock final part).length := by
    intro final part
    unfold storedBlock
    rw [List.length_append]
    omega
  induction count generalizing data with
  | zero => exact hBlock true data
  | succ count ih =>
      unfold deflateUpTo
      split
      · exact hBlock true data
      · have hFirst := hBlock false (data.take storedSize)
        have hRest := ih (data.drop storedSize)
        rw [List.length_take] at hFirst
        rw [List.length_drop] at hRest
        rw [List.length_append]
        omega

/- Inflating inverts this, and stops behind the payload. -/
theorem inflate_deflate (data more : Bytes) :
    inflate (deflate data ++ more) =
      ⟨data, .complete more⟩ := by
  have hSize : 0 < storedSize := by decide
  have hFits :
      data.length ≤
        (data.length / storedSize + 1) * storedSize := by
    have hDiv := Nat.div_add_mod data.length storedSize
    have hMod := Nat.mod_lt data.length hSize
    rw [Nat.succ_mul, Nat.mul_comm]
    omega
  have hFuel :
      data.length / storedSize <
        8 * (deflate data ++ more).length + 1 := by
    have hLength :=
      le_length_deflateUpTo (data.length / storedSize) data
    have hLess := Nat.div_le_self data.length storedSize
    rw [List.length_append]
    unfold deflate
    omega
  unfold inflate
  rw [deflate] at hFuel ⊢
  rw [blocks_deflateUpTo _ #[] more hFits hFuel]
  simp [Bits.aligned]

end Deflate

------------------------------------------------------------
-- Members
------------------------------------------------------------

namespace Gzip

open Bytes

/- The header that is written announces nothing. -/
theorem afterHeader_gzip
    (mode : Mode)
    (behind : Bytes) :
    afterHeader mode (plainHeader ++ behind) = .ok behind := by
  have hPlain : IsPlainHeader plainHeader := by decide
  have hAccepted :
      acceptable mode (plainHeader ++ behind) = true := by
    simp [acceptable, plainHeader]
  exact afterHeader_accepted hPlain hAccepted

/- The footer that is written agrees with the data. -/
theorem judge_gzip (data : Bytes) :
    judge data
        (littleEndian 4 (checksum data).toNat ++
          littleEndian 4 data.length) =
      .complete := by
  have hFirst :=
    length_littleEndian 4 (checksum data).toNat
  have hSecond := length_littleEndian 4 data.length
  have hSum := (checksum data).toNat_lt
  unfold judge slice
  rw [if_neg (by rw [List.length_append]; omega),
    List.take_left' hFirst, List.drop_left' hFirst,
    List.take_of_length_le (Nat.le_of_eq hSecond),
    ofLittleEndian_littleEndian, ofLittleEndian_littleEndian,
    Nat.pow_succ]
  rw [Nat.mod_eq_of_lt (by omega), if_neg (by omega),
    if_neg (by omega)]

/- A member that was written is decoded to its data. -/
theorem gunzip_gzip
    (mode : Mode)
    (data : Bytes) :
    gunzip mode (gzip data) = ⟨data, .complete⟩ := by
  unfold gunzip gzip
  simp only [List.append_assoc]
  rw [afterHeader_gzip]
  dsimp only
  rw [Deflate.inflate_deflate]
  dsimp only
  rw [judge_gzip]

/- It is long enough for a framing, and signed. -/
theorem gzip_signed (data : Bytes) :
    framingLength ≤ (gzip data).length ∧
      (gzip data).take 2 = signature := by
  constructor
  · have hTen : plainHeader.length = 10 := rfl
    have hFraming : framingLength = 18 := rfl
    unfold gzip
    simp only [List.length_append, length_littleEndian]
    omega
  · rfl

end Gzip

namespace Codec

open Decompression

/-
  What an encoder makes of data is a member with a signature
  and room for a framing, and decoding gives the data back:
  decoding the member, and decoding the payload in it.
-/
structure Inverts
    (codec : Codec)
    (encode : Bytes → Bytes) : Prop where
  long :
    ∀ data, Gzip.framingLength ≤ (encode data).length
  signed :
    ∀ data, (encode data).take 2 = Gzip.signature
  gunzip :
    ∀ data, codec.gunzip (encode data) = ⟨data, .complete⟩
  inflate :
    ∀ data,
      codec.inflate (payload (encode data)) =
        ⟨data, .complete⟩

/- The decoders of this library invert its encoder. -/
theorem inverts_standard (mode : Mode) :
    (standard mode).Inverts Gzip.gzip where
  long data := (Gzip.gzip_signed data).1
  signed data := (Gzip.gzip_signed data).2
  gunzip := Gzip.gunzip_gzip mode
  inflate data := by
    have hPayload :
        payload (Gzip.gzip data) = Deflate.deflate data := by
      unfold Gzip.gzip
      rw [List.append_assoc, List.append_assoc,
        payload_eq _ rfl
          (by simp [Bytes.length_littleEndian]; decide)]
      simp [Bytes.length_littleEndian, Gzip.footerLength]
    have hInflate := Deflate.inflate_deflate data []
    rw [List.append_nil] at hInflate
    rw [hPayload]
    change Gzip.inflate (Deflate.deflate data) = _
    unfold Gzip.inflate
    rw [hInflate]

/- Every algorithm makes the data of what was encoded. -/
theorem Inverts.produced_eq
    {codec : Codec}
    {encode : Bytes → Bytes}
    (hInverts : codec.Inverts encode)
    {data : Bytes}
    (hSome : data ≠ [])
    (algorithm : Algorithm) :
    produced codec (encode data) algorithm = .ok data ∧
      most codec (encode data) ≤ data.length := by
  have hMade : ∀ origin,
      made codec origin ⟨data, .complete⟩ = .ok data :=
    fun _ => if_neg hSome
  refine ⟨?_, ?_⟩
  · cases algorithm with
    | direct =>
        unfold produced
        rw [hInverts.gunzip, hMade]
    | withoutCrc =>
        unfold produced
        rw [hInverts.inflate, hMade]
    | withRetry =>
        unfold produced
        rw [hInverts.gunzip, hMade]
  · unfold most
    rw [hInverts.gunzip, hInverts.inflate, Nat.max_self]

end Codec

end ArchiveRescue
