import Mathlib
import ArchiveRescue.Proofs.Inflation
import ArchiveRescue.Proofs.Readiness

/-
  Members whose payload is whole are salvaged by a retry,
  whatever their header says apart from its signature and the
  fields behind it, and whatever stands behind the payload.

  Main statements:
    * `Decompression.payload_eq`
    * `Decompression.delivers_produced`
    * `Decompression.produced_salvaged`
    * `Decompression.withRetry_salvages`
-/

namespace ArchiveRescue

namespace Decompression

open Bench

/-
  Between a fixed header and the last eight bytes there is
  all of a payload, and what else stands behind it.
-/
theorem payload_eq
    {header footer : Bytes}
    (body : Bytes)
    (hHeader : header.length = Gzip.headerLength)
    (hFooter : Gzip.footerLength ≤ footer.length) :
    payload (header ++ (body ++ footer)) =
      body ++ footer.take
        (footer.length - Gzip.footerLength) := by
  have hEight : 8 ≤ footer.length := hFooter
  have hLength :
      (header ++ (body ++ footer)).length - 18 =
        body.length + (footer.length - 8) := by
    simp only [List.length_append, hHeader]
    change 10 + _ - 18 = _
    omega
  change
    ((header ++ (body ++ footer)).drop Gzip.headerLength).take
        ((header ++ (body ++ footer)).length - 18) =
      body ++ footer.take (footer.length - 8)
  rw [List.drop_left' hHeader, hLength,
    List.take_length_add_append]

section Salvage

variable {codec : Codec} {options : DecompressionOptions}
variable {source : Source} {target : Target} {disk : Disk}
variable {header body footer data : Bytes}

/-
  A decompression whose algorithm makes data of its input
  delivers that data, and nothing else, wherever the output
  takes it.
-/
theorem delivers_produced
    {whole : Bytes}
    (hLong : Gzip.framingLength ≤ whole.length)
    (hSigned : whole.take 2 = Gzip.signature)
    (hProduced :
      produced codec whole options.algorithm = .ok data)
    (hMost : most codec whole ≤ data.length)
    (hSome : data ≠ [])
    (hPermits : disk.trouble.Permits)
    (hOpens : source.Opens disk)
    (hOffers : source.Offers disk whole)
    (hTakes : target.Takes source disk data.length) :
    ending codec options source target disk =
        { verdict := .succeeded, output := some data } ∧
      ∀ tape, target = .tape tape →
        (toTape codec options source tape
            disk).bytesWritten = data.length ∧
          (toTape codec options source tape
              disk).tape.bytes =
            Bytes.overlay tape.bytes tape.position data := by
  have hRange :=
    hOffers.inRange (fun hNone => by
      rw [hNone] at hLong
      exact absurd hLong (by decide))
  have hLetBy := inspected_signed hLong hSigned
  rcases prepares_ready codec options hOffers hRange hTakes
      hPermits hOpens with
    ⟨ready, hReady, -, hStart⟩
  rw [hLetBy] at hReady
  rcases hStart hLetBy with ⟨hStart, hFresh⟩
  rcases algorithm_made codec options.algorithm hStart hFresh
      hMost with
    ⟨tried, hTried, hBears⟩
  rw [hProduced] at hTried hBears
  change
    (algorithm codec options.algorithm).perform ready =
      (.ok data.length, tried) at hTried
  change
    Outlet.Bears data.length target.held data
      (tried.sink, tried.disk) at hBears
  refine ⟨?_, ?_⟩
  · rw [ending_of_tried hReady hTried]
    exact
      congrArg (Ending.mk .succeeded)
        (hBears.output (Nat.le_refl _))
  · rintro tape rfl
    rcases preparation_stream_ok rfl hReady with
      ⟨first, hFirst, -⟩
    have hRuns := runs_algorithm codec options.algorithm ready
    rw [hTried] at hRuns
    rcases (hRuns.stream first tape.position hFirst).1 with
      ⟨told, hTold, -⟩
    rcases run_of_ok hReady hTried with ⟨hVerdict, -, hSink⟩
    rw [hTold] at hSink hBears
    rcases hBears.bytes_eq hSome rfl with
      ⟨hServes, hPosition, hRoom, hBytes⟩
    refine ⟨?_, ?_⟩
    · refine
        (toTape_count hVerdict hSink hServes ?_).trans ?_
      · rw [hPosition]
        exact hRoom
      · rw [hPosition, Nat.add_sub_cancel_left]
    · exact (toTape_of_sink hSink).trans hBytes

/-
  If the data is what the payload inflates to, and also what
  decoding the member gets to at the most, a retry makes just
  that of it.
-/
theorem produced_salvaged
    {whole : Bytes}
    (hSome : data ≠ [])
    (hGunzip :
      (∃ flaw,
          codec.gunzip whole =
            Gzip.nothing (.broken flaw)) ∨
        ∃ verdict, codec.gunzip whole = ⟨data, verdict⟩)
    (hInflate :
      codec.inflate (payload whole) = ⟨data, .complete⟩) :
    produced codec whole .withRetry = .ok data ∧
      most codec whole ≤ data.length := by
  have hPlain :
      made codec withoutCrcName ⟨data, .complete⟩ =
        .ok data :=
    if_neg hSome
  have hFits :
      (codec.gunzip whole).bytes.length ≤ data.length := by
    rcases hGunzip with ⟨flaw, hBroken⟩ | ⟨verdict, hDone⟩
    · rw [hBroken]
      exact Nat.zero_le _
    · rw [hDone]
  refine ⟨?_, ?_⟩
  · unfold produced
    dsimp only
    rw [hInflate, hPlain]
    rcases hGunzip with ⟨flaw, hBroken⟩ | ⟨verdict, hDone⟩
    · rw [hBroken]
      rfl
    · rw [hDone]
      cases verdict with
      | complete =>
          have hDirect :
              made codec directName ⟨data, .complete⟩ =
                .ok data :=
            if_neg hSome
          rw [hDirect]
      | cut flaw => rfl
      | broken flaw => rfl
  · unfold most
    rw [hInflate]
    exact Nat.max_le.mpr ⟨hFits, Nat.le_refl _⟩

/-
  A decompression with a retry delivers all of the data of a
  payload that is whole: between a fixed header that has the
  signature and announces no further field, and at least eight
  bytes, which may be anything.  It does so from a file or a
  tape, to a file that is not the input or to a tape, with
  every decoder that does what is expected of it and with
  either kind of engine, as long as nothing is refused.

  A tape is counted to have taken the data and nothing else,
  and it holds the data over what it has held before.
-/
theorem withRetry_salvages
    (hCodec : codec.IsFaithful)
    (hRetry : options.algorithm = .withRetry)
    (hHeader : Gzip.IsPlainHeader header)
    (hInflate : codec.inflate body = ⟨data, .complete⟩)
    (hSome : data ≠ [])
    (hFooter : Gzip.footerLength ≤ footer.length)
    (hPermits : disk.trouble.Permits)
    (hOpens : disk.trouble.Opens)
    (hOffers :
      source.Offers disk (header ++ (body ++ footer)))
    (hTakes : target.Takes source disk data.length) :
    ending codec options source target disk =
        { verdict := .succeeded, output := some data } ∧
      ∀ tape, target = .tape tape →
        (toTape codec options source tape
            disk).bytesWritten = data.length ∧
          (toTape codec options source tape
              disk).tape.bytes =
            Bytes.overlay tape.bytes tape.position data := by
  have hLong :
      Gzip.framingLength ≤
        (header ++ (body ++ footer)).length := by
    have hTen : header.length = 10 := hHeader.length
    have hEight : 8 ≤ footer.length := hFooter
    simp only [List.length_append]
    change 18 ≤ _
    omega
  have hSigned :
      (header ++ (body ++ footer)).take 2 =
        Gzip.signature := by
    have hTen : header.length = 10 := hHeader.length
    rw [List.take_append_of_le_length (by omega)]
    exact hHeader.signed
  have hPayload :
      codec.inflate (payload (header ++ (body ++ footer))) =
        ⟨data, .complete⟩ := by
    rw [payload_eq body hHeader.length hFooter]
    exact hCodec.inflate body data _ hInflate
  rcases produced_salvaged hSome
      (hCodec.gunzip header body data footer hHeader hInflate)
      hPayload with
    ⟨hProduced, hMost⟩
  rw [← hRetry] at hProduced
  exact
    delivers_produced hLong hSigned hProduced hMost hSome
      hPermits (source.opens_of_trouble hOpens) hOffers hTakes

end Salvage

/-
  A member of an unknown method, with flags that are reserved
  and a footer of nine bytes.
-/
def oddMember : Tape where
  bytes :=
    [0xAA] ++
      ([0x1F, 0x8B, 0x07, 0xE1, 1, 2, 3, 4, 5, 6] ++
        ([0x01, 0x02, 0x00, 0xFD, 0xFF, 0x50, 0x51] ++
          [9, 8, 7, 6, 5, 4, 3, 2, 1]))
  position := 1

set_option maxRecDepth 100000 in
/- Its data is salvaged from the position on. -/
theorem oddMember_salvaged :
    ending (.standard .nonblocking) {} (.ofTape oddMember)
        (.file ⟨"/out"⟩) {} =
      { verdict := .succeeded, output := some [0x50, 0x51] } := by
  have hInflate :
      (Codec.standard .nonblocking).inflate
          [0x01, 0x02, 0x00, 0xFD, 0xFF, 0x50, 0x51] =
        ⟨[0x50, 0x51], .complete⟩ := by
    decide +kernel
  have hResolves :
      ((resolveOutput ⟨"/out"⟩).perform {}).1 =
        .ok ⟨"/out"⟩ := by
    decide +kernel
  have hLeads :
      ((resolveOutput ⟨"/out"⟩).perform {}).2.locate
          ⟨"/out"⟩ = .ok ["out"] := by
    decide +kernel
  have hFree :
      ((resolveOutput ⟨"/out"⟩).perform {}).2.holdsDirectory
          ["out"] = false := by
    decide +kernel
  have hSound : oddMember.Sound :=
    ⟨Script.plain_isCalm, List.nil_prefix⟩
  have hShort :
      oddMember.bytes.length < oddMember.medium.bound := by
    decide +kernel
  exact
    (withRetry_salvages (Codec.isFaithful_standard .nonblocking)
      rfl (by decide) hInflate (by decide) (by decide)
      (fun _ _ => rfl)
      (fun _ _ => ⟨.plain, rfl, Script.plain_isCalm⟩)
      (.tape hSound hShort)
      (.file (Prod.ext hResolves rfl)
        ⟨hLeads, hFree, by decide⟩ nofun)).1

end Decompression

end ArchiveRescue
