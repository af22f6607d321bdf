import Mathlib
import ArchiveRescue.Proofs.Delivery

/-
  What a decompression to a tape does to the bytes on it.
  However the calls of the tape and the reading of the input
  go, nothing is written in front of the position at which
  the tape was given.  What a success counts are the bytes
  from there on, which are those that were delivered.

  Key definitions include:
    * `Tape.Guards`
    * `Script.Moves`
    * `Decompression.Extends`

  Main statements:
    * `Bench.guards_upheld`
    * `Decompression.run_guards`
    * `Decompression.toTape_extends`
-/

namespace ArchiveRescue

open Stage

/- What stands in front of the bytes written stays. -/
theorem Bytes.prefix_overlay
    (xs : Bytes)
    {start position : Nat}
    (hStart : start ≤ position)
    (ys : Bytes) :
    xs.take start <+: overlay xs position ys := by
  have hFront : xs.take start <+: fit position xs := by
    unfold fit
    exact
      (List.take_prefix_take_left hStart).trans
        (List.prefix_append _ _)
  unfold overlay
  rw [List.append_assoc]
  exact hFront.trans (List.prefix_append _ _)

------------------------------------------------------------
-- Tapes
------------------------------------------------------------

/- A script by which no seek is refused. -/
def Script.Moves (s : Script) : Prop :=
  ∀ history position goal fault,
    s.reply history (.seek position goal) ≠ .refuse fault

namespace Tape

variable {t u v : Tape} {start : Nat}

/-
  No byte in front of the start has been touched, and the
  tape does not stand in front of it.
-/
structure Guards
    (start : Nat)
    (t u : Tape) : Prop where
  behind : start ≤ u.position
  front : t.bytes.take start <+: u.bytes

theorem Guards.trans
    (hFirst : Guards start t u)
    (hSecond : Guards start u v) :
    Guards start t v where
  behind := hSecond.behind
  front := by
    refine List.IsPrefix.trans ?_ hSecond.front
    rw [List.prefix_take_iff]
    exact ⟨hFirst.front, List.length_take_le start t.bytes⟩

/- Writing from behind the start does so. -/
theorem Wrote.guards
    {bs : Bytes}
    (hWrote : t.Wrote u bs)
    (hStart : start ≤ t.position) :
    Guards start t u where
  behind := by
    rw [hWrote.position]
    omega
  front := by
    by_cases hNone : bs = []
    · rw [hWrote.nothing hNone]
      exact List.take_prefix start t.bytes
    · rw [hWrote.something hNone]
      exact Bytes.prefix_overlay t.bytes hStart bs

/- So does moving to the start. -/
theorem Moved.guards
    (hMoved : t.Moved u start) :
    Guards start t u where
  behind := Nat.le_of_eq hMoved.position.symm
  front := by
    rw [hMoved.bytes]
    exact List.take_prefix start t.bytes

/- A seek that fails leaves the tape where it was. -/
theorem seek_failed
    {goal : Seek}
    {fault : Fault}
    (hSeek : t.seek goal = (.error fault, u)) :
    t.Wrote u [] := by
  have hFollows := t.follows_seek goal
  have hTold := t.ask_told (.seek t.position goal)
  rw [hSeek] at hFollows
  unfold seek at hSeek
  rcases hAsk : t.ask (.seek t.position goal) with
    ⟨reply, told⟩
  rw [hAsk] at hSeek hTold
  rcases hTold with ⟨hSource, hPosition, -⟩
  cases reply with
  | refuse other =>
      cases hSeek
      exact .ofNothing hFollows hSource.bytes hPosition
  | proceed most =>
      dsimp only at hSeek
      split at hSeek
      · cases hSeek
      · cases hSeek
        exact .ofNothing hFollows hSource.bytes hPosition

/-
  However writing goes, some bytes have been written one
  after another.
-/
theorem writeAllUpTo_some
    (fuel : Nat)
    (t : Tape)
    (bs : Bytes) :
    ∃ written, t.Wrote (writeAllUpTo fuel t bs).2 written := by
  induction fuel generalizing t bs with
  | zero => exact ⟨[], .refl t⟩
  | succ fuel ih =>
      unfold writeAllUpTo
      by_cases hNone : bs = []
      · rw [if_pos (by simpa using hNone)]
        exact ⟨[], .refl t⟩
      · rw [if_neg (by simpa using hNone)]
        rcases t.write_cases hNone with
          ⟨fault, told, hRefused, hNothing, -⟩ |
            ⟨n, told, hWritten, hSome, -, -⟩
        · rw [hRefused]
          split
          next other hInterrupted =>
            cases hInterrupted
            rcases ih told bs with ⟨written, hLater⟩
            exact ⟨[] ++ written, hNothing.trans hLater⟩
          next hOther =>
            cases hOther
            exact ⟨[], hNothing⟩
          next hOther => cases hOther
        · rw [hWritten]
          rcases ih told (bs.drop n) with ⟨written, hLater⟩
          exact ⟨bs.take n ++ written, hSome.trans hLater⟩

/- The position is told where no seek is refused. -/
theorem tell_of_moves
    (hMoves : t.script.Moves)
    (hBound : t.position < t.medium.bound) :
    ∃ u, t.tell = (.ok t.position, u) := by
  unfold tell seek
  have hTold := t.ask_told (.seek t.position (.fromHere 0))
  rcases hAsk : t.ask (.seek t.position (.fromHere 0)) with
    ⟨reply, told⟩
  rw [hAsk] at hTold
  have hProceeds : ∃ most, reply = .proceed most := by
    unfold ask at hAsk
    cases hReply :
        t.script.reply t.history
          (.seek t.position (.fromHere 0)) with
    | refuse fault => exact absurd hReply (hMoves _ _ _ fault)
    | proceed most =>
        rw [hReply] at hAsk
        cases hAsk
        exact ⟨most, rfl⟩
  rcases hProceeds with ⟨most, rfl⟩
  have hGoal : t.goalOf (.fromHere 0) = t.position :=
    Int.add_zero _
  dsimp only
  rw [hGoal, hTold.1.medium,
    if_pos ⟨Int.natCast_nonneg _, Int.ofNat_lt.mpr hBound⟩,
    Int.toNat_natCast]
  exact ⟨_, rfl⟩

end Tape

------------------------------------------------------------
-- Sinks
------------------------------------------------------------

/- A stream that is not in front of its start is guarded. -/
def Outlet.Guards (o p : Outlet) : Prop :=
  ∀ tape start, o.1 = .stream tape start →
    start ≤ tape.position →
    ∃ told,
      p.1 = .stream told start ∧ tape.Guards start told

/- No use of a sink writes in front of the start. -/
theorem Sink.guards_use
    {α : Type}
    {stage : Stage Outlet α}
    (hUse : Sink.Use stage) :
    Keeps Outlet.Guards stage := by
  rintro ⟨sink, disk⟩ tape start hStream hStart
  cases hStream
  have hReset :
      ∃ told,
        (reset.perform (.stream tape start, disk)).2.1 =
            .stream told start ∧
          tape.Guards start told := by
    rw [perform_reset_stream]
    rcases hSeek : tape.seek (.fromStart start) with
      ⟨reply, told⟩
    cases reply with
    | ok here =>
        exact ⟨told, rfl, (Tape.moved_seek hSeek).guards⟩
    | error fault =>
        exact ⟨told, rfl, (Tape.seek_failed hSeek).guards hStart⟩
  cases hUse with
  | begin =>
      exact ⟨tape, rfl, (Tape.Wrote.refl tape).guards hStart⟩
  | write origin bs =>
      rcases tape.writeAllUpTo_some
          (bs.length + tape.patience) bs with
        ⟨written, hWrote⟩
      exact ⟨_, rfl, hWrote.guards hStart⟩
  | flush origin =>
      exact ⟨_, rfl, tape.wrote_flush.guards hStart⟩
  | written =>
      rw [perform_written_stream]
      exact ⟨_, rfl, tape.wrote_tell.guards hStart⟩
  | reset => exact hReset
  | discard =>
      rw [perform_discard_stream]
      exact hReset

/- So does no algorithm. -/
theorem Bench.guards_upheld :
    Bench.Upheld
      (fun b c =>
        Outlet.Guards (b.sink, b.disk) (c.sink, c.disk)) where
  refl _ tape _ hStream hStart :=
    ⟨tape, hStream, (Tape.Wrote.refl tape).guards hStart⟩
  trans := by
    intro a b c hFirst hSecond tape start hStream hStart
    rcases hFirst tape start hStream hStart with
      ⟨told, hTold, hGuards⟩
    rcases hSecond told start hTold hGuards.behind with
      ⟨last, hLast, hStill⟩
    exact ⟨last, hLast, hGuards.trans hStill⟩
  source := by
    intro α stage _ b tape start hStream hStart
    exact
      ⟨tape, hStream, (Tape.Wrote.refl tape).guards hStart⟩
  sink hUse b := Sink.guards_use hUse (b.sink, b.disk)
  telling _ _ _ _ tape _ hStream hStart :=
    ⟨tape, hStream, (Tape.Wrote.refl tape).guards hStart⟩

namespace Decompression

open Bench

------------------------------------------------------------
-- Whole Runs
------------------------------------------------------------

section Runs

variable {codec : Codec} {options : DecompressionOptions}
variable {source : Source} {tape : Tape} {disk : Disk}

/-
  Whatever becomes of a run, its tape has been guarded, and
  if it succeeds, its output starts where the tape stood.
-/
theorem run_guards
    (codec : Codec)
    (options : DecompressionOptions)
    (operation : String)
    (source : Source)
    (tape : Tape)
    (disk : Disk) :
    ∃ told begun,
      (run codec options operation source (.ofTape tape)
          disk).sink =
          .stream told begun ∧
        tape.bytes.take tape.position <+: told.bytes ∧
        ((run codec options operation source (.ofTape tape)
            disk).report.verdict = .succeeded →
          begun = tape.position) := by
  have hPrepares :=
    prepares_preparation
      (start options operation source (.ofTape tape) disk)
  rcases hReady :
      preparation.perform
        (start options operation source (.ofTape tape)
          disk) with
    ⟨outcome, ready⟩
  rw [hReady] at hPrepares
  cases outcome with
  | error failure =>
      rcases hPrepares.outlet.stream tape 0 rfl with
        ⟨-, told, from', hTold, hWrote⟩
      have hFails :=
        verdict_settle options hPrepares.verdict failure
      rw [run_of_attempt
        (attempt_of_unprepared codec options hReady)]
      rw [settle_kept (.inr hPrepares.outputPath)]
        at hFails ⊢
      refine
        ⟨told, from', hTold,
          (hWrote.guards (Nat.le_refl _)).front, ?_⟩
      intro hVerdict
      cases hFails.symm.trans hVerdict
  | ok _ =>
      rcases preparation_stream_ok rfl hReady with
        ⟨told, hTold, hWrote, -⟩
      rcases hTried :
          (algorithm codec options.algorithm).perform
            ready with
        ⟨outcome, tried⟩
      have hGuards :=
        keeps_algorithm guards_upheld codec options.algorithm
          ready
      rw [hTried] at hGuards
      rcases hGuards told tape.position hTold
          (Nat.le_of_eq hWrote.position.symm) with
        ⟨last, hLast, hStill⟩
      have hFront :=
        ((hWrote.guards (Nat.le_refl _)).trans hStill).front
      have hSink :
          (run codec options operation source (.ofTape tape)
              disk).sink =
            tried.sink := by
        cases outcome with
        | ok n => exact (run_of_ok hReady hTried).2.2
        | error failure =>
            rw [(run_of_error hReady hTried).2.2,
              cleaned_stream hReady hTried rfl]
      rw [hSink]
      exact ⟨last, tape.position, hLast, hFront, fun _ => rfl⟩

/-
  What a decompression does to a tape.  The bytes in front of
  its position are the same.  A failure counts no bytes.  A
  success counts those that the decoder of the successful
  algorithm has delivered, of which there are some; they
  stand from the position on, and the tape stands behind.
-/
structure Extends
    (codec : Codec)
    (options : DecompressionOptions)
    (source : Source)
    (tape : Tape)
    (disk : Disk)
    (result : ToTape) : Prop where
  front :
    tape.bytes.take tape.position <+: result.tape.bytes
  failed :
    result.report.success = false → result.bytesWritten = 0
  succeeded :
    result.report.success = true →
      ∃ output,
        Delivered codec options source (.tape tape) disk
            output ∧
          output ≠ [] ∧
          result.bytesWritten = output.length ∧
          Bytes.slice result.tape.bytes tape.position
            result.bytesWritten = output ∧
          result.tape.position =
            tape.position + result.bytesWritten

/-
  This holds for every input, every algorithm, every position
  and content of the tape, and whatever faults reading the
  input, writing and flushing meet, panics among them.
-/
theorem toTape_extends
    (codec : Codec)
    (options : DecompressionOptions)
    (tape : Tape)
    (disk : Disk)
    (hBrought : source.IsBrought)
    (hMoves : tape.script.Moves) :
    Extends codec options source tape disk
      (toTape codec options source tape disk) := by
  rcases run_guards codec options
      (operation codec.mode source "stream") source tape
      disk with
    ⟨told, begun, hSink, hFront, hBegun⟩
  rcases run_stream codec options
      (operation codec.mode source "stream") source tape 0
      disk with
    ⟨-, last, also, hLast, hFollows⟩
  cases hSink.symm.trans hLast
  constructor
  · rwa [toTape_of_sink hSink]
  · intro hFailed
    rw [toTape_eq hSink] at hFailed ⊢
    dsimp only at hFailed ⊢
    rw [hFailed]
    rfl
  · intro hSuccess
    have hVerdict :
        (run codec options
            (operation codec.mode source "stream") source
            (.ofTape tape) disk).report.verdict =
          .succeeded := by
      rw [toTape_eq hSink] at hSuccess
      exact Report.success_iff.mp hSuccess
    rcases run_delivers (.tape tape) hBrought rfl hVerdict
      with
      ⟨n, output, hDelivered, hFinished⟩
    have hStart := hBegun hVerdict
    have hBound := hFinished.within told begun hSink
    have hShows := hFinished.shows
    dsimp only [Target.sink, Target.name] at hShows
    rw [hSink, hStart] at hShows
    cases hShows with
    | stream _ hCarries =>
        have hPosition := hCarries.position
        have hSlice := hCarries.slice_eq
        have hMoves' : told.script.Moves :=
          hFollows.script ▸ hMoves
        rcases Tape.tell_of_moves hMoves' hBound with
          ⟨final, hTell⟩
        have hWrote := told.wrote_tell
        rw [hTell] at hWrote
        have hCount :
            (toTape codec options source tape
                disk).bytesWritten =
              output.length := by
          rw [toTape_eq hSink]
          dsimp only
          rw [if_pos (Report.success_iff.mpr hVerdict)]
          unfold Outlet.counted
          rw [Sink.perform_written_stream, hTell, hPosition,
            hStart]
          exact Nat.add_sub_cancel_left _ _
        have hTape :
            (toTape codec options source tape disk).tape =
              final := by
          rw [toTape_eq hSink]
          dsimp only
          rw [if_pos (Report.success_iff.mpr hVerdict), hTell]
        refine
          ⟨output, hDelivered, hFinished.some, hCount, ?_, ?_⟩
        · rw [hTape, hCount, hWrote.nothing rfl]
          exact hSlice
        · rw [hTape, hCount, hWrote.position]
          exact hPosition

end Runs

/-
  A tape on which the first write panics and every later one
  takes a single byte.
-/
def panickyTape : Tape where
  bytes := [1, 2, 3]
  position := 2
  script :=
    { reply := fun history call =>
        match call with
        | .write .. =>
            if history.any (fun earlier =>
                match earlier with
                | .write .. => true
                | _ => false) then
              .proceed 1
            else .refuse (.panicked "boom")
        | other => .proceed (Script.amount other) }

/- An input of three bytes. -/
def packedTape : Tape where
  bytes := Gzip.gzip [0x41, 0x42, 0x43]

set_option maxRecDepth 100000 in
/- The second attempt writes them where the first began. -/
theorem panickyTape_extended :
    Extends (.standard .blocking) {} (.ofTape packedTape)
        panickyTape {}
        (toTape (.standard .blocking) {} (.ofTape packedTape)
          panickyTape {}) ∧
      (toTape (.standard .blocking) {} (.ofTape packedTape)
        panickyTape {}).report.success = true ∧
      (toTape (.standard .blocking) {} (.ofTape packedTape)
        panickyTape {}).tape.bytes = [1, 2, 0x41, 0x42, 0x43] := by
  have hMoves : panickyTape.script.Moves := by
    intro history position goal fault hRefused
    cases hRefused
  refine
    ⟨toTape_extends _ _ _ _ (.tape List.nil_prefix) hMoves,
      ?_, ?_⟩
  · decide +kernel
  · decide +kernel

end Decompression

end ArchiveRescue
