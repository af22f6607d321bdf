import Mathlib
import ArchiveRescue.Proofs.Bench

/-
  What an algorithm that succeeds has written to a stream:
  all that was delivered, from the start on, over what had
  been there before.

  Key definitions include:
    * `Decompression.Pours`
    * `Decompression.Leaves`

  Main statements:
    * `Decompression.direct_ok`
    * `Decompression.withoutCrc_ok`
    * `Decompression.withRetry_ok`
    * `Decompression.algorithm_ok`
-/

namespace ArchiveRescue

open Stage

------------------------------------------------------------
-- Writing to Streams
------------------------------------------------------------

namespace Bench

variable {b c : Bench} {tape : Tape} {start : Nat}

/- A stream that was reset stands at its start. -/
theorem reset_ok
    (hSink : b.sink = .stream tape start)
    (hReset :
      (onSink Sink.reset).perform b = (.ok (), c)) :
    ∃ told,
      c = { b with sink := .stream told start } ∧
        tape.Moved told start := by
  rcases hSeek : tape.seek (.fromStart start) with
    ⟨reply, told⟩
  have hStage :=
    Sink.perform_reset_stream tape start b.disk
  rw [← hSink, hSeek] at hStage
  rw [perform_onSink hStage] at hReset
  cases reply with
  | error fault => cases hReset
  | ok here =>
      cases hReset
      exact ⟨told, rfl, Tape.moved_seek hSeek⟩

end Bench

namespace Decompression

open Bench

section Streams

variable {codec : Codec} {b c : Bench}
variable {tape : Tape} {start : Nat}

/- What was put without a failure has all been written. -/
theorem put_ok
    {origin : String}
    {delivered : Bytes × Option Fault}
    (hSink : b.sink = .stream tape start)
    (hPut :
      (put codec origin delivered).perform b =
        (.ok (), c)) :
    ∃ told,
      c = { b with sink := .stream told start } ∧
        tape.Wrote told delivered.1 ∧
        tape.Undisturbed told := by
  unfold put at hPut
  split at hPut
  · rcases bind_ok_cases hPut with
      ⟨_, between, hWrite, hFlush⟩
    rcases hAll : tape.writeAll delivered.1 with
      ⟨reply, told⟩
    have hStage :=
      Sink.perform_write_stream tape start b.disk origin
        delivered.1
    rw [← hSink, hAll] at hStage
    rw [perform_onSink hStage] at hWrite
    cases reply with
    | error fault => cases hWrite
    | ok _ =>
        cases hWrite
        have hBoth :=
          (Tape.writeAll_wrote hAll).trans told.wrote_flush
        rw [List.append_nil] at hBoth
        rcases hSafe : told.flush with ⟨reply, safe⟩
        have hLast :=
          Sink.perform_flush_stream told start b.disk origin
        rw [hSafe] at hLast hBoth
        rw [perform_onSink (b := { b with
          sink := .stream told start }) hLast] at hFlush
        cases reply with
        | error fault => cases hFlush
        | ok _ =>
            cases hFlush
            exact
              ⟨safe, rfl, hBoth,
                (Tape.undisturbed_writeAllUpTo hAll).trans
                  (Tape.undisturbed_flush hSafe)⟩
  · rcases bind_ok_cases hPut with ⟨first, between, -, hRest⟩
    rcases bind_ok_cases hRest with ⟨_, _, -, hThrow⟩
    cases hThrow

/- An output that is not empty is counted. -/
theorem ensureNotEmpty_ok
    {origin : String}
    {n : Nat}
    (hSink : b.sink = .stream tape start)
    (hCount :
      (ensureNotEmpty origin).perform b = (.ok n, c)) :
    ∃ told,
      c = { b with sink := .stream told start } ∧
        tape.Wrote told [] ∧
        tape.Undisturbed told ∧
        tape.position < tape.medium.bound ∧
        n = tape.position - start := by
  unfold ensureNotEmpty at hCount
  rcases bind_ok_cases hCount with
    ⟨written, between, hWritten, hRest⟩
  rcases hTell : tape.tell with ⟨reply, told⟩
  have hWrote := tape.wrote_tell
  have hCalm := tape.undisturbed_tell
  have hStage :=
    Sink.perform_written_stream tape start b.disk
  rw [← hSink, hTell] at hStage
  rw [hTell] at hWrote hCalm
  rw [perform_onSink hStage] at hWritten
  cases reply with
  | error fault => cases hWritten
  | ok here =>
      cases hWritten
      rcases Tape.tell_ok hTell with ⟨rfl, hBound⟩
      split at hRest
      · rcases bind_ok_cases hRest with ⟨_, _, -, hThrow⟩
        cases hThrow
      · cases hRest
        exact ⟨told, rfl, hWrote, hCalm, hBound, rfl⟩

/- Logging how a step ended does nothing else. -/
theorem logged_eq
    (origin : String)
    {stage : Stage Bench Nat}
    {outcome : Outcome Nat}
    (hStage : stage.perform b = (outcome, c)) :
    ∃ change,
      (logged origin stage).perform b =
        (outcome, c.telling change) := by
  unfold logged
  rw [perform_observed, hStage]
  cases outcome with
  | ok n =>
      exact
        ⟨(·.debug (origin ++ " wrote " ++ toString n ++
          " byte(s)")), rfl⟩
  | error failure =>
      exact
        ⟨(·.error (origin ++ " failed: " ++ failure.message)),
          rfl⟩

theorem logged_ok
    {origin : String}
    {stage : Stage Bench Nat}
    {n : Nat}
    (hLogged :
      (logged origin stage).perform b = (.ok n, c)) :
    ∃ tried change,
      stage.perform b = (.ok n, tried) ∧
        c = tried.telling change := by
  rcases hStage : stage.perform b with ⟨outcome, tried⟩
  rcases logged_eq origin hStage with
    ⟨change, hTold⟩
  rw [hTold] at hLogged
  cases hLogged
  exact ⟨tried, change, rfl, rfl⟩

/-
  Some output was written to the tape from its position on,
  and counted.
-/
def Pours
    (tape : Tape)
    (start n : Nat)
    (c : Bench) : Prop :=
  ∃ told output,
    c.sink = .stream told start ∧
      tape.Wrote told output ∧
      tape.Undisturbed told ∧
      told.position < told.medium.bound ∧
      n = output.length

/-
  What an algorithm leaves behind that succeeded: the tape
  was moved to the start and written to there.
-/
def Leaves
    (first : Tape)
    (start n : Nat)
    (c : Bench) : Prop :=
  ∃ rewound,
    first.Moved rewound start ∧ Pours rewound start n c

/- A tape at its start need not be moved. -/
theorem Pours.leaves
    {n : Nat}
    (hPours : Pours tape start n c)
    (hStart : tape.position = start) :
    Leaves tape start n c :=
  ⟨tape, ⟨.refl tape, rfl, hStart⟩, hPours⟩

/- What then stands on the tape of a stream begun at zero. -/
theorem Leaves.bytes_eq
    {first told : Tape}
    {n : Nat}
    (hLeaves : Leaves first 0 n c)
    (hSink : c.sink = .stream told 0) :
    told.position = n ∧
      told.position < told.medium.bound ∧
      ∃ output,
        output.length = n ∧
          told.bytes = output ++ first.bytes.drop n := by
  rcases hLeaves with
    ⟨rewound, hMoved, last, output, hLast, hWrote, -, hBound,
      rfl⟩
  rw [hSink] at hLast
  cases hLast
  have hPosition := hWrote.position
  rw [hMoved.position, Nat.zero_add] at hPosition
  refine ⟨hPosition, hBound, output, rfl, ?_⟩
  by_cases hNone : output = []
  · rw [hWrote.nothing hNone, hMoved.bytes, hNone]
    rfl
  · rw [hWrote.something hNone, hMoved.bytes,
      hMoved.position, Bytes.overlay_zero]

/- Both ways end with putting and counting. -/
theorem pours_of_put
    {origin : String}
    {delivered : Bytes × Option Fault}
    {n : Nat}
    (hStart : tape.position = start)
    (hSink : b.sink = .stream tape start)
    (hEnd :
      ((put codec origin delivered) >>= fun _ =>
        ensureNotEmpty origin).perform b = (.ok n, c)) :
    Pours tape start n c := by
  rcases bind_ok_cases hEnd with ⟨_, between, hPut, hCount⟩
  rcases put_ok hSink hPut with
    ⟨written, rfl, hWrote, hCalm⟩
  rcases ensureNotEmpty_ok rfl hCount with
    ⟨told, rfl, hTold, hStill, hBound, hLength⟩
  refine
    ⟨told, delivered.1, rfl, ?_, hCalm.trans hStill, ?_, ?_⟩
  · have hBoth := hWrote.trans hTold
    rwa [List.append_nil] at hBoth
  · rwa [hTold.position, hTold.follows.medium]
  · rw [hLength, hWrote.position, hStart,
      Nat.add_sub_cancel_left]

/- A stream is ready to be written where it stands. -/
theorem sink_begin
    {outcome : Outcome Unit}
    (hSink : b.sink = .stream tape start)
    (hBegin :
      (onSink Sink.begin).perform b = (outcome, c)) :
    c.sink = .stream tape start := by
  have hStage := Sink.perform_begin_stream tape start b.disk
  rw [← hSink] at hStage
  rw [perform_onSink hStage] at hBegin
  cases hBegin
  exact hSink

/- The direct way writes from the position on. -/
theorem direct_ok
    {n : Nat}
    (hSink : b.sink = .stream tape start)
    (hStart : tape.position = start)
    (hDirect : (direct codec).perform b = (.ok n, c)) :
    Pours tape start n c := by
  unfold direct at hDirect
  rcases logged_ok hDirect with ⟨tried, _, hTried, rfl⟩
  rcases bind_ok_cases hTried with
    ⟨opened, first, hOpened, hRest⟩
  rcases bind_ok_cases hRest with ⟨_, second, hBegin, hRest⟩
  rcases bind_ok_cases hRest with
    ⟨⟨data, fault?⟩, third, hDrain, hEnd⟩
  have hFirst := (onSource_eq hOpened).2.trans hSink
  have hThird :=
    (onSource_eq hDrain).2.trans (sink_begin hFirst hBegin)
  have hPours := pours_of_put hStart hThird hEnd
  exact hPours

/- The other way writes from the start on. -/
theorem refill_ok
    {trimmed : Bytes}
    {n : Nat}
    (hSink : b.sink = .stream tape start)
    (hRefill :
      (refill codec trimmed).perform b = (.ok n, c)) :
    Leaves tape start n c := by
  unfold refill debug at hRefill
  rw [perform_modify_bind] at hRefill
  rcases bind_ok_cases hRefill with
    ⟨_, first, hReset, hRest⟩
  rcases reset_ok (b := b.telling _) hSink hReset with
    ⟨rewound, rfl, hMoved⟩
  rcases bind_ok_cases hRest with ⟨_, second, hBegin, hEnd⟩
  exact
    ⟨rewound, hMoved,
      pours_of_put hMoved.position (sink_begin rfl hBegin)
        hEnd⟩

theorem recover_ok
    {data : Bytes}
    {n : Nat}
    (hSink : b.sink = .stream tape start)
    (hRecover :
      (recover codec data).perform b = (.ok n, c)) :
    Leaves tape start n c := by
  unfold recover at hRecover
  rcases bind_ok_cases hRecover with
    ⟨framing, first, hFraming, hRest⟩
  rw [perform_mk] at hFraming
  have hFirst : first.sink = .stream tape start :=
    (congrArg (fun r => r.2.sink) hFraming).symm.trans hSink
  dsimp only at hRest
  split at hRest
  · rcases bind_ok_cases hRest with
      ⟨_, second, hDebug, hRefill⟩
    cases hDebug
    exact refill_ok (b := first.telling _) hFirst hRefill
  · exact refill_ok hFirst hRest

theorem withoutCrc_ok
    {n : Nat}
    (hSink : b.sink = .stream tape start)
    (hWithout : (withoutCrc codec).perform b = (.ok n, c)) :
    Leaves tape start n c := by
  rw [withoutCrc_eq] at hWithout
  rcases logged_ok hWithout with ⟨tried, _, hTried, rfl⟩
  rcases bind_ok_cases hTried with
    ⟨data, first, hRead, hRecover⟩
  have hLeaves :=
    recover_ok ((onSource_eq hRead).2.trans hSink) hRecover
  exact hLeaves

/- Nothing has to be done to read a file again. -/
theorem preserve_file
    {path : Path}
    (hSource : b.source = .file path) :
    (onSource Source.preserve).perform b = (.ok (), b) := by
  have hStage :
      Source.preserve.perform (b.source, b.disk) =
        (.ok (), (b.source, b.disk)) := by
    rw [hSource]
    rfl
  unfold onSource
  rw [perform_focus, hStage]

/-
  With a file as the source a retry is a direct attempt and,
  when that has failed, the other way from what it left.
-/
theorem withRetry_ok
    {path : Path}
    {n : Nat}
    (hSource : b.source = .file path)
    (hSink : b.sink = .stream tape start)
    (hRetry : (withRetry codec).perform b = (.ok n, c)) :
    (direct codec).perform b = (.ok n, c) ∨
      ∃ failure failed left,
        (direct codec).perform b = (.error failure, failed) ∧
          failed.sink = .stream left start ∧
          Leaves left start n c := by
  unfold withRetry at hRetry
  rw [perform_bind_ok (preserve_file hSource)] at hRetry
  rcases hDirect : (direct codec).perform b with
    ⟨outcome, failed⟩
  cases outcome with
  | ok m =>
      rw [perform_tryCatch_ok hDirect] at hRetry
      exact .inl hRetry
  | error failure =>
      right
      have hRuns := keeps_direct runs_upheld codec b
      rw [hDirect] at hRuns
      rcases (hRuns.stream tape start hSink).1 with
        ⟨left, hLeft, -⟩
      refine ⟨failure, failed, left, rfl, hLeft, ?_⟩
      rw [perform_tryCatch_error hDirect,
        perform_modify_bind] at hRetry
      rcases bind_ok_cases hRetry with
        ⟨_, between, hReset, hRest⟩
      rcases reset_ok (b := failed.telling _) hLeft hReset with
        ⟨rewound, rfl, hMoved⟩
      rw [perform_adapt] at hRest
      rcases hWithout :
          (withoutCrc codec).perform
            { failed.telling (·.info
                "retrying without crc validation") with
              sink := .stream rewound start } with
        ⟨outcome, last⟩
      rw [hWithout] at hRest
      cases outcome with
      | error later => cases hRest
      | ok m =>
          cases hRest
          rcases withoutCrc_ok rfl hWithout with
            ⟨again, hAgain, hPours⟩
          exact ⟨again, hMoved.trans hAgain, hPours⟩

/-
  So every algorithm that succeeds has written its output
  over the tape that was given, or over what a direct attempt
  that failed had left.
-/
theorem algorithm_ok
    {which : Algorithm}
    {path : Path}
    {n : Nat}
    (hSource : b.source = .file path)
    (hSink : b.sink = .stream tape start)
    (hStart : tape.position = start)
    (hTried :
      (algorithm codec which).perform b = (.ok n, c)) :
    ∃ left,
      Leaves left start n c ∧
        (left = tape ∧
            (which = .withRetry →
              (direct codec).perform b = (.ok n, c)) ∨
          which = .withRetry ∧
            ∃ failure failed,
              (direct codec).perform b =
                  (.error failure, failed) ∧
                failed.sink = .stream left start) := by
  cases which with
  | direct =>
      exact
        ⟨tape, (direct_ok hSink hStart hTried).leaves hStart,
          .inl ⟨rfl, nofun⟩⟩
  | withoutCrc =>
      exact
        ⟨tape, withoutCrc_ok hSink hTried, .inl ⟨rfl, nofun⟩⟩
  | withRetry =>
      rcases withRetry_ok hSource hSink hTried with
        hDirect |
          ⟨failure, failed, left, hFailed, hLeft, hLeaves⟩
      · exact
          ⟨tape, (direct_ok hSink hStart hDirect).leaves hStart,
            .inl ⟨rfl, fun _ => hDirect⟩⟩
      · exact
          ⟨left, hLeaves,
            .inr ⟨rfl, failure, failed, hFailed, hLeft⟩⟩

end Streams

end Decompression

end ArchiveRescue
