import Mathlib
import ArchiveRescue.Proofs.StreamOutput

/-
  Whole decompressions, from the algorithm that was tried to
  the result.  A run ends as its algorithm does; what is left
  of the output is what the algorithm left, unless a file is
  given up after a failure.

  Key definitions include:
    * `Outlet.counted`
    * `Decompression.cleaned`

  Main statements:
    * `Decompression.run_of_ok`
    * `Decompression.run_of_error`
    * `Decompression.run_ok_cases`
    * `Decompression.preparation_stream_ok`
    * `Decompression.toTape_eq`
    * `Decompression.toTape_follows`
-/

namespace ArchiveRescue

open Stage

/- A report of a success is one that says so. -/
theorem Report.success_iff {r : Report} :
    r.success = true ↔ r.verdict = .succeeded := by
  unfold success
  cases r.verdict <;> simp

/- How many bytes an output is said to hold. -/
def Outlet.counted (o : Outlet) : Nat :=
  (Sink.written.perform o).1.toOption.getD 0

namespace Decompression

open Bench

------------------------------------------------------------
-- Whole Runs
------------------------------------------------------------

section Runs

variable {codec : Codec} {options : DecompressionOptions}
variable {operation : String} {source : Source}
variable {sink : Sink} {disk : Disk} {ready tried : Bench}

/- The algorithm is reached. -/
theorem attempt_of_prepared
    {b : Bench}
    (hReady : preparation.perform b = (.ok (), ready)) :
    (attempt codec options).perform b =
      (algorithm codec options.algorithm).perform ready := by
  unfold preparation at hReady
  unfold attempt
  rcases bind_ok_cases hReady with
    ⟨_, verified, hVerify, hInspect⟩
  rw [perform_bind_ok hVerify, perform_bind_ok hInspect]

/- Nothing has been decided before a run is settled. -/
theorem undecided_algorithm
    (hReady :
      preparation.perform
          (start options operation source sink disk) =
        (.ok (), ready))
    {outcome : Outcome Nat}
    (hTried :
      (algorithm codec options.algorithm).perform ready =
        (outcome, tried)) :
    tried.report.verdict = .undecided ∧
      tried.report.snapshot.outputPath =
        (start options operation source sink
          disk).report.snapshot.outputPath := by
  have hPrepares :=
    prepares_preparation
      (start options operation source sink disk)
  have hRuns := runs_algorithm codec options.algorithm ready
  rw [hReady] at hPrepares
  rw [hTried] at hRuns
  exact
    ⟨hRuns.verdict.trans hPrepares.verdict,
      hRuns.outputPath.trans hPrepares.outputPath⟩

/- A run succeeds if its algorithm does. -/
theorem run_of_ok
    (hReady :
      preparation.perform
          (start options operation source sink disk) =
        (.ok (), ready))
    {n : Nat}
    (hTried :
      (algorithm codec options.algorithm).perform ready =
        (.ok n, tried)) :
    (run codec options operation source sink
        disk).report.verdict = .succeeded ∧
      (run codec options operation source sink disk).disk =
        tried.disk ∧
      (run codec options operation source sink disk).sink =
        tried.sink := by
  rw [run_of_attempt
    ((attempt_of_prepared hReady).trans hTried)]
  refine ⟨?_, rfl, rfl⟩
  unfold settle Report.succeed
  dsimp only [telling, Report.note, Report.info, Report.log]
  rw [(undecided_algorithm hReady hTried).1]

/- What is left when the output of a run is given up. -/
def cleaned
    (options : DecompressionOptions)
    (b : Bench) : Bench :=
  if !options.keepPartial &&
      b.report.snapshot.outputPath.isSome then
    ((onSink Sink.discard).perform b).2
  else b

/- Settling a failure leaves that. -/
theorem settle_cleaned
    (options : DecompressionOptions)
    (b : Bench)
    (failure : Failure) :
    (settle options (.error failure) b).disk =
        (cleaned options b).disk ∧
      (settle options (.error failure) b).sink =
        (cleaned options b).sink := by
  unfold cleaned
  cases hKeep : options.keepPartial with
  | true =>
      rw [settle_kept (.inl hKeep)]
      exact ⟨rfl, rfl⟩
  | false =>
      cases hPath : b.report.snapshot.outputPath.isSome with
      | true => exact settle_discarded hKeep hPath failure
      | false =>
          rw [settle_kept (.inr (by simpa using hPath))]
          exact ⟨rfl, rfl⟩

/- A run fails as its algorithm does. -/
theorem run_of_error
    (hReady :
      preparation.perform
          (start options operation source sink disk) =
        (.ok (), ready))
    {failure : Failure}
    (hTried :
      (algorithm codec options.algorithm).perform ready =
        (.error failure, tried)) :
    (run codec options operation source sink
        disk).report.verdict = .failed failure ∧
      (run codec options operation source sink disk).disk =
        (cleaned options tried).disk ∧
      (run codec options operation source sink disk).sink =
        (cleaned options tried).sink := by
  have hVerdict := (undecided_algorithm hReady hTried).1
  rw [run_of_attempt
    ((attempt_of_prepared hReady).trans hTried)]
  exact
    ⟨verdict_settle options hVerdict failure,
      settle_cleaned options tried failure⟩

/- The output of a stream is not given up. -/
theorem cleaned_stream
    (hReady :
      preparation.perform
          (start options operation source sink disk) =
        (.ok (), ready))
    {outcome : Outcome Nat}
    (hTried :
      (algorithm codec options.algorithm).perform ready =
        (outcome, tried))
    {tape : Tape}
    {begun : Nat}
    (hSink : sink = .stream tape begun) :
    cleaned options tried = tried := by
  have hPath := (undecided_algorithm hReady hTried).2
  subst hSink
  unfold cleaned
  rw [hPath]
  exact if_neg (by simp [start, Sink.describe, Report.debug,
    Report.log])

/- A run that succeeds has been prepared and tried. -/
theorem run_ok_cases
    (hVerdict :
      (run codec options operation source sink
        disk).report.verdict = .succeeded) :
    ∃ ready n tried,
      preparation.perform
          (start options operation source sink disk) =
        (.ok (), ready) ∧
      (algorithm codec options.algorithm).perform ready =
        (.ok n, tried) := by
  rcases hPrepared :
      preparation.perform
        (start options operation source sink disk) with
    ⟨outcome, ready⟩
  cases outcome with
  | error failure =>
      have hPrepares :=
        prepares_preparation
          (start options operation source sink disk)
      rw [hPrepared] at hPrepares
      have hFailed :=
        verdict_settle options (b := ready)
          hPrepares.verdict failure
      rw [run_of_attempt
        (attempt_of_unprepared codec options hPrepared)]
        at hVerdict
      cases hFailed.symm.trans hVerdict
  | ok _ =>
      rcases hTried :
          (algorithm codec options.algorithm).perform
            ready with
        ⟨outcome, tried⟩
      cases outcome with
      | error failure =>
          have hFailed := (run_of_error hPrepared hTried).1
          cases hFailed.symm.trans hVerdict
      | ok n => exact ⟨ready, n, tried, rfl, hTried⟩

end Runs

------------------------------------------------------------
-- Runs to Streams
------------------------------------------------------------

section Streams

variable {codec : Codec} {b c : Bench}
variable {tape : Tape} {start : Nat}

/- The start of a stream is where its tape stands. -/
theorem verify_stream_ok
    {disk later : Disk}
    {sink : Sink}
    (hVerify :
      Sink.verify.perform (.stream tape start, disk) =
        (.ok (), (sink, later))) :
    ∃ told,
      sink = .stream told tape.position ∧
        tape.Wrote told [] ∧
        tape.Undisturbed told ∧
        tape.position < tape.medium.bound := by
  have hWrote := tape.wrote_tell
  have hCalm := tape.undisturbed_tell
  unfold Sink.verify at hVerify
  rw [perform_get_bind] at hVerify
  dsimp only at hVerify
  rcases hTell : tape.tell with ⟨reply, told⟩
  rw [hTell] at hVerify hWrote hCalm
  cases reply with
  | error fault => cases hVerify
  | ok here =>
      cases hVerify
      rcases Tape.tell_ok hTell with ⟨rfl, hBound⟩
      exact ⟨told, rfl, hWrote, hCalm, hBound⟩

theorem preparation_stream_ok
    (hSink : b.sink = .stream tape start)
    (hReady : preparation.perform b = (.ok (), c)) :
    ∃ told,
      c.sink = .stream told tape.position ∧
        tape.Wrote told [] ∧
        tape.Undisturbed told ∧
        tape.position < tape.medium.bound := by
  rcases preparation_ok_cases hReady with
    ⟨source, disk, later, framing, -, hVerify, -⟩
  rw [hSink] at hVerify
  exact verify_stream_ok hVerify

end Streams

/-
  Whatever becomes of a run with a stream for its output, the
  disk stays as it was, the sink is a stream, and its tape
  has only heard more calls.
-/
theorem run_stream
    (codec : Codec)
    (options : DecompressionOptions)
    (operation : String)
    (source : Source)
    (tape : Tape)
    (begun : Nat)
    (disk : Disk) :
    disk.Ticks
        (run codec options operation source
          (.stream tape begun) disk).disk ∧
      ∃ told start,
        (run codec options operation source
            (.stream tape begun) disk).sink =
          .stream told start ∧ tape.Follows told := by
  have hPrepares :=
    prepares_preparation
      (start options operation source (.stream tape begun)
        disk)
  rcases hReady :
      preparation.perform
        (start options operation source (.stream tape begun)
          disk) with
    ⟨outcome, ready⟩
  rw [hReady] at hPrepares
  rcases hPrepares.outlet.stream tape begun rfl with
    ⟨hTicks, told, from', hTold, hWrote⟩
  cases outcome with
  | error failure =>
      rw [run_of_attempt
        (attempt_of_unprepared codec options hReady),
        settle_kept (.inr hPrepares.outputPath)]
      exact ⟨hTicks, told, from', hTold, hWrote.follows⟩
  | ok _ =>
      have hRuns :=
        runs_algorithm codec options.algorithm ready
      rcases hTried :
          (algorithm codec options.algorithm).perform
            ready with
        ⟨outcome, tried⟩
      rw [hTried] at hRuns
      rcases hRuns.stream told from' hTold with
        ⟨⟨last, hLast, hFollows⟩, hAgain⟩
      have hBoth := hWrote.follows.trans hFollows
      cases outcome with
      | error failure =>
          rcases run_of_error hReady hTried with
            ⟨-, hDisk, hSink⟩
          rw [hDisk, hSink, cleaned_stream hReady hTried rfl]
          exact ⟨hTicks.trans hAgain, last, from', hLast, hBoth⟩
      | ok n =>
          rcases run_of_ok hReady hTried with
            ⟨-, hDisk, hSink⟩
          rw [hDisk, hSink]
          exact ⟨hTicks.trans hAgain, last, from', hLast, hBoth⟩

section ToTape

variable {codec : Codec} {options : DecompressionOptions}
variable {source : Source} {tape told : Tape} {start : Nat}
variable {disk : Disk}

/- A result tells what the run left, and counts it. -/
theorem toTape_eq
    (hSink :
      (run codec options
          (operation codec.mode source "stream") source
          (.ofTape tape) disk).sink =
        .stream told start) :
    toTape codec options source tape disk =
      let b :=
        run codec options
          (operation codec.mode source "stream") source
          (.ofTape tape) disk
      { bytesWritten :=
          if b.report.success then
            Outlet.counted (.stream told start, b.disk)
          else 0
        report := b.report
        tape :=
          if b.report.success then told.tell.2 else told
        disk := b.disk } := by
  unfold toTape Outlet.counted
  generalize
    run codec options (operation codec.mode source "stream")
      source (.ofTape tape) disk = b at hSink ⊢
  have hStage :=
    Sink.perform_written_stream told start b.disk
  have hBench := hStage
  rw [← hSink] at hBench
  dsimp only
  by_cases hSuccess : b.report.success = true
  · rw [if_pos hSuccess, if_pos hSuccess, if_pos hSuccess,
      perform_onSink hBench, hStage]
  · rw [if_neg hSuccess, if_neg hSuccess, if_neg hSuccess,
      hSink]
    rfl

/- The bytes on the tape are those that the run left. -/
theorem toTape_of_sink
    (hSink :
      (run codec options
          (operation codec.mode source "stream") source
          (.ofTape tape) disk).sink =
        .stream told start) :
    (toTape codec options source tape disk).tape.bytes =
      told.bytes := by
  rw [toTape_eq hSink]
  dsimp only
  split
  · exact told.wrote_tell.nothing rfl
  · rfl

/- Whatever becomes of it, the tape has heard more calls. -/
theorem toTape_follows
    (codec : Codec)
    (options : DecompressionOptions)
    (source : Source)
    (tape : Tape)
    (disk : Disk) :
    tape.Follows (toTape codec options source tape disk).tape := by
  rcases run_stream codec options
      (operation codec.mode source "stream") source tape 0
      disk with
    ⟨-, told, start, hSink, hFollows⟩
  rw [toTape_eq hSink]
  dsimp only
  split
  · exact hFollows.trans told.wrote_tell.follows
  · exact hFollows

/- After a success the bytes from the start on are counted. -/
theorem toTape_count
    (hVerdict :
      (run codec options
          (operation codec.mode source "stream") source
          (.ofTape tape) disk).report.verdict =
        .succeeded)
    (hSink :
      (run codec options
          (operation codec.mode source "stream") source
          (.ofTape tape) disk).sink =
        .stream told start)
    (hServes : told.Serves)
    (hBound : told.position < told.medium.bound) :
    (toTape codec options source tape disk).bytesWritten =
      told.position - start := by
  rcases hServes.tell_eq with ⟨last, hTell, -⟩
  rw [if_pos hBound] at hTell
  rw [toTape_eq hSink]
  dsimp only
  rw [if_pos (Report.success_iff.mpr hVerdict)]
  unfold Outlet.counted
  rw [Sink.perform_written_stream, hTell]
  rfl

end ToTape

end Decompression

end ArchiveRescue
