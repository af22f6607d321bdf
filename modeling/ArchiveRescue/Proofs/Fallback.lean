import Mathlib
import ArchiveRescue.Proofs.Retry
import ArchiveRescue.Proofs.Runs

/-
  A decompression with a retry is the direct one, and if that
  fails, the one without checks.  What the direct attempt has
  done to a file, to a tape or to the position in the input
  is not seen in the result.

  Key definitions include:
    * `Outlet.output`
    * `Decompression.Target`
    * `Decompression.ending`
    * `Decompression.FallsBack`

  Main statements:
    * `Outlet.Alike.output_eq`
    * `Decompression.ending_of_tried`
    * `Decompression.ready_of_prepared`
    * `Decompression.withRetry_falls_back`
-/

namespace ArchiveRescue

open Stage

------------------------------------------------------------
-- Outputs
------------------------------------------------------------

/- The bytes of the file that a path leads to. -/
def Disk.fileAt?
    (d : Disk)
    (p : Path) : Option Bytes :=
  match d.look p with
  | .ok (.file data _) => some data
  | _ => none

namespace Outlet

/-
  What an output shows: the file, or the bytes of the tape
  from the start on, as many as are counted.
-/
def output
    (counts : Bool) : Outlet → Option Bytes
| (.file path, disk) => disk.fileAt? path
| (.stream tape start, disk) =>
    some (Bytes.slice tape.bytes start
      (if counts then counted (.stream tape start, disk)
      else 0))

/- A tape that takes everything shows what it carries. -/
theorem output_carries
    {t : Tape}
    {start : Nat}
    {bs : Bytes}
    (disk : Disk)
    (counts : Bool)
    (hServes : t.Serves)
    (hCarries : t.Carries start bs) :
    output counts (.stream t start, disk) =
      some
        (if counts ∧ t.position < t.medium.bound then bs
        else []) := by
  rcases hServes.tell_eq with ⟨told, hTell, -⟩
  have hPosition := hCarries.position
  have hSlice := hCarries.slice_eq
  unfold output counted
  dsimp only
  rw [Sink.perform_written_stream, hTell]
  by_cases hCounts : counts = true
  · by_cases hBound : t.position < t.medium.bound
    · have hLength : t.position - start = bs.length := by
        omega
      rw [if_pos hCounts, if_pos hBound,
        if_pos ⟨hCounts, hBound⟩]
      dsimp only [Outcome.ofFault, Except.map,
        Except.mapError, Except.toOption, Option.getD]
      rw [hLength, hSlice]
    · rw [if_pos hCounts, if_neg hBound,
        if_neg (fun hBoth => hBound hBoth.2)]
      rfl
  · rw [if_neg hCounts,
      if_neg (fun hBoth => hCounts hBoth.1)]
    rfl

/- Outlets that are alike show the same. -/
theorem Alike.output_eq
    {o p : Outlet}
    (hAlike : Outlet.Alike o p)
    (counts : Bool) :
    p.output counts = o.output counts := by
  cases hAlike with
  | file path hDisks =>
      unfold output Disk.fileAt?
      dsimp only
      rw [hDisks.look_eq]
  | stream d e hServes hOther hMedium hCarries hAlso =>
      rw [output_carries d counts hServes hCarries,
        output_carries e counts hOther hAlso,
        hAlso.position, hCarries.position, hMedium]

end Outlet

namespace Decompression

open Bench

------------------------------------------------------------
-- Endings
------------------------------------------------------------

/- Where a decompression writes to. -/
inductive Target where
  | file (path : Path)
  | tape (tape : Tape)

namespace Target

/- The sink that is used for it. -/
def sink : Target → Sink
| .file path => .file path
| .tape t => .ofTape t

/- How it is called in names of operations. -/
def name : Target → String
| .file _ => "file"
| .tape _ => "stream"

/-
  The same file, or a tape that stands where the other one
  stands and takes everything.
-/
inductive Mends : Target → Target → Prop where
  | file (path : Path) : Mends (.file path) (.file path)
  | tape
      {t u : Tape}
      (serves : u.Serves)
      (medium : u.medium = t.medium)
      (position : u.position = t.position) :
      Mends (.tape t) (.tape u)

end Target

/- How a decompression has ended, and its output. -/
structure Ending where
  verdict : Verdict
  output : Option Bytes

/-
  The ending of a decompression.  Its output is the file at
  the output path, or the bytes that have been written to the
  tape from where it stood.
-/
def ending
    (codec : Codec)
    (options : DecompressionOptions)
    (source : Source)
    (target : Target)
    (disk : Disk) : Ending :=
  match target with
  | .file path =>
      let result := toFile codec options source path disk
      { verdict := result.report.verdict
        output := result.disk.fileAt? result.outputPath }
  | .tape tape =>
      let result := toTape codec options source tape disk
      { verdict := result.report.verdict
        output :=
          some (Bytes.slice result.tape.bytes tape.position
            result.bytesWritten) }

/- The bench that it starts with. -/
def begun
    (codec : Codec)
    (options : DecompressionOptions)
    (source : Source)
    (target : Target)
    (disk : Disk) : Bench :=
  start options (operation codec.mode source target.name)
    source target.sink disk

/-
  How a retry ends, compared with the direct way and the way
  without checks.  It succeeds if one of them does.  Its
  output is that of the first that succeeds, or of the second
  if none does, and then the failure of the second is wrapped.
-/
structure FallsBack
    (retry direct plain : Ending) : Prop where
  success :
    retry.verdict = .succeeded ↔
      direct.verdict = .succeeded ∨
        plain.verdict = .succeeded
  directOutput :
    direct.verdict = .succeeded →
      retry.output = direct.output
  plainOutput :
    direct.verdict ≠ .succeeded →
      retry.output = plain.output
  failure :
    direct.verdict ≠ .succeeded →
      plain.verdict ≠ .succeeded →
      ∃ failure,
        plain.verdict = .failed failure ∧
          retry.verdict = .failed (.fallbackFailed failure)

/- A retry ends as the direct way does, if that succeeds. -/
theorem FallsBack.ofDirect
    {direct plain : Ending}
    (hOk : direct.verdict = .succeeded) :
    FallsBack direct direct plain where
  success := ⟨.inl, fun _ => hOk⟩
  directOutput _ := rfl
  plainOutput hFails := absurd hOk hFails
  failure hFails := absurd hOk hFails

/- The verdict on an outcome. -/
def verdictOn : Outcome Nat → Verdict
| .ok _ => .succeeded
| .error failure => .failed failure

/- Wrapping a failure does not make it a success. -/
theorem isOk_mapError
    (outcome : Outcome Nat)
    (wrap : Failure → Failure) :
    (outcome.mapError wrap).isOk = outcome.isOk := by
  cases outcome <;> rfl

/- Otherwise it ends as the other way does. -/
theorem FallsBack.ofPlain
    {direct : Ending}
    (hFails : direct.verdict ≠ .succeeded)
    (outcome : Outcome Nat)
    (output : Option Bytes) :
    FallsBack
      { verdict :=
          verdictOn (outcome.mapError .fallbackFailed)
        output := output }
      direct
      { verdict := verdictOn outcome, output := output } := by
  cases outcome with
  | ok n =>
      exact
        { success := ⟨.inr, fun _ => rfl⟩
          directOutput := fun hOk => absurd hOk hFails
          plainOutput := fun _ => rfl
          failure := fun _ hPlain => absurd rfl hPlain }
  | error failure =>
      refine
        { success := ⟨nofun, ?_⟩
          directOutput := fun hOk => absurd hOk hFails
          plainOutput := fun _ => rfl
          failure := fun _ _ => ⟨failure, rfl, rfl⟩ }
      rintro (hOk | hOk)
      · exact absurd hOk hFails
      · cases hOk

/- What a run leaves of the bench on which it was tried. -/
def remains
    (options : DecompressionOptions)
    (outcome : Outcome Nat)
    (b : Bench) : Bench :=
  match outcome with
  | .ok _ => b
  | .error _ => cleaned options b

/- This only gives up the output at most. -/
theorem upheld_remains
    {relation : Bench → Bench → Prop}
    (hRelation : Bench.Upheld relation)
    (options : DecompressionOptions)
    (outcome : Outcome Nat)
    (b : Bench) :
    relation b (remains options outcome b) := by
  unfold remains
  cases outcome with
  | ok _ => exact hRelation.refl b
  | error _ =>
      unfold cleaned
      dsimp only
      split
      · exact hRelation.sink .discard b
      · exact hRelation.refl b

section Endings

variable {codec : Codec} {options : DecompressionOptions}
variable {source : Source} {target : Target} {disk : Disk}
variable {ready tried : Bench} {outcome : Outcome Nat}

/- A file that was prepared is a file. -/
theorem prepared_file
    {path : Path}
    (hReady :
      preparation.perform
          (begun codec options source (.file path) disk) =
        (.ok (), ready)) :
    ∃ full, ready.sink = .file full := by
  have hPrepares :=
    prepares_preparation
      (begun codec options source (.file path) disk)
  rw [hReady] at hPrepares
  exact hPrepares.outlet.file path rfl

/- A run ends as its algorithm does. -/
theorem run_of_tried
    {operation : String}
    {sink : Sink}
    (hReady :
      preparation.perform
          (start options operation source sink disk) =
        (.ok (), ready))
    (hTried :
      (algorithm codec options.algorithm).perform ready =
        (outcome, tried)) :
    (run codec options operation source sink
        disk).report.verdict = verdictOn outcome ∧
      (run codec options operation source sink disk).disk =
        (remains options outcome tried).disk ∧
      (run codec options operation source sink disk).sink =
        (remains options outcome tried).sink := by
  cases outcome with
  | ok n => exact run_of_ok hReady hTried
  | error failure => exact run_of_error hReady hTried

/- So does the decompression. -/
theorem ending_of_tried
    (hReady :
      preparation.perform
          (begun codec options source target disk) =
        (.ok (), ready))
    (hTried :
      (algorithm codec options.algorithm).perform ready =
        (outcome, tried)) :
    ending codec options source target disk =
      { verdict := verdictOn outcome
        output :=
          Outlet.output outcome.isOk
            ((remains options outcome tried).sink,
              (remains options outcome tried).disk) } := by
  have hRuns := runs_algorithm codec options.algorithm ready
  rw [hTried] at hRuns
  have hBoth :=
    hRuns.trans
      (upheld_remains runs_upheld options outcome tried)
  rcases run_of_tried hReady hTried with
    ⟨hVerdict, hDisk, hSink⟩
  cases target with
  | file path =>
      rcases prepared_file hReady with ⟨full, hFull⟩
      have hLast := (hBoth.file full hFull).1
      rw [hLast] at hSink
      dsimp only [Target.sink, Target.name]
        at hVerdict hDisk hSink
      unfold ending toFile
      dsimp only
      rw [hVerdict, hDisk, hSink, hLast]
      rfl
  | tape tape =>
      rcases preparation_stream_ok rfl hReady with
        ⟨told, hTold, -⟩
      rcases (hBoth.stream told tape.position hTold).1 with
        ⟨last, hLast, -⟩
      rw [hLast] at hSink
      dsimp only [Target.sink, Target.name]
        at hVerdict hDisk hSink
      have hSuccess :
          (run codec options
              (operation codec.mode source "stream") source
              (.ofTape tape) disk).report.success =
            outcome.isOk := by
        unfold Report.success
        rw [hVerdict]
        cases outcome <;> rfl
      unfold ending
      dsimp only
      rw [toTape_of_sink hSink, toTape_eq hSink]
      dsimp only
      rw [hVerdict, hSuccess, hDisk, hLast]
      rfl

end Endings

------------------------------------------------------------
-- What a Retry Starts From
------------------------------------------------------------

section Prepared

variable {codec : Codec} {options : DecompressionOptions}
variable {source : Source} {target other : Target}
variable {disk : Disk} {b ready : Bench}

/- A source that was given and prepared holds a framing. -/
theorem preparation_holds
    (hGiven : b.source.Given)
    (hReady : preparation.perform b = (.ok (), ready)) :
    ∃ data,
      ready.source.Holds ready.disk data ∧
        Gzip.framingLength ≤ data.length := by
  rcases preparation_ok_cases hReady with
    ⟨source, disk, later, framing, hSource, hSink, hFraming,
      -⟩
  rcases hGiven.verify_ok hSource with ⟨data, hHolds⟩
  have hStays := Sink.stays_verify (b.sink, disk)
  rw [hSink] at hStays
  exact ⟨data, (hHolds.grown hStays.disk).framing_ok hFraming⟩

/-
  If also nothing is refused and the output is not the input,
  a retry can start.
-/
theorem ready_of_prepared
    (hPermits : disk.trouble.Permits)
    (hOpens : disk.trouble.Opens)
    (hGiven : source.Given)
    (hReady :
      preparation.perform
          (begun codec options source target disk) =
        (.ok (), ready))
    (hApart : ready.Apart)
    (hBegins : ((onSink Sink.begin).perform ready).1 = .ok ()) :
    ∃ data, Ready data ready := by
  rcases preparation_holds
      (b := begun codec options source target disk) hGiven
      hReady with
    ⟨data, hHolds, hLong⟩
  have hPrepares :=
    prepares_preparation
      (begun codec options source target disk)
  rw [hReady] at hPrepares
  have hTrouble : ready.disk.trouble = disk.trouble :=
    hPrepares.outlet.disk.settings.trouble
  refine
    ⟨data,
      { holds := hHolds
        long := hLong
        apart := hApart
        begins := ?_
        permits := hTrouble ▸ hPermits
        opens := Source.opens_of_trouble _ (hTrouble ▸ hOpens)
        bound := ?_ }⟩
  · intro out hOut
    rcases hCreate : ready.disk.createFile out with
      ⟨reply, made⟩
    unfold onSink at hBegins
    rw [perform_focus, hOut, Sink.perform_begin_file,
      hCreate] at hBegins
    cases reply with
    | error fault => cases hBegins
    | ok place =>
        exact ⟨place, Disk.admits_of_createFile hCreate⟩
  · intro tape start hStream
    cases target with
    | file path =>
        rcases prepared_file hReady with ⟨full, hFull⟩
        cases hFull.symm.trans hStream
    | tape given =>
        rcases preparation_stream_ok rfl hReady with
          ⟨told, hTold, hWrote, -, hBound⟩
        cases hTold.symm.trans hStream
        rwa [hWrote.follows.medium]

/- A tape that takes everything is verified as well. -/
theorem lifts_verify_mended :
    Lifts
      (fun o p : Outlet =>
        Sink.Mended o.1 p.1 ∧ p.2 = o.2)
      Sink.verify := by
  rintro ⟨sink, disk⟩ ⟨sink', disk'⟩ value later
    ⟨hMended, hDisk⟩ hVerify
  cases hDisk
  cases hMended with
  | file path =>
      have hFile := Sink.stays_verify (.file path, disk)
      rw [hVerify] at hFile
      rcases hFile.file path rfl with ⟨full, hFull⟩
      refine ⟨later, hVerify, ?_, rfl⟩
      rw [hFull]
      exact .file full
  | @stream t u start hServes hMedium hPosition =>
      rcases hTell : t.tell with ⟨reply, told⟩
      rcases hServes.tell_eq with ⟨other, hOther, hWrote'⟩
      have hWrote := t.wrote_tell
      unfold Sink.verify at hVerify ⊢
      rw [perform_get_bind] at hVerify ⊢
      dsimp only at hVerify ⊢
      rw [hTell] at hVerify hWrote
      cases reply with
      | error fault => cases hVerify
      | ok here =>
          cases hVerify
          rcases Tape.tell_ok hTell with ⟨rfl, hBound⟩
          rw [hOther, hPosition, hMedium, if_pos hBound]
          refine ⟨_, rfl, ?_, rfl⟩
          refine
            .stream t.position
              (hServes.follows hWrote'.follows) ?_ ?_
          · rw [hWrote'.follows.medium, hMedium,
              hWrote.follows.medium]
          · rw [hWrote'.position, hPosition,
              hWrote.position]

end Prepared

------------------------------------------------------------
-- Falling Back
------------------------------------------------------------

section Tapes

variable {codec : Codec} {options : DecompressionOptions}
variable {source : Source} {tape : Tape} {disk : Disk}
variable {ready tried : Bench}

/- A tape is not the file that is read. -/
theorem apart_of_tape
    (hReady :
      preparation.perform
          (begun codec options source (.tape tape) disk) =
        (.ok (), ready)) :
    ready.Apart := by
  rcases preparation_stream_ok rfl hReady with
    ⟨told, hTold, -⟩
  intro path out place _ hFile
  cases hTold.symm.trans hFile

/- After a failure the tape is where the algorithm left it. -/
theorem toTape_of_error
    {failure : Failure}
    {told : Tape}
    {begun' : Nat}
    (hReady :
      preparation.perform
          (begun codec options source (.tape tape) disk) =
        (.ok (), ready))
    (hTried :
      (algorithm codec options.algorithm).perform ready =
        (.error failure, tried))
    (hTold : tried.sink = .stream told begun') :
    (toTape codec options source tape disk).tape = told := by
  rcases run_of_error hReady hTried with
    ⟨hVerdict, -, hSink⟩
  rw [cleaned_stream hReady hTried rfl, hTold] at hSink
  rw [toTape_eq hSink]
  dsimp only
  refine if_neg ?_
  intro hSuccess
  cases hVerdict.symm.trans (Report.success_iff.mp hSuccess)

/- So that tape takes everything, if the result does. -/
theorem serves_of_error
    {target : Target}
    (hReady :
      preparation.perform
          (begun codec options source target disk) =
        (.ok (), ready))
    (hServes :
      ∀ tape, target = .tape tape →
        (toTape codec options source tape disk).tape.Serves)
    (failure : Failure)
    (failed : Bench)
    (told : Tape)
    (begun' : Nat)
    (hFailed :
      (algorithm codec options.algorithm).perform ready =
        (.error failure, failed))
    (hTold : failed.sink = .stream told begun') :
    told.Serves := by
  cases target with
  | file path =>
      rcases prepared_file hReady with ⟨full, hFull⟩
      have hRuns :=
        runs_algorithm codec options.algorithm ready
      rw [hFailed] at hRuns
      cases (hRuns.file full hFull).1.symm.trans hTold
  | tape tape =>
      rw [← toTape_of_error hReady hFailed hTold]
      exact hServes tape rfl

/-
  If the direct way succeeds, it has not been disturbed.  So
  a write or a flush that is refused makes it fail.
-/
theorem toTape_undisturbed
    {n : Nat}
    (hDirect : options.algorithm = .direct)
    (hReady :
      preparation.perform
          (begun codec options source (.tape tape) disk) =
        (.ok (), ready))
    (hTried :
      (algorithm codec options.algorithm).perform ready =
        (.ok n, tried)) :
    tape.Undisturbed
      (toTape codec options source tape disk).tape := by
  rcases preparation_stream_ok rfl hReady with
    ⟨first, hFirst, hNothing, hCalm, -⟩
  rcases run_of_ok hReady hTried with ⟨hVerdict, -, hSink⟩
  rw [hDirect] at hTried
  rcases direct_ok hFirst hNothing.position hTried with
    ⟨last, output, hLast, -, hStill, -⟩
  rw [hLast] at hSink
  rw [toTape_eq hSink]
  dsimp only
  split
  · exact (hCalm.trans hStill).trans last.undisturbed_tell
  · exact hCalm.trans hStill

end Tapes

/- What is given up is given up alike. -/
theorem remains_alike
    (options options' : DecompressionOptions)
    {b c : Bench}
    (outcome : Outcome Nat)
    (hKeep : options'.keepPartial = options.keepPartial)
    (hPath :
      c.report.snapshot.outputPath =
        b.report.snapshot.outputPath)
    (hMates : Mates Outlet.Alike b c) :
    Mates Outlet.Alike (remains options outcome b)
      (remains options'
        (outcome.mapError Failure.fallbackFailed) c) := by
  cases outcome with
  | ok n => exact hMates
  | error failure =>
      unfold remains cleaned
      dsimp only [Except.mapError]
      rw [hKeep, hPath]
      split
      · exact
          (Mates.respects_onSink
            (Sink.respects_alike .discard) b c hMates).2
      · exact hMates

section Retry

variable {codec : Codec} {source : Source}
variable {target other : Target}
variable {disk : Disk} {ready : Bench}

/- The sinks of targets one of which mends the other. -/
theorem Target.Mends.sink
    (hMends : target.Mends other) :
    Sink.Mended target.sink other.sink := by
  cases hMends with
  | file path => exact .file path
  | tape hServes hMedium hPosition =>
      exact .stream 0 hServes hMedium hPosition

/- They are both files or both tapes. -/
theorem Target.Mends.outputPath
    {options options' : DecompressionOptions}
    (hMends : target.Mends other) :
    (begun codec options' source other
          disk).report.snapshot.outputPath =
      (begun codec options source target
          disk).report.snapshot.outputPath := by
  cases hMends with
  | file path => rfl
  | tape hServes hMedium hPosition => rfl

/-
  A decompression with a retry is the direct one or else the
  one without checks, for all data, codecs, disks, inputs and
  outputs: a file or a tape at any position is read, and a
  file that is not the input, or a tape that holds anything
  and stands anywhere, is written to.  Both ends have been
  verified and the framing has been looked at.

  Nothing is refused, and an output file can be created, with
  one exception: a tape that is written to may refuse anything
  while the direct attempt is made, as long as it takes
  everything afterwards.  The way without checks is then
  looked at on another tape, which takes everything from the
  beginning; a tape that does so itself will do.  The direct
  way only succeeds if none of its writes and flushes has
  been refused.
-/
theorem withRetry_falls_back
    (options : DecompressionOptions)
    (hPermits : disk.trouble.Permits)
    (hOpens : disk.trouble.Opens)
    (hGiven : source.Given)
    (hReady :
      preparation.perform
          (begun codec { options with algorithm := .withRetry }
            source target disk) =
        (.ok (), ready))
    (hApart : ready.Apart)
    (hBegins : ((onSink Sink.begin).perform ready).1 = .ok ())
    (hMends : target.Mends other)
    (hServes :
      ∀ tape, target = .tape tape →
        (toTape codec { options with algorithm := .direct }
          source tape disk).tape.Serves) :
    FallsBack
        (ending codec { options with algorithm := .withRetry }
          source target disk)
        (ending codec { options with algorithm := .direct }
          source target disk)
        (ending codec { options with algorithm := .withoutCrc }
          source other disk) ∧
      ∀ tape, target = .tape tape →
        (ending codec { options with algorithm := .direct }
          source target disk).verdict = .succeeded →
        tape.Undisturbed
          (toTape codec { options with algorithm := .direct }
            source tape disk).tape := by
  rcases ready_of_prepared hPermits hOpens hGiven hReady
      hApart hBegins with
    ⟨data, hStart⟩
  -- The other two runs are prepared as this one is.
  have hSame :
      Linked (· = ·)
        (begun codec { options with algorithm := .withRetry }
          source target disk)
        (begun codec { options with algorithm := .direct }
          source target disk) :=
    ⟨rfl, rfl, rfl⟩
  have hOther :
      Linked Sink.Mended
        (begun codec { options with algorithm := .withRetry }
          source target disk)
        (begun codec { options with algorithm := .withoutCrc }
          source other disk) :=
    ⟨rfl, rfl, hMends.sink⟩
  rcases lifts_preparation_same _ _ () ready hSame hReady with
    ⟨readyD, hReadyD, hLinked⟩
  rcases lifts_preparation lifts_verify_mended _ _ () ready
      hOther hReady with
    ⟨readyP, hReadyP, hMended⟩
  rcases hDirect : (direct codec).perform readyD with
    ⟨outcomeD, triedD⟩
  rcases hPlain : (withoutCrc codec).perform readyP with
    ⟨outcomeP, triedP⟩
  rcases hRetry : (withRetry codec).perform ready with
    ⟨outcome, tried⟩
  have hEndD := ending_of_tried hReadyD hDirect
  have hEndP := ending_of_tried hReadyP hPlain
  have hEnd := ending_of_tried hReady hRetry
  refine ⟨?_, ?_⟩
  · have hLeft := serves_of_error hReadyD hServes
    rcases withRetry_cases hStart hLinked hMended hLeft with
      ⟨n, triedD', tried', hOk, hAlso, hMates⟩ |
        ⟨⟨failure, failed, hFailed⟩, hWrapped, hMates⟩
    · cases hDirect.symm.trans hOk
      cases hRetry.symm.trans hAlso
      unfold Mates at hMates
      rw [hEnd, hEndD]
      dsimp only [remains]
      rw [hMates]
      exact .ofDirect rfl
    · cases hDirect.symm.trans hFailed
      rw [hPlain, hRetry] at hWrapped hMates
      dsimp only at hWrapped hMates
      subst hWrapped
      have hPath := (undecided_algorithm hReady hRetry).2
      have hPath' := (undecided_algorithm hReadyP hPlain).2
      have hAlike :=
        remains_alike
          { options with algorithm := .withoutCrc }
          { options with algorithm := .withRetry }
          outcomeP rfl
          ((hPath.trans hMends.outputPath.symm).trans
            hPath'.symm)
          hMates
      rw [hEnd, hEndP, hAlike.output_eq, isOk_mapError]
      refine .ofPlain ?_ outcomeP _
      rw [hEndD]
      exact nofun
  · intro tape hTape hVerdict
    subst hTape
    rw [hEndD] at hVerdict
    cases outcomeD with
    | error failure => cases hVerdict
    | ok n =>
        exact toTape_undisturbed rfl hReadyD hDirect

end Retry

/- A member with a checksum that does not match. -/
def doubtfulInput : Disk where
  entries :=
    [(["in.gz"],
      .file
        ([0x1F, 0x8B, 0x08, 0, 0, 0, 0, 0, 0, 0xFF] ++
          [0x01, 0x02, 0x00, 0xFD, 0xFF, 0x50, 0x51] ++
          [0, 0, 0, 0, 2, 0, 0, 0]) 0)]

/- A tape that panics when it is first written to. -/
def startledTape : Tape where
  bytes := [1, 2, 3, 4, 5, 6]
  position := 2
  script :=
    { reply := fun history call =>
        match call with
        | .write .. =>
            if history.any (· matches .write ..) then
              .proceed (Script.amount call)
            else .refuse (.panicked "startled")
        | _ => .proceed (Script.amount call) }

/- It takes everything from then on. -/
theorem serves_of_startled
    {t : Tape}
    (hFollows : startledTape.Follows t)
    (hWritten : t.history.any (· matches .write ..) = true) :
    t.Serves := by
  intro calls call fault hRefused
  rw [hFollows.script] at hRefused
  cases call with
  | write position length =>
      dsimp only [startledTape] at hRefused
      rw [List.any_append, hWritten, Bool.or_true,
        if_pos rfl] at hRefused
      cases hRefused
  | read position wanted => cases hRefused
  | flush position => cases hRefused
  | seek position goal => cases hRefused

set_option maxRecDepth 100000 in
/-
  The direct way fails on such a tape, and a retry writes what
  the way without checks writes on a tape that is not startled.
-/
theorem startledTape_falls_back :
    (ending (.standard .blocking) { algorithm := .direct }
          (.file ⟨"/in.gz"⟩) (.tape startledTape)
          doubtfulInput).verdict ≠ .succeeded ∧
      FallsBack
        (ending (.standard .blocking) {}
          (.file ⟨"/in.gz"⟩) (.tape startledTape)
          doubtfulInput)
        (ending (.standard .blocking) { algorithm := .direct }
          (.file ⟨"/in.gz"⟩) (.tape startledTape)
          doubtfulInput)
        (ending (.standard .blocking)
          { algorithm := .withoutCrc } (.file ⟨"/in.gz"⟩)
          (.tape { startledTape with script := .plain })
          doubtfulInput) ∧
      (ending (.standard .blocking) {} (.file ⟨"/in.gz"⟩)
          (.tape startledTape) doubtfulInput).output =
        some [0x50, 0x51] := by
  have hFails :
      (ending (.standard .blocking) { algorithm := .direct }
          (.file ⟨"/in.gz"⟩) (.tape startledTape)
          doubtfulInput).verdict ≠ .succeeded := by
    decide +kernel
  have hOutput :
      (ending (.standard .blocking) {} (.file ⟨"/in.gz"⟩)
          (.tape startledTape) doubtfulInput).output =
        some [0x50, 0x51] := by
    decide +kernel
  have hPrepared :
      (preparation.perform
        (begun (.standard .blocking) {} (.file ⟨"/in.gz"⟩)
          (.tape startledTape) doubtfulInput)).1 =
        .ok () := by
    decide +kernel
  have hBegins :
      ((onSink Sink.begin).perform
        (preparation.perform
          (begun (.standard .blocking) {} (.file ⟨"/in.gz"⟩)
            (.tape startledTape) doubtfulInput)).2).1 =
        .ok () := by
    decide +kernel
  have hWritten :
      (toTape (.standard .blocking) { algorithm := .direct }
          (.file ⟨"/in.gz"⟩) startledTape
          doubtfulInput).tape.history.any
            (· matches .write ..) = true := by
    decide +kernel
  have hReady := Prod.ext hPrepared rfl
  have hMends :
      Target.Mends (.tape startledTape)
        (.tape { startledTape with script := .plain }) :=
    .tape (Tape.serves_of_isCalm Script.plain_isCalm) rfl rfl
  refine
    ⟨hFails,
      (withRetry_falls_back {} (fun _ _ => rfl)
        (fun _ _ => ⟨.plain, rfl, Script.plain_isCalm⟩)
        (.file ⟨"/in.gz"⟩) hReady (apart_of_tape hReady)
        hBegins hMends ?_).1,
      hOutput⟩
  rintro tape ⟨⟩
  exact serves_of_startled (toTape_follows _ _ _ _ _)
    hWritten

end Decompression

end ArchiveRescue
