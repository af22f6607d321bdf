import Mathlib
import ArchiveRescue.Proofs.Delivery

/-
  What a decompression to a file leaves at the output path,
  if partial output is not kept: all that was delivered, and
  nothing else, or no file at all.

  Key definitions include:
    * `Trouble.Removes`

  Main statements:
    * `Disk.fileAt?_removeFile`
    * `Decompression.run_fails_clean`
    * `Decompression.toFile_whole_or_none`
-/

namespace ArchiveRescue

open Stage

------------------------------------------------------------
-- Removed Files
------------------------------------------------------------

/- No removal of a file is refused. -/
def Trouble.Removes (trouble : Trouble) : Prop :=
  ∀ turn place, trouble.refuses turn (.remove place) = none

namespace Disk

variable {d : Disk} {p : Path}

/- A file that a path shows is removed from its place. -/
theorem removeFile_shown
    {data : Bytes}
    (hShows : d.fileAt? p = some data) :
    ∃ place data modified,
      d.locate p = .ok place ∧
        d.node? place = some (.file data modified) ∧
        d.removeFile p = d.perform (.remove place) := by
  rcases fileAt?_cases hShows with
    ⟨place, modified, hLeads, hNode, hPlain⟩
  refine ⟨place, data, modified, hLeads, hNode, ?_⟩
  unfold removeFile
  rw [hLeads]
  dsimp only
  rw [hNode]
  dsimp only
  rw [hPlain, if_neg (by decide)]

/- Where no file is shown, nothing is removed. -/
theorem removeFile_none
    (hNone : d.fileAt? p = none) :
    (d.removeFile p).2 = d := by
  unfold removeFile
  split
  · rfl
  next place hLeads =>
    split
    · rfl
    · rfl
    next data modified hNode =>
      split
      · rfl
      next hPlain =>
        have hShows :=
          fileAt?_eq hLeads hNode
            (Bool.eq_false_iff.mpr hPlain)
        cases hNone.symm.trans hShows

/- A file is gone when its removal went well. -/
theorem fileAt?_of_removed
    {e : Disk}
    (hRemove : d.removeFile p = (.ok (), e)) :
    e.fileAt? p = none := by
  have hSpares := d.spares_removeFile p
  rcases d.removeFile_cases p with
    ⟨place, -, hLeads, -, hNodes⟩ | ⟨⟨fault, hFault⟩, -⟩
  · have hStill := hSpares.locate hLeads
    rw [hRemove] at hStill hNodes
    have hNone := (hNodes place).trans (if_pos rfl)
    unfold fileAt? look
    rw [hStill]
    dsimp only at hNone ⊢
    rw [hNone]
  · rw [hRemove] at hFault
    cases hFault

/- So no file is left where a path leads. -/
theorem fileAt?_removeFile
    (hRemoves : d.trouble.Removes)
    (p : Path) :
    (d.removeFile p).2.fileAt? p = none := by
  cases hShows : d.fileAt? p with
  | none => rwa [removeFile_none hShows]
  | some shown =>
      rcases removeFile_shown hShows with
        ⟨place, data, modified, -, -, hRemove⟩
      have hDone := perform_allowed (hRemoves d.turns place)
      rw [← hRemove] at hDone
      rw [hDone]
      exact fileAt?_of_removed hDone

end Disk

namespace Decompression

open Bench

------------------------------------------------------------
-- Whole Runs
------------------------------------------------------------

/- No algorithm changes how a disk behaves. -/
theorem settings_upheld :
    Bench.Upheld (fun b c => b.disk.SameSettings c.disk) where
  refl b := .refl b.disk
  trans := .trans
  source hUse b := (hUse.ticks (b.source, b.disk)).disk.settings
  sink := by
    intro α stage hUse b
    have hRuns := Sink.runs_use hUse (b.sink, b.disk)
    unfold onSink
    rw [perform_focus]
    dsimp only
    cases hSink : b.sink with
    | file out =>
        exact (Sink.spares_use hUse out b.disk).settings
    | stream tape start =>
        rw [hSink] at hRuns
        rcases hRuns.stream tape start rfl with
          ⟨told, hSame, -⟩
        rw [hSame]
        exact .refl b.disk
  telling b _ _ _ := .refl b.disk

section Runs

variable {codec : Codec} {options : DecompressionOptions}
variable {source : Source} {path : Path} {disk : Disk}

/- A file is given up by removing it. -/
theorem discard_file
    {b : Bench}
    {out : Path}
    (hSink : b.sink = .file out) :
    ((onSink Sink.discard).perform b).2 =
      { b with disk := (b.disk.removeFile out).2 } := by
  rcases b with ⟨disk, source, sink, report⟩
  cases hSink
  unfold onSink
  rw [perform_focus, Sink.perform_discard_file]

/-
  A run to a file leaves no file at the output path if it
  fails, wherever it fails.
-/
theorem run_fails_clean
    (operation : String)
    (hKeep : options.keepPartial = false)
    (hRemoves : disk.trouble.Removes)
    {final : Bench}
    (hFinal :
      run codec options operation source (.file path) disk =
        final) :
    ∃ out,
      final.sink = .file out ∧
        (final.report.verdict = .succeeded ∨
          ∃ failure,
            final.report.verdict = .failed failure ∧
              final.disk.fileAt? out = none) := by
  subst hFinal
  have hPrepares :=
    prepares_preparation
      (start options operation source (.file path) disk)
  rcases hReady :
      preparation.perform
        (start options operation source (.file path) disk)
    with ⟨outcome, ready⟩
  rw [hReady] at hPrepares
  rcases hPrepares.outlet.file path rfl with ⟨out, hOut⟩
  have hStill : ready.disk.trouble.Removes := by
    rwa [hPrepares.outlet.disk.settings.trouble]
  cases outcome with
  | error failure =>
      have hPath :
          ready.report.snapshot.outputPath.isSome := by
        rw [hPrepares.outputPath]
        rfl
      have hVerdict :=
        verdict_settle options hPrepares.verdict failure
      rcases settle_discarded hKeep hPath failure with
        ⟨hDisk, hSink⟩
      rw [discard_file hOut] at hDisk hSink
      rw [run_of_attempt
        (attempt_of_unprepared codec options hReady)]
      refine
        ⟨out, hSink.trans hOut, .inr ⟨failure, hVerdict, ?_⟩⟩
      dsimp only [telling]
      rw [hDisk]
      exact Disk.fileAt?_removeFile hStill out
  | ok _ =>
      have hRuns :=
        runs_algorithm codec options.algorithm ready
      have hSettings :=
        keeps_algorithm settings_upheld codec
          options.algorithm ready
      rcases hTried :
          (algorithm codec options.algorithm).perform
            ready with
        ⟨outcome, tried⟩
      rw [hTried] at hRuns hSettings
      have hFile := (hRuns.file out hOut).1
      cases outcome with
      | ok n =>
          rcases run_of_ok hReady hTried with
            ⟨hVerdict, -, hSink⟩
          exact ⟨out, hSink.trans hFile, .inl hVerdict⟩
      | error failure =>
          rcases run_of_error hReady hTried with
            ⟨hVerdict, hDisk, hSink⟩
          have hCleaned :
              cleaned options tried =
                { tried with
                  disk := (tried.disk.removeFile out).2 } := by
            unfold cleaned
            rw [hKeep, (undecided_algorithm hReady hTried).2]
            exact discard_file hFile
          rw [hCleaned] at hDisk hSink
          refine
            ⟨out, hSink.trans hFile,
              .inr ⟨failure, hVerdict, ?_⟩⟩
          rw [hDisk]
          refine Disk.fileAt?_removeFile ?_ out
          rwa [hSettings.trouble]

/-
  What a decompression leaves at the output path, whatever
  stood there, whatever the input is, and whatever faults
  reading it and writing to the disk meet, as long as the
  removal of a file does not fail.  After a success it is the
  output of the decoder that succeeded, which is not empty.
  After a failure there is no file.
-/
theorem toFile_whole_or_none
    (codec : Codec)
    (path : Path)
    (hKeep : options.keepPartial = false)
    (hBrought : source.IsBrought)
    (hRemoves : disk.trouble.Removes) :
    let result := toFile codec options source path disk
    (result.report.success = true ∧
        ∃ output,
          Delivered codec options source (.file path) disk
              output ∧
            output ≠ [] ∧
            result.disk.fileAt? result.outputPath =
              some output) ∨
      (∃ failure,
        result.report.verdict = .failed failure ∧
          result.disk.fileAt? result.outputPath = none) := by
  rcases hFinal :
      run codec options
        (operation codec.mode source "file") source
        (.file path) disk with
    ⟨last, source', sink, report⟩
  unfold toFile
  dsimp only
  rw [hFinal]
  rcases run_fails_clean _ hKeep hRemoves hFinal with
    ⟨out, hSink, hVerdict | ⟨failure, hVerdict, hNone⟩⟩
  · left
    refine ⟨Report.success_iff.mpr hVerdict, ?_⟩
    rcases run_delivers (.file path) hBrought hFinal hVerdict
      with
      ⟨n, output, hDelivered, hFinished⟩
    refine ⟨output, hDelivered, hFinished.some, ?_⟩
    have hShows := hFinished.shows
    cases hSink
    cases hShows with
    | file hFile => exact hFile
  · right
    cases hSink
    exact ⟨failure, hVerdict, hNone⟩

end Runs

/- A member of the wrong size, and a file of older results. -/
def olderResults : Disk where
  entries :=
    [(["in"],
        .file ((Gzip.gzip [0x41, 0x42]).dropLast ++ [1]) 0),
      (["out"], .file [1, 2, 3, 4, 5] 0)]

set_option maxRecDepth 100000 in
/- The first attempt fails, and the second replaces them. -/
theorem olderResults_replaced :
    ∃ output,
      Delivered (.standard .blocking) {} (.file ⟨"/in"⟩)
          (.file ⟨"/out"⟩) olderResults output ∧
        (toFile (.standard .blocking) {} (.file ⟨"/in"⟩)
            ⟨"/out"⟩ olderResults).disk.fileAt? ⟨"/out"⟩ =
          some output ∧
        output = [0x41, 0x42] := by
  have hKeep :
      ({} : DecompressionOptions).keepPartial = false :=
    rfl
  have hRemoves : olderResults.trouble.Removes :=
    fun _ _ => rfl
  have hPath :
      (toFile (.standard .blocking) {} (.file ⟨"/in"⟩)
        ⟨"/out"⟩ olderResults).outputPath = ⟨"/out"⟩ := by
    decide +kernel
  have hShown :
      (toFile (.standard .blocking) {} (.file ⟨"/in"⟩)
          ⟨"/out"⟩ olderResults).disk.fileAt? ⟨"/out"⟩ =
        some [0x41, 0x42] := by
    decide +kernel
  rcases toFile_whole_or_none (.standard .blocking) ⟨"/out"⟩
      hKeep (.file ⟨"/in"⟩) hRemoves with
    ⟨-, output, hDelivered, -, hFile⟩ | ⟨_, -, hNone⟩
  · rw [hPath] at hFile
    refine ⟨output, hDelivered, hFile, ?_⟩
    exact Option.some.inj (hFile.symm.trans hShown)
  · rw [hPath, hShown] at hNone
    cases hNone

end Decompression

end ArchiveRescue
