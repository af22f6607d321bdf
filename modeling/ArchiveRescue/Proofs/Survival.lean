import Mathlib
import ArchiveRescue.Proofs.OutletContents
import ArchiveRescue.Proofs.Wholeness

/-
  What becomes of the input of a decompression from a file to
  a file.  It is left alone, whatever faults are met, unless
  the output path leads to it.  If it does, the output is
  written over the input, and so the input is lost but for a
  few cases.

  Key definitions include:
    * `Disk.SameTree`
    * `Bench.Stalls`
    * `Decompression.aftermath`
    * `Decompression.Outlives`
    * `Decompression.ToFile.Overwrites`

  Main statements:
    * `Disk.SameTree.locate_iff`
    * `Bench.sameTree_upheld`
    * `Decompression.stalls_algorithm`
    * `Decompression.put_leaves`
    * `Decompression.input_outlives_iff`
-/

namespace ArchiveRescue

open Stage

------------------------------------------------------------
-- Trees of Directories
------------------------------------------------------------

namespace Disk

/- The same directories stand on both disks. -/
structure SameTree (d e : Disk) : Prop where
  settings : d.SameSettings e
  directories :
    ∀ place,
      e.node? place = some .directory ↔
        d.node? place = some .directory

namespace SameTree

variable {d e f : Disk}

theorem refl (d : Disk) : SameTree d d :=
  ⟨.refl d, fun _ => Iff.rfl⟩

theorem trans
    (hFirst : SameTree d e)
    (hSecond : SameTree e f) :
    SameTree d f where
  settings := hFirst.settings.trans hSecond.settings
  directories there :=
    (hSecond.directories there).trans
      (hFirst.directories there)

/- The same nodes make the same tree. -/
theorem of_ticks (hTicks : d.Ticks e) : SameTree d e where
  settings := hTicks.settings
  directories there := by rw [hTicks.node?_eq]

/- So does any change of what is no directory. -/
theorem of_place
    (place : Location)
    (hSettings : d.SameSettings e)
    (hBefore : d.node? place ≠ some .directory)
    (hAfter : e.node? place ≠ some .directory)
    (hOther :
      ∀ there, there ≠ place →
        e.node? there = d.node? there) :
    SameTree d e where
  settings := hSettings
  directories there := by
    by_cases hThere : there = place
    · subst hThere
      exact iff_of_false hAfter hBefore
    · rw [hOther there hThere]

/- Paths lead to the same places, there and back. -/
theorem locate_iff
    {p : Path}
    {place : Location}
    (hSame : SameTree d e) :
    e.locate p = .ok place ↔ d.locate p = .ok place := by
  have hBack : e.SameSettings d :=
    ⟨hSame.settings.workDir.symm, hSame.settings.trouble.symm⟩
  constructor
  · exact locate_grown
      (fun there => (hSame.directories there).mp) hBack
  · exact locate_grown
      (fun there => (hSame.directories there).mpr)
      hSame.settings

end SameTree

section Changes

variable {d : Disk} {place : Location}

/- A change is made or refused. -/
theorem sameTree_perform
    {change : Change}
    (hApply :
      ∀ e : Disk, (∀ there, e.node? there = d.node? there) →
        e.SameTree (e.apply change)) :
    d.SameTree (d.perform change).2 := by
  have hTicked : d.Ticks { d with turns := d.turns + 1 } :=
    ⟨rfl, rfl, rfl⟩
  unfold perform
  dsimp only
  split
  · exact .of_ticks hTicked
  · exact (SameTree.of_ticks hTicked).trans
      (hApply _ hTicked.node?_eq)

/- Emptying or writing a file makes no directory. -/
theorem sameTree_put
    (hFree : d.node? place ≠ some .directory)
    (data : Bytes)
    (modified : Int) :
    d.SameTree (d.put place (.file data modified)) := by
  have hPlace : place ≠ [] := by
    rintro rfl
    exact hFree rfl
  refine .of_place place ⟨rfl, rfl⟩ hFree ?_ ?_
  · rw [node?_put _ hPlace, if_pos rfl]
    simp
  · intro there hThere
    rw [node?_put _ hPlace, if_neg hThere]

theorem sameTree_create
    (hFree : d.node? place ≠ some .directory) :
    d.SameTree (d.perform (.create place)).2 :=
  sameTree_perform fun e hSame =>
    e.sameTree_put (hSame place ▸ hFree) [] 0

theorem sameTree_append
    (d : Disk)
    (place : Location)
    (more : Bytes) :
    d.SameTree (d.perform (.append place more)).2 := by
  refine sameTree_perform fun e _ => ?_
  unfold apply
  dsimp only
  split
  next data modified hFile =>
    exact e.sameTree_put (by simp [hFile]) _ _
  · exact .refl e

/- Neither does removing one. -/
theorem sameTree_remove
    (hFree : d.node? place ≠ some .directory) :
    d.SameTree (d.perform (.remove place)).2 := by
  refine sameTree_perform fun e hSame => ?_
  have hStill : e.node? place ≠ some .directory :=
    hSame place ▸ hFree
  have hPlace : place ≠ [] := by
    rintro rfl
    exact hStill rfl
  refine .of_place place ⟨rfl, rfl⟩ hStill ?_ ?_
  · dsimp only [apply]
    rw [node?_erase _ hPlace, if_pos rfl]
    simp
  · intro there hThere
    dsimp only [apply]
    rw [node?_erase _ hPlace, if_neg hThere]

theorem sameTree_createFile
    (d : Disk)
    (p : Path) :
    d.SameTree (d.createFile p).2 := by
  unfold createFile
  split
  · exact .refl d
  next place _ =>
    split
    · exact .refl d
    next hFree =>
      have hNone : d.node? place ≠ some .directory := by
        intro hThere
        exact hFree (by simp [holdsDirectory, hThere])
      have hCreate := sameTree_create hNone
      split
      next hRefused => rwa [hRefused] at hCreate
      next hMade => rwa [hMade] at hCreate

theorem sameTree_removeFile
    (d : Disk)
    (p : Path) :
    d.SameTree (d.removeFile p).2 := by
  unfold removeFile
  split
  · exact .refl d
  · split
    · exact .refl d
    · exact .refl d
    next hFile =>
      split
      · exact .refl d
      · exact sameTree_remove (by simp [hFile])

end Changes

end Disk

/- No use of a sink makes or takes away a directory. -/
theorem Sink.sameTree_use
    {α : Type}
    {stage : Stage Outlet α}
    (hUse : Sink.Use stage)
    (out : Path)
    (disk : Disk) :
    disk.SameTree (stage.perform (.file out, disk)).2.2 := by
  cases hUse with
  | begin =>
      rw [perform_begin_file]
      exact disk.sameTree_createFile out
  | write origin bs =>
      by_cases hNone : bs = []
      · subst hNone
        exact .refl disk
      · cases hLeads : disk.locate out with
        | error fault =>
            rw [perform_write_lost out disk origin hNone
              hLeads]
            exact .refl disk
        | ok place =>
            rw [perform_write_file out disk origin hNone
              hLeads]
            exact disk.sameTree_append place bs
  | flush origin => exact .refl disk
  | written =>
      rw [written_file]
      exact .refl disk
  | reset =>
      rw [perform_reset_file, perform_begin_file]
      exact disk.sameTree_createFile out
  | discard =>
      rw [perform_discard_file]
      exact disk.sameTree_removeFile out

namespace Bench

/- So no algorithm does. -/
theorem sameTree_upheld :
    Upheld (fun b c => b.disk.SameTree c.disk) where
  refl b := .refl b.disk
  trans := .trans
  source hUse b :=
    .of_ticks (hUse.ticks (b.source, b.disk)).disk
  sink := by
    intro α stage hUse b
    have hRuns := Sink.runs_use hUse (b.sink, b.disk)
    unfold onSink
    rw [perform_focus]
    dsimp only
    cases hSink : b.sink with
    | file out => exact Sink.sameTree_use hUse out b.disk
    | stream tape start =>
        rw [hSink] at hRuns
        rcases hRuns.stream tape start rfl with
          ⟨told, hSame, -⟩
        rw [hSame]
        exact .refl b.disk
  telling b _ _ _ := .refl b.disk

------------------------------------------------------------
-- Outputs That Cannot Be Created
------------------------------------------------------------

/- The sink has not been used. -/
structure Idles (b c : Bench) : Prop where
  sink : c.sink = b.sink
  disk : b.disk.Ticks c.disk

namespace Idles

variable {a b c : Bench}

theorem refl (b : Bench) : Idles b b :=
  ⟨rfl, .refl b.disk⟩

theorem trans
    (hFirst : Idles a b)
    (hSecond : Idles b c) :
    Idles a c :=
  ⟨hSecond.sink.trans hFirst.sink,
    hFirst.disk.trans hSecond.disk⟩

end Idles

/- Use of the source does not use the sink. -/
theorem idles_onSource
    {α : Type}
    {stage : Stage Inlet α}
    (hUse : Source.Use stage) :
    Keeps Idles (onSource stage) :=
  hUse.ticks.focus fun _ _ hTicks => ⟨rfl, hTicks.disk⟩

/- Neither does writing to the log. -/
theorem idles_debug (message : String) :
    Keeps Idles (debug message) :=
  fun b => ⟨rfl, .refl b.disk⟩

/- With such a file for its sink, the stage fails idly. -/
def Stalls
    {α : Type}
    (out : Path)
    (stage : Stage Bench α) : Prop :=
  ∀ b, b.sink = .file out →
    ∃ failure c,
      stage.perform b = (.error failure, c) ∧ Idles b c

namespace Stalls

variable {α β : Type} {out : Path}
variable {stage : Stage Bench α} {rest : α → Stage Bench β}

/- Nothing comes behind a stage that fails. -/
theorem bind_first (hStage : Stalls out stage) :
    Stalls out (stage >>= rest) := by
  intro b hSink
  rcases hStage b hSink with ⟨failure, c, hFails, hIdles⟩
  exact ⟨failure, c, perform_bind_error hFails rest, hIdles⟩

/- What comes before it may be idle. -/
theorem bind
    (hStage : Keeps Idles stage)
    (hRest : ∀ value, Stalls out (rest value)) :
    Stalls out (stage >>= rest) := by
  intro b hSink
  have hFirst := hStage b
  rcases hPerform : stage.perform b with ⟨outcome, c⟩
  rw [hPerform] at hFirst
  cases outcome with
  | error failure =>
      exact
        ⟨failure, c, perform_bind_error hPerform rest, hFirst⟩
  | ok value =>
      rcases hRest value c (hFirst.sink.trans hSink) with
        ⟨failure, d, hFails, hSecond⟩
      refine ⟨failure, d, ?_, hFirst.trans hSecond⟩
      rw [perform_bind_ok hPerform, hFails]

/- Another attempt may fail in the same way. -/
theorem tryCatch
    {other : Failure → Stage Bench α}
    (hStage : Stalls out stage)
    (hOther : ∀ failure, Stalls out (other failure)) :
    Stalls out (MonadExcept.tryCatch stage other) := by
  intro b hSink
  rcases hStage b hSink with ⟨first, c, hFails, hFirst⟩
  rcases hOther first c (hFirst.sink.trans hSink) with
    ⟨failure, d, hAgain, hSecond⟩
  refine ⟨failure, d, ?_, hFirst.trans hSecond⟩
  rw [perform_tryCatch_error hFails, hAgain]

end Stalls

/- No file is created at a path that ends with a slash. -/
theorem stalls_begin
    {out : Path}
    (hSlash : out.endsWithSlash = true) :
    Stalls out (onSink Sink.begin) := by
  rintro ⟨disk, source, sink, report⟩ hSink
  cases hSink
  have hRefused :
      ∃ fault, disk.createFile out = (.error fault, disk) := by
    unfold Disk.createFile
    cases disk.locate out with
    | error fault => exact ⟨fault, rfl⟩
    | ok place =>
        dsimp only
        rw [hSlash, Bool.or_true]
        exact ⟨_, rfl⟩
  rcases hRefused with ⟨fault, hRefused⟩
  refine ⟨cannot "create" out fault, _, ?_, .refl _⟩
  unfold onSink
  rw [perform_focus, Sink.perform_begin_file, hRefused]
  rfl

/- Neither is one emptied there. -/
theorem stalls_reset
    {out : Path}
    (hSlash : out.endsWithSlash = true) :
    Stalls out (onSink Sink.reset) := by
  rintro ⟨disk, source, sink, report⟩ hSink
  cases hSink
  exact stalls_begin hSlash ⟨disk, source, _, report⟩ rfl

end Bench

namespace Decompression

open Bench

section Stalls

variable {out : Path} (codec : Codec)

/- So every algorithm fails before it writes anything. -/
theorem stalls_logged
    (origin : String)
    {stage : Stage Bench Nat}
    (hStage : Stalls out stage) :
    Stalls out (logged origin stage) := by
  intro b hSink
  rcases hStage b hSink with ⟨failure, c, hFails, hIdles⟩
  rcases logged_eq origin hFails with ⟨change, hLogged⟩
  exact ⟨failure, c.telling change, hLogged, hIdles.sink,
    hIdles.disk⟩

theorem stalls_direct
    (hSlash : out.endsWithSlash = true) :
    Stalls out (direct codec) := by
  unfold direct
  apply stalls_logged
  refine .bind (idles_onSource .opened) fun _ => ?_
  exact (stalls_begin hSlash).bind_first

theorem stalls_refill
    (hSlash : out.endsWithSlash = true)
    (trimmed : Bytes) :
    Stalls out (refill codec trimmed) := by
  unfold refill
  refine .bind (idles_debug _) fun _ => ?_
  exact (stalls_reset hSlash).bind_first

theorem stalls_withoutCrc
    (hSlash : out.endsWithSlash = true) :
    Stalls out (withoutCrc codec) := by
  rw [withoutCrc_eq]
  apply stalls_logged
  refine .bind (idles_onSource .readAll) fun data => ?_
  unfold recover
  refine .bind (fun b => .refl b) fun framing => ?_
  split
  · exact
      .bind (idles_debug _) fun _ => stalls_refill codec hSlash _
  · exact stalls_refill codec hSlash _

theorem stalls_withRetry
    (hSlash : out.endsWithSlash = true) :
    Stalls out (withRetry codec) := by
  rw [withRetry_eq]
  refine .bind (idles_onSource .preserve) fun _ => ?_
  refine (stalls_direct codec hSlash).tryCatch fun _ => ?_
  unfold fallback
  refine .bind (fun b => ⟨rfl, .refl b.disk⟩) fun _ => ?_
  exact (stalls_reset hSlash).bind_first

theorem stalls_algorithm
    (hSlash : out.endsWithSlash = true)
    (which : Algorithm) :
    Stalls out (algorithm codec which) := by
  cases which with
  | direct => exact stalls_direct codec hSlash
  | withoutCrc => exact stalls_withoutCrc codec hSlash
  | withRetry => exact stalls_withRetry codec hSlash

end Stalls

------------------------------------------------------------
-- What a Run Leaves
------------------------------------------------------------

/- The bench that a run leaves, but for its report. -/
def aftermath
    (codec : Codec)
    (options : DecompressionOptions)
    (b : Bench) : Bench :=
  let (outcome, tried) := (attempt codec options).perform b
  remains options outcome tried

/- What a run leaves is that. -/
theorem run_aftermath
    (codec : Codec)
    (options : DecompressionOptions)
    (operation : String)
    (source : Source)
    (sink : Sink)
    (disk : Disk) :
    let b := start options operation source sink disk
    (run codec options operation source sink disk).disk =
        (aftermath codec options b).disk ∧
      (run codec options operation source sink disk).sink =
        (aftermath codec options b).sink := by
  unfold aftermath
  rcases hAttempt :
      (attempt codec options).perform
        (start options operation source sink disk) with
    ⟨outcome, tried⟩
  rw [run_of_attempt hAttempt]
  dsimp only
  rw [hAttempt]
  cases outcome with
  | ok n => exact ⟨rfl, rfl⟩
  | error failure =>
      exact settle_cleaned options tried failure

section Aftermath

variable (codec : Codec) (options : DecompressionOptions)
variable {relation : Bench → Bench → Prop}

/- All that follows the preparation uses the two ends. -/
theorem upheld_aftermath
    {b ready : Bench}
    {prepared : Outcome Unit}
    (hRelation : Bench.Upheld relation)
    (hPrepared :
      preparation.perform b = (prepared, ready)) :
    relation ready (aftermath codec options b) := by
  unfold aftermath
  cases prepared with
  | error failure =>
      rw [attempt_of_unprepared codec options hPrepared]
      exact
        upheld_remains hRelation options (.error failure) ready
  | ok _ =>
      rw [attempt_of_prepared hPrepared]
      exact hRelation.trans
        (keeps_algorithm hRelation codec options.algorithm
          ready)
        (upheld_remains hRelation options _ _)

end Aftermath

------------------------------------------------------------
-- Outputs That Are Not the Input
------------------------------------------------------------

/- Where no file is shown, none is given up. -/
theorem remains_slash
    (options : DecompressionOptions)
    (outcome : Outcome Nat)
    {b : Bench}
    {out : Path}
    (hSink : b.sink = .file out)
    (hSlash : out.endsWithSlash = true) :
    (remains options outcome b).disk = b.disk := by
  have hNone : b.disk.fileAt? out = none := by
    cases hShows : b.disk.fileAt? out with
    | none => rfl
    | some shown =>
        rcases Disk.fileAt?_cases hShows with
          ⟨place, modified, -, -, hPlain⟩
        cases hSlash.symm.trans hPlain
  unfold remains
  cases outcome with
  | ok n => rfl
  | error failure =>
      unfold cleaned
      dsimp only
      split
      · rw [discard_file hSink]
        exact Disk.removeFile_none hNone
      · rfl

section Files

variable {codec : Codec} {options : DecompressionOptions}
variable {input out full : Path} {disk : Disk}
variable {data : Bytes}

/- The output path leads to the input. -/
def ToFile.Overwrites
    (result : ToFile)
    (input : Path) : Prop :=
  ∃ place,
    result.disk.locate input = .ok place ∧
      result.disk.locate result.outputPath = .ok place ∧
      result.outputPath.endsWithSlash = false

/-
  A decompression from a file to a file, between the bench
  that was prepared for its algorithm and the bench that it
  leaves.  The input is still shown at first, and both files
  stay the same files.
-/
structure ToFile.Spans
    (result : ToFile)
    (input : Path)
    (data : Bytes)
    (ready left : Bench) : Prop where
  source : ready.source = .file input
  shows : ready.disk.fileAt? input = some data
  outputPath : ready.report.snapshot.outputPath.isSome
  sink : ready.sink = .file result.outputPath
  minds : Minds ready left
  tree : ready.disk.SameTree left.disk
  still : left.source = .file input
  stillSink : left.sink = .file result.outputPath
  disk : result.disk = left.disk

theorem toFile_spans
    (codec : Codec)
    (options : DecompressionOptions)
    (out : Path)
    {prepared : Outcome Unit}
    {ready : Bench}
    (hShows : disk.fileAt? input = some data)
    (hPrepared :
      preparation.perform
          (begun codec options (.file input) (.file out)
            disk) =
        (prepared, ready)) :
    (toFile codec options (.file input) out disk).Spans input
      data ready
      (aftermath codec options
        (begun codec options (.file input) (.file out)
          disk)) := by
  have hPrepares :=
    prepares_preparation
      (begun codec options (.file input) (.file out) disk)
  rw [hPrepared] at hPrepares
  rcases hPrepares.outlet.file out rfl with ⟨full, hFull⟩
  have hSource := hPrepares.source.file input rfl
  have hRuns :=
    upheld_aftermath codec options runs_upheld hPrepared
  have hLeft := (hRuns.file full hFull).1
  rcases run_aftermath codec options
      (operation codec.mode (.file input) "file")
      (.file input) (.file out) disk with
    ⟨hDisk, hSink⟩
  have hOut :
      (toFile codec options (.file input) out
        disk).outputPath = full := by
    have hFinal := hSink.trans hLeft
    unfold toFile
    dsimp only
    rw [hFinal]
  constructor
  · exact hSource
  · exact hPrepares.outlet.disk.fileAt?_eq hShows
  · rw [hPrepares.outputPath]
    rfl
  · rw [hOut]
    exact hFull
  · exact upheld_aftermath codec options minds_upheld hPrepared
  · exact
      upheld_aftermath codec options sameTree_upheld hPrepared
  · exact hRuns.source.file input hSource
  · rw [hOut]
    exact hLeft
  · exact hDisk

/-
  An input that the output path does not lead to is left
  alone, whatever faults are met.
-/
theorem input_kept
    (codec : Codec)
    (options : DecompressionOptions)
    (out : Path)
    (hShows : disk.fileAt? input = some data)
    (hApart :
      ¬ (toFile codec options (.file input) out
        disk).Overwrites input) :
    (toFile codec options (.file input) out
      disk).disk.fileAt? input = some data := by
  rcases hPrepared :
      preparation.perform
        (begun codec options (.file input) (.file out) disk)
    with ⟨prepared, ready⟩
  have hSpans :=
    toFile_spans codec options out hShows hPrepared
  rw [hSpans.disk]
  generalize hResult :
    toFile codec options (.file input) out disk = result
    at hSpans hApart
  cases hSlash : result.outputPath.endsWithSlash with
  | false =>
      have hFeeds : ready.source.Feeds ready.disk data := by
        rw [hSpans.source]
        exact .file hSpans.shows
      rcases hSpans.minds.feeds data hFeeds with
        hStill | ⟨path, full, place, hPath, hFull, hLeads,
          hOut, hPlain⟩
      · rw [hSpans.still] at hStill
        cases hStill with
        | file hLast => exact hLast
      · cases hSpans.still.symm.trans hPath
        cases hSpans.stillSink.symm.trans hFull
        rw [← hSpans.disk] at hLeads hOut
        exact absurd ⟨place, hLeads, hOut, hSlash⟩ hApart
  | true =>
      refine Disk.Grows.fileAt?_eq ?_ hSpans.shows
      unfold aftermath
      cases prepared with
      | error failure =>
          rw [attempt_of_unprepared codec options hPrepared]
          dsimp only
          rw [remains_slash options _ hSpans.sink hSlash]
          exact .refl ready.disk
      | ok _ =>
          rcases stalls_algorithm codec hSlash
              options.algorithm ready hSpans.sink with
            ⟨failure, tried, hTried, hIdles⟩
          rw [attempt_of_prepared hPrepared, hTried]
          dsimp only
          rw [remains_slash options _
            (hIdles.sink.trans hSpans.sink) hSlash]
          exact hIdles.disk.grows

end Files

------------------------------------------------------------
-- Outputs That Are the Input
------------------------------------------------------------

/- Paths that lead to one place show the same file. -/
theorem fileAt?_same
    {disk : Disk}
    {p q : Path}
    {place : Location}
    (hLeads : disk.locate p = .ok place)
    (hAlso : disk.locate q = .ok place)
    (hPlain : p.endsWithSlash = false)
    (hOther : q.endsWithSlash = false) :
    disk.fileAt? p = disk.fileAt? q := by
  unfold Disk.fileAt? Disk.look
  rw [hLeads, hAlso, hPlain, hOther]

/-
  What is left at the output path of what a decoder has
  delivered, as long as it is not given up: what was settled
  before a fault, or all of it, or no file if it is empty.
-/
def leavings
    (codec : Codec)
    (out : Path)
    (delivery : Gzip.Delivery) : Option Bytes :=
  match codec.faultOf delivery.verdict with
  | some _ =>
      some (codec.settled (.file out) delivery.bytes)
  | none =>
      if delivery.bytes = [] then none
      else some delivery.bytes

/- A file that is given up is there no longer. -/
theorem discard_gone
    {b : Bench}
    {out : Path}
    (hPermits : b.disk.trouble.Permits)
    (hSink : b.sink = .file out) :
    ((onSink Sink.discard).perform b).2.disk.fileAt? out =
      none := by
  rw [discard_file hSink]
  exact
    Disk.fileAt?_removeFile
      (fun turn place => hPermits turn (.remove place)) out

section Putting

variable (codec : Codec) {b : Bench} {out : Path}
variable {size : Nat} {below : Bytes}

/- What has been written to a file is shown. -/
theorem shows_of_bears
    {disk : Disk}
    {bs : Bytes}
    (hBears : Outlet.Bears size below bs (.file out, disk)) :
    disk.fileAt? out = some bs := by
  cases hBears with
  | file hAdmits hPermits hNode =>
      exact Disk.fileAt?_eq hAdmits.leads hNode hAdmits.plain

/- Putting what was delivered leaves that. -/
theorem put_leaves
    (origin : String)
    (delivery : Gzip.Delivery)
    (hSink : b.sink = .file out)
    (hPermits : b.disk.trouble.Permits)
    (hBears : Outlet.Bears size below [] (b.sink, b.disk))
    (hFits : delivery.bytes.length ≤ size) :
    ∃ c,
      ((put codec origin
            (delivery.bytes,
              codec.faultOf delivery.verdict)) >>= fun _ =>
          ensureNotEmpty origin).perform b =
          ((made codec origin delivery).map List.length, c) ∧
        c.disk.fileAt? out = leavings codec out delivery := by
  have hRuns :=
    keeps_put runs_upheld codec origin
      (delivery.bytes, codec.faultOf delivery.verdict) b
  have hSettings :=
    keeps_put settings_upheld codec origin
      (delivery.bytes, codec.faultOf delivery.verdict) b
  unfold made leavings
  cases hFault : codec.faultOf delivery.verdict with
  | some fault =>
      rcases put_broken codec origin delivery.bytes fault
          hBears with
        ⟨c, hPut, hLeft⟩
      rw [hFault, hPut] at hRuns
      rw [(hRuns.file out hSink).1, hSink] at hLeft
      exact
        ⟨c, perform_bind_error hPut _, shows_of_bears hLeft⟩
  | none =>
      rcases put_whole codec origin hBears hFits with
        ⟨⟨disk, source, sink, report⟩, hPut, counted, hCount,
          hLeft⟩
      rw [hFault, hPut] at hRuns hSettings
      cases (hRuns.file out hSink).1
      have hSame := Sink.written_file out disk
      rw [hCount] at hSame
      cases hSame
      rw [perform_bind_ok hPut]
      unfold ensureNotEmpty
      rw [perform_bind_ok (perform_onSink hCount)]
      dsimp only
      by_cases hNone : delivery.bytes = []
      · rw [if_pos hNone, if_pos hNone,
          if_pos (by rw [hNone]; rfl)]
        rcases hLeft.discard hFits with
          ⟨gone, hDiscard, -⟩
        have hGone :=
          discard_gone
            (b := ⟨disk, source, .file out, report⟩)
            (hSettings.trouble ▸ hPermits) rfl
        have hDone :=
          perform_onSink
            (b := ⟨disk, source, .file out, report⟩) hDiscard
        rw [hDone] at hGone
        rw [perform_bind_ok hDone]
        exact ⟨_, rfl, hGone⟩
      · rw [if_neg hNone, if_neg hNone, if_neg (fun hZero =>
          hNone (List.eq_nil_of_length_eq_zero hZero))]
        exact ⟨_, rfl, shows_of_bears hLeft⟩

end Putting

/-
  Both paths lead to one place, which is no directory, and
  nothing that is done there fails.
-/
structure Doubles
    (input out : Path)
    (place : Location)
    (b : Bench) : Prop where
  source : b.source = .file input
  sink : b.sink = .file out
  leads : b.disk.locate input = .ok place
  admits : b.disk.Admits out place
  plain : input.endsWithSlash = false
  permits : b.disk.trouble.Permits
  opens : b.disk.trouble.Opens

namespace Doubles

variable {input out : Path} {place : Location}
variable {data : Bytes} {b c : Bench}

/- What one path shows is shown by the other. -/
theorem same (hDoubles : Doubles input out place b) :
    b.disk.fileAt? input = b.disk.fileAt? out :=
  fileAt?_same hDoubles.leads hDoubles.admits.leads
    hDoubles.plain hDoubles.admits.plain

/- The file stands at the place. -/
theorem node
    (hDoubles : Doubles input out place b)
    (hShows : b.disk.fileAt? out = some data) :
    ∃ modified,
      b.disk.node? place = some (.file data modified) := by
  rcases Disk.fileAt?_cases hShows with
    ⟨there, modified, hThere, hNode, -⟩
  cases hDoubles.admits.leads.symm.trans hThere
  exact ⟨modified, hNode⟩

/- It can be read. -/
theorem holds
    (hDoubles : Doubles input out place b)
    (hShows : b.disk.fileAt? out = some data) :
    b.source.Holds b.disk data := by
  rcases hDoubles.node hShows with ⟨modified, hNode⟩
  rw [hDoubles.source]
  exact .file hDoubles.leads hNode hDoubles.plain

/- No use of the ends changes this. -/
theorem runs
    (hDoubles : Doubles input out place b)
    (hRuns : Runs b c)
    (hTree : b.disk.SameTree c.disk) :
    Doubles input out place c where
  source := hRuns.source.file input hDoubles.source
  sink := (hRuns.file out hDoubles.sink).1
  leads := hTree.locate_iff.mpr hDoubles.leads
  admits := by
    have hSame :=
      (hRuns.file out hDoubles.sink).2 place hDoubles.admits
        hDoubles.permits.steady
    exact hSame.admits hDoubles.admits
  plain := hDoubles.plain
  permits := hTree.settings.trouble ▸ hDoubles.permits
  opens := hTree.settings.trouble ▸ hDoubles.opens

end Doubles

section Doubled

variable (codec : Codec) {input out : Path}
variable {place : Location} {data : Bytes} {b : Bench}

/- When the output has been begun, the file is empty. -/
theorem begin_doubled
    (hDoubles : Doubles input out place b)
    (size : Nat) :
    ∃ c,
      (onSink Sink.begin).perform b = (.ok (), c) ∧
        Outlet.Bears size [] [] (c.sink, c.disk) ∧
        Doubles input out place c ∧
        c.disk.fileAt? out = some [] := by
  rcases Outlet.bears_created size [] hDoubles.admits
      hDoubles.permits with
    ⟨made, hBegin, hBears⟩
  have hShows := shows_of_bears hBears
  rw [← hDoubles.sink] at hBegin hBears
  have hDone := perform_onSink hBegin
  have hRuns := runs_upheld.sink .begin b
  have hTree := sameTree_upheld.sink .begin b
  rw [hDone] at hRuns hTree
  exact
    ⟨_, hDone, hBears, hDoubles.runs hRuns hTree, hShows⟩

/- Resetting the output does the same. -/
theorem reset_doubled (hDoubles : Doubles input out place b) :
    ∃ c,
      (onSink Sink.reset).perform b = (.ok (), c) ∧
        Doubles input out place c ∧
        c.disk.fileAt? out = some [] := by
  rcases begin_doubled hDoubles 0 with
    ⟨c, hBegin, -, hEmpty⟩
  refine ⟨c, ?_, hEmpty⟩
  rw [← hBegin]
  unfold onSink
  rw [perform_focus, perform_focus, hDoubles.sink,
    Sink.perform_reset_file]

/- Before that the whole input can be read. -/
theorem readAll_doubled
    (hDoubles : Doubles input out place b)
    (hShows : b.disk.fileAt? out = some data) :
    ∃ c,
      (onSource Source.readAll).perform b = (.ok data, c) ∧
        Doubles input out place c ∧
        c.disk.fileAt? out = some data := by
  rcases readAll_mates (hDoubles.holds hShows)
      (Source.opens_of_trouble _ hDoubles.opens) with
    ⟨c, hRead, hRuns⟩
  have hTree := sameTree_upheld.source .readAll b
  have hTicks := Source.kept_readAll (b.source, b.disk)
  rw [hRead] at hTree
  rw [(onSource_eq hRead).1] at hTicks
  exact
    ⟨c, hRead, hDoubles.runs hRuns hTree,
      hTicks.disk.grows.fileAt?_eq hShows⟩

/- What was opened before shows nothing later. -/
theorem fetch_doubled
    (hDoubles : Doubles input out place b)
    (hShows : b.disk.fileAt? out = some data)
    (size : Nat) :
    ∃ c,
      fetch.perform b = (.ok ([], none), c) ∧
        Outlet.Bears size [] [] (c.sink, c.disk) ∧
        Doubles input out place c := by
  rcases hDoubles.node hShows with ⟨modified, hNode⟩
  rcases Disk.openFile_eq
      (fun turn => hDoubles.opens turn place) hDoubles.leads
      hNode hDoubles.plain with
    ⟨tape, opened, hOpen, hSound, -⟩
  rcases Disk.openFile_shows (hDoubles.same.trans hShows)
      hOpen with
    ⟨there, hThere, -, hPosition, hAhead, hMedium⟩
  cases hDoubles.leads.symm.trans hThere
  have hOpened :
      (onSource Source.opened).perform b =
        (.ok (.file tape), { b with disk := opened }) := by
    have hStage := Source.opened_file hOpen
    rw [← hDoubles.source] at hStage
    exact perform_onSource hStage
  have hRuns := runs_upheld.source .opened b
  have hTree := sameTree_upheld.source .opened b
  rw [hOpened] at hRuns hTree
  rcases begin_doubled (hDoubles.runs hRuns hTree) size with
    ⟨c, hBegin, hBears, hBegun, hEmpty⟩
  -- The tape that was opened is that of the emptied file.
  rcases hBegun.node hEmpty with ⟨later, hMade⟩
  have hRefresh :
      c.disk.refresh tape = { tape with bytes := [] } := by
    unfold Disk.refresh
    rw [hMedium]
    dsimp only
    rw [hMade]
  have hEnds : Tape.Sound { tape with bytes := [] } := by
    refine ⟨hSound.calm, ?_⟩
    unfold Tape.InStep
    rw [hAhead]
    exact List.nil_prefix
  rcases hEnds.drain_eq with ⟨last, hDrain, -⟩
  rw [List.drop_nil] at hDrain
  have hDrained :
      (Source.drain (.file tape)).perform
          (c.source, c.disk) =
        (.ok ([], none), (c.source, c.disk)) := by
    unfold Source.drain
    rw [perform_ofStep]
    dsimp only
    rw [hRefresh, hDrain]
  refine ⟨c, ?_, hBears, hBegun⟩
  unfold fetch
  rw [perform_bind_ok hOpened, perform_bind_ok hBegin]
  exact perform_onSource hDrained

/- So the direct way has nothing to decode. -/
theorem direct_doubled
    (hDoubles : Doubles input out place b)
    (hShows : b.disk.fileAt? out = some data)
    (hNothing : (codec.gunzip []).bytes = []) :
    ∃ failure c,
      (direct codec).perform b = (.error failure, c) ∧
        ∀ shown, c.disk.fileAt? out = some shown →
          shown = [] := by
  rcases fetch_doubled hDoubles hShows 0 with
    ⟨first, hFetch, hBears, hBegun⟩
  rcases put_leaves codec directName (codec.gunzip [])
      hBegun.sink hBegun.permits hBears
      (by rw [hNothing]; exact Nat.le_refl 0) with
    ⟨c, hPut, hLeft⟩
  rw [← deliver_calm, ← perform_bind_ok hFetch (fun got => do
    put codec directName
      (codec.deliver codec.gunzip got.1 got.2)
    ensureNotEmpty directName)] at hPut
  rcases logged_eq directName hPut with ⟨change, hLogged⟩
  rw [← direct_eq] at hLogged
  unfold made at hLogged
  unfold leavings at hLeft
  rw [hNothing] at hLogged hLeft
  cases hFault : codec.faultOf (codec.gunzip []).verdict with
  | some fault =>
      rw [hFault] at hLogged hLeft
      refine ⟨_, _, hLogged, fun shown hShown => ?_⟩
      have hSettled := settled_length codec (.file out) []
      cases hLeft.symm.trans hShown
      exact List.eq_nil_of_length_eq_zero
        (Nat.le_zero.mp hSettled)
  | none =>
      rw [hFault] at hLogged hLeft
      dsimp only at hLogged
      rw [if_pos rfl] at hLogged hLeft
      refine ⟨_, _, hLogged, fun shown hShown => ?_⟩
      cases hLeft.symm.trans hShown

/- The way without checks writes what it has inflated. -/
theorem withoutCrc_doubled
    (hDoubles : Doubles input out place b)
    (hShows : b.disk.fileAt? out = some data)
    (hLong : Gzip.framingLength ≤ data.length) :
    ∃ c,
      (withoutCrc codec).perform b =
          ((made codec withoutCrcName
            (codec.inflate (payload data))).map
              List.length, c) ∧
        c.disk.fileAt? out =
          leavings codec out
            (codec.inflate (payload data)) := by
  rcases readAll_doubled hDoubles hShows with
    ⟨read, hRead, hStill, -⟩
  rcases recover_eq codec hLong read with ⟨change, hRecover⟩
  have hTold :
      Doubles input out place
        ((read.telling change).telling (·.debug
          ("raw-inflating " ++
            toString (payload data).length ++
            " byte(s) of trimmed payload"))) :=
    { hStill with }
  rcases reset_doubled hTold with ⟨first, hReset, hFirst, -⟩
  rcases begin_doubled hFirst
      (codec.inflate (payload data)).bytes.length with
    ⟨second, hBegin, hBears, hSecond, -⟩
  rcases put_leaves codec withoutCrcName
      (codec.inflate (payload data)) hSecond.sink
      hSecond.permits hBears (Nat.le_refl _) with
    ⟨c, hPut, hLeft⟩
  have hRefill :
      (recover codec data).perform read =
        ((made codec withoutCrcName
          (codec.inflate (payload data))).map List.length,
            c) := by
    rw [hRecover]
    unfold refill debug
    rw [perform_modify_bind, perform_bind_ok hReset,
      perform_bind_ok hBegin, deliver_calm, hPut]
  rw [← perform_bind_ok hRead (recover codec)] at hRefill
  rcases logged_eq withoutCrcName hRefill with
    ⟨note, hLogged⟩
  rw [withoutCrc_eq, hLogged]
  exact ⟨_, rfl, hLeft⟩

/-
  A retry finds the input empty, whatever its direct attempt
  has done, and there is no framing in it.
-/
theorem withRetry_doubled
    (hDoubles : Doubles input out place b)
    (hShows : b.disk.fileAt? out = some data)
    (hNothing : (codec.gunzip []).bytes = []) :
    ∃ failure c,
      (withRetry codec).perform b = (.error failure, c) ∧
        c.disk.fileAt? out = some [] := by
  have hPreserve :
      (onSource Source.preserve).perform b = (.ok (), b) := by
    have hStage :
        Source.preserve.perform (b.source, b.disk) =
          (.ok (), (b.source, b.disk)) := by
      rw [hDoubles.source]
      rfl
    exact perform_onSource hStage
  rcases direct_doubled codec hDoubles hShows hNothing with
    ⟨first, failed, hDirect, -⟩
  have hRuns := keeps_direct runs_upheld codec b
  have hTree := keeps_direct sameTree_upheld codec b
  rw [hDirect] at hRuns hTree
  have hTold :
      Doubles input out place
        (failed.telling
          (·.info "retrying without crc validation")) :=
    { hDoubles.runs hRuns hTree with }
  rcases reset_doubled hTold with
    ⟨again, hReset, hAgain, hEmpty⟩
  rcases readAll_doubled hAgain hEmpty with
    ⟨read, hRead, -, hStill⟩
  have hRecover :
      (recover codec []).perform read =
        (.error
          (.framingTooShort Gzip.framingLength 0), read) :=
    rfl
  rw [← perform_bind_ok hRead (recover codec)] at hRecover
  rcases logged_eq withoutCrcName hRecover with
    ⟨note, hLogged⟩
  rw [withRetry_eq, perform_bind_ok hPreserve,
    perform_tryCatch_error hDirect]
  unfold fallback
  rw [perform_modify_bind, perform_bind_ok hReset,
    perform_adapt, withoutCrc_eq, hLogged]
  exact ⟨_, _, rfl, hStill⟩

end Doubled

/-
  The cases in which the input is still there, although the
  output was written over it: the run has failed before, or
  what is written without checks is the input itself.
-/
inductive Outlives
    (codec : Codec)
    (options : DecompressionOptions)
    (out : Path)
    (data : Bytes) : Outcome Unit → Prop where
  | unreached
      (failure : Failure)
      (keeps : options.keepPartial = true) :
      Outlives codec options out data (.error failure)
  | rewritten
      (plain : options.algorithm = .withoutCrc)
      (keeps :
        options.keepPartial = true ∨
          (codec.inflate (payload data)).verdict = .complete)
      (same :
        leavings codec out (codec.inflate (payload data)) =
          some data) :
      Outlives codec options out data (.ok ())

/- After a failure a file is only left if it is to be kept. -/
theorem remains_shown
    (options : DecompressionOptions)
    {outcome : Outcome Nat}
    {b : Bench}
    {out : Path}
    (hPermits : b.disk.trouble.Permits)
    (hSink : b.sink = .file out)
    (hPath : b.report.snapshot.outputPath.isSome) :
    (remains options outcome b).disk.fileAt? out =
      if outcome.isOk ∨ options.keepPartial = true then
        b.disk.fileAt? out
      else none := by
  unfold remains cleaned
  cases outcome with
  | ok n => exact (if_pos (.inl rfl)).symm
  | error failure =>
      dsimp only
      rw [hPath]
      cases hKeep : options.keepPartial with
      | true => exact (if_pos (.inr rfl)).symm
      | false =>
          have hGone := discard_gone hPermits hSink
          refine hGone.trans (if_neg ?_).symm
          rintro (hOk | hFalse)
          · cases hOk
          · cases hFalse

/-
  Where something is left, the output was made if and only if
  the decoder came to its end.
-/
theorem made_isOk_iff
    {codec : Codec}
    {out : Path}
    {delivery : Gzip.Delivery}
    {data : Bytes}
    (origin : String)
    (hLeft : leavings codec out delivery = some data) :
    ((made codec origin delivery).map List.length).isOk =
        true ↔
      delivery.verdict = .complete := by
  rcases delivery with ⟨bytes, verdict⟩
  cases verdict with
  | complete =>
      refine iff_of_true ?_ rfl
      unfold leavings Codec.faultOf at hLeft
      unfold made Codec.faultOf
      dsimp only at hLeft ⊢
      by_cases hNone : bytes = []
      · rw [if_pos hNone] at hLeft
        cases hLeft
      · rw [if_neg hNone]
        rfl
  | cut flaw => exact iff_of_false nofun nofun
  | broken flaw => exact iff_of_false nofun nofun

section Overwritten

variable {codec : Codec} {options : DecompressionOptions}
variable {input out : Path} {place : Location}
variable {data : Bytes} {ready : Bench}

/-
  What an algorithm leaves of an input that it writes over,
  and that is not empty.
-/
theorem doubled_outlives_iff
    (hDoubles : Doubles input out place ready)
    (hShows : ready.disk.fileAt? out = some data)
    (hPath : ready.report.snapshot.outputPath.isSome)
    (hLong : Gzip.framingLength ≤ data.length)
    (hNothing : (codec.gunzip []).bytes = [])
    {outcome : Outcome Nat}
    {tried : Bench}
    (hTried :
      (algorithm codec options.algorithm).perform ready =
        (outcome, tried)) :
    (remains options outcome tried).disk.fileAt? out =
        some data ↔
      Outlives codec options out data (.ok ()) := by
  have hRuns := runs_algorithm codec options.algorithm ready
  have hTree :=
    keeps_algorithm sameTree_upheld codec options.algorithm
      ready
  rw [hTried] at hRuns hTree
  have hStill := hDoubles.runs hRuns hTree
  rw [remains_shown options hStill.permits hStill.sink
    (hRuns.outputPath ▸ hPath)]
  -- Neither way with checks leaves anything of the input.
  have hLost :
      options.algorithm ≠ .withoutCrc →
        (∀ shown, tried.disk.fileAt? out = some shown →
          shown = []) →
        ((if outcome.isOk ∨ options.keepPartial = true then
            tried.disk.fileAt? out
          else none) = some data ↔
          Outlives codec options out data (.ok ())) := by
    intro hOther hEmpty
    refine iff_of_false ?_ ?_
    · split
      · intro hSame
        rw [hEmpty data hSame] at hLong
        exact absurd hLong (by decide)
      · nofun
    · rintro (_ | ⟨hPlain, -, -⟩)
      exact hOther hPlain
  cases hWhich : options.algorithm with
  | direct =>
      rw [hWhich] at hTried
      rcases direct_doubled codec hDoubles hShows hNothing with
        ⟨failure, c, hDirect, hEmpty⟩
      cases hTried.symm.trans hDirect
      exact hLost (by simp [hWhich]) hEmpty
  | withRetry =>
      rw [hWhich] at hTried
      rcases withRetry_doubled codec hDoubles hShows hNothing
        with ⟨failure, c, hRetry, hEmpty⟩
      cases hTried.symm.trans hRetry
      refine hLost (by simp [hWhich]) fun shown hShown => ?_
      cases hEmpty.symm.trans hShown
      rfl
  | withoutCrc =>
      rw [hWhich] at hTried
      rcases withoutCrc_doubled codec hDoubles hShows hLong with
        ⟨c, hPlain, hLeft⟩
      cases hTried.symm.trans hPlain
      rw [hLeft]
      constructor
      · intro hSame
        split at hSame
        next hKeeps =>
          refine .rewritten hWhich ?_ hSame
          rcases hKeeps with hOk | hKeep
          · exact .inr ((made_isOk_iff _ hSame).mp hOk)
          · exact .inl hKeep
        · cases hSame
      · rintro (_ | ⟨-, hKeeps, hSame⟩)
        rw [if_pos]
        · exact hSame
        · rcases hKeeps with hKeep | hComplete
          · exact .inr hKeep
          · exact .inl ((made_isOk_iff _ hSame).mpr hComplete)

/- A run that has not reached its algorithm. -/
theorem unreached_outlives_iff
    (hDoubles : Doubles input out place ready)
    (hShows : ready.disk.fileAt? out = some data)
    (hPath : ready.report.snapshot.outputPath.isSome)
    (failure : Failure) :
    (remains options (.error failure) ready).disk.fileAt? out =
        some data ↔
      Outlives codec options out data (.error failure) := by
  rw [remains_shown options hDoubles.permits hDoubles.sink
    hPath]
  constructor
  · intro hSame
    split at hSame
    next hKeeps =>
      rcases hKeeps with hOk | hKeep
      · cases hOk
      · exact .unreached failure hKeep
    · cases hSame
  · rintro (⟨-, hKeep⟩ | _)
    rw [if_pos (.inr hKeep)]
    exact hShows

/- Where the output path leads to the input, it doubles it. -/
theorem ToFile.Spans.doubles
    {result : ToFile}
    {left : Bench}
    (hSpans : result.Spans input data ready left)
    (hOver : result.Overwrites input)
    (hPermits : ready.disk.trouble.Permits)
    (hOpens : ready.disk.trouble.Opens) :
    ∃ place,
      Doubles input result.outputPath place ready := by
  rcases hOver with ⟨place, hLeads, hOut, hPlainOut⟩
  rw [hSpans.disk] at hLeads hOut
  have hFirst := hSpans.tree.locate_iff.mp hLeads
  rcases Disk.fileAt?_cases hSpans.shows with
    ⟨there, modified, hThere, hNode, hPlain⟩
  cases hThere.symm.trans hFirst
  exact
    ⟨place,
      { source := hSpans.source
        sink := hSpans.sink
        leads := hFirst
        admits :=
          { leads := hSpans.tree.locate_iff.mp hOut
            free := by simp [Disk.holdsDirectory, hNode]
            plain := hPlainOut }
        plain := hPlain
        permits := hPermits
        opens := hOpens }⟩

end Overwritten

/-
  What becomes of the input of a decompression from a file to
  a file, for all paths, codecs, options and disks.  Whatever
  faults are met, the input is still there with its bytes
  unless the output path leads to it.  If it does, and if
  nothing is refused, the input is lost in all cases but
  these: the run has failed before its algorithm has started
  and keeps its output, or the output that is written without
  checks is the input itself.  The decoder of members is only
  asked to make nothing of nothing.
-/
theorem input_outlives_iff
    (codec : Codec)
    (options : DecompressionOptions)
    (out : Path)
    {input : Path}
    {disk : Disk}
    {data : Bytes}
    (hShows : disk.fileAt? input = some data)
    (hNothing : (codec.gunzip []).bytes = []) :
    let result := toFile codec options (.file input) out disk
    let prepared :=
      preparation.perform
        (begun codec options (.file input) (.file out) disk)
    (¬ result.Overwrites input →
        result.disk.fileAt? input = some data) ∧
      (disk.trouble.Permits → disk.trouble.Opens →
        result.Overwrites input →
        (result.disk.fileAt? input = some data ↔
          Outlives codec options result.outputPath data
            prepared.1)) := by
  dsimp only
  refine ⟨input_kept codec options out hShows, ?_⟩
  intro hPermits hOpens hOver
  rcases hPrepared :
      preparation.perform
        (begun codec options (.file input) (.file out) disk)
    with ⟨prepared, ready⟩
  have hSpans :=
    toFile_spans codec options out hShows hPrepared
  have hPrepares :=
    prepares_preparation
      (begun codec options (.file input) (.file out) disk)
  rw [hPrepared] at hPrepares
  have hTrouble : ready.disk.trouble = disk.trouble :=
    hPrepares.outlet.disk.settings.trouble
  rcases hSpans.doubles hOver (hTrouble ▸ hPermits)
      (hTrouble ▸ hOpens) with
    ⟨place, hDoubles⟩
  have hSame := hDoubles.same.symm.trans hSpans.shows
  have hLast :
      (toFile codec options (.file input) out
          disk).disk.fileAt? input =
        (aftermath codec options
          (begun codec options (.file input) (.file out)
            disk)).disk.fileAt?
          (toFile codec options (.file input) out
            disk).outputPath := by
    rcases hOver with ⟨there, hLeads, hOut, hPlainOut⟩
    rw [hSpans.disk] at hLeads hOut ⊢
    exact fileAt?_same hLeads hOut hDoubles.plain hPlainOut
  rw [hLast]
  unfold aftermath
  cases prepared with
  | error failure =>
      rw [attempt_of_unprepared codec options hPrepared]
      exact
        unreached_outlives_iff hDoubles hSame
          hSpans.outputPath failure
  | ok _ =>
      rcases preparation_holds
          (b := begun codec options (.file input) (.file out)
            disk) (.file input) hPrepared with
        ⟨held, hHolds, hLong⟩
      rw [hSpans.source] at hHolds
      have hHeld : held = data := by
        cases hHolds with
        | file hLeads hNode hPlain =>
            have hShown := Disk.fileAt?_eq hLeads hNode hPlain
            exact
              Option.some.inj (hShown.symm.trans hSpans.shows)
      subst hHeld
      rw [attempt_of_prepared hPrepared]
      exact
        doubled_outlives_iff hDoubles hSame hSpans.outputPath
          hLong hNothing rfl

/- An input of plain text. -/
def plainText : Disk where
  entries := [(["plain.gz"], .file (Bytes.zeros 18) 0)]

set_option maxRecDepth 100000 in
/- It is lost if it is the output as well. -/
theorem plainText_lost :
    plainText.fileAt? ⟨"/plain.gz"⟩ = some (Bytes.zeros 18) ∧
      (toFile (.standard .blocking) {} (.file ⟨"/plain.gz"⟩)
          ⟨"/plain.gz"⟩ plainText).disk.fileAt?
          ⟨"/plain.gz"⟩ ≠
        some (Bytes.zeros 18) := by
  have hShows :
      plainText.fileAt? ⟨"/plain.gz"⟩ =
        some (Bytes.zeros 18) := by
    decide +kernel
  have hNothing :
      ((Codec.standard .blocking).gunzip []).bytes = [] := by
    decide +kernel
  have hPermits : plainText.trouble.Permits :=
    fun _ _ => rfl
  have hOpens : plainText.trouble.Opens :=
    fun _ _ => ⟨.plain, rfl, Script.plain_isCalm⟩
  have hOver :
      (toFile (.standard .blocking) {} (.file ⟨"/plain.gz"⟩)
        ⟨"/plain.gz"⟩ plainText).Overwrites
          ⟨"/plain.gz"⟩ :=
    ⟨["plain.gz"], by decide +kernel, by decide +kernel,
      by decide +kernel⟩
  have hOutcome :
      (preparation.perform
        (begun (.standard .blocking) {} (.file ⟨"/plain.gz"⟩)
          (.file ⟨"/plain.gz"⟩) plainText)).1 =
        .error (.noSignature
          "00 00 00 00 00 00 00 00 00 00 (method=0, flags=0x00, mtime=unset, os=0)") := by
    decide +kernel
  refine ⟨hShows, fun hSame => ?_⟩
  have hOutlives :=
    ((input_outlives_iff (.standard .blocking) {}
      ⟨"/plain.gz"⟩ hShows hNothing).2 hPermits hOpens
      hOver).mp hSame
  rw [hOutcome] at hOutlives
  rcases hOutlives with ⟨-, hKeep⟩ | _
  cases hKeep

end Decompression

end ArchiveRescue
