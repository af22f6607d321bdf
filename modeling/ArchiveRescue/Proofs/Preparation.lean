import Mathlib
import ArchiveRescue.Decompression
import ArchiveRescue.Proofs.Sink

/-
  What a decompression does before its algorithm starts, and
  what is left of the destination when it fails there.  Both
  ends are verified and the framing is looked at.  None of
  this touches a file or moves a tape of a caller, but the
  cleaning up after a failure removes the output file even
  if nothing has been written to it.

  Key definitions include:
    * `Outlet.Stays`
    * `Bench.Prepares`
    * `Decompression.preparation`
    * `Decompression.start`
    * `Decompression.Removes`

  Main statements:
    * `Sink.stays_verify`
    * `Decompression.prepares_preparation`
    * `Decompression.preparation_ok_cases`
    * `Decompression.untouched_unless_removed`
-/

namespace ArchiveRescue

open Stage

------------------------------------------------------------
-- Outlets
------------------------------------------------------------

/-
  Between the outlets nothing that stood on the disk is gone
  or changed, and a file is still a file.  With a stream
  nothing at all is changed on the disk, and its tape has
  neither been written to nor moved.
-/
structure Outlet.Stays (o p : Outlet) : Prop where
  disk : o.2.Grows p.2
  file :
    ∀ path, o.1 = .file path → ∃ full, p.1 = .file full
  stream :
    ∀ tape start, o.1 = .stream tape start →
      o.2.Ticks p.2 ∧
        ∃ told begun,
          p.1 = .stream told begun ∧ tape.Wrote told []

namespace Outlet.Stays

variable {o p q : Outlet}

theorem refl (o : Outlet) : Outlet.Stays o o where
  disk := .refl o.2
  file path hFile := ⟨path, hFile⟩
  stream tape start hStream :=
    ⟨.refl o.2, tape, start, hStream, .refl tape⟩

theorem trans
    (hFirst : Outlet.Stays o p)
    (hSecond : Outlet.Stays p q) :
    Outlet.Stays o q where
  disk := hFirst.disk.trans hSecond.disk
  file path hFile := by
    rcases hFirst.file path hFile with ⟨full, hFull⟩
    exact hSecond.file full hFull
  stream tape start hStream := by
    rcases hFirst.stream tape start hStream with
      ⟨hTicks, told, begun, hTold, hWrote⟩
    rcases hSecond.stream told begun hTold with
      ⟨hAgain, last, final, hLast, hMore⟩
    exact
      ⟨hTicks.trans hAgain, last, final, hLast,
        hWrote.trans hMore⟩

/- A file may have got another path on a disk that grew. -/
theorem ofFile
    {d e : Disk}
    (path full : Path)
    (hGrows : d.Grows e) :
    Outlet.Stays (.file path, d) (.file full, e) where
  disk := hGrows
  file _ _ := ⟨full, rfl⟩
  stream := nofun

/- A stream may have got another start. -/
theorem ofStream
    (disk : Disk)
    {tape told : Tape}
    (start begun : Nat)
    (hWrote : tape.Wrote told []) :
    Outlet.Stays (.stream tape start, disk)
      (.stream told begun, disk) where
  disk := .refl disk
  file := nofun
  stream _ _ hStream := by
    cases hStream
    exact ⟨.refl disk, told, begun, rfl, hWrote⟩

end Outlet.Stays

/- Resolving an output path makes directories at most. -/
theorem grows_resolveOutput (path : Path) :
    Keeps Disk.Grows (resolveOutput path) := by
  intro disk
  unfold resolveOutput
  rw [perform_ofStep]
  split
  · exact .refl disk
  · split
    · exact .refl disk
    next parent _ =>
      have hGrows := disk.grows_makeDirectories parent
      split
      next hMade => rwa [hMade] at hGrows
      next hTried => rwa [hTried] at hGrows

/- The verification of an output leaves what is there. -/
theorem Sink.stays_verify :
    Keeps Outlet.Stays Sink.verify := by
  rintro ⟨sink, disk⟩
  unfold verify
  rw [perform_get_bind]
  cases sink with
  | file path =>
      dsimp only
      rcases hPerform :
          (onDisk (resolveOutput path)).perform
            (.file path, disk) with
        ⟨outcome, later⟩
      have hLater : Outlet.Stays (.file path, disk) later := by
        have hGrows := grows_resolveOutput path disk
        have hFinal := congrArg Prod.snd hPerform
        unfold onDisk at hFinal
        rw [perform_focus] at hFinal
        dsimp only at hFinal
        rw [← hFinal]
        exact .ofFile path path hGrows
      cases outcome with
      | error failure =>
          rw [perform_bind_error hPerform]
          exact hLater
      | ok full =>
          rw [perform_bind_ok hPerform, perform_modify_bind,
            perform_get_bind]
          have hFile :
              Outlet.Stays (.file path, disk)
                (.file full, later.2) :=
            .ofFile path full hLater.disk
          dsimp only
          split
          · exact hFile
          · exact hFile
  | stream tape start =>
      dsimp only
      split
      · exact .ofStream disk _ _ tape.wrote_tell
      · exact .ofStream disk _ _ tape.wrote_tell

------------------------------------------------------------
-- Benches
------------------------------------------------------------

/-
  Between the benches nothing has happened to the output, the
  source persists, and nothing has been decided.
-/
structure Bench.Prepares (b c : Bench) : Prop where
  source : b.source.Persists c.source
  outlet : Outlet.Stays (b.sink, b.disk) (c.sink, c.disk)
  verdict : c.report.verdict = b.report.verdict
  outputPath :
    c.report.snapshot.outputPath =
      b.report.snapshot.outputPath

namespace Bench.Prepares

variable {a b c : Bench}

theorem refl (b : Bench) : Bench.Prepares b b :=
  ⟨.refl _, .refl _, rfl, rfl⟩

theorem trans
    (hFirst : Bench.Prepares a b)
    (hSecond : Bench.Prepares b c) :
    Bench.Prepares a c where
  source := hFirst.source.trans hSecond.source
  outlet := hFirst.outlet.trans hSecond.outlet
  verdict := hSecond.verdict.trans hFirst.verdict
  outputPath := hSecond.outputPath.trans hFirst.outputPath

end Bench.Prepares

namespace Bench

section Ends

variable {b c : Bench} {α : Type} {outcome : Outcome α}

/- Work on the source is work on it alone. -/
theorem onSource_eq
    {stage : Stage Inlet α}
    (hStage : (onSource stage).perform b = (outcome, c)) :
    stage.perform (b.source, b.disk) =
        (outcome, (c.source, c.disk)) ∧
      c.sink = b.sink := by
  unfold onSource at hStage
  rw [perform_focus] at hStage
  cases hStage
  exact ⟨rfl, rfl⟩

/- So is work on the sink. -/
theorem onSink_eq
    {stage : Stage Outlet α}
    (hStage : (onSink stage).perform b = (outcome, c)) :
    stage.perform (b.sink, b.disk) =
        (outcome, (c.sink, c.disk)) ∧
      c.source = b.source := by
  unfold onSink at hStage
  rw [perform_focus] at hStage
  cases hStage
  exact ⟨rfl, rfl⟩

end Ends

/- Use of the source that changes nothing on the disk. -/
theorem prepares_onSource
    {α : Type}
    {stage : Stage Inlet α}
    (hStage : Keeps Inlet.Ticks stage) :
    Keeps Bench.Prepares (onSource stage) := by
  unfold onSource
  refine hStage.focus ?_
  intro b i hTicks
  refine ⟨hTicks.source, ?_, rfl, rfl⟩
  constructor
  · exact hTicks.disk.grows
  · exact fun path hFile => ⟨path, hFile⟩
  · exact fun tape start hStream =>
      ⟨hTicks.disk, tape, start, hStream, .refl tape⟩

/- Use of the sink that leaves what is there. -/
theorem prepares_onSink
    {α : Type}
    {stage : Stage Outlet α}
    (hStage : Keeps Outlet.Stays stage) :
    Keeps Bench.Prepares (onSink stage) := by
  unfold onSink
  refine hStage.focus ?_
  intro b o hStays
  exact ⟨.refl _, hStays, rfl, rfl⟩

theorem prepares_debug (message : String) :
    Keeps Bench.Prepares (debug message) := by
  intro b
  exact ⟨.refl _, .refl _, rfl, rfl⟩

end Bench

namespace Decompression

open Bench

/- All that is done before the algorithm. -/
def preparation : Stage Bench Unit := do
  verify
  inspect

theorem prepares_verify : Keeps Bench.Prepares verify := by
  unfold verify
  refine Keeps.bind (prepares_onSource Source.ticks_verify)
    ?_ Bench.Prepares.trans
  intro _
  refine Keeps.bind (prepares_onSink Sink.stays_verify) ?_
    Bench.Prepares.trans
  intro _
  exact prepares_debug _

theorem prepares_inspect : Keeps Bench.Prepares inspect := by
  unfold inspect
  refine Keeps.bind
    (prepares_onSource fun i => (Source.kept_framing i).ticks)
    ?_ Bench.Prepares.trans
  intro framing
  refine Keeps.bind ?_ ?_ Bench.Prepares.trans
  · intro b
    exact ⟨.refl _, .refl _, rfl, rfl⟩
  intro _
  refine Keeps.bind (prepares_debug _) ?_
    Bench.Prepares.trans
  intro _
  refine Keeps.bind (prepares_debug _) ?_
    Bench.Prepares.trans
  intro _ b
  split
  · exact .refl b
  · exact .refl b

/- It leaves the output as it is, also when it fails. -/
theorem prepares_preparation :
    Keeps Bench.Prepares preparation := by
  unfold preparation
  refine Keeps.bind prepares_verify ?_ Bench.Prepares.trans
  intro _
  exact prepares_inspect

/-
  If it succeeds, the source was verified, then the sink, and
  then a framing with the signature was found.
-/
theorem preparation_ok_cases
    {b ready : Bench}
    (hReady : preparation.perform b = (.ok (), ready)) :
    ∃ source disk later framing,
      Source.verify.perform (b.source, b.disk) =
          (.ok (), (source, disk)) ∧
        Sink.verify.perform (b.sink, disk) =
          (.ok (), (ready.sink, later)) ∧
        Source.framing.perform (source, later) =
          (.ok framing, (ready.source, ready.disk)) ∧
        framing.hasSignature = true := by
  unfold preparation at hReady
  rcases bind_ok_cases hReady with
    ⟨_, verified, hVerify, hInspect⟩
  unfold verify at hVerify
  rcases bind_ok_cases hVerify with
    ⟨_, first, hSource, hRest⟩
  rcases bind_ok_cases hRest with ⟨_, second, hSink, hDebug⟩
  cases hDebug
  rcases onSource_eq hSource with ⟨hSource, hKept⟩
  rcases onSink_eq hSink with ⟨hSink, hSame⟩
  unfold inspect at hInspect
  rcases bind_ok_cases hInspect with
    ⟨framing, third, hFraming, hRest⟩
  rcases onSource_eq (b := second.telling _) hFraming with
    ⟨hFraming, hStill⟩
  unfold debug at hRest
  rw [perform_modify_bind, perform_modify_bind,
    perform_modify_bind] at hRest
  split at hRest
  · cases hRest
  next hSignature =>
    cases hRest
    refine
      ⟨first.source, first.disk, second.disk, framing,
        hSource, ?_, ?_, by simpa using hSignature⟩
    · rw [← hKept, hSink]
      exact congrArg (fun s => (_, (s, _))) hStill.symm
    · rw [← hSame]
      exact hFraming

------------------------------------------------------------
-- Early Failures
------------------------------------------------------------

/- The bench that a run starts with. -/
def start
    (options : DecompressionOptions)
    (operation : String)
    (source : Source)
    (sink : Sink)
    (disk : Disk) : Bench :=
  let given := sink.describe (source.describe {})
  let report : Report :=
    { operation := operation, snapshot := given }
  { disk := disk
    source := source
    sink := sink
    report :=
      report.debug ("starting " ++ options.algorithm.name ++
        " decompression") }

/- What is left of a run is what settling leaves. -/
theorem run_of_attempt
    {codec : Codec}
    {options : DecompressionOptions}
    {operation : String}
    {source : Source}
    {sink : Sink}
    {disk : Disk}
    {outcome : Outcome Nat}
    {tried : Bench}
    (hAttempt :
      (attempt codec options).perform
          (start options operation source sink disk) =
        (outcome, tried)) :
    run codec options operation source sink disk =
      (settle options outcome tried).telling
        (·.note (settle options outcome tried).sink.describe) := by
  have hRun :
      run codec options operation source sink disk =
        (settle options
          ((attempt codec options).perform
            (start options operation source sink disk)).1
          ((attempt codec options).perform
            (start options operation source sink
              disk)).2).telling
          (·.note (settle options
            ((attempt codec options).perform
              (start options operation source sink disk)).1
            ((attempt codec options).perform
              (start options operation source sink
                disk)).2).sink.describe) :=
    rfl
  rw [hRun, hAttempt]

/- The algorithm is not reached. -/
theorem attempt_of_unprepared
    (codec : Codec)
    (options : DecompressionOptions)
    {b tried : Bench}
    {failure : Failure}
    (hFails :
      preparation.perform b = (.error failure, tried)) :
    (attempt codec options).perform b =
      (.error failure, tried) := by
  unfold preparation at hFails
  unfold attempt
  rcases hVerify : verify.perform b with ⟨outcome, verified⟩
  cases outcome with
  | error other =>
      rw [perform_bind_error hVerify] at hFails ⊢
      cases hFails
      rfl
  | ok _ =>
      rw [perform_bind_ok hVerify] at hFails ⊢
      exact perform_bind_error hFails _

/-
  The file that is removed after a failure: the one that the
  output path leads to by then.
-/
def Removes
    (options : DecompressionOptions)
    (b : Bench)
    (place : Location) : Prop :=
  options.keepPartial = false ∧
    ∃ path,
      b.sink = .file path ∧
        b.disk.locate path = .ok place ∧
        (b.disk.removeFile path).1 = .ok ()

/- Discarding a file removes it, if it can be removed. -/
theorem discard_cases
    (options : DecompressionOptions)
    {b : Bench}
    {path : Path}
    (hKeep : options.keepPartial = false)
    (hSink : b.sink = .file path)
    {place : Location}
    {node : Node}
    (hNode : b.disk.node? place = some node) :
    (Removes options b place ∧
        ((onSink Sink.discard).perform b).2.disk.node? place =
          none) ∨
      ¬ Removes options b place ∧
        ((onSink Sink.discard).perform b).2.disk.node? place =
          some node := by
  have hDisk :
      ((onSink Sink.discard).perform b).2.disk =
        (b.disk.removeFile path).2 := by
    unfold onSink
    rw [perform_focus, hSink, Sink.perform_discard_file]
  rw [hDisk]
  rcases b.disk.removeFile_cases path with
    ⟨there, hOk, hLeads, -, hGone⟩ |
      ⟨⟨fault, hRefused⟩, hGrows⟩
  · by_cases hPlace : place = there
    · subst hPlace
      refine .inl ⟨⟨hKeep, path, hSink, hLeads, hOk⟩, ?_⟩
      rw [hGone, if_pos rfl]
    · refine .inr ⟨?_, ?_⟩
      · rintro ⟨-, other, hOther, hMet, -⟩
        rw [hSink] at hOther
        cases hOther
        rw [hLeads] at hMet
        cases hMet
        exact hPlace rfl
      · rw [hGone, if_neg hPlace]
        exact hNode
  · refine .inr ⟨?_, hGrows.nodes place node hNode⟩
    rintro ⟨-, other, hOther, -, hOk⟩
    rw [hSink] at hOther
    cases hOther
    rw [hRefused] at hOk
    cases hOk

/- Without a discard a failure leaves the output alone. -/
theorem settle_kept
    {options : DecompressionOptions}
    {b : Bench}
    (hKept :
      options.keepPartial = true ∨
        b.report.snapshot.outputPath = none)
    (failure : Failure) :
    settle options (.error failure) b =
      b.telling (·.fail failure) := by
  unfold settle
  dsimp only
  rcases hKept with hKeep | hNone
  · rw [hKeep]
    rfl
  · rw [hNone]
    rw [if_neg (by simp)]

/- Otherwise the output is discarded. -/
theorem settle_discarded
    {options : DecompressionOptions}
    {b : Bench}
    (hKeep : options.keepPartial = false)
    (hPath : b.report.snapshot.outputPath.isSome)
    (failure : Failure) :
    (settle options (.error failure) b).disk =
        ((onSink Sink.discard).perform b).2.disk ∧
      (settle options (.error failure) b).sink =
        ((onSink Sink.discard).perform b).2.sink := by
  unfold settle
  dsimp only
  rw [hKeep, hPath, if_pos (by rfl)]
  rcases hDiscard :
      (onSink Sink.discard).perform
        (b.telling (·.fail failure)) with
    ⟨outcome, final⟩
  have hSame :
      final.disk = ((onSink Sink.discard).perform b).2.disk ∧
        final.sink =
          ((onSink Sink.discard).perform b).2.sink := by
    have hFinal := congrArg Prod.snd hDiscard
    unfold onSink at hFinal ⊢
    rw [perform_focus] at hFinal ⊢
    dsimp only at hFinal ⊢
    rw [← hFinal]
    exact ⟨rfl, rfl⟩
  cases outcome with
  | ok _ => exact hSame
  | error later => exact hSame

/- The first failure stays the one that is reported. -/
theorem verdict_fail
    {r : Report}
    (hVerdict : r.verdict = .undecided)
    (failure : Failure) :
    (r.fail failure).verdict = .failed failure := by
  unfold Report.fail
  dsimp only
  rw [hVerdict]

theorem verdict_fail_again
    {r : Report}
    {first : Failure}
    (hVerdict : r.verdict = .failed first)
    (failure : Failure) :
    (r.fail failure).verdict = .failed first := by
  unfold Report.fail
  dsimp only
  rw [hVerdict]
  exact hVerdict

theorem verdict_settle
    (options : DecompressionOptions)
    {b : Bench}
    (hVerdict : b.report.verdict = .undecided)
    (failure : Failure) :
    (settle options (.error failure) b).report.verdict =
      .failed failure := by
  have hFailed := verdict_fail hVerdict failure
  unfold settle
  dsimp only
  split
  · rcases hDiscard :
        (onSink Sink.discard).perform
          (b.telling (·.fail failure)) with
      ⟨outcome, final⟩
    have hReport : final.report = b.report.fail failure := by
      have hFinal := congrArg Prod.snd hDiscard
      unfold onSink at hFinal
      rw [perform_focus] at hFinal
      exact congrArg Bench.report hFinal.symm
    rw [← hReport] at hFailed
    cases outcome with
    | ok _ => exact hFailed
    | error later => exact verdict_fail_again hFailed later
  · exact hFailed

/-
  What becomes of the destination of a run that fails before
  its algorithm starts, for every source, sink, algorithm and
  disk.  The failure is reported.  The tape of a stream has
  neither been written to nor moved.  Whatever stood on the
  disk still stands there as it was, except that the file to
  which the output path leads is removed, unless partial
  output is kept or the removal is refused.
-/
theorem untouched_unless_removed
    (codec : Codec)
    {options : DecompressionOptions}
    {operation : String}
    {source : Source}
    {sink : Sink}
    {disk : Disk}
    {failure : Failure}
    {tried : Bench}
    (hFails :
      preparation.perform
          (start options operation source sink disk) =
        (.error failure, tried)) :
    (run codec options operation source sink
        disk).report.failure? = some failure ∧
      (∀ tape begun, sink = .stream tape begun →
        ∃ told final,
          (run codec options operation source sink
              disk).sink = .stream told final ∧
            told.bytes = tape.bytes ∧
            told.position = tape.position) ∧
      ∀ place node, disk.node? place = some node →
        (Removes options tried place ∧
            (run codec options operation source sink
              disk).disk.node? place = none) ∨
          ¬ Removes options tried place ∧
            (run codec options operation source sink
              disk).disk.node? place = some node := by
  have hPrepares :=
    prepares_preparation
      (start options operation source sink disk)
  rw [hFails] at hPrepares
  have hVerdict : tried.report.verdict = .undecided :=
    hPrepares.verdict
  have hRun :=
    run_of_attempt
      (attempt_of_unprepared codec options hFails)
  rw [hRun]
  refine ⟨?_, ?_, ?_⟩
  · have hSettled :=
      verdict_settle options hVerdict failure
    unfold Report.failure?
    dsimp only [telling, Report.note]
    rw [hSettled]
  · intro tape begun hSink
    subst hSink
    rw [settle_kept (.inr hPrepares.outputPath)]
    rcases hPrepares.outlet.stream tape begun rfl with
      ⟨-, told, final, hTold, hWrote⟩
    exact
      ⟨told, final, hTold, hWrote.nothing rfl,
        hWrote.position⟩
  · intro place node hNode
    have hThere :=
      hPrepares.outlet.disk.nodes place node hNode
    cases sink with
    | file path =>
        rcases hPrepares.outlet.file path rfl with
          ⟨full, hFull⟩
        cases hKeep : options.keepPartial with
        | false =>
            have hPath :
                tried.report.snapshot.outputPath.isSome := by
              rw [hPrepares.outputPath]
              rfl
            dsimp only [telling]
            rw [(settle_discarded hKeep hPath failure).1]
            exact discard_cases options hKeep hFull hThere
        | true =>
            rw [settle_kept (.inl hKeep)]
            refine .inr ⟨?_, hThere⟩
            rintro ⟨hDrop, -⟩
            rw [hKeep] at hDrop
            cases hDrop
    | stream tape begun =>
        rw [settle_kept (.inr hPrepares.outputPath)]
        refine .inr ⟨?_, hThere⟩
        rintro ⟨-, path, hFile, -⟩
        rcases hPrepares.outlet.stream tape begun rfl with
          ⟨-, told, final, hTold, -⟩
        rw [hFile] at hTold
        cases hTold

/- An input of plain text and a file of older results. -/
def plainInput : Disk where
  entries :=
    [(["text"], .file (Bytes.zeros 18) 0),
      (["old"], .file [0x41] 0)]

set_option maxRecDepth 100000 in
/- The older results are lost although nothing was written. -/
theorem plainInput_removes :
    ∃ failure,
      (run (.standard .blocking) {} "decompress"
          (.file ⟨"/text"⟩) (.file ⟨"/old"⟩)
          plainInput).report.failure? = some failure ∧
        plainInput.node? ["old"] = some (.file [0x41] 0) ∧
        (run (.standard .blocking) {} "decompress"
          (.file ⟨"/text"⟩) (.file ⟨"/old"⟩)
          plainInput).disk.node? ["old"] = none := by
  have hOutcome :
      (preparation.perform
        (start {} "decompress" (.file ⟨"/text"⟩)
          (.file ⟨"/old"⟩) plainInput)).1 =
        .error (.noSignature
          "00 00 00 00 00 00 00 00 00 00 (method=0, flags=0x00, mtime=unset, os=0)") := by
    decide +kernel
  have hNode :
      plainInput.node? ["old"] = some (.file [0x41] 0) := by
    decide
  have hGone :
      (run (.standard .blocking) {} "decompress"
        (.file ⟨"/text"⟩) (.file ⟨"/old"⟩)
        plainInput).disk.node? ["old"] = none := by
    decide +kernel
  rcases untouched_unless_removed (.standard .blocking)
      (Prod.ext hOutcome rfl) with
    ⟨hFailure, -, hNodes⟩
  rcases hNodes ["old"] _ hNode with ⟨-, hNone⟩ | ⟨-, hKept⟩
  · exact ⟨_, hFailure, hNode, hNone⟩
  · rw [hGone] at hKept
    cases hKept

end Decompression

end ArchiveRescue
