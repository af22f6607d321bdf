import Mathlib
import ArchiveRescue.Proofs.Runs

/-
  How reports come to their verdicts.  A report that is told
  failures is decided by the first of them, and each of them
  has its line in the log.  This is what decides about a
  decompression, too.

  Key definitions include:
    * `Report.Evolves`
    * `Report.DecidedBy`
    * `Decompression.reported`

  Main statements:
    * `Report.Evolves.first`
    * `Report.Evolves.lines`
    * `Report.Evolves.decided`
    * `Decompression.decided_run`
-/

namespace ArchiveRescue

------------------------------------------------------------
-- Reports
------------------------------------------------------------

namespace Report

/-
  How a report comes about from another one: by lines that
  are logged, by notes, by putting an earlier log in front,
  by deciding for success, and by being told the listed
  failures, in this order.
-/
inductive Evolves
    (r : Report) : List Failure → Report → Prop
| still : Evolves r [] r
| log
    {told : List Failure}
    {s : Report}
    (severity : Severity)
    (message : String)
    (hEvolves : Evolves r told s) :
    Evolves r told (s.log severity message)
| note
    {told : List Failure}
    {s : Report}
    (change : Snapshot → Snapshot)
    (hEvolves : Evolves r told s) :
    Evolves r told (s.note change)
| prepend
    {told : List Failure}
    {s : Report}
    (earlier : List Line)
    (hEvolves : Evolves r told s) :
    Evolves r told (s.prepend earlier)
| succeed
    {told : List Failure}
    {s : Report}
    (hEvolves : Evolves r told s) :
    Evolves r told s.succeed
| fail
    {told : List Failure}
    {s : Report}
    (failure : Failure)
    (hEvolves : Evolves r told s) :
    Evolves r (told ++ [failure]) (s.fail failure)

/-
  The list of failures decides about a report: it is that of
  a success if the list is empty, the first of the list is
  the failure recorded, and each has its line, in order.
-/
structure DecidedBy
    (r : Report)
    (told : List Failure) : Prop where
  success_iff : r.success = true ↔ r.failure? = none
  first : r.failure? = told.head?
  lines :
    (told.map Failure.message).Sublist r.errors

section Evolving

variable {r s t : Report} {told later : List Failure}

/- What evolves further has been told more. -/
theorem Evolves.trans
    (hFirst : Evolves r told s)
    (hSecond : Evolves s later t) :
    Evolves r (told ++ later) t := by
  induction hSecond with
  | still =>
      rw [List.append_nil]
      exact hFirst
  | log severity message _ ih => exact ih.log severity message
  | note change _ ih => exact ih.note change
  | prepend earlier _ ih => exact ih.prepend earlier
  | succeed _ ih => exact ih.succeed
  | fail failure _ ih =>
      rw [← List.append_assoc]
      exact ih.fail failure

/- A line makes no difference to the failures told before. -/
theorem Evolves.chat
    (hEvolves : Evolves r told s)
    (hMore : Evolves s [] t) :
    Evolves r told t := by
  have hBoth := hEvolves.trans hMore
  rwa [List.append_nil] at hBoth

/- The messages of lines about failures, one line more. -/
theorem errors_log
    (r : Report)
    (severity : Severity)
    (message : String) :
    (r.log severity message).errors =
      if severity = .error then r.errors ++ [message]
      else r.errors := by
  unfold errors log
  rw [List.filter_append, List.map_append]
  cases severity <;> simp

theorem errors_fail
    (r : Report)
    (failure : Failure) :
    (r.fail failure).errors =
      r.errors ++ [failure.message] := by
  have hLogged := r.errors_log .error failure.message
  rw [if_pos rfl] at hLogged
  rw [← hLogged]
  unfold fail
  dsimp only
  split <;> rfl

theorem errors_succeed (r : Report) :
    r.succeed.errors = r.errors := by
  unfold succeed
  split <;> rfl

/- Each failure that a report is told has its line. -/
theorem Evolves.lines
    (hEvolves : Evolves r told s) :
    (told.map Failure.message).Sublist s.errors := by
  induction hEvolves with
  | still => exact List.nil_sublist _
  | log severity message _ ih =>
      rw [errors_log]
      split
      · exact ih.trans (List.sublist_append_left _ _)
      · exact ih
  | note change _ ih => exact ih
  | prepend earlier _ ih =>
      refine ih.trans ?_
      unfold errors Report.prepend
      rw [List.filter_append, List.map_append]
      exact List.sublist_append_right _ _
  | succeed _ ih =>
      rw [errors_succeed]
      exact ih
  | fail failure _ ih =>
      rw [errors_fail, List.map_append]
      exact ih.append (List.Sublist.refl _)

/- A report that has been told a failure keeps the first. -/
theorem failure?_fail
    (r : Report)
    (failure : Failure) :
    (r.fail failure).failure? =
      r.failure?.or (some failure) := by
  unfold Report.fail failure?
  cases hVerdict : r.verdict with
  | undecided => simp
  | succeeded => simp
  | failed first =>
      dsimp only [Report.error, Report.log]
      rw [hVerdict]
      rfl

theorem failure?_succeed (r : Report) :
    r.succeed.failure? = r.failure? := by
  unfold Report.succeed
  split
  · rfl
  next hOther =>
    unfold failure?
    cases hVerdict : r.verdict with
    | undecided => rfl
    | succeeded => rfl
    | failed first => exact (hOther first hVerdict).elim

/- So the failure recorded is the first of the list. -/
theorem Evolves.first
    (hFresh : r.failure? = none)
    (hEvolves : Evolves r told s) :
    s.failure? = told.head? := by
  induction hEvolves with
  | still => exact hFresh
  | log severity message _ ih => exact ih
  | note change _ ih => exact ih
  | prepend earlier _ ih => exact ih
  | succeed _ ih =>
      rw [failure?_succeed]
      exact ih
  | fail failure _ ih =>
      rw [failure?_fail, ih, List.head?_append]
      rfl

/- A failure that is recorded excludes success. -/
theorem success_of_failure
    {first : Failure}
    (hFirst : r.failure? = some first) :
    r.success = false := by
  unfold failure? at hFirst
  unfold success
  split at hFirst
  next hVerdict => rw [hVerdict]
  next => cases hFirst

/- There is success where none is recorded. -/
theorem success_succeed
    (hNone : r.failure? = none) :
    r.succeed.success = true := by
  unfold failure? at hNone
  unfold Report.succeed success
  cases hVerdict : r.verdict with
  | undecided => rfl
  | succeeded => rfl
  | failed first =>
      rw [hVerdict] at hNone
      cases hNone

/-
  So the list decides about a report that was undecided when
  it was new and is decided for success if the list is empty.
-/
theorem Evolves.decided
    (hFresh : r.failure? = none)
    (hEvolves : Evolves r told s)
    (hEnd : told = [] → s.success = true) :
    s.DecidedBy told := by
  have hFirst := hEvolves.first hFresh
  refine ⟨?_, hFirst, hEvolves.lines⟩
  rw [hFirst]
  cases told with
  | nil => simp [hEnd rfl]
  | cons first others =>
      simp [success_of_failure hFirst]

/- An earlier log in front makes no difference. -/
theorem DecidedBy.prepend
    (hDecided : r.DecidedBy told)
    (change : Snapshot → Snapshot)
    (earlier : List Line) :
    ((r.note change).prepend earlier).DecidedBy told where
  success_iff := hDecided.success_iff
  first := hDecided.first
  lines := by
    refine hDecided.lines.trans ?_
    unfold errors Report.prepend
    rw [List.filter_append, List.map_append]
    exact List.sublist_append_right _ _

end Evolving

end Report

------------------------------------------------------------
-- Decompressions
------------------------------------------------------------

namespace Decompression

open Bench Stage

section Runs

variable {codec : Codec} {options : DecompressionOptions}
variable {operation : String} {source : Source}
variable {sink : Sink} {disk : Disk}

/- Nothing is decided while a decompression is attempted. -/
theorem undecided_attempt
    {outcome : Outcome Nat}
    {tried : Bench}
    (hAttempt :
      (attempt codec options).perform
          (start options operation source sink disk) =
        (outcome, tried)) :
    tried.report.verdict = .undecided := by
  rcases hPrepare :
      preparation.perform
        (start options operation source sink disk) with
    ⟨failure | _, ready⟩
  · have hPrepares :=
      prepares_preparation
        (start options operation source sink disk)
    rw [hPrepare] at hPrepares
    rw [attempt_of_unprepared codec options hPrepare]
      at hAttempt
    cases hAttempt
    exact hPrepares.verdict
  · rw [attempt_of_prepared hPrepare] at hAttempt
    exact (undecided_algorithm hPrepare hAttempt).1

end Runs

/-
  The failures that the report of a decompression is told:
  the one that the attempt ends with, and that of giving up
  an output file afterwards.
-/
def reported
    (codec : Codec)
    (options : DecompressionOptions)
    (operation : String)
    (source : Source)
    (sink : Sink)
    (disk : Disk) : List Failure :=
  match
    (attempt codec options).perform
      (start options operation source sink disk)
  with
  | (.ok _, _) => []
  | (.error failure, tried) =>
      let failed := tried.telling (·.fail failure)
      if !options.keepPartial &&
          tried.report.snapshot.outputPath.isSome then
        match ((onSink Sink.discard).perform failed).1 with
        | .ok () => [failure]
        | .error later => [failure, later]
      else [failure]

/- They decide about it, for every source and sink. -/
theorem decided_run
    (codec : Codec)
    (options : DecompressionOptions)
    (operation : String)
    (source : Source)
    (sink : Sink)
    (disk : Disk) :
    (run codec options operation source sink
        disk).report.DecidedBy
      (reported codec options operation source sink disk) := by
  rcases hAttempt :
      (attempt codec options).perform
        (start options operation source sink disk) with
    ⟨outcome, tried⟩
  have hVerdict := undecided_attempt hAttempt
  have hFresh : tried.report.failure? = none := by
    unfold Report.failure?
    rw [hVerdict]
  rw [run_of_attempt hAttempt]
  unfold reported
  rw [hAttempt]
  cases outcome with
  | ok written =>
      refine
        Report.Evolves.decided hFresh
          (.note _ (.succeed (.log _ _ .still))) ?_
      intro _
      unfold settle Report.succeed Report.success
      dsimp only [telling, Report.note, Report.info,
        Report.log]
      rw [hVerdict]
  | error failure =>
      have hFailed :
          tried.report.Evolves [failure]
            (tried.report.fail failure) :=
        .fail failure .still
      unfold settle
      dsimp only
      split
      next hDiscards =>
        rcases hDiscard :
            (onSink Sink.discard).perform
              (tried.telling (·.fail failure)) with
          ⟨given, final⟩
        -- the sink is given up without a look at the report
        have hReport :
            final.report = tried.report.fail failure := by
          have hFinal := congrArg Prod.snd hDiscard
          unfold onSink at hFinal
          rw [perform_focus] at hFinal
          exact congrArg Bench.report hFinal.symm
        rw [← hReport] at hFailed
        cases given with
        | ok _ =>
            exact
              Report.Evolves.decided hFresh
                (.note _ hFailed) nofun
        | error later =>
            exact
              Report.Evolves.decided hFresh
                (.note _ (.fail later hFailed)) nofun
      next =>
        exact
          Report.Evolves.decided hFresh (.note _ hFailed) nofun

end Decompression

end ArchiveRescue
