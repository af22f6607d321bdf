import Mathlib
import ArchiveRescue.Decompression.Sink
import ArchiveRescue.Proofs.Elsewhere
import ArchiveRescue.Proofs.Stage
import ArchiveRescue.Proofs.Writing

/-
  What using a sink does.  For each use there is one equation
  for files and one for streams.

  Key definitions include:
    * `Outlet.Runs`
    * `Sink.Use`

  Main statements:
    * `Sink.perform_reset_file`
    * `Sink.perform_reset_stream`
    * `Sink.perform_written_stream`
    * `Sink.runs_discard`
-/

namespace ArchiveRescue

open Stage

------------------------------------------------------------
-- What Stays of a Sink
------------------------------------------------------------

/-
  A file is the same file, and nothing else on the disk has
  been changed.  A stream is a stream with the same start,
  its tape has only heard more calls, and the disk has not
  been used.
-/
structure Outlet.Runs (o p : Outlet) : Prop where
  file :
    ∀ path, o.1 = .file path →
      p.1 = .file path ∧ o.2.AltersOnly path p.2
  stream :
    ∀ tape start, o.1 = .stream tape start →
      ∃ told,
        p = (.stream told start, o.2) ∧ tape.Follows told

namespace Outlet.Runs

theorem refl (o : Outlet) : Outlet.Runs o o where
  file path hFile := ⟨hFile, .refl path o.2⟩
  stream tape _ hStream :=
    ⟨tape, Prod.ext hStream rfl, .refl tape⟩

/- A file may have been changed. -/
theorem ofFile
    {path : Path}
    {d e : Disk}
    (hAlters : d.AltersOnly path e) :
    Outlet.Runs (.file path, d) (.file path, e) where
  file _ hFile := by
    cases hFile
    exact ⟨rfl, hAlters⟩
  stream := nofun

/- The tape of a stream may have heard more. -/
theorem ofStream
    {tape told : Tape}
    (start : Nat)
    (disk : Disk)
    (hFollows : tape.Follows told) :
    Outlet.Runs (.stream tape start, disk)
      (.stream told start, disk) where
  file := nofun
  stream _ _ hStream := by
    cases hStream
    exact ⟨told, rfl, hFollows⟩

end Outlet.Runs

namespace Sink

------------------------------------------------------------
-- Streams
------------------------------------------------------------

section Streams

variable (tape : Tape) (start : Nat) (disk : Disk)

theorem perform_begin_stream :
    begin.perform (.stream tape start, disk) =
      (.ok (), (.stream tape start, disk)) :=
  rfl

theorem perform_write_stream
    (origin : String)
    (bs : Bytes) :
    (write origin bs).perform (.stream tape start, disk) =
      (Outcome.ofFault origin (tape.writeAll bs).1,
        (.stream (tape.writeAll bs).2 start, disk)) :=
  rfl

theorem perform_flush_stream (origin : String) :
    (flush origin).perform (.stream tape start, disk) =
      (Outcome.ofFault origin tape.flush.1,
        (.stream tape.flush.2 start, disk)) :=
  rfl

/- The bytes written are counted from the start. -/
theorem perform_written_stream :
    written.perform (.stream tape start, disk) =
      ((Outcome.ofFault "output stream position"
          tape.tell.1).map (· - start),
        (.stream tape.tell.2 start, disk)) := by
  unfold written
  rw [perform_get_bind]
  dsimp only
  rw [perform_bind_pure]
  rfl

/- A stream is rewound and not cut. -/
theorem perform_reset_stream :
    reset.perform (.stream tape start, disk) =
      ((Outcome.ofFault "output stream reset"
          (tape.seek (.fromStart start)).1).map
            (fun _ => ()),
        (.stream (tape.seek (.fromStart start)).2 start,
          disk)) := by
  unfold reset
  rw [perform_get_bind]
  dsimp only
  rw [perform_bind_pure]
  rfl

/- Giving up a stream is rewinding it. -/
theorem perform_discard_stream :
    discard.perform (.stream tape start, disk) =
      reset.perform (.stream tape start, disk) := by
  unfold discard
  rw [perform_get_bind]

end Streams

------------------------------------------------------------
-- Files
------------------------------------------------------------

section Files

variable (path : Path) (disk : Disk)

/- A file is created or emptied to be written. -/
theorem perform_begin_file :
    begin.perform (.file path, disk) =
      (((disk.createFile path).1.mapError
          (cannot "create" path)).map (fun _ => ()),
        (.file path, (disk.createFile path).2)) := by
  unfold begin
  rw [perform_get_bind]
  dsimp only
  rw [perform_bind_pure]
  rfl

/- It is emptied to be reset, too. -/
theorem perform_reset_file :
    reset.perform (.file path, disk) =
      begin.perform (.file path, disk) :=
  rfl

theorem perform_write_file
    (origin : String)
    {bs : Bytes}
    {place : Location}
    (hSome : bs ≠ [])
    (hLeads : disk.locate path = .ok place) :
    (write origin bs).perform (.file path, disk) =
      ((disk.perform (.append place bs)).1.mapError
          (.faulted origin),
        (.file path,
          (disk.perform (.append place bs)).2)) := by
  unfold write
  rw [perform_get_bind]
  dsimp only
  rw [if_neg (by simpa using hSome)]
  dsimp only [callDisk, onDisk]
  rw [perform_focus, perform_ofStep]
  dsimp only
  rw [hLeads]

/- What leads nowhere cannot be written to. -/
theorem perform_write_lost
    (origin : String)
    {bs : Bytes}
    {fault : Fault}
    (hSome : bs ≠ [])
    (hLost : disk.locate path = .error fault) :
    (write origin bs).perform (.file path, disk) =
      (.error (.faulted origin fault),
        (.file path, disk)) := by
  unfold write
  rw [perform_get_bind]
  dsimp only
  rw [if_neg (by simpa using hSome)]
  dsimp only [callDisk, onDisk]
  rw [perform_focus, perform_ofStep]
  dsimp only
  rw [hLost]
  rfl

/- Counting leaves it as it is. -/
theorem written_file :
    (written.perform (.file path, disk)).2 =
      (.file path, disk) := by
  unfold written
  rw [perform_get_bind]
  dsimp only
  rw [perform_get_bind]
  dsimp only
  split <;> rfl

/- A file is given up by removing it. -/
theorem perform_discard_file :
    discard.perform (.file path, disk) =
      ((match (disk.removeFile path).1 with
          | .error (.system .noEntry) => .ok ()
          | reply =>
              reply.mapError
                (.faulted "output file removal")),
        (.file path, (disk.removeFile path).2)) := by
  unfold discard
  rw [perform_get_bind]
  dsimp only [callDisk, onDisk]
  rw [perform_focus, perform_ofStep]
  dsimp only
  rcases disk.removeFile path with ⟨reply, tried⟩
  cases reply with
  | ok _ => rfl
  | error fault =>
      dsimp only
      split
      next hGone =>
        cases hGone
        rfl
      next hOther =>
        dsimp only
        split
        next hGone =>
          cases hGone
          exact absurd rfl (hOther tried)
        next => rfl

end Files

------------------------------------------------------------
-- What Uses Leave
------------------------------------------------------------

/- The uses that algorithms make of a sink. -/
inductive Use : {α : Type} → Stage Outlet α → Prop where
  | begin : Use begin
  | write (origin : String) (bs : Bytes) :
      Use (write origin bs)
  | flush (origin : String) : Use (flush origin)
  | written : Use written
  | reset : Use reset
  | discard : Use discard

/- None of them does more than that. -/
theorem runs_begin : Keeps Outlet.Runs begin := by
  rintro ⟨sink, disk⟩
  cases sink with
  | file path =>
      rw [perform_begin_file]
      exact .ofFile fun _ => .createFile
  | stream tape start => exact .refl _

theorem runs_write
    (origin : String)
    (bs : Bytes) :
    Keeps Outlet.Runs (write origin bs) := by
  rintro ⟨sink, disk⟩
  cases sink with
  | file path =>
      by_cases hNone : bs = []
      · subst hNone
        exact .refl _
      · cases hLeads : disk.locate path with
        | error fault =>
            rw [perform_write_lost path disk origin hNone
              hLeads]
            exact .refl _
        | ok place =>
            rw [perform_write_file path disk origin hNone
              hLeads]
            refine .ofFile fun there hAdmits hSteady => ?_
            cases hLeads.symm.trans hAdmits.leads
            exact .append hAdmits hSteady bs
  | stream tape start =>
      rw [perform_write_stream]
      exact .ofStream start disk (tape.follows_writeAll bs)

theorem runs_flush (origin : String) :
    Keeps Outlet.Runs (flush origin) := by
  rintro ⟨sink, disk⟩
  cases sink with
  | file path => exact .refl _
  | stream tape start =>
      rw [perform_flush_stream]
      exact .ofStream start disk tape.follows_flush

theorem runs_written : Keeps Outlet.Runs written := by
  rintro ⟨sink, disk⟩
  cases sink with
  | file path =>
      rw [written_file]
      exact .refl _
  | stream tape start =>
      rw [perform_written_stream]
      exact .ofStream start disk (tape.follows_seek _)

theorem runs_reset : Keeps Outlet.Runs reset := by
  rintro ⟨sink, disk⟩
  cases sink with
  | file path =>
      rw [perform_reset_file]
      exact runs_begin (.file path, disk)
  | stream tape start =>
      rw [perform_reset_stream]
      exact .ofStream start disk (tape.follows_seek _)

theorem runs_discard : Keeps Outlet.Runs discard := by
  rintro ⟨sink, disk⟩
  cases sink with
  | file path =>
      rw [perform_discard_file]
      exact .ofFile fun _ => .removeFile
  | stream tape start =>
      rw [perform_discard_stream]
      exact runs_reset (.stream tape start, disk)

theorem runs_use
    {α : Type}
    {stage : Stage Outlet α}
    (hUse : Use stage) :
    Keeps Outlet.Runs stage := by
  cases hUse with
  | begin => exact runs_begin
  | write origin bs => exact runs_write origin bs
  | flush origin => exact runs_flush origin
  | written => exact runs_written
  | reset => exact runs_reset
  | discard => exact runs_discard

end Sink

end ArchiveRescue
