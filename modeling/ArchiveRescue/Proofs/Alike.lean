import Mathlib
import ArchiveRescue.Extraction.Round
import ArchiveRescue.Proofs.Bisimulation

/-
  Disks and walks that differ in nothing an extraction can
  tell: in how many changes were tried, in the log, and in
  the tape.  Every step that does not read the tape does the
  same to both, and tells both reports the same.

  Key definitions include:
    * `Trouble.Steady`
    * `Disk.Alike`
    * `Disk.AlikeAfter`
    * `Report.IsBisimulation`
    * `Walk.Alike`
    * `Walk.Matched`
    * `Walk.MatchedAfter`

  Main statements:
    * `Disk.Alike.isBisimulation`
    * `Walk.Matched.beginFile`
    * `Walk.Matched.settleFile`
    * `Walk.Matched.makeDirectory`
-/

namespace ArchiveRescue

open Ustar

/- Whether a change is refused does not depend on when. -/
def Trouble.Steady (trouble : Trouble) : Prop :=
  ∀ sooner later change,
    trouble.refuses later change =
      trouble.refuses sooner change

namespace Disk

------------------------------------------------------------
-- Disks
------------------------------------------------------------

/-
  Two disks that hold the same and refuse the same.  They may
  have counted different numbers of changes if refusals do
  not depend on that.
-/
structure Alike (d e : Disk) : Prop where
  entries : e.entries = d.entries
  workDir : e.workDir = d.workDir
  trouble : e.trouble = d.trouble
  turns : e.turns = d.turns ∨ d.trouble.Steady

/- Two operations with the same result that leave alike disks. -/
def AlikeAfter
    {α : Type}
    (x y : α × Disk) : Prop :=
  y.1 = x.1 ∧ x.2.Alike y.2

namespace Alike

variable {d e f : Disk}

/- Every disk is like itself. -/
theorem refl (d : Disk) : Alike d d :=
  ⟨rfl, rfl, rfl, .inl rfl⟩

/- Likeness can be turned around and chained. -/
theorem symm (hAlike : Alike d e) : Alike e d where
  entries := hAlike.entries.symm
  workDir := hAlike.workDir.symm
  trouble := hAlike.trouble.symm
  turns := by
    rw [hAlike.trouble]
    exact hAlike.turns.imp_left Eq.symm

theorem trans
    (hFirst : Alike d e)
    (hSecond : Alike e f) :
    Alike d f where
  entries := hSecond.entries.trans hFirst.entries
  workDir := hSecond.workDir.trans hFirst.workDir
  trouble := hSecond.trouble.trans hFirst.trouble
  turns := by
    have hTurns := hSecond.turns
    rw [hFirst.trouble] at hTurns
    rcases hFirst.turns with hSame | hSteady
    · rw [← hSame]
      exact hTurns
    · exact .inr hSteady

/- Alike disks show the same nodes. -/
theorem node?_eq
    (hAlike : Alike d e)
    (place : Location) :
    e.node? place = d.node? place := by
  unfold node?
  rw [hAlike.entries]

theorem absolute_eq
    (hAlike : Alike d e)
    (p : Path) :
    e.absolute p = d.absolute p := by
  unfold absolute
  rw [hAlike.workDir]

/- A change has the same effect on both. -/
theorem apply
    (hAlike : Alike d e)
    (change : Change) :
    Alike (d.apply change) (e.apply change) := by
  have hPut : ∀ place node,
      Alike (d.put place node) (e.put place node) := by
    intro place node
    refine ⟨?_, hAlike.workDir, hAlike.trouble,
      hAlike.turns⟩
    unfold put erase
    rw [hAlike.entries]
  have hErase : ∀ place,
      Alike (d.erase place) (e.erase place) := by
    intro place
    refine ⟨?_, hAlike.workDir, hAlike.trouble,
      hAlike.turns⟩
    unfold erase
    rw [hAlike.entries]
  unfold Disk.apply
  cases change with
  | makeDirectory place => exact hPut place _
  | create place => exact hPut place _
  | append place more =>
      dsimp only
      rw [hAlike.node?_eq]
      split
      · exact hPut place _
      · exact hAlike
  | remove place => exact hErase place
  | removeDirectory place => exact hErase place

/- Counting a change leaves disks alike. -/
theorem ticked (hAlike : Alike d e) :
    Alike { d with turns := d.turns + 1 }
      { e with turns := e.turns + 1 } :=
  ⟨hAlike.entries, hAlike.workDir, hAlike.trouble,
    hAlike.turns.imp_left (congrArg (· + 1))⟩

/- The same changes are refused. -/
theorem perform
    (hAlike : Alike d e)
    (change : Change) :
    AlikeAfter (d.perform change) (e.perform change) := by
  have hRefuses :
      e.trouble.refuses e.turns change =
        d.trouble.refuses d.turns change := by
    rw [hAlike.trouble]
    rcases hAlike.turns with hSame | hSteady
    · rw [hSame]
    · exact hSteady _ _ change
  unfold Disk.perform
  dsimp only
  rw [hRefuses]
  split
  · exact ⟨rfl, hAlike.ticked⟩
  · exact ⟨rfl, hAlike.ticked.apply change⟩

/- So every operation goes alike on both. -/
theorem isBisimulation : IsBisimulation Alike where
  workDir hAlike := hAlike.workDir
  kinds hAlike place := by
    rw [hAlike.node?_eq]
    exact .refl _
  perform hAlike change _ := hAlike.perform change

theorem holdsDirectory_eq
    (hAlike : Alike d e)
    (place : Location) :
    e.holdsDirectory place = d.holdsDirectory place :=
  isBisimulation.holdsDirectory_eq hAlike place

theorem locate_eq
    (hAlike : Alike d e)
    (p : Path) :
    e.locate p = d.locate p :=
  isBisimulation.locate_eq hAlike p

theorem look_eq
    (hAlike : Alike d e)
    (p : Path) :
    e.look p = d.look p := by
  unfold look
  rw [hAlike.locate_eq]
  split
  · rfl
  · rw [hAlike.node?_eq]

theorem fileSize_eq
    (hAlike : Alike d e)
    (p : Path) :
    e.fileSize p = d.fileSize p := by
  unfold fileSize
  rw [hAlike.look_eq]

theorem isEmptyDirectory_eq
    (hAlike : Alike d e)
    (p : Path) :
    e.isEmptyDirectory p = d.isEmptyDirectory p :=
  isBisimulation.isEmptyDirectory_eq hAlike p

theorem makeDirectories
    (hAlike : Alike d e)
    (p : Path) :
    AlikeAfter (d.makeDirectories p)
      (e.makeDirectories p) :=
  isBisimulation.makeDirectories hAlike p

theorem removeDirectory
    (hAlike : Alike d e)
    (p : Path) :
    AlikeAfter (d.removeDirectory p)
      (e.removeDirectory p) :=
  isBisimulation.removeDirectory hAlike p

theorem createFile
    (hAlike : Alike d e)
    (p : Path) :
    AlikeAfter (d.createFile p) (e.createFile p) :=
  isBisimulation.createFile hAlike p

theorem removeFile
    (hAlike : Alike d e)
    (p : Path) :
    AlikeAfter (d.removeFile p) (e.removeFile p) :=
  isBisimulation.removeFile hAlike p

end Alike

end Disk

------------------------------------------------------------
-- Reports
------------------------------------------------------------

namespace Report

/-
  A relation between reports that lasts as long as both are
  told the same.
-/
structure IsBisimulation
    (R : Report → Report → Prop) : Prop where
  log :
    ∀ {r s : Report} (severity : Severity) (message : String),
      R r s →
        R (r.log severity message) (s.log severity message)
  fail :
    ∀ {r s : Report} (failure : Failure),
      R r s → R (r.fail failure) (s.fail failure)
  succeed :
    ∀ {r s : Report}, R r s → R r.succeed s.succeed

/- Two reports with the same verdict. -/
def SameVerdict (r s : Report) : Prop :=
  s.verdict = r.verdict

theorem sameVerdict_isBisimulation :
    IsBisimulation SameVerdict where
  log _ _ hSame := hSame
  fail failure hSame := by
    unfold SameVerdict at hSame ⊢
    unfold fail
    dsimp only
    rw [hSame]
    split
    · exact hSame
    · rfl
  succeed hSame := by
    unfold SameVerdict at hSame ⊢
    unfold succeed
    rw [hSame]
    split
    · exact hSame
    · rfl

end Report

namespace Walk

------------------------------------------------------------
-- Walks
------------------------------------------------------------

/-
  Two walks that have come equally far and differ at most in
  their tapes, in what they have logged and in how many
  changes their disks have counted.
-/
structure Alike (w v : Walk) : Prop where
  disk : w.disk.Alike v.disk
  directory : v.directory = w.directory
  options : v.options = w.options
  verdict : v.report.verdict = w.report.verdict
  expected : v.expected = w.expected
  extracted : v.extracted = w.extracted
  failures : v.failures = w.failures

namespace Alike

variable {u v w : Walk}

/- Every walk is like itself. -/
theorem refl (w : Walk) : Alike w w :=
  ⟨.refl w.disk, rfl, rfl, rfl, rfl, rfl, rfl⟩

/- Likeness can be turned around and chained. -/
theorem symm (hAlike : Alike w v) : Alike v w where
  disk := hAlike.disk.symm
  directory := hAlike.directory.symm
  options := hAlike.options.symm
  verdict := hAlike.verdict.symm
  expected := hAlike.expected.symm
  extracted := hAlike.extracted.symm
  failures := hAlike.failures.symm

theorem trans
    (hFirst : Alike u v)
    (hSecond : Alike v w) :
    Alike u w where
  disk := hFirst.disk.trans hSecond.disk
  directory := hSecond.directory.trans hFirst.directory
  options := hSecond.options.trans hFirst.options
  verdict := hSecond.verdict.trans hFirst.verdict
  expected := hSecond.expected.trans hFirst.expected
  extracted := hSecond.extracted.trans hFirst.extracted
  failures := hSecond.failures.trans hFirst.failures

/- Where the tape stands makes no difference. -/
theorem onTape
    (w : Walk)
    (tape : Tape) :
    Alike w { w with tape := tape } :=
  { refl w with }

end Alike

/-
  Two such walks with reports in some relation.  They are
  alike if these have the same verdict.
-/
structure Matched
    (R : Report → Report → Prop)
    (w v : Walk) : Prop where
  disk : w.disk.Alike v.disk
  directory : v.directory = w.directory
  options : v.options = w.options
  report : R w.report v.report
  expected : v.expected = w.expected
  extracted : v.extracted = w.extracted
  failures : v.failures = w.failures

/- Two steps with the same result that leave such walks. -/
def MatchedAfter
    (R : Report → Report → Prop)
    {α : Type}
    (x y : α × Walk) : Prop :=
  y.1 = x.1 ∧ Matched R x.2 y.2

theorem Alike.matched
    {w v : Walk}
    (hAlike : w.Alike v) :
    Matched Report.SameVerdict w v :=
  { hAlike with report := hAlike.verdict }

theorem Matched.alike
    {w v : Walk}
    (hMatched : Matched Report.SameVerdict w v) :
    w.Alike v :=
  { hMatched with verdict := hMatched.report }

------------------------------------------------------------
-- Steps
------------------------------------------------------------

namespace Matched

variable {R : Report → Report → Prop} {v w : Walk}

/- What they are told has to keep their reports related. -/
theorem telling
    {change other : Report → Report}
    (hMatched : Matched R w v)
    (hReport : R (change w.report) (other v.report)) :
    Matched R (w.telling change) (v.telling other) :=
  { hMatched with report := hReport }

theorem onDisk
    {d e : Disk}
    (hMatched : Matched R w v)
    (hDisk : d.Alike e) :
    Matched R (w.onDisk d) (v.onDisk e) :=
  { hMatched with disk := hDisk }

/- The same directories are made for a file. -/
theorem makeParents
    (hMatched : Matched R w v)
    (target : Path) :
    MatchedAfter R (w.makeParents target)
      (v.makeParents target) := by
  unfold Walk.makeParents
  split
  · exact ⟨rfl, hMatched⟩
  next parent _ =>
    have hMake := hMatched.disk.makeDirectories parent
    dsimp only
    rw [hMake.1]
    exact ⟨rfl, hMatched.onDisk hMake.2⟩

/- The same files are begun. -/
theorem beginFile
    (hMatched : Matched R w v)
    (target : Path) :
    MatchedAfter R (w.beginFile target)
      (v.beginFile target) := by
  have hParents := hMatched.makeParents target
  unfold Walk.beginFile
  rcases hFirst : w.makeParents target with ⟨made, ready⟩
  rcases hOther : v.makeParents target with ⟨made', ready'⟩
  rw [hFirst, hOther] at hParents
  rcases hParents with ⟨rfl, hReady⟩
  cases made' with
  | error failure => exact ⟨rfl, hReady⟩
  | ok _ =>
      dsimp only at hReady ⊢
      have hCreate := hReady.disk.createFile target
      rw [hCreate.1]
      exact ⟨rfl, hReady.onDisk hCreate.2⟩

variable (hReports : Report.IsBisimulation R)

include hReports

/- The same line is logged. -/
theorem log
    (hMatched : Matched R w v)
    (severity : Severity)
    (message : String) :
    Matched R (w.telling (·.log severity message))
      (v.telling (·.log severity message)) :=
  hMatched.telling (hReports.log _ _ hMatched.report)

/- The same failures are recorded. -/
theorem entryFailed
    (hMatched : Matched R w v)
    (name : String)
    (source : Failure) :
    Matched R (w.entryFailed name source)
      (v.entryFailed name source) :=
  { hMatched with
    report := hReports.log _ _ hMatched.report
    failures := by
      simp only [Walk.entryFailed, survive,
        hMatched.failures] }

/- The same files are kept and removed. -/
theorem removePartial
    (hMatched : Matched R w v)
    (target : Path) :
    Matched R (w.removePartial target)
      (v.removePartial target) := by
  have hRemove := hMatched.disk.removeFile target
  have hRemoved := hMatched.onDisk hRemove.2
  unfold Walk.removePartial
  dsimp only
  rw [hRemove.1]
  split
  · exact hRemoved
  · exact hRemoved
  · exact hRemoved.log hReports _ _

theorem settleFile
    (hMatched : Matched R w v)
    (c : Cursor)
    (name : String)
    (target : Path)
    (copied : Outcome Unit) :
    MatchedAfter R (w.settleFile c name target copied)
      (v.settleFile c name target copied) := by
  have hSize : v.ensureNotEmpty target =
      w.ensureNotEmpty target := by
    unfold ensureNotEmpty
    rw [hMatched.disk.fileSize_eq]
  unfold Walk.settleFile
  dsimp only
  rw [hSize]
  split
  · refine ⟨rfl, ?_⟩
    exact
      { hMatched.log hReports _ _ with
        extracted := by
          dsimp only [Walk.telling]
          rw [hMatched.extracted] }
  · exact ⟨rfl, hMatched.removePartial hReports target⟩

/- The same directories are made. -/
theorem makeDirectory
    (hMatched : Matched R w v)
    (name : String) :
    MatchedAfter R (w.makeDirectory name)
      (v.makeDirectory name) := by
  unfold Walk.makeDirectory
  rw [hMatched.directory, hMatched.options]
  split
  · exact ⟨rfl, hMatched⟩
  next target _ =>
    have hMake := hMatched.disk.makeDirectories target
    rcases hFirst : w.disk.makeDirectories target with
      ⟨made, tried⟩
    rcases hOther : v.disk.makeDirectories target with
      ⟨made', tried'⟩
    rw [hFirst, hOther] at hMake
    rcases hMake with ⟨rfl, hTried⟩
    have hMade := hMatched.onDisk hTried
    cases made' with
    | error fault => exact ⟨rfl, hMade⟩
    | ok _ => exact ⟨rfl, hMade.log hReports _ _⟩

end Matched

end Walk

end ArchiveRescue
