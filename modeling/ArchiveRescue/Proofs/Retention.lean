import Mathlib
import ArchiveRescue.Extraction
import ArchiveRescue.Proofs.Growth
import ArchiveRescue.Proofs.Progress

/-
  What becomes of the files that a walk has extracted.  Each
  of them is a file that holds something when it is counted,
  and stays one until an entry fails whose target leads to
  the same place.  That entry has emptied or removed the
  file, and the count is not taken back.

  Key definitions include:
    * `Disk.Shows`
    * `Walk.Spoils`
    * `Walk.Keeps`
    * `Extraction.beginning`

  Main statements:
    * `Walk.content_cases`
    * `Walk.counts_round`
    * `Extraction.shown_unless_spoilt`
-/

namespace ArchiveRescue

open Ustar

------------------------------------------------------------
-- Files That Hold Something
------------------------------------------------------------

namespace Disk

/- A path leads to a file that holds something. -/
def Shows
    (d : Disk)
    (p : Path) : Prop :=
  ∃ data modified,
    d.look p = .ok (.file data modified) ∧ data ≠ []

/- The same in terms of the place that the path leads to. -/
theorem shows_iff
    (d : Disk)
    (p : Path) :
    d.Shows p ↔
      ∃ place data modified,
        d.locate p = .ok place ∧
          d.node? place = some (.file data modified) ∧
          p.endsWithSlash = false ∧ data ≠ [] := by
  unfold Shows look
  constructor
  · rintro ⟨data, modified, hLook, hData⟩
    split at hLook
    · cases hLook
    next place hLeads =>
      split at hLook
      · cases hLook
      · cases hLook
      next node _ hNode =>
        split at hLook
        · cases hLook
        next hSlash =>
          cases hLook
          exact
            ⟨place, data, modified, hLeads, hNode,
              Bool.eq_false_of_not_eq_true hSlash, hData⟩
  · rintro ⟨place, data, modified, hLeads, hNode, hSlash,
      hData⟩
    refine ⟨data, modified, ?_, hData⟩
    rw [hLeads]
    dsimp only
    rw [hNode, hSlash]
    rfl

/-
  A file that holds something still does after changes at one
  place, unless its path leads to that place.
-/
theorem Spares.shows
    {target p : Path}
    {d e : Disk}
    (hSpares : Spares target d e)
    (hShows : d.Shows p) :
    e.Shows p ∨
      ∃ place,
        e.locate target = .ok place ∧
          e.locate p = .ok place := by
  rcases (d.shows_iff p).mp hShows with
    ⟨place, data, modified, hLeads, hNode, hSlash, hData⟩
  have hLater := hSpares.locate hLeads
  rcases hSpares.nodes place _ hNode with hKept | hTarget
  · exact .inl ((e.shows_iff p).mpr
      ⟨place, data, modified, hLater, hKept, hSlash, hData⟩)
  · exact .inr ⟨place, hTarget, hLater⟩

/- It still does on a disk that has grown. -/
theorem Grows.shows
    {p : Path}
    {d e : Disk}
    (hGrows : Grows d e)
    (hShows : d.Shows p) :
    e.Shows p := by
  rcases (d.shows_iff p).mp hShows with
    ⟨place, data, modified, hLeads, hNode, hRest⟩
  exact (e.shows_iff p).mpr
    ⟨place, data, modified, hGrows.locate hLeads,
      hGrows.nodes _ _ hNode, hRest⟩

/- It also does if the file at that place holds something. -/
theorem Shows.spared
    {target p : Path}
    {d e : Disk}
    (hShows : d.Shows p)
    (hSpares : Spares target d e)
    (hTarget : e.Shows target) :
    e.Shows p := by
  rcases hSpares.shows hShows with
    hKept | ⟨place, hMet, hLeads⟩
  · exact hKept
  · rcases (d.shows_iff p).mp hShows with
      ⟨-, -, -, -, -, hSlash, -⟩
    rcases (e.shows_iff target).mp hTarget with
      ⟨there, data, modified, hThere, hNode, -, hData⟩
    rw [hMet] at hThere
    cases hThere
    exact (e.shows_iff p).mpr
      ⟨place, data, modified, hLeads, hNode, hSlash, hData⟩

end Disk

namespace Walk

------------------------------------------------------------
-- Steps of an Entry
------------------------------------------------------------

/-
  Between the walks one entry is worked on: the disk has
  changed at its target only, and nothing has been counted.
-/
structure Tries (target : Path) (w v : Walk) : Prop where
  disk : Disk.Spares target w.disk v.disk
  directory : v.directory = w.directory
  options : v.options = w.options
  extracted : v.extracted = w.extracted
  failures : v.failures = w.failures

/- Doing nothing is a step of every entry. -/
theorem Tries.refl
    (target : Path)
    (w : Walk) :
    Tries target w w :=
  ⟨.refl target w.disk, rfl, rfl, rfl, rfl⟩

/- The steps of an entry follow one another. -/
theorem Tries.trans
    {target : Path}
    {u v w : Walk}
    (hFirst : Tries target u v)
    (hSecond : Tries target v w) :
    Tries target u w where
  disk := hFirst.disk.trans hSecond.disk
  directory := hSecond.directory.trans hFirst.directory
  options := hSecond.options.trans hFirst.options
  extracted := hSecond.extracted.trans hFirst.extracted
  failures := hSecond.failures.trans hFirst.failures

/- A change of the disk that spares the rest is a step. -/
theorem tries_onDisk
    {target : Path}
    {w : Walk}
    {disk : Disk}
    (hSpares : Disk.Spares target w.disk disk) :
    Tries target w (w.onDisk disk) :=
  ⟨hSpares, rfl, rfl, rfl, rfl⟩

section Writing

variable {R : Walk → Walk → Prop} {place : Location}

/-
  What holds between the walks before and after every write
  to a file holds for what is made of such writes.
-/
theorem related_store
    (hRefl : ∀ w, R w w)
    (hFlush : ∀ w pending, R w (w.flush place pending).2)
    (w : Walk)
    (pending got : Bytes) :
    R w (w.store place pending got).2 := by
  have hWritten := hFlush w pending
  unfold store
  split
  · exact hRefl w
  · split
    next hFailed => rwa [hFailed] at hWritten
    next hDone => rwa [hDone] at hWritten

theorem related_close
    (hTrans : ∀ {u v w}, R u v → R v w → R u w)
    (hFlush : ∀ w pending, R w (w.flush place pending).2)
    (w : Walk)
    (pending : Bytes) :
    R w (w.close place pending).2 := by
  have hWritten := hFlush w pending
  unfold close
  split
  next tried hFailed =>
    rw [hFailed] at hWritten
    exact hTrans hWritten (hFlush tried pending)
  next hDone => rwa [hDone] at hWritten

/- Reads that come first must make no difference. -/
theorem related_copyUpTo
    (hRefl : ∀ w, R w w)
    (hTrans : ∀ {u v w}, R u v → R v w → R u w)
    (hRead :
      ∀ {w v : Walk} (n : Nat),
        R { w with tape := (w.tape.readPatiently n).2 } v →
          R w v)
    (hFlush : ∀ w pending, R w (w.flush place pending).2)
    (fuel : Nat)
    (w : Walk)
    (c : Cursor)
    (pending : Bytes) :
    R w (copyUpTo place fuel w c pending).2.2 := by
  have hClose : ∀ v held, R v (v.close place held).2 :=
    related_close hTrans hFlush
  induction fuel generalizing w c pending with
  | zero => exact hRefl w
  | succ fuel ih =>
      unfold copyUpTo
      split
      · exact hClose w pending
      · split
        next tape hReply =>
          refine hRead c.nextChunk ?_
          rw [hReply]
          exact hFlush _ pending
        next got tape hReply =>
          refine hRead c.nextChunk ?_
          rw [hReply]
          dsimp only
          split
          · exact hClose _ pending
          · have hStore :=
              related_store hRefl hFlush
                { w with tape := tape } pending got
            split
            next tried hFailed =>
              rw [hFailed] at hStore
              exact hTrans hStore (hFlush tried pending)
            next stored hStored =>
              rw [hStored] at hStore
              exact hTrans hStore (ih stored _ _)

/-
  What holds between the walks before and after every change
  of the disk holds for a file that is made and copied to.
-/
theorem related_flush
    (hRefl : ∀ w, R w w)
    (hDisk : ∀ w disk, R w (w.onDisk disk))
    (w : Walk)
    (pending : Bytes) :
    R w (w.flush place pending).2 := by
  unfold flush
  split
  · exact hRefl w
  · exact hDisk w _

theorem related_beginFile
    (hRefl : ∀ w, R w w)
    (hTrans : ∀ {u v w}, R u v → R v w → R u w)
    (hDisk : ∀ w disk, R w (w.onDisk disk))
    (w : Walk)
    (target : Path) :
    R w (w.beginFile target).2 := by
  have hParents : R w (w.makeParents target).2 := by
    unfold makeParents
    split
    · exact hRefl w
    · exact hDisk w _
  unfold beginFile
  split
  next hFailed => rwa [hFailed] at hParents
  next ready hReady =>
    rw [hReady] at hParents
    exact hTrans hParents (hDisk ready _)

theorem related_copy
    (hRefl : ∀ w, R w w)
    (hTrans : ∀ {u v w}, R u v → R v w → R u w)
    (hRead :
      ∀ {w v : Walk} (n : Nat),
        R { w with tape := (w.tape.readPatiently n).2 } v →
          R w v)
    (hDisk : ∀ w disk, R w (w.onDisk disk))
    (w : Walk)
    (c : Cursor)
    (target : Path) :
    R w (w.copy c target).2.2 := by
  have hBegin := related_beginFile hRefl hTrans hDisk w target
  unfold copy
  split
  next hFailed => rwa [hFailed] at hBegin
  next place ready hReady =>
    rw [hReady] at hBegin
    exact
      hTrans hBegin
        (related_copyUpTo hRefl hTrans hRead
          (related_flush hRefl hDisk) _ ready c [])

end Writing

/-
  A step of writing: the target leads to its file before and
  afterwards.
-/
def Fills
    (target : Path)
    (place : Location)
    (w v : Walk) : Prop :=
  Disk.Aims target place w.disk →
    Tries target w v ∧ Disk.Aims target place v.disk

section Filling

variable {target : Path} {place : Location} {u v w : Walk}

theorem Fills.refl
    (target : Path)
    (place : Location)
    (w : Walk) :
    Fills target place w w :=
  fun hAims => ⟨.refl target w, hAims⟩

/- A read that comes first makes no difference. -/
theorem Fills.ofRead
    (tape : Tape)
    (hFills : Fills target place { w with tape := tape } v) :
    Fills target place w v := by
  intro hAims
  rcases hFills hAims with ⟨hTries, hLater⟩
  exact ⟨{ hTries with }, hLater⟩

theorem Fills.trans
    (hFirst : Fills target place u v)
    (hSecond : Fills target place v w) :
    Fills target place u w := by
  intro hAims
  rcases hFirst hAims with ⟨hTries, hNext⟩
  rcases hSecond hNext with ⟨hAgain, hLast⟩
  exact ⟨hTries.trans hAgain, hLast⟩

/- Writing what is held back is a step of writing. -/
theorem fills_flush
    (target : Path)
    (w : Walk)
    (place : Location)
    (pending : Bytes) :
    Fills target place w (w.flush place pending).2 := by
  unfold flush
  split
  · exact .refl target place w
  · intro hAims
    rcases Disk.spares_append hAims pending with
      ⟨hSpares, hLater⟩
    exact ⟨tries_onDisk hSpares, hLater⟩

/- So is the whole copy, however it ends. -/
theorem fills_copyUpTo
    (target : Path)
    (place : Location)
    (fuel : Nat)
    (w : Walk)
    (c : Cursor)
    (pending : Bytes) :
    Fills target place w
      (copyUpTo place fuel w c pending).2.2 :=
  related_copyUpTo (Fills.refl target place) .trans
    (fun _ hFills => hFills.ofRead _)
    (fun v held => v.fills_flush target place held) fuel w c
    pending

end Filling

/- Making the directories of a file is a step. -/
theorem tries_makeParents
    (w : Walk)
    (target : Path) :
    Tries target w (w.makeParents target).2 := by
  unfold makeParents
  split
  · exact .refl target w
  next parent _ =>
    exact tries_onDisk
      ((w.disk.grows_makeDirectories parent).spares target)

/- Then the file is made, and the target leads to it. -/
theorem tries_beginFile
    {w v : Walk}
    {target : Path}
    {begun : Outcome Location}
    (hBegin : w.beginFile target = (begun, v)) :
    Tries target w v ∧
      ∀ place, begun = .ok place →
        Disk.Aims target place v.disk := by
  have hParents := w.tries_makeParents target
  unfold beginFile at hBegin
  split at hBegin
  next tried hMade =>
    cases hBegin
    rw [hMade] at hParents
    exact ⟨hParents, nofun⟩
  next ready hMade =>
    rw [hMade] at hParents
    rcases hCreate : ready.disk.createFile target with
      ⟨reply, disk⟩
    have hSpares := ready.disk.spares_createFile target
    rw [hCreate] at hBegin hSpares
    dsimp only at hBegin
    cases hBegin
    refine ⟨hParents.trans (tries_onDisk hSpares), ?_⟩
    intro place hPlace
    cases reply with
    | error fault => cases hPlace
    | ok there =>
        cases hPlace
        exact (Disk.aims_of_createFile hCreate).2

/- Removing a file that failed is a step. -/
theorem tries_removePartial
    (w : Walk)
    (target : Path) :
    Tries target w (w.removePartial target) := by
  have hRemoved :
      Tries target w
        (w.onDisk (w.disk.removeFile target).2) :=
    tries_onDisk (w.disk.spares_removeFile target)
  unfold removePartial
  dsimp only
  split
  · exact hRemoved
  · exact hRemoved
  · exact ⟨hRemoved.disk, rfl, rfl, rfl, rfl⟩

/- A copied file that is kept holds something. -/
theorem shows_of_ensureNotEmpty
    {w : Walk}
    {target : Path}
    {place : Location}
    (hAims : Disk.Aims target place w.disk)
    (hFilled : w.ensureNotEmpty target = .ok ()) :
    w.disk.Shows target := by
  rcases hAims.file with ⟨data, modified, hNode⟩
  unfold ensureNotEmpty Disk.fileSize at hFilled
  rcases hLook : w.disk.look target with fault | node
  · rw [hLook] at hFilled
    cases hFilled
  · have hFound := hLook
    unfold Disk.look at hFound
    rw [hAims.leads] at hFound
    dsimp only at hFound
    rw [hNode] at hFound
    dsimp only at hFound
    split at hFound
    · cases hFound
    · cases hFound
      refine ⟨data, modified, hLook, ?_⟩
      rintro rfl
      rw [hLook] at hFilled
      cases hFilled

------------------------------------------------------------
-- Entries
------------------------------------------------------------

/-
  How the work on an entry with a target ends: it fails and
  nothing is counted, or the target is counted and leads to a
  file that holds something.
-/
def Settles
    (target : Path)
    (outcome : Outcome Unit)
    (w v : Walk) : Prop :=
  ((∃ source, outcome = .error source) ∧
      v.extracted = w.extracted) ∨
    outcome = .ok () ∧ v.disk.Shows target ∧
      v.extracted = w.extracted ++ [target]

/- Between the walks the content of an entry is settled. -/
structure Handles
    (target : Path)
    (outcome : Outcome Unit)
    (w v : Walk) : Prop where
  disk : Disk.Spares target w.disk v.disk
  directory : v.directory = w.directory
  options : v.options = w.options
  failures : v.failures = w.failures
  settles : Settles target outcome w v

/- A copy is settled, if its file could be made or not. -/
theorem handles_settleFile
    {w v : Walk}
    {target : Path}
    {copied outcome : Outcome Unit}
    {c : Cursor}
    {name : String}
    (hAims :
      copied = .ok () →
        ∃ place, Disk.Aims target place w.disk)
    (hSettle :
      w.settleFile c name target copied = (outcome, v)) :
    Handles target outcome w v := by
  unfold settleFile at hSettle
  dsimp only at hSettle
  split at hSettle
  next hKept =>
    cases hSettle
    refine ⟨.refl _ _, rfl, rfl, rfl, .inr ⟨rfl, ?_, rfl⟩⟩
    cases copied with
    | error failure => cases hKept
    | ok done =>
        rcases hAims rfl with ⟨place, hPlace⟩
        rcases hWhole : complete c with failure | whole
        · rw [hWhole] at hKept
          cases hKept
        · rw [hWhole] at hKept
          exact shows_of_ensureNotEmpty hPlace hKept
  next failure hFailed =>
    cases hSettle
    have hRemoved := w.tries_removePartial target
    exact
      ⟨hRemoved.disk, hRemoved.directory, hRemoved.options,
        hRemoved.failures,
        .inl ⟨⟨failure, rfl⟩, hRemoved.extracted⟩⟩

/- The copy of a file is a step that leads to its file. -/
theorem tries_copy
    {w v : Walk}
    {c read : Cursor}
    {target : Path}
    {copied : Outcome Unit}
    (hCopy : w.copy c target = (read, copied, v)) :
    Tries target w v ∧
      (copied = .ok () →
        ∃ place, Disk.Aims target place v.disk) := by
  unfold copy at hCopy
  rcases hBegin : w.beginFile target with ⟨begun, ready⟩
  rcases tries_beginFile hBegin with ⟨hTries, hAims⟩
  rw [hBegin] at hCopy
  cases begun with
  | error failure =>
      cases hCopy
      exact ⟨hTries, nofun⟩
  | ok place =>
      rcases fills_copyUpTo target place
          (ready.tape.bytes.length +
            ready.tape.ahead.length + 1) ready c []
          (hAims place rfl) with
        ⟨hFilled, hLater⟩
      dsimp only at hCopy
      rw [hCopy] at hFilled hLater
      exact ⟨hTries.trans hFilled, fun _ => ⟨place, hLater⟩⟩

/- An entry of a file that has a target is settled there. -/
theorem handles_writeFile
    {w v : Walk}
    {c read : Cursor}
    {name : String}
    {target : Path}
    {outcome : Outcome Unit}
    (hTarget :
      Ustar.target w.directory name w.options.sanitize =
        .ok target)
    (hWrite : w.writeFile c name = (read, outcome, v)) :
    Handles target outcome w v := by
  unfold writeFile at hWrite
  rw [hTarget] at hWrite
  rcases hCopy : w.copy (c.withTarget target) target with
    ⟨later, copied, written⟩
  rcases tries_copy hCopy with ⟨hTries, hAims⟩
  dsimp only at hWrite
  rw [hCopy] at hWrite
  dsimp only at hWrite
  rcases hSettle :
      written.settleFile later name target copied with
    ⟨settled, last⟩
  rw [hSettle] at hWrite
  cases hWrite
  have hHandles := handles_settleFile hAims hSettle
  have hSettles := hHandles.settles
  unfold Settles at hSettles
  rw [hTries.extracted] at hSettles
  exact
    { disk := hTries.disk.trans hHandles.disk
      directory := hHandles.directory.trans hTries.directory
      options := hHandles.options.trans hTries.options
      failures := hHandles.failures.trans hTries.failures
      settles := hSettles }

/-
  What the content of an entry does.  Either the disk only
  grows and nothing is counted, or the entry has a target and
  is settled there.
-/
theorem content_cases
    {w v : Walk}
    {c read : Cursor}
    {header : Header}
    {outcome : Outcome Unit}
    (hContent :
      w.content c header = (read, outcome, v)) :
    (w.disk.Grows v.disk ∧
        v.directory = w.directory ∧
        v.options = w.options ∧
        v.failures = w.failures ∧
        v.extracted = w.extracted) ∨
      ∃ target,
        Ustar.target w.directory header.path
            w.options.sanitize = .ok target ∧
          Handles target outcome w v := by
  unfold content at hContent
  split at hContent
  next hFile =>
    cases hTarget :
        Ustar.target w.directory header.path
          w.options.sanitize with
    | error failure =>
        unfold writeFile at hContent
        dsimp only at hContent
        rw [hTarget] at hContent
        cases hContent
        exact .inl ⟨.refl _, rfl, rfl, rfl, rfl⟩
    | ok target =>
        have hHandles :=
          handles_writeFile
            (w := { w with expected := w.expected + 1 })
            hTarget hContent
        exact .inr ⟨target, rfl, { hHandles with }⟩
  next hDirectory =>
    unfold makeDirectory at hContent
    split at hContent
    · cases hContent
      exact .inl ⟨.refl _, rfl, rfl, rfl, rfl⟩
    next target _ =>
      have hGrows := w.disk.grows_makeDirectories target
      split at hContent
      next hTried =>
        cases hContent
        rw [hTried] at hGrows
        exact .inl ⟨hGrows, rfl, rfl, rfl, rfl⟩
      next hTried =>
        cases hContent
        rw [hTried] at hGrows
        exact .inl ⟨hGrows, rfl, rfl, rfl, rfl⟩
  next =>
    cases hContent
    exact .inl ⟨.refl _, rfl, rfl, rfl, rfl⟩

------------------------------------------------------------
-- Files Extracted Earlier
------------------------------------------------------------

/-
  A failure is that of an entry whose target leads to the
  same place as the path.
-/
def Spoils
    (w : Walk)
    (p : Path)
    (failure : Failure) : Prop :=
  ∃ name source target place,
    failure = .entryFailed name source ∧
      Ustar.target w.directory name w.options.sanitize =
        .ok target ∧
      w.disk.locate target = .ok place ∧
      w.disk.locate p = .ok place

/-
  Between the walks a file that holds something goes on to do
  so, or a failure is recorded that spoils it.
-/
structure Keeps (w v : Walk) : Prop where
  directory : v.directory = w.directory
  options : v.options = w.options
  settings : w.disk.SameSettings v.disk
  directories :
    ∀ place, w.disk.node? place = some .directory →
      v.disk.node? place = some .directory
  failures : w.failures <+: v.failures
  shown :
    ∀ p, w.disk.Shows p →
      v.disk.Shows p ∨
        ∃ failure ∈ v.failures.drop w.failures.length,
          v.Spoils p failure

namespace Keeps

variable {u v w : Walk}

/- A failure that spoils a file does so ever after. -/
theorem spoils
    (hKeeps : Keeps w v)
    {p : Path}
    {failure : Failure}
    (hSpoils : w.Spoils p failure) :
    v.Spoils p failure := by
  rcases hSpoils with
    ⟨name, source, target, place, hFailure, hTarget, hMet,
      hLeads⟩
  refine
    ⟨name, source, target, place, hFailure, ?_,
      Disk.locate_grown hKeeps.directories hKeeps.settings
        hMet,
      Disk.locate_grown hKeeps.directories hKeeps.settings
        hLeads⟩
  rw [hKeeps.directory, hKeeps.options]
  exact hTarget

/- Nothing is lost while only tape and report change. -/
theorem of_eq
    (hDisk : v.disk = w.disk)
    (hDirectory : v.directory = w.directory)
    (hOptions : v.options = w.options)
    (hFailures : w.failures <+: v.failures) :
    Keeps w v where
  directory := hDirectory
  options := hOptions
  settings := by
    rw [hDisk]
    exact .refl w.disk
  directories place hPlace := by
    rwa [hDisk]
  failures := hFailures
  shown p hShows := by
    rw [hDisk]
    exact .inl hShows

/- What is recorded is what is recorded step by step. -/
theorem trans
    (hFirst : Keeps u v)
    (hSecond : Keeps v w) :
    Keeps u w where
  directory := hSecond.directory.trans hFirst.directory
  options := hSecond.options.trans hFirst.options
  settings := hFirst.settings.trans hSecond.settings
  directories place hPlace :=
    hSecond.directories place (hFirst.directories place hPlace)
  failures := hFirst.failures.trans hSecond.failures
  shown p hShows := by
    rcases hFirst.shown p hShows with
      hKept | ⟨failure, hRecorded, hSpoils⟩
    · rcases hSecond.shown p hKept with
        hLast | ⟨failure, hRecorded, hSpoils⟩
      · exact .inl hLast
      · refine .inr ⟨failure, ?_, hSpoils⟩
        exact
          (List.drop_subset_drop_left w.failures
            hFirst.failures.length_le) hRecorded
    · refine .inr ⟨failure, ?_, hSecond.spoils hSpoils⟩
      exact
        (hSecond.failures.drop u.failures.length).subset
          hRecorded

end Keeps

/-
  A step also counts nothing but files that hold something
  at its end.
-/
structure Counts (w v : Walk) : Prop extends Keeps w v where
  counted :
    ∀ p ∈ v.extracted, p ∈ w.extracted ∨ v.disk.Shows p

namespace Counts

variable {u v w : Walk}

/- Nothing is counted while only tape and report change. -/
theorem of_eq
    (hDisk : v.disk = w.disk)
    (hDirectory : v.directory = w.directory)
    (hOptions : v.options = w.options)
    (hFailures : w.failures <+: v.failures)
    (hExtracted : v.extracted = w.extracted) :
    Counts w v where
  toKeeps := .of_eq hDisk hDirectory hOptions hFailures
  counted p hMem := by
    rw [hExtracted] at hMem
    exact .inl hMem

/- Such changes may follow. -/
theorem still
    (hFirst : Counts u v)
    (hDisk : w.disk = v.disk)
    (hDirectory : w.directory = v.directory)
    (hOptions : w.options = v.options)
    (hFailures : v.failures <+: w.failures)
    (hExtracted : w.extracted = v.extracted) :
    Counts u w where
  toKeeps :=
    hFirst.toKeeps.trans
      (.of_eq hDisk hDirectory hOptions hFailures)
  counted p hMem := by
    rw [hExtracted] at hMem
    rw [hDisk]
    exact hFirst.counted p hMem

end Counts

/- What an entry did to the disk that only grew is kept. -/
theorem counts_of_grows
    {w v : Walk}
    (hGrows : w.disk.Grows v.disk)
    (hDirectory : v.directory = w.directory)
    (hOptions : v.options = w.options)
    (hFailures : v.failures = w.failures)
    (hExtracted : v.extracted = w.extracted) :
    Counts w v where
  directory := hDirectory
  options := hOptions
  settings := hGrows.settings
  directories place hPlace := hGrows.nodes place _ hPlace
  failures := by
    rw [hFailures]
  shown p hShows := .inl (hGrows.shows hShows)
  counted p hMem := by
    rw [hExtracted] at hMem
    exact .inl hMem

/- An entry that has been settled well is counted. -/
theorem counts_kept
    {w v : Walk}
    {target : Path}
    (hHandles : Handles target (.ok ()) w v) :
    Counts w v := by
  rcases hHandles.settles with
    ⟨⟨source, hFailed⟩, -⟩ | ⟨-, hShows, hMore⟩
  · cases hFailed
  · constructor
    · constructor
      · exact hHandles.directory
      · exact hHandles.options
      · exact hHandles.disk.settings
      · exact hHandles.disk.directories
      · rw [hHandles.failures]
      · intro p hShown
        exact .inl (hShown.spared hHandles.disk hShows)
    · intro p hMem
      rw [hMore] at hMem
      rcases List.mem_append.mp hMem with hOld | hNew
      · exact .inl hOld
      · rw [List.mem_singleton.mp hNew]
        exact .inr hShows

/- One that has failed may have spoilt files, and says so. -/
theorem counts_failed
    {w v : Walk}
    {name : String}
    {target : Path}
    {source : Failure}
    (hTarget :
      Ustar.target w.directory name w.options.sanitize =
        .ok target)
    (hHandles : Handles target (.error source) w v) :
    Counts w (v.entryFailed name source) := by
  rcases hHandles.settles with ⟨-, hSame⟩ | ⟨hKept, -⟩
  · have hFailures :
        (v.entryFailed name source).failures =
          w.failures ++ [.entryFailed name source] := by
      rw [← hHandles.failures]
      rfl
    constructor
    · constructor
      · exact hHandles.directory
      · exact hHandles.options
      · exact hHandles.disk.settings
      · exact hHandles.disk.directories
      · rw [hFailures]
        exact List.prefix_append _ _
      · intro p hShown
        rcases hHandles.disk.shows hShown with
          hStill | ⟨place, hMet, hLeads⟩
        · exact .inl hStill
        · refine .inr ⟨.entryFailed name source, ?_, ?_⟩
          · rw [hFailures, List.drop_left]
            exact List.mem_singleton_self _
          · refine
              ⟨name, source, target, place, rfl, ?_, hMet,
                hLeads⟩
            rw [← hTarget, ← hHandles.directory,
              ← hHandles.options]
            rfl
    · intro p hMem
      exact .inl (hSame ▸ hMem)
  · cases hKept

------------------------------------------------------------
-- Rounds
------------------------------------------------------------

/- The seek that ends an entry counts nothing. -/
theorem counts_skipped
    {w v : Walk}
    (hFirst : Counts w v)
    (reply : Except Fault Nat × Tape) :
    Counts w (v.skipped reply).1 := by
  rcases reply with ⟨result, tape⟩
  cases result with
  | ok position =>
      exact hFirst.still rfl rfl rfl List.prefix_rfl rfl
  | error fault =>
      exact hFirst.still rfl rfl rfl List.prefix_rfl rfl

/- What an entry does to the files extracted earlier. -/
theorem counts_entry
    (w : Walk)
    (block : Block) :
    Counts w (w.entry block).1 := by
  unfold entry
  dsimp only
  rcases hContent :
      w.content
        { directory := w.directory, header? := some block }
        block.header with
    ⟨read, outcome, v⟩
  apply counts_skipped
  rcases content_cases hContent with
    ⟨hGrows, hDirectory, hOptions, hFailures, hExtracted⟩ |
      ⟨target, hTarget, hHandles⟩
  · have hCounts :=
      counts_of_grows hGrows hDirectory hOptions hFailures
        hExtracted
    cases outcome with
    | ok done => exact hCounts
    | error source =>
        exact hCounts.still rfl rfl rfl
          (List.prefix_append _ _) rfl
  · cases outcome with
    | ok done => exact counts_kept hHandles
    | error source => exact counts_failed hTarget hHandles

theorem counts_realign
    (w : Walk)
    (block : Block) :
    Counts w (w.realign block) := by
  unfold realign
  split
  · unfold giveUp
    split
    · exact .of_eq rfl rfl rfl List.prefix_rfl rfl
    · exact .of_eq rfl rfl rfl List.prefix_rfl rfl
  · generalize w.tape.seek _ = reply
    rcases reply with ⟨result, tape⟩
    cases result with
    | ok position =>
        exact .of_eq rfl rfl rfl List.prefix_rfl rfl
    | error fault =>
        exact .of_eq rfl rfl rfl (List.prefix_append _ _) rfl

/- Reading a block changes the tape only. -/
theorem readBlock_tape
    {w read : Walk}
    {reply : Except Fault (Option Block)}
    (hBlock : w.readBlock = (reply, read)) :
    ∃ tape, read = { w with tape := tape } := by
  unfold readBlock at hBlock
  split at hBlock
  · cases hBlock
    exact ⟨_, rfl⟩
  · cases hBlock
    exact ⟨_, rfl⟩

/- What one round does to the files extracted earlier. -/
theorem counts_round (w : Walk) : Counts w w.round.1 := by
  unfold round
  rcases hBlock : w.readBlock with ⟨reply, read⟩
  rcases readBlock_tape hBlock with ⟨tape, rfl⟩
  cases reply with
  | error fault => exact .of_eq rfl rfl rfl List.prefix_rfl rfl
  | ok found =>
      cases found with
      | none => exact .of_eq rfl rfl rfl List.prefix_rfl rfl
      | some block =>
          dsimp only
          cases sight w.options block with
          | blank =>
              exact .of_eq rfl rfl rfl List.prefix_rfl rfl
          | header =>
              have hEntry :=
                { w with tape := tape }.counts_entry block
              exact { hEntry with }
          | other =>
              have hRealign :=
                { w with tape := tape }.counts_realign block
              exact { hRealign with }

/-
  Every file that a run counts holds something at the end of
  a round of the run, and is kept from then on.
-/
theorem counted_in_run
    {fuel : Nat}
    {w last : Walk}
    (hRun : w.run? fuel = some last) :
    Keeps w last ∧
      ∀ p ∈ last.extracted,
        p ∈ w.extracted ∨
          ∃ rounds v,
            w.after? rounds = some v ∧
              p ∈ v.round.1.extracted ∧
              v.round.1.disk.Shows p ∧
              Keeps v.round.1 last := by
  induction fuel generalizing w with
  | zero => cases hRun
  | succ fuel ih =>
      have hRound := w.counts_round
      -- The first round counts the file, or leaves it to the
      -- rest of the run.
      have hFirst : ∀ p ∈ w.round.1.extracted,
          Keeps w.round.1 last →
          p ∈ w.extracted ∨
            ∃ rounds v,
              w.after? rounds = some v ∧
                p ∈ v.round.1.extracted ∧
                v.round.1.disk.Shows p ∧
                Keeps v.round.1 last := by
        intro p hMem hKeeps
        rcases hRound.counted p hMem with hOld | hShows
        · exact .inl hOld
        · exact .inr ⟨0, w, rfl, hMem, hShows, hKeeps⟩
      unfold run? at hRun
      split at hRun
      next next hNext =>
        rcases ih hRun with ⟨hKeeps, hLater⟩
        rw [hNext] at hRound hFirst
        refine ⟨hRound.toKeeps.trans hKeeps, ?_⟩
        intro p hMem
        rcases hLater p hMem with
          hOld | ⟨rounds, v, hAfter, hCounted⟩
        · exact hFirst p hOld hKeeps
        · refine .inr ⟨rounds + 1, v, ?_, hCounted⟩
          unfold after?
          rw [hNext]
          exact hAfter
      next hLast =>
        cases hRun
        rw [hLast] at hRound hFirst
        refine ⟨hRound.toKeeps, ?_⟩
        intro p hMem
        exact
          hFirst p hMem
            (.of_eq rfl rfl rfl List.prefix_rfl)

end Walk

------------------------------------------------------------
-- Whole Extractions
------------------------------------------------------------

namespace Extraction

/- The walk that an extraction begins with. -/
def beginning
    (options : ExtractionOptions)
    (report : Report)
    (tape : Tape)
    (directory : Path)
    (disk : Disk) : Walk :=
  match prepare disk directory with
  | (.error failure, tried) =>
      { disk := tried
        tape := tape
        directory := directory
        options := options
        report := report.fail failure }
  | (.ok (full, _), ready) =>
      { disk := ready
        tape := tape
        directory := full
        options := options
        report :=
          report.note (fun s =>
            { s with outputPath := some full }) }

/- Preparing the output directory keeps what stands. -/
theorem grows_prepare
    (disk : Disk)
    (directory : Path) :
    disk.Grows (prepare disk directory).2 := by
  unfold prepare
  split
  · exact .refl disk
  next full _ =>
    split
    · exact .refl disk
    · exact .refl disk
    · have hMake := disk.grows_makeDirectories full
      split
      next hTried => rwa [hTried] at hMake
      next hMade => rwa [hMade] at hMake

/- It keeps the settings. -/
theorem settings_prepare
    (disk : Disk)
    (directory : Path) :
    disk.SameSettings (prepare disk directory).2 :=
  (grows_prepare disk directory).settings

/- The walk begins on a disk with the same trouble. -/
theorem trouble_beginning
    (options : ExtractionOptions)
    (report : Report)
    (tape : Tape)
    (directory : Path)
    (disk : Disk) :
    (beginning options report tape directory
        disk).disk.trouble = disk.trouble := by
  have hSettings := settings_prepare disk directory
  unfold beginning
  rcases hPrepare : prepare disk directory with
    ⟨failure | found, ready⟩
  · rw [hPrepare] at hSettings
    exact hSettings.trouble
  · rw [hPrepare] at hSettings
    exact hSettings.trouble

/-
  Deciding about a walk that has extracted something changes
  its report only.
-/
theorem finish_of_extracted
    {w : Walk}
    {p : Path}
    (hMem : p ∈ w.extracted)
    (directory : Path)
    (created : Bool) :
    (finish w directory created).disk = w.disk ∧
      (finish w directory created).result.directory =
        directory ∧
      (finish w directory created).result.failures =
        w.failures := by
  have hSome : w.extracted.isEmpty = false := by
    rw [List.isEmpty_eq_false_iff]
    exact List.ne_nil_of_mem hMem
  unfold finish conclude
  rw [hSome]
  exact ⟨rfl, rfl, rfl⟩

/- Nothing is counted in deciding about a walk. -/
theorem finish_extracted
    (w : Walk)
    (directory : Path)
    (created : Bool) :
    (finish w directory created).result.extracted =
      w.extracted := by
  unfold finish conclude withdraw
  dsimp only
  split
  · split
    · split <;> rfl
    · rfl
  · rfl

/-
  What is known about the files in the result of a run, for
  every archive, every disk and every trouble.  Each one held
  something at the end of some round.  At the end of the run
  it still does, or an entry has failed since then whose
  target leads to the same place.
-/
theorem shown_unless_spoilt
    {fuel : Nat}
    {options : ExtractionOptions}
    {report : Report}
    {tape : Tape}
    {directory : Path}
    {disk : Disk}
    {x : Extracted}
    (hRun :
      run? .blocking fuel options report tape directory disk =
        some x) :
    ∀ p ∈ x.result.extracted,
      ∃ rounds v,
        (beginning options report tape directory
            disk).after? rounds = some v ∧
          p ∈ v.round.1.extracted ∧
          v.round.1.disk.Shows p ∧
          (x.disk.Shows p ∨
            ∃ name source target place,
              .entryFailed name source ∈
                  x.result.failures.drop
                    v.round.1.failures.length ∧
                Ustar.target x.result.directory name
                    options.sanitize = .ok target ∧
                x.disk.locate target = .ok place ∧
                x.disk.locate p = .ok place) := by
  intro p hMem
  unfold run? at hRun
  unfold beginning
  rcases hPrepare : prepare disk directory with
    ⟨prepared, ready⟩
  rw [hPrepare] at hRun
  cases prepared with
  | error failure =>
    cases hRun
    rw [finish_extracted] at hMem
    cases hMem
  | ok found =>
    rcases found with ⟨full, created⟩
    unfold walk? at hRun
    rcases Option.map_eq_some_iff.mp hRun with
      ⟨last, hLast, hFinish⟩
    subst hFinish
    rw [finish_extracted] at hMem
    rcases finish_of_extracted hMem full created with
      ⟨hDisk, hDirectory, hFailures⟩
    rcases Walk.counted_in_run hLast with ⟨hKept, hCounted⟩
    rcases hCounted p hMem with
      hOld | ⟨rounds, v, hAfter, hFound, hShows, hKeeps⟩
    · cases hOld
    · refine ⟨rounds, v, hAfter, hFound, hShows, ?_⟩
      rw [hDisk, hDirectory, hFailures]
      rcases hKeeps.shown p hShows with
        hStill | ⟨failure, hRecorded, hSpoils⟩
      · exact .inl hStill
      · rcases hSpoils with
          ⟨name, source, target, place, hFailure, hTarget,
            hMet, hLeads⟩
        subst hFailure
        rw [hKept.directory, hKept.options] at hTarget
        exact
          .inr ⟨name, source, target, place, hRecorded,
            hTarget, hMet, hLeads⟩

/- A file that is followed by an empty one of the same name. -/
def repeatedName : Bytes :=
  Ustar.archive [.file "a" [0x41], .file "a" []]

set_option maxRecDepth 100000 in
/- It is counted, and nothing is left of it. -/
theorem repeatedName_spoilt :
    ∃ x,
      run? .blocking 8 {} { operation := "extract" }
          { bytes := repeatedName } ⟨"/"⟩ {} = some x ∧
        ⟨"/a"⟩ ∈ x.result.extracted ∧
        ¬ x.disk.Shows ⟨"/a"⟩ ∧
        ∃ name source target place,
          .entryFailed name source ∈ x.result.failures ∧
            Ustar.target x.result.directory name true =
              .ok target ∧
            x.disk.locate target = .ok place ∧
            x.disk.locate ⟨"/a"⟩ = .ok place := by
  have hEnds :
      (run? .blocking 8 {} { operation := "extract" }
          { bytes := repeatedName } ⟨"/"⟩ {}).map
        (fun x => (x.result.extracted,
          x.disk.look ⟨"/a"⟩)) =
        some ([⟨"/a"⟩], .error .missing) := by
    decide +kernel
  rcases Option.map_eq_some_iff.mp hEnds with
    ⟨x, hRun, hFields⟩
  rcases Prod.mk.inj hFields with ⟨hExtracted, hLook⟩
  have hMem : ⟨"/a"⟩ ∈ x.result.extracted := by
    rw [hExtracted]
    exact List.mem_singleton_self _
  have hGone : ¬ x.disk.Shows ⟨"/a"⟩ := by
    rintro ⟨data, modified, hShown, -⟩
    rw [hLook] at hShown
    cases hShown
  refine ⟨x, hRun, hMem, hGone, ?_⟩
  rcases shown_unless_spoilt hRun _ hMem with
    ⟨rounds, v, -, -, -, hShows |
      ⟨name, source, target, place, hRecorded, hRest⟩⟩
  · exact (hGone hShows).elim
  · exact
      ⟨name, source, target, place,
        List.drop_subset _ _ hRecorded, hRest⟩

end Extraction

end ArchiveRescue
