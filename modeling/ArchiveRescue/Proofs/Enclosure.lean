import Mathlib
import ArchiveRescue.Extraction
import ArchiveRescue.Proofs.Confinement
import ArchiveRescue.Proofs.Retention

/-
  An extraction that checks names is confined to its output
  directory: each of its rounds, its polls and its end.

  Key definitions include:
    * `Walk.IsBound`
    * `Walk.Stays`
    * `Task.Stays`
    * `Extraction.Visits`
    * `Extraction.Withdraws`

  Main statements:
    * `Walk.IsBound.stays_round`
    * `Task.Stays.poll`
    * `Extraction.Visits.reaches`
    * `Extraction.confined_to_directory`
-/

namespace ArchiveRescue

open Ustar Disk

namespace Walk

------------------------------------------------------------
-- Walks Bound to a Place
------------------------------------------------------------

/-
  The output directory of the walk leads down to a place, and
  the names of entries are checked.
-/
structure IsBound (base : Location) (w : Walk) : Prop where
  descends : w.directory.Descends
  pieces : w.directory.pieces = base
  sanitize : w.options.sanitize = true

/- From one walk to the other all changes are confined. -/
structure Stays (base : Location) (w v : Walk) : Prop where
  disk : w.disk.Reaches base v.disk
  directory : v.directory = w.directory
  options : v.options = w.options

section Staying

variable {base : Location} {u v w : Walk}
variable {target : Path} {place : Location}

theorem Stays.refl
    (base : Location)
    (w : Walk) :
    Stays base w w :=
  ⟨.refl base w.disk, rfl, rfl⟩

theorem Stays.trans
    (hFirst : Stays base u v)
    (hSecond : Stays base v w) :
    Stays base u w where
  disk := hFirst.disk.trans hSecond.disk
  directory := hSecond.directory.trans hFirst.directory
  options := hSecond.options.trans hFirst.options

/- A read that comes first changes nothing on the disk. -/
theorem Stays.ofRead
    (tape : Tape)
    (hStays : Stays base { w with tape := tape } v) :
    Stays base w v :=
  { hStays with }

/- A walk stays bound. -/
theorem IsBound.of_stays
    (hBound : w.IsBound base)
    (hStays : Stays base w v) :
    v.IsBound base := by
  constructor
  · rw [hStays.directory]
    exact hBound.descends
  · rw [hStays.directory]
    exact hBound.pieces
  · rw [hStays.options]
    exact hBound.sanitize

/- The targets of its entries are below the place. -/
theorem IsBound.within
    (hBound : w.IsBound base)
    {name : String}
    (hTarget :
      Ustar.target w.directory name w.options.sanitize =
        .ok target) :
    target.Within base := by
  rw [hBound.sanitize] at hTarget
  rcases descends_target hBound.descends hTarget with
    ⟨hDescends, rel, hSome, hPieces⟩
  refine ⟨hDescends, ?_⟩
  rw [hPieces, hBound.pieces]
  exact isBelow_append base hSome

/- A disk that was reached takes the place of the old one. -/
theorem stays_onDisk
    {disk : Disk}
    (hReaches : w.disk.Reaches base disk) :
    Stays base w (w.onDisk disk) :=
  ⟨hReaches, rfl, rfl⟩

------------------------------------------------------------
-- Files
------------------------------------------------------------

/- The directories of a file are made on the way. -/
theorem stays_makeParents
    (w : Walk)
    (hWithin : target.Within base) :
    Stays base w (w.makeParents target).2 := by
  unfold makeParents
  split
  · exact .refl base w
  next parent hParent =>
    rcases hWithin.descends.parent hParent with
      ⟨hDescends, hAbove⟩
    have hOnWay := hWithin.onWay.above hDescends hAbove
    exact
      stays_onDisk (w.disk.reaches_makeDirectories hOnWay)

/- The file is made below, and written to there. -/
theorem stays_beginFile
    {begun : Outcome Location}
    (hWithin : target.Within base)
    (hBegin : w.beginFile target = (begun, v)) :
    Stays base w v ∧
      ∀ place, begun = .ok place → IsBelow base place := by
  have hParents := w.stays_makeParents hWithin
  unfold beginFile at hBegin
  split at hBegin
  next hFailed =>
    cases hBegin
    rw [hFailed] at hParents
    exact ⟨hParents, nofun⟩
  next ready hReady =>
    rw [hReady] at hParents
    rcases ready.disk.reaches_createFile hWithin with
      ⟨hCreate, hBelow⟩
    rcases hMade : ready.disk.createFile target with
      ⟨result, disk⟩
    rw [hMade] at hBegin hCreate hBelow
    cases hBegin
    refine ⟨hParents.trans (stays_onDisk hCreate), ?_⟩
    intro place hPlace
    cases result with
    | error fault => cases hPlace
    | ok there =>
        cases hPlace
        exact hBelow place rfl

section Writing

variable (w : Walk) (hBelow : IsBelow base place)
include hBelow

theorem stays_flush (pending : Bytes) :
    Stays base w (w.flush place pending).2 := by
  unfold flush
  split
  · exact .refl base w
  · exact stays_onDisk (Confines.append _ hBelow).reaches

/- All that is written by a copy goes to one file. -/
theorem stays_copyUpTo
    (fuel : Nat)
    (c : Cursor)
    (pending : Bytes) :
    Stays base w (copyUpTo place fuel w c pending).2.2 :=
  related_copyUpTo (Stays.refl base) .trans
    (fun _ hStays => hStays.ofRead _)
    (fun v held => v.stays_flush hBelow held) fuel w c
    pending

end Writing

/- A file that failed is removed where it was made. -/
theorem stays_removePartial
    (w : Walk)
    (hWithin : target.Within base) :
    Stays base w (w.removePartial target) := by
  have hRemoved :
      Stays base w (w.onDisk (w.disk.removeFile target).2) :=
    stays_onDisk (w.disk.reaches_removeFile hWithin)
  unfold removePartial
  dsimp only
  split
  · exact hRemoved
  · exact hRemoved
  · exact { hRemoved with }

theorem stays_settleFile
    (w : Walk)
    (c : Cursor)
    (name : String)
    (copied : Outcome Unit)
    (hWithin : target.Within base) :
    Stays base w (w.settleFile c name target copied).2 := by
  unfold settleFile
  dsimp only
  split
  · exact { Stays.refl base w with }
  · exact w.stays_removePartial hWithin

/- The copy of a file, from its directories to its end. -/
theorem stays_copy
    (w : Walk)
    (c : Cursor)
    (hWithin : target.Within base) :
    Stays base w (w.copy c target).2.2 := by
  unfold copy
  rcases hBegin : w.beginFile target with ⟨begun, ready⟩
  rcases stays_beginFile hWithin hBegin with
    ⟨hStays, hBelow⟩
  cases begun with
  | error failure => exact hStays
  | ok place =>
      exact
        hStays.trans
          (ready.stays_copyUpTo (hBelow place rfl) _ c [])

------------------------------------------------------------
-- Seeks
------------------------------------------------------------

/- Seeks change the tape, and what is said about them. -/
theorem stays_skipped
    (w : Walk)
    (reply : Except Fault Nat × Tape) :
    Stays base w (w.skipped reply).1 := by
  rcases reply with ⟨fault | position, tape⟩
  · exact { Stays.refl base w with }
  · exact { Stays.refl base w with }

theorem stays_realigned
    (w : Walk)
    (junk : Nat)
    (reply : Except Fault Nat × Tape) :
    Stays base w (w.realigned junk reply) := by
  rcases reply with ⟨fault | position, tape⟩
  · exact { Stays.refl base w with }
  · exact { Stays.refl base w with }

theorem stays_giveUp
    (w : Walk)
    (block : Block) :
    Stays base w (w.giveUp block) := by
  unfold giveUp
  split
  · exact { Stays.refl base w with }
  · exact { Stays.refl base w with }

------------------------------------------------------------
-- Entries
------------------------------------------------------------

section Entries

variable (hBound : w.IsBound base)
include hBound

theorem IsBound.stays_writeFile
    (c : Cursor)
    (name : String) :
    Stays base w (w.writeFile c name).2.2 := by
  unfold writeFile
  split
  · exact .refl base w
  next target hTarget =>
    have hWithin := hBound.within hTarget
    exact
      (w.stays_copy (c.withTarget target) hWithin).trans
        (stays_settleFile _ _ name _ hWithin)

/- The directory of an entry is below the place. -/
theorem IsBound.stays_makeDirectory (name : String) :
    Stays base w (w.makeDirectory name).2 := by
  unfold makeDirectory
  split
  · exact .refl base w
  next target hTarget =>
    have hMake :=
      w.disk.reaches_makeDirectories
        (hBound.within hTarget).onWay
    split
    next hFailed =>
      rw [hFailed] at hMake
      exact stays_onDisk hMake
    next hMade =>
      rw [hMade] at hMake
      exact { stays_onDisk hMake with }

theorem IsBound.stays_content
    (c : Cursor)
    (header : Header) :
    Stays base w (w.content c header).2.2 := by
  unfold content
  split
  · have hCounted :
        IsBound base { w with expected := w.expected + 1 } :=
      { hBound with }
    exact { hCounted.stays_writeFile c header.path with }
  · exact hBound.stays_makeDirectory header.path
  · exact { Stays.refl base w with }

/- An entry is extracted, and the walk goes on behind it. -/
theorem IsBound.stays_entry (block : Block) :
    Stays base w (w.entry block).1 := by
  have hContent :=
    hBound.stays_content
      { directory := w.directory, header? := some block }
      block.header
  unfold entry
  dsimp only
  refine Stays.trans ?_ (stays_skipped _ _)
  split
  · exact hContent
  · exact { hContent with }

end Entries

theorem stays_realign
    (w : Walk)
    (block : Block) :
    Stays base w (w.realign block) := by
  unfold realign
  split
  · exact stays_giveUp w block
  · exact stays_realigned w _ _

------------------------------------------------------------
-- Rounds
------------------------------------------------------------

/- All changes of one round are confined. -/
theorem IsBound.stays_round
    (hBound : w.IsBound base) :
    Stays base w w.round.1 := by
  unfold round
  rcases hBlock : w.readBlock with ⟨reply, read⟩
  rcases readBlock_tape hBlock with ⟨tape, rfl⟩
  apply Stays.ofRead tape
  have hRead : IsBound base { w with tape := tape } :=
    { hBound with }
  cases reply with
  | error fault => exact { Stays.refl base _ with }
  | ok found =>
      cases found with
      | none => exact { Stays.refl base _ with }
      | some block =>
          dsimp only
          cases sight w.options block with
          | blank => exact { Stays.refl base _ with }
          | header => exact hRead.stays_entry block
          | other => exact stays_realign _ block

/- So are those of all rounds. -/
theorem IsBound.stays_after
    {rounds : Nat}
    (hBound : w.IsBound base)
    (hAfter : w.after? rounds = some v) :
    Stays base w v := by
  induction rounds generalizing w with
  | zero =>
      cases hAfter
      exact .refl base _
  | succ rounds ih =>
      have hRound := hBound.stays_round
      unfold after? at hAfter
      split at hAfter
      next next hNext =>
        rw [hNext] at hRound
        exact hRound.trans
          (ih (hBound.of_stays hRound) hAfter)
      next => cases hAfter

end Staying

end Walk

------------------------------------------------------------
-- Tasks
------------------------------------------------------------

namespace Task

section Storing

variable {R : Walk → Walk → Prop} {file later : Copying}

/-
  What holds between the walks before and after every write
  to a file holds for what is written behind.
-/
theorem related_store
    (hRefl : ∀ w, R w w)
    (hFlush :
      ∀ w pending, R w (w.flush file.place pending).2)
    (w : Walk)
    (got : Bytes) :
    R w (store w file got).2 := by
  have hWritten := hFlush w file.pending
  unfold store
  dsimp only
  split
  · exact hRefl w
  · split
    · exact hRefl w
    · split
      next hFailed => rwa [hFailed] at hWritten
      next hDone => rwa [hDone] at hWritten

/- The copy goes on with the same file. -/
theorem store_same
    {w stored : Walk}
    {got : Bytes}
    (hStore : store w file got = (.ok later, stored)) :
    later.place = file.place ∧
      later.target = file.target := by
  unfold store at hStore
  dsimp only at hStore
  split at hStore
  · cases hStore
    exact ⟨rfl, rfl⟩
  · split at hStore
    · cases hStore
    · split at hStore
      · cases hStore
        exact ⟨rfl, rfl⟩
      · cases hStore
        exact ⟨rfl, rfl⟩

end Storing

/-
  All changes from the walk to the task are confined, and a
  file that is being copied is below the place.
-/
structure Stays
    (base : Location)
    (w : Walk)
    (t : Task) : Prop where
  walk : w.Stays base t.walk
  file :
    ∀ file, t.phase = .copying file →
      IsBelow base file.place ∧ file.target.Within base

section Staying

variable {base : Location} {w v : Walk} {t : Task}

/- A read that comes first changes nothing on the disk. -/
theorem Stays.ofRead
    (tape : Tape)
    (hStays : Stays base { w with tape := tape } t) :
    Stays base w t :=
  ⟨hStays.walk.ofRead tape, hStays.file⟩

/- Leaving an entry changes the report only. -/
theorem stays_leave
    (hStays : w.Stays base v)
    (c : Cursor)
    (name : String)
    (outcome : Outcome Unit) :
    Stays base w (leave v c name outcome) := by
  unfold leave
  split
  · exact ⟨hStays, nofun⟩
  · exact ⟨{ hStays with }, nofun⟩

theorem stays_close
    (hStays : w.Stays base v)
    {file : Copying}
    (copied : Outcome Unit)
    (hWithin : file.target.Within base) :
    Stays base w (close v file copied) := by
  have hSettle :=
    v.stays_settleFile file.cursor file.name copied hWithin
  exact stays_leave (hStays.trans hSettle) _ _ _

theorem stays_closeWritten
    (w : Walk)
    {file : Copying}
    (hBelow : IsBelow base file.place)
    (hWithin : file.target.Within base) :
    Stays base w (closeWritten w file) := by
  unfold closeWritten
  split
  · exact stays_close (.refl base w) _ hWithin
  · exact
      stays_close (w.stays_flush hBelow file.pending) _ hWithin

/- A file that could be made is copied from here on. -/
theorem stays_openFile
    (hBound : w.IsBound base)
    (c : Cursor)
    (name : String) :
    Stays base w (openFile w c name) := by
  unfold openFile
  split
  · exact stays_leave (.refl base w) _ _ _
  next target hTarget =>
    have hWithin := hBound.within hTarget
    rcases hBegin : w.beginFile target with ⟨begun, ready⟩
    rcases Walk.stays_beginFile hWithin hBegin with
      ⟨hStays, hBelow⟩
    cases begun with
    | error failure => exact stays_close hStays _ hWithin
    | ok place =>
        refine ⟨hStays, ?_⟩
        rintro file hFile
        cases hFile
        exact ⟨hBelow place rfl, hWithin⟩

theorem stays_beginEntry
    (hBound : w.IsBound base)
    (block : Block) :
    Stays base w (beginEntry w block) := by
  unfold beginEntry
  dsimp only
  split
  · have hCounted :
        Walk.IsBound base
          { w with expected := w.expected + 1 } :=
      { hBound with }
    have hOpen :=
      stays_openFile hCounted
        { directory := w.directory, header? := some block }
        block.header.path
    exact ⟨{ hOpen.walk with }, hOpen.file⟩
  · exact
      stays_leave
        (hBound.stays_makeDirectory block.header.path) _ _ _
  · exact ⟨{ Walk.Stays.refl base w with }, nofun⟩

theorem stays_classify
    (hBound : w.IsBound base)
    (block : Block) :
    Stays base w (classify w block) := by
  unfold classify
  split
  · exact ⟨{ Walk.Stays.refl base w with }, nofun⟩
  · exact stays_beginEntry hBound block
  · split
    · exact ⟨w.stays_giveUp block, nofun⟩
    · exact ⟨.refl base w, nofun⟩

/- What the reply to a read leads to. -/
theorem stays_collect
    (hBound : w.IsBound base)
    (got : Bytes)
    (reply : Except Fault Bytes) :
    Stays base w (collect w got reply) := by
  unfold collect
  split
  · exact ⟨.refl base w, nofun⟩
  · exact ⟨{ Walk.Stays.refl base w with }, nofun⟩
  · dsimp only
    split
    · exact ⟨{ Walk.Stays.refl base w with }, nofun⟩
    · split
      · exact ⟨.refl base w, nofun⟩
      · exact stays_classify hBound _

theorem stays_copy
    (w : Walk)
    {file : Copying}
    (reply : Except Fault Bytes)
    (hBelow : IsBelow base file.place)
    (hWithin : file.target.Within base) :
    Stays base w (copy w file reply) := by
  unfold copy
  split
  · refine ⟨.refl base w, ?_⟩
    rintro later hLater
    cases hLater
    exact ⟨hBelow, hWithin⟩
  · exact stays_close (.refl base w) _ hWithin
  next got =>
    split
    · exact stays_closeWritten w hBelow hWithin
    · have hStore :=
        related_store (Walk.Stays.refl base)
          (fun v held => v.stays_flush hBelow held) w got
      split
      next hFailed =>
        rw [hFailed] at hStore
        exact stays_close hStore _ hWithin
      next hStored =>
        rw [hStored] at hStore
        rcases store_same hStored with ⟨hPlace, hTarget⟩
        refine ⟨hStore, ?_⟩
        rintro later hLater
        cases hLater
        rw [hPlace, hTarget]
        exact ⟨hBelow, hWithin⟩

/-
  All changes of one poll are confined, and what it goes on
  with is below the place again.
-/
theorem Stays.poll
    (hStays : Stays base w t)
    (hBound : t.walk.IsBound base) :
    Stays base t.walk t.poll := by
  unfold Task.poll
  split
  next got _ =>
    rcases t.walk.tape.read (blockSize - got.length) with
      ⟨reply, tape⟩
    apply Stays.ofRead tape
    have hRead :
        Walk.IsBound base { t.walk with tape := tape } :=
      { hBound with }
    exact stays_collect hRead got reply
  next file hPhase =>
    rcases hStays.file file hPhase with ⟨hBelow, hWithin⟩
    split
    · exact stays_closeWritten t.walk hBelow hWithin
    · rcases t.walk.tape.read file.cursor.nextChunk with
        ⟨reply, tape⟩
      apply Stays.ofRead tape
      exact stays_copy _ reply hBelow hWithin
  next c _ =>
    have hSkipped :
        t.walk.Stays base
          (t.walk.skipped
            (t.walk.tape.seek (.fromHere c.skip))).1 :=
      Walk.stays_skipped _ _
    split
    next hNext =>
      rw [hNext] at hSkipped
      exact ⟨hSkipped, nofun⟩
    next hLast =>
      rw [hLast] at hSkipped
      exact ⟨hSkipped, nofun⟩
  next junk _ =>
    refine ⟨?_, nofun⟩
    exact t.walk.stays_realigned junk _
  next => exact ⟨.refl base t.walk, hStays.file⟩

/- A task that has ended has done so after some polls. -/
theorem exists_last_poll
    {fuel : Nat}
    (hRun : Task.run? fuel t = some v) :
    ∃ polls, (Task.poll^[polls] t).walk = v := by
  induction fuel generalizing t with
  | zero => cases hRun
  | succ fuel ih =>
      unfold Task.run? at hRun
      split at hRun
      · cases hRun
        exact ⟨0, rfl⟩
      · rcases ih hRun with ⟨polls, hLast⟩
        exact ⟨polls + 1, hLast⟩

/- So are those of all polls. -/
theorem stays_polls
    (hBound : w.IsBound base)
    (polls : Nat) :
    Stays base w (Task.poll^[polls] { walk := w }) := by
  induction polls with
  | zero => exact ⟨.refl base w, nofun⟩
  | succ polls ih =>
      have hPoll := ih.poll (hBound.of_stays ih.walk)
      rw [Function.iterate_succ_apply']
      exact ⟨ih.walk.trans hPoll.walk, hPoll.file⟩

end Staying

end Task

------------------------------------------------------------
-- Whole Extractions
------------------------------------------------------------

namespace Extraction

/-
  The disks that a run passes through: the one on which its
  output directory has been prepared or could not be, and
  the ones after the rounds or polls of its walk.
-/
inductive Visits
    (mode : Mode)
    (options : ExtractionOptions)
    (report : Report)
    (tape : Tape)
    (directory : Path)
    (disk : Disk) : Disk → Prop
| prepared :
    Visits mode options report tape directory disk
      (prepare disk directory).2
| round
    {found : Path × Bool}
    {rounds : Nat}
    {v : Walk}
    (hMode : mode = .blocking)
    (hPrepared : (prepare disk directory).1 = .ok found)
    (hAfter :
      (beginning options report tape directory disk).after?
        rounds = some v) :
    Visits mode options report tape directory disk
      v.round.1.disk
| poll
    {found : Path × Bool}
    (polls : Nat)
    (hMode : mode = .nonblocking)
    (hPrepared : (prepare disk directory).1 = .ok found) :
    Visits mode options report tape directory disk
      (Task.poll^[polls]
        { walk :=
            beginning options report tape directory
              disk }).walk.disk

/-
  The output directory, which was missing before, has been
  made in vain and is to be taken away again.
-/
structure Withdraws
    (base : Location)
    (disk done : Disk)
    (x : Extracted) : Prop where
  missing : disk.node? base = none
  made : done.node? base = some .directory
  empty : done.children base = []
  vain : x.result.extracted = []
  last : x.disk = (done.perform (.removeDirectory base)).2

section Confinement

variable {mode : Mode} {options : ExtractionOptions}
variable {report : Report} {tape : Tape} {fuel : Nat}
variable {directory full : Path} {created : Bool}
variable {disk ready done : Disk} {w last : Walk}
variable {x : Extracted}

/- Taking the output directory away is not seen outside. -/
theorem Withdraws.keepsOutside
    {base : Location}
    (hWithdraws : Withdraws base disk done x)
    (hKeeps : KeepsOutside base disk done) :
    KeepsOutside base disk x.disk := by
  have hRoot : base ≠ [] := by
    rintro rfl
    cases hWithdraws.missing
  rw [hWithdraws.last]
  unfold perform
  dsimp only
  split
  · exact hKeeps
  · intro place hOutside
    unfold Disk.apply
    dsimp only
    rw [node?_erase _ hRoot]
    split
    next hHere =>
      rw [hHere, hWithdraws.missing]
      exact .inl rfl
    next => exact hKeeps place hOutside

/- Preparing makes directories that lead to the place. -/
theorem reaches_prepare
    (hDown : ".." ∉ directory.pieces)
    (hTree : disk.IsTree) :
    disk.Reaches (disk.named directory)
      (prepare disk directory).2 := by
  unfold prepare
  split
  · exact .refl _ disk
  next full hFull =>
    rcases hTree.absolute hDown hFull with
      ⟨hDescends, hPieces⟩
    have hOnWay : full.OnWay (disk.named directory) :=
      ⟨hDescends, .inl (hPieces ▸ List.prefix_rfl)⟩
    have hMake := disk.reaches_makeDirectories hOnWay
    split
    · exact .refl _ disk
    · exact .refl _ disk
    · split
      next hFailed => rwa [hFailed] at hMake
      next hMade => rwa [hMade] at hMake

/-
  What was prepared leads down to the place.  If it had to be
  made, nothing stood there before.
-/
theorem prepare_ok
    (hDown : ".." ∉ directory.pieces)
    (hTree : disk.IsTree)
    (hPrepare :
      prepare disk directory = (.ok (full, created), ready)) :
    full.Descends ∧ full.pieces = disk.named directory ∧
      (created = true →
        disk.node? (disk.named directory) = none) := by
  have hKeeps := (reaches_prepare hDown hTree).keepsOutside
  rw [hPrepare] at hKeeps
  unfold prepare at hPrepare
  split at hPrepare
  · cases hPrepare
  next path hFull =>
    rcases hTree.absolute hDown hFull with
      ⟨hDescends, hPieces⟩
    split at hPrepare
    next =>
      cases hPrepare
      exact ⟨hDescends, hPieces, nofun⟩
    next => cases hPrepare
    next fault hLook =>
      split at hPrepare
      next => cases hPrepare
      next made hMake =>
        cases hPrepare
        refine ⟨hDescends, hPieces, fun _ => ?_⟩
        have hThere :=
          isDirectory_of_makeDirectories hDescends.absolute
            hMake
        rcases isDirectory_iff.mp hThere with
          ⟨place, hLocate, hNode⟩
        have hPlace := locate_descends hDescends hLocate
        subst hPlace
        have hNotBelow :
            ¬ IsBelow (disk.named directory) full.pieces :=
          fun hBelow => hBelow.2 hPieces
        rcases hKeeps _ hNotBelow with
          hSame | ⟨-, hNone, -⟩
        · have hFound :=
            hTree.isDirectory hDescends hLocate
              (hSame.symm.trans hNode)
          unfold Disk.isDirectory at hFound
          rw [hLook] at hFound
          cases hFound
        · rwa [hPieces] at hNone

/- The walk of a run is bound to the place. -/
theorem isBound_beginning
    (hSanitize : options.sanitize = true)
    (hDown : ".." ∉ directory.pieces)
    (hTree : disk.IsTree)
    {found : Path × Bool}
    (hPrepared : (prepare disk directory).1 = .ok found) :
    (beginning options report tape directory disk).IsBound
        (disk.named directory) ∧
      (beginning options report tape directory disk).disk =
        (prepare disk directory).2 := by
  unfold beginning
  rcases hPrepare : prepare disk directory with
    ⟨reply, ready⟩
  rw [hPrepare] at hPrepared
  cases hPrepared
  rcases prepare_ok hDown hTree hPrepare with
    ⟨hDescends, hPieces, -⟩
  exact ⟨⟨hDescends, hPieces, hSanitize⟩, rfl⟩

/- All that a run passes through is reached confined. -/
theorem Visits.reaches
    (hSanitize : options.sanitize = true)
    (hDown : ".." ∉ directory.pieces)
    (hTree : disk.IsTree)
    (hVisits :
      Visits mode options report tape directory disk done) :
    disk.Reaches (disk.named directory) done := by
  have hPrepare := reaches_prepare hDown hTree
  cases hVisits with
  | prepared => exact hPrepare
  | round hMode hPrepared hAfter =>
      rcases isBound_beginning hSanitize hDown hTree
          hPrepared with
        ⟨hBound, hStart⟩
      have hStays := hBound.stays_after hAfter
      have hRound := (hBound.of_stays hStays).stays_round
      rw [← hStart] at hPrepare
      exact hPrepare.trans (hStays.trans hRound).disk
  | poll polls hMode hPrepared =>
      rcases isBound_beginning hSanitize hDown hTree
          hPrepared with
        ⟨hBound, hStart⟩
      have hPolls := Task.stays_polls hBound polls
      rw [← hStart] at hPrepare
      exact hPrepare.trans hPolls.walk.disk

/- A run walks on from where it begins, and decides. -/
theorem run?_of_prepare
    (hPrepare :
      prepare disk directory = (.ok (full, created), ready)) :
    run? mode fuel options report tape directory disk =
      (walk? mode fuel
        (beginning options report tape directory disk)).map
          (fun w => finish w full created) := by
  unfold run? beginning
  rw [hPrepare]

/- A walk that has ended has been passed through. -/
theorem visits_of_walk?
    {found : Path × Bool}
    (hPrepared : (prepare disk directory).1 = .ok found)
    (hWalk :
      walk? mode fuel
        (beginning options report tape directory disk) =
          some last) :
    Visits mode options report tape directory disk
      last.disk := by
  cases mode with
  | blocking =>
      rcases Walk.exists_last_round hWalk with
        ⟨rounds, v, hAfter, rfl⟩
      exact .round rfl hPrepared hAfter
  | nonblocking =>
      rcases Task.exists_last_poll hWalk with ⟨polls, rfl⟩
      exact .poll polls rfl hPrepared

/- What was made is taken away if it is empty. -/
theorem withdraw_cases
    (w : Walk)
    (hDescends : full.Descends) :
    (withdraw w full created).disk = w.disk ∨
      created = true ∧
        w.disk.node? full.pieces = some .directory ∧
        w.disk.children full.pieces = [] ∧
        (withdraw w full created).disk =
          (w.disk.perform
            (.removeDirectory full.pieces)).2 := by
  unfold withdraw
  split
  next hRemoves =>
    rw [Bool.and_eq_true] at hRemoves
    rcases hRemoves with ⟨hCreated, hEmpty⟩
    rcases removeDirectory_eq hDescends hEmpty with
      ⟨hRemove, hNode, hNone⟩
    refine .inr ⟨hCreated, hNode, hNone, ?_⟩
    rw [← hRemove]
    rcases w.disk.removeDirectory full with ⟨reply, later⟩
    cases reply with
    | error fault => rfl
    | ok done => rfl
  next => exact .inl rfl

/- Deciding about a walk changes its disk in one case. -/
theorem finish_cases
    (w : Walk)
    (hDescends : full.Descends) :
    (finish w full created).disk = w.disk ∨
      created = true ∧
        w.disk.node? full.pieces = some .directory ∧
        w.disk.children full.pieces = [] ∧
        w.extracted = [] ∧
        (finish w full created).disk =
          (w.disk.perform
            (.removeDirectory full.pieces)).2 := by
  unfold finish conclude
  dsimp only
  split
  next hVain =>
    have hNone := List.isEmpty_iff.mp hVain
    rcases withdraw_cases
        (w.telling (·.fail (.nothingExtracted w.expected)))
        hDescends with
      hSame | ⟨hCreated, hNode, hEmpty, hLast⟩
    · exact .inl hSame
    · exact .inr ⟨hCreated, hNode, hEmpty, hNone, hLast⟩
  next => exact .inl rfl

/-
  An extraction that checks names changes nothing outside its
  output directory, whatever the archive, the disk and the
  trouble.  On every disk that the run passes through, also
  if it never ends, only confined changes have been made, and
  what stood outside is the same but for directories that
  lead to the output directory.  When it ends, the output
  directory may be taken away as the last change, if it was
  missing before, is empty and nothing was extracted.
-/
theorem confined_to_directory
    (hSanitize : options.sanitize = true)
    (hDown : ".." ∉ directory.pieces)
    (hTree : disk.IsTree) :
    (∀ e, Visits mode options report tape directory disk e →
      disk.Reaches (disk.named directory) e ∧
        KeepsOutside (disk.named directory) disk e) ∧
      ∀ fuel x,
        run? mode fuel options report tape directory disk =
            some x →
          KeepsOutside (disk.named directory) disk x.disk ∧
            ∃ done,
              Visits mode options report tape directory disk
                  done ∧
                (x.disk = done ∨
                  Withdraws (disk.named directory) disk done
                    x) := by
  have hVisited : ∀ e,
      Visits mode options report tape directory disk e →
        disk.Reaches (disk.named directory) e ∧
          KeepsOutside (disk.named directory) disk e := by
    intro e hVisits
    have hReaches := hVisits.reaches hSanitize hDown hTree
    exact ⟨hReaches, hReaches.keepsOutside⟩
  refine ⟨hVisited, ?_⟩
  intro fuel x hRun
  have hEnds : ∃ done,
      Visits mode options report tape directory disk done ∧
        (x.disk = done ∨
          Withdraws (disk.named directory) disk done x) := by
    rcases hPrepare : prepare disk directory with
      ⟨failure | ⟨full, created⟩, ready⟩
    · unfold run? at hRun
      rw [hPrepare] at hRun
      cases hRun
      refine ⟨_, .prepared, .inl ?_⟩
      rw [hPrepare]
      rfl
    · rcases prepare_ok hDown hTree hPrepare with
        ⟨hDescends, hPieces, hMissing⟩
      rw [run?_of_prepare hPrepare] at hRun
      rcases Option.map_eq_some_iff.mp hRun with
        ⟨last, hWalk, rfl⟩
      have hVisits :=
        visits_of_walk? (congrArg Prod.fst hPrepare) hWalk
      refine ⟨last.disk, hVisits, ?_⟩
      rw [← hPieces] at hMissing ⊢
      rcases finish_cases last hDescends with
        hSame | ⟨hCreated, hMade, hEmpty, hVain, hLast⟩
      · exact .inl hSame
      · refine
          .inr ⟨hMissing hCreated, hMade, hEmpty, ?_, hLast⟩
        rw [finish_extracted]
        exact hVain
  rcases hEnds with ⟨done, hVisits, hSame | hWithdraws⟩
  · refine ⟨?_, done, hVisits, .inl hSame⟩
    rw [hSame]
    exact (hVisited done hVisits).2
  · exact
      ⟨hWithdraws.keepsOutside (hVisited done hVisits).2,
        done, hVisits, .inr hWithdraws⟩

end Confinement

/- A disk with a file next to the working directory. -/
def neighbours : Disk where
  entries :=
    [(["keep"], .file [0x4B] 0), (["work"], .directory)]
  workDir := ["work"]

/- Names that lead out of a directory, and one that does not. -/
def hostileNames : Bytes :=
  Ustar.archive
    [.file "../../../keep" [0x41],
      .file "/keep" [0x42],
      .file "./b//c" [0x43]]

set_option maxRecDepth 100000 in
/- The file next to the working directory stays as it is. -/
theorem hostileNames_confined :
    ∃ x,
      run? .blocking 8 {} { operation := "extract" }
          { bytes := hostileNames } ⟨"new/out"⟩
          neighbours = some x ∧
        x.result.extracted = [⟨"/work/new/out/b/c"⟩] ∧
        x.disk.node? ["keep"] = some (.file [0x4B] 0) ∧
        KeepsOutside ["work", "new", "out"] neighbours
          x.disk := by
  have hEnds :
      (run? .blocking 8 {} { operation := "extract" }
          { bytes := hostileNames } ⟨"new/out"⟩
          neighbours).map (fun x => x.result.extracted) =
        some [⟨"/work/new/out/b/c"⟩] := by
    decide +kernel
  rcases Option.map_eq_some_iff.mp hEnds with
    ⟨x, hRun, hExtracted⟩
  have hTree : neighbours.IsTree :=
    ⟨by decide, by decide, by decide, by decide⟩
  have hKeeps :=
    ((confined_to_directory rfl (by decide) hTree).2 8 x
      hRun).1
  have hNamed :
      neighbours.named ⟨"new/out"⟩ =
        ["work", "new", "out"] := by
    decide +kernel
  rw [hNamed] at hKeeps
  refine ⟨x, hRun, hExtracted, ?_, hKeeps⟩
  rcases hKeeps ["keep"] (by simp [IsBelow]) with
    hSame | ⟨hPrefix, -⟩
  · exact hSame
  · simp at hPrefix

end Extraction

end ArchiveRescue
