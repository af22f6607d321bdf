import Mathlib
import ArchiveRescue.Proofs.OpenFile
import ArchiveRescue.Proofs.Similar

/-
  Walks that are equal but for what some files on their disks
  hold.  A step takes them to such walks again, and so does a
  file that only one of them writes once more before both
  give it up.

  Key definitions include:
    * `Walk.Twins`
    * `Walk.TwinsAfter`

  Main statements:
    * `Walk.Twins.beginFile`
    * `Walk.Twins.store`
    * `Walk.Twins.settleFile`
    * `Walk.Twins.settleFile_letGo`
    * `Walk.Twins.makeDirectory`
-/

namespace ArchiveRescue

open Ustar

namespace Walk

------------------------------------------------------------
-- Twins
------------------------------------------------------------

/-
  Two walks that are equal, but for similar disks.  The tape
  is not kept on a file that differs.
-/
structure Twins
    (trouble : Trouble)
    (loose : Location → Prop)
    (w v : Walk) : Prop where
  disk : w.disk.Similar trouble loose v.disk
  rest : ∃ disk, v = { w with disk := disk }
  apart :
    ∀ place, w.tape.medium = .file (some place) →
      ¬ loose place
  reads : w.Readable

/- Two steps with the same result that leave twins. -/
def TwinsAfter
    (trouble : Trouble)
    (loose : Location → Prop)
    {α : Type}
    (x y : α × Walk) : Prop :=
  y.1 = x.1 ∧ Twins trouble loose x.2 y.2

namespace Twins

variable {trouble : Trouble} {loose : Location → Prop}
variable {w v : Walk}

/- What is logged and counted is the same. -/
theorem telling
    (hTwins : Twins trouble loose w v)
    (change : Report → Report) :
    Twins trouble loose (w.telling change)
      (v.telling change) := by
  rcases hTwins with ⟨hDisk, ⟨disk, rfl⟩, hApart, hReads⟩
  exact ⟨hDisk, ⟨disk, rfl⟩, hApart, hReads⟩

theorem survive
    (hTwins : Twins trouble loose w v)
    (failure : Failure) :
    Twins trouble loose (w.survive failure)
      (v.survive failure) := by
  rcases hTwins with ⟨hDisk, ⟨disk, rfl⟩, hApart, hReads⟩
  exact ⟨hDisk, ⟨disk, rfl⟩, hApart, hReads⟩

theorem expecting (hTwins : Twins trouble loose w v) :
    Twins trouble loose
      { w with expected := w.expected + 1 }
      { v with expected := v.expected + 1 } := by
  rcases hTwins with ⟨hDisk, ⟨disk, rfl⟩, hApart, hReads⟩
  exact ⟨hDisk, ⟨disk, rfl⟩, hApart, hReads⟩

/- The same tape is read and moved. -/
theorem tape_eq (hTwins : Twins trouble loose w v) :
    v.tape = w.tape := by
  rcases hTwins.rest with ⟨disk, rfl⟩
  rfl

theorem onTape
    {tape : Tape}
    (hTwins : Twins trouble loose w v)
    (hSource : w.tape.SameSource tape) :
    Twins trouble loose { w with tape := tape }
      { v with tape := tape } := by
  rcases hTwins with ⟨hDisk, ⟨disk, rfl⟩, hApart, hReads⟩
  refine ⟨hDisk, ⟨disk, rfl⟩, ?_, hReads.onTape hSource⟩
  intro place hMedium
  exact hApart place (hSource.medium ▸ hMedium)

/- The tape sees the same change of both disks. -/
theorem ofDisks
    {d e : Disk}
    (hRest : ∃ disk, v = { w with disk := disk })
    (hReads : w.Readable)
    (hApart :
      ∀ place, w.tape.medium = .file (some place) →
        ¬ loose place)
    (hDisk : d.Similar trouble loose e)
    (hKept :
      ∀ place, w.disk.node? place = some .directory →
        d.node? place = some .directory) :
    Twins trouble loose (w.onDisk d) (v.onDisk e) := by
  have hLater := hReads.onDisk hKept
  rcases hRest with ⟨disk, rfl⟩
  unfold Walk.onDisk at hLater ⊢
  dsimp only
  rw [hDisk.refresh_eq hApart]
  refine ⟨hDisk, ⟨e, rfl⟩, ?_, hLater⟩
  intro place hMedium
  exact hApart place (Disk.medium_of_refresh hMedium)

theorem onDisk
    {d e : Disk}
    (hTwins : Twins trouble loose w v)
    (hDisk : d.Similar trouble loose e)
    (hKept :
      ∀ place, w.disk.node? place = some .directory →
        d.node? place = some .directory) :
    Twins trouble loose (w.onDisk d) (v.onDisk e) :=
  ofDisks hTwins.rest hTwins.reads hTwins.apart hDisk hKept

------------------------------------------------------------
-- Files
------------------------------------------------------------

section Files

variable {target : Path} {place : Location} {held : Nat}
variable {pending : Bytes}

/- The same directories are made for a file. -/
theorem makeParents
    (hTwins : Twins trouble loose w v)
    (target : Path) :
    TwinsAfter trouble loose (w.makeParents target)
      (v.makeParents target) := by
  unfold Walk.makeParents
  split
  · exact ⟨rfl, hTwins⟩
  next parent _ =>
    have hMake :=
      Disk.Similar.isBisimulation.makeDirectories hTwins.disk
        parent
    have hGrows := w.disk.grows_makeDirectories parent
    dsimp only
    rw [hMake.1]
    exact
      ⟨rfl,
        hTwins.onDisk hMake.2
          (fun there => hGrows.nodes there _)⟩

/- The same file is begun, and it is the same on both. -/
theorem beginFile
    (hTwins : Twins trouble loose w v)
    (target : Path) :
    ∃ tight : Location → Prop,
      (∀ place, (w.beginFile target).1 = .ok place →
        ¬ tight place) ∧
      TwinsAfter trouble tight (w.beginFile target)
        (v.beginFile target) := by
  have hParents := hTwins.makeParents target
  unfold Walk.beginFile
  rcases hFirst : w.makeParents target with ⟨made, ready⟩
  rcases hOther : v.makeParents target with ⟨made', ready'⟩
  rw [hFirst, hOther] at hParents
  rcases hParents with ⟨rfl, hReady⟩
  cases made' with
  | error failure => exact ⟨loose, nofun, rfl, hReady⟩
  | ok done =>
      have hSpares := ready.disk.spares_createFile target
      dsimp only at hReady ⊢
      rcases hCreate : ready.disk.createFile target with
        ⟨reply, disk⟩
      rw [hCreate] at hSpares
      cases reply with
      | ok place =>
          rcases hReady.disk.createFile_ok hCreate with
            ⟨disk', hSame, hMade⟩
          rw [hSame]
          refine
            ⟨fun there => loose there ∧ there ≠ place, ?_,
              rfl, ?_⟩
          · rintro there ⟨⟩
            exact fun hTight => hTight.2 rfl
          · refine ofDisks hReady.rest hReady.reads ?_ hMade
              hSpares.directories
            exact fun there hMedium hTight =>
              hReady.apart there hMedium hTight.1
      | error fault =>
          have hAfter :=
            Disk.Similar.isBisimulation.createFile
              hReady.disk target
          rw [hCreate] at hAfter
          rw [hAfter.1]
          exact
            ⟨loose, nofun, rfl,
              hReady.onDisk hAfter.2 hSpares.directories⟩

/- The same bytes are written. -/
theorem flush
    (hTwins : Twins trouble loose w v)
    (hTight : ¬ loose place)
    (hAims : Disk.Aims target place w.disk)
    (pending : Bytes) :
    TwinsAfter trouble loose (w.flush place pending)
      (v.flush place pending) := by
  unfold Walk.flush
  split
  · exact ⟨rfl, hTwins⟩
  · have hAppend := hTwins.disk.append hTight pending
    have hSpares := (Disk.spares_append hAims pending).1
    dsimp only
    rw [hAppend.1]
    exact
      ⟨rfl,
        hTwins.onDisk hAppend.2 hSpares.directories⟩

theorem store
    (hTwins : Twins trouble loose w v)
    (hTight : ¬ loose place)
    (hAims : Disk.Aims target place w.disk)
    (pending got : Bytes) :
    TwinsAfter trouble loose (w.store place pending got)
      (v.store place pending got) := by
  have hFlush := hTwins.flush hTight hAims pending
  unfold Walk.store
  split
  · exact ⟨rfl, hTwins⟩
  · rcases hFirst : w.flush place pending with
      ⟨done, written⟩
    rcases hOther : v.flush place pending with
      ⟨done', written'⟩
    rw [hFirst, hOther] at hFlush
    rcases hFlush with ⟨rfl, hWritten⟩
    cases done' with
    | ok _ => exact ⟨rfl, hWritten⟩
    | error failure => exact ⟨rfl, hWritten⟩

/- Letting go of a file that was refused does no harm. -/
theorem letGo
    {tried tried' : Walk}
    {failure : Failure}
    (hTwins : Twins trouble loose w v)
    (hFlush :
      w.flush place pending = (.error failure, tried))
    (hTried : Twins trouble loose tried tried') :
    Twins trouble loose (tried.letGo place pending)
      tried' := by
  have hSteady : w.disk.trouble.Steady := by
    rw [hTwins.disk.first]
    exact hTwins.disk.steady
  rw [letGo_refused hSteady hFlush]
  rcases hTried with ⟨hDisk, ⟨disk, rfl⟩, hApart, hReads⟩
  exact
    ⟨hDisk.ticked (tried.disk.turns + 1) disk.turns,
      ⟨disk, rfl⟩, hApart, hReads⟩

/- So it does not matter who does it at the end. -/
theorem close
    (hTwins : Twins trouble loose w v)
    (hTight : ¬ loose place)
    (hAims : Disk.Aims target place w.disk)
    (pending : Bytes) :
    TwinsAfter trouble loose (w.close place pending)
      (v.flush place pending) := by
  have hFlush := hTwins.flush hTight hAims pending
  unfold Walk.close
  rcases hFirst : w.flush place pending with ⟨done, written⟩
  rw [hFirst] at hFlush
  rcases hFlush with ⟨hSame, hWritten⟩
  cases done with
  | ok _ => exact ⟨hSame, hWritten⟩
  | error failure =>
      exact ⟨hSame, hTwins.letGo hFirst hWritten⟩

/- The same files are kept and removed. -/
theorem removed
    (hRest : ∃ disk, v = { w with disk := disk })
    (hReads : w.Readable)
    (hApart :
      ∀ place, w.tape.medium = .file (some place) →
        ¬ loose place)
    (hRemove :
      Disk.SameAfter (Disk.Similar trouble loose)
        (w.disk.removeFile target)
        (v.disk.removeFile target)) :
    Twins trouble loose (w.removePartial target)
      (v.removePartial target) := by
  have hRemoved :=
    ofDisks hRest hReads hApart hRemove.2
      (w.disk.spares_removeFile target).directories
  unfold removePartial
  dsimp only
  rw [hRemove.1]
  split
  · exact hRemoved
  · exact hRemoved
  · exact hRemoved.telling _

/- A file that could not be copied is removed by both. -/
theorem settleFile_error
    (hTwins : Twins trouble loose w v)
    (c : Cursor)
    (name : String)
    (failure : Failure) :
    TwinsAfter trouble loose
      (w.settleFile c name target (.error failure))
      (v.settleFile c name target (.error failure)) :=
  ⟨rfl,
    removed hTwins.rest hTwins.reads hTwins.apart
      (Disk.Similar.isBisimulation.removeFile hTwins.disk
        target)⟩

theorem settleFile
    {copied : Outcome Unit}
    (hTwins : Twins trouble loose w v)
    (c : Cursor)
    (name : String)
    (hSize :
      copied = .ok () →
        v.disk.fileSize target = w.disk.fileSize target) :
    TwinsAfter trouble loose
      (w.settleFile c name target copied)
      (v.settleFile c name target copied) := by
  cases copied with
  | error failure =>
      exact hTwins.settleFile_error c name failure
  | ok done =>
      have hFilled :
          v.ensureNotEmpty target =
            w.ensureNotEmpty target := by
        unfold ensureNotEmpty
        rw [hSize rfl]
      unfold Walk.settleFile
      dsimp only
      rw [hFilled]
      split
      · rcases hTwins with
          ⟨hDisk, ⟨disk, rfl⟩, hApart, hReads⟩
        exact ⟨rfl, hDisk, ⟨disk, rfl⟩, hApart, hReads⟩
      · exact hTwins.settleFile_error c name _

/-
  So it is when one of the walks has let go of the file, as
  long as the tape does not see that.
-/
theorem settleFile_letGo
    (hTwins : Twins trouble loose w v)
    (hTight : ¬ loose place)
    (hWriting : Writing target place held w)
    (hElse : w.tape.medium ≠ .file (some place))
    (hSmall : pending.length ≤ bufferSize)
    (c : Cursor)
    (name : String)
    (failure : Failure) :
    ∃ other : Location → Prop,
      TwinsAfter trouble other
        ((w.letGo place pending).settleFile c name target
          (.error failure))
        (v.settleFile c name target (.error failure)) := by
  unfold Walk.letGo Walk.flush
  split
  · exact ⟨loose, hTwins.settleFile_error c name failure⟩
  · rcases hTwins.disk.removeFile_written hTight
        hWriting.aims hWriting.plain hSmall with
      ⟨other, hOther, hRemove⟩
    have hSpares :=
      (Disk.spares_append hWriting.aims pending).1
    have hNodes : ∀ there, there ≠ place →
        (w.disk.perform (.append place pending)).2.node?
            there =
          w.disk.node? there :=
      fun there =>
        w.disk.node?_append_of_ne place pending
    have hApart : ∀ there,
        w.tape.medium = .file (some there) →
          ¬ other there := by
      intro there hMedium hLoose
      rcases hOther there hLoose with hBefore | rfl
      · exact hTwins.apart there hMedium hBefore
      · exact hElse hMedium
    have hTape :
        w.onDisk
            (w.disk.perform (.append place pending)).2 =
          { w with
            disk :=
              (w.disk.perform (.append place pending)).2 } := by
      unfold Walk.onDisk
      rw [(hWriting.upToDate.elsewhere hElse
        hNodes).refresh_eq]
    dsimp only
    rw [hTape]
    refine ⟨other, rfl, removed ?_ ?_ hApart hRemove⟩
    · rcases hTwins.rest with ⟨disk, rfl⟩
      exact ⟨disk, rfl⟩
    · intro there hMedium
      exact
        (hTwins.reads there hMedium).imp_left
          (hSpares.directories there)

end Files

------------------------------------------------------------
-- Other Steps
------------------------------------------------------------

/- The same target is found for an entry. -/
theorem target_eq
    (hTwins : Twins trouble loose w v)
    (name : String) :
    Ustar.target v.directory name v.options.sanitize =
      Ustar.target w.directory name w.options.sanitize := by
  rcases hTwins.rest with ⟨disk, rfl⟩
  rfl

/- The same directories are made. -/
theorem makeDirectory
    (hTwins : Twins trouble loose w v)
    (name : String) :
    TwinsAfter trouble loose (w.makeDirectory name)
      (v.makeDirectory name) := by
  unfold Walk.makeDirectory
  rw [hTwins.target_eq]
  split
  · exact ⟨rfl, hTwins⟩
  next target _ =>
    have hMake :=
      Disk.Similar.isBisimulation.makeDirectories hTwins.disk
        target
    have hGrows := w.disk.grows_makeDirectories target
    rcases hFirst : w.disk.makeDirectories target with
      ⟨made, disk⟩
    rcases hOther : v.disk.makeDirectories target with
      ⟨made', disk'⟩
    rw [hFirst, hOther] at hMake
    rw [hFirst] at hGrows
    rcases hMake with ⟨rfl, hDisk⟩
    have hMade :=
      hTwins.onDisk hDisk (fun there => hGrows.nodes there _)
    cases made' with
    | error fault => exact ⟨rfl, hMade⟩
    | ok done =>
        refine ⟨rfl, ?_⟩
        dsimp only at hMade ⊢
        exact hMade.telling _

/- The same seeks are made. -/
theorem skipped
    (hTwins : Twins trouble loose w v)
    (goal : Seek) :
    (v.skipped (v.tape.seek goal)).2 =
        (w.skipped (w.tape.seek goal)).2 ∧
      Twins trouble loose (w.skipped (w.tape.seek goal)).1
        (v.skipped (v.tape.seek goal)).1 := by
  have hKept := (w.tape.kept_seek goal).source
  rw [hTwins.tape_eq]
  rcases hSeek : w.tape.seek goal with ⟨reply, tape⟩
  rw [hSeek] at hKept
  have hMoved := hTwins.onTape hKept
  cases reply with
  | ok position => exact ⟨rfl, hMoved⟩
  | error fault =>
      refine ⟨rfl, ?_⟩
      unfold Walk.skipped endWith
      dsimp only at hMoved ⊢
      exact hMoved.telling _

theorem realigned
    (hTwins : Twins trouble loose w v)
    (junk : Nat)
    (goal : Seek) :
    Twins trouble loose
      (w.realigned junk (w.tape.seek goal))
      (v.realigned junk (v.tape.seek goal)) := by
  have hKept := (w.tape.kept_seek goal).source
  rw [hTwins.tape_eq]
  rcases hSeek : w.tape.seek goal with ⟨reply, tape⟩
  rw [hSeek] at hKept
  have hMoved := hTwins.onTape hKept
  unfold Walk.realigned
  cases reply with
  | ok position =>
      dsimp only at hMoved ⊢
      exact hMoved.telling _
  | error fault => exact hMoved.survive _

/- The same blocks are given up. -/
theorem giveUp
    (hTwins : Twins trouble loose w v)
    (block : Block) :
    Twins trouble loose (w.giveUp block)
      (v.giveUp block) := by
  unfold Walk.giveUp
  split
  · exact hTwins.telling _
  · exact hTwins.telling _

/- The same blocks are read. -/
theorem readBlock
    (hTwins : Twins trouble loose w v) :
    TwinsAfter trouble loose w.readBlock v.readBlock := by
  have hKept := (w.tape.kept_gather blockSize blockSize).source
  unfold Walk.readBlock Tape.readUpTo
  rw [hTwins.tape_eq]
  rcases hRead : Tape.gather blockSize w.tape blockSize with
    ⟨reply, tape⟩
  rw [hRead] at hKept
  cases reply with
  | error fault => exact ⟨rfl, hTwins.onTape hKept⟩
  | ok got => exact ⟨rfl, hTwins.onTape hKept⟩

end Twins

end Walk

end ArchiveRescue
