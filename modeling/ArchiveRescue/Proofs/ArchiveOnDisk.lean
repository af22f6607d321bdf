import Mathlib
import ArchiveRescue.Proofs.Descent
import ArchiveRescue.Proofs.Growth
import ArchiveRescue.Proofs.Readiness
import ArchiveRescue.Proofs.RoundTrip
import ArchiveRescue.Proofs.SourceReads

/-
  Walks through an archive that is a file on the disk they
  write to.  An open file sees what is written to it, but the
  entries of the archive may not lead to it.  Then the walk
  goes on in step with one whose tape is kept nowhere.

  Key definitions include:
    * `Tape.moor`
    * `Path.Misses`
    * `Walk.Moors`
    * `Extraction.outsetOfFile`

  Main statements:
    * `Disk.Hosts.misses`
    * `Walk.Moors.onDisk`
    * `Walk.Moors.entry`
    * `Walk.Moors.round`
    * `Walk.Moors.ends`
    * `Extraction.restores_file`
-/

namespace ArchiveRescue

open Ustar

------------------------------------------------------------
-- Tapes
------------------------------------------------------------

namespace Tape

/- The same tape, kept on the file at a place. -/
def moor
    (t : Tape)
    (place : Location) : Tape :=
  { t with medium := .file (some place) }

section Calls

variable (t : Tape) (place : Location)

@[simp] theorem moor_medium :
    (t.moor place).medium = .file (some place) :=
  rfl

@[simp] theorem moor_ahead :
    (t.moor place).ahead = t.ahead :=
  rfl

@[simp] theorem moor_position :
    (t.moor place).position = t.position :=
  rfl

/- The script does not hear of the medium. -/
theorem ask_moor (call : Call) :
    (t.moor place).ask call =
      ((t.ask call).1, (t.ask call).2.moor place) := by
  unfold ask moor
  dsimp only
  split
  · split
    · rfl
    · rfl
  · rfl

theorem fetch_moor (n : Nat) :
    (t.moor place).fetch n =
      ((t.fetch n).1, (t.fetch n).2.moor place) := by
  unfold fetch
  rw [moor_position, ask_moor]
  rcases t.ask (.read t.position n) with ⟨reply, told⟩
  cases reply with
  | refuse fault => rfl
  | proceed most => rfl

end Calls

/- All files are read ahead and sought in the same way. -/
section Adrift

variable {t : Tape} (place : Location)
variable (hAdrift : t.medium = .file none)
include hAdrift

theorem read_moor (n : Nat) :
    (t.moor place).read n =
      ((t.read n).1, (t.read n).2.moor place) := by
  unfold read
  rw [moor_ahead, moor_medium, hAdrift]
  dsimp only [Medium.window]
  split
  · rw [fetch_moor]
    rcases t.fetch (max n 8192) with ⟨reply, told⟩
    cases reply with
    | error fault => rfl
    | ok fetched => rfl
  · rfl

theorem readTrying_moor (tries n : Nat) :
    readTrying tries (t.moor place) n =
      ((readTrying tries t n).1,
        (readTrying tries t n).2.moor place) := by
  induction tries generalizing t with
  | zero => exact read_moor place hAdrift n
  | succ tries ih =>
      have hRead := read_moor place hAdrift n
      have hTook := (t.took_read n).1.source.medium
      unfold readTrying
      rw [hRead]
      rcases hReply : t.read n with ⟨reply, told⟩
      rw [hReply] at hTook
      cases reply with
      | ok got => rfl
      | error fault =>
          cases fault with
          | interrupted => exact ih (hTook.trans hAdrift)
          | _ => rfl

theorem readPatiently_moor (n : Nat) :
    (t.moor place).readPatiently n =
      ((t.readPatiently n).1,
        (t.readPatiently n).2.moor place) :=
  readTrying_moor place hAdrift t.patience n

theorem gather_moor (fuel n : Nat) :
    gather fuel (t.moor place) n =
      ((gather fuel t n).1,
        (gather fuel t n).2.moor place) := by
  induction fuel generalizing t n with
  | zero => rfl
  | succ fuel ih =>
      have hRead := readPatiently_moor place hAdrift n
      have hTook := (t.took_readPatiently n).1.source.medium
      unfold gather
      rw [hRead]
      split
      · rfl
      · rcases hReply : t.readPatiently n with ⟨reply, told⟩
        rw [hReply] at hTook
        cases reply with
        | error fault => rfl
        | ok got =>
            dsimp only
            split
            · rfl
            · rw [ih (hTook.trans hAdrift)]
              rcases gather fuel told (n - got.length) with
                ⟨others, later⟩
              cases others with
              | error fault => rfl
              | ok more => rfl

theorem readUpTo_moor (n : Nat) :
    (t.moor place).readUpTo n =
      ((t.readUpTo n).1, (t.readUpTo n).2.moor place) :=
  gather_moor place hAdrift n n

theorem seek_moor (goal : Seek) :
    (t.moor place).seek goal =
      ((t.seek goal).1, (t.seek goal).2.moor place) := by
  have hGoal : (t.moor place).goalOf goal = t.goalOf goal := by
    cases goal with
    | fromStart position => rfl
    | fromEnd offset => rfl
    | fromHere offset => rfl
  unfold seek
  rw [moor_position, ask_moor, hGoal, moor_medium, hAdrift]
  rcases t.ask (.seek t.position goal) with ⟨reply, told⟩
  cases reply with
  | refuse fault => rfl
  | proceed most =>
      dsimp only
      split
      · rw [if_pos (by assumption)]
        rfl
      · rw [if_neg (by assumption)]
        rfl

end Adrift

end Tape

------------------------------------------------------------
-- Places That Are Missed
------------------------------------------------------------

/- A path that leads to the place on no disk. -/
def Path.Misses
    (p : Path)
    (place : Location) : Prop :=
  ∀ d : Disk, d.locate p ≠ .ok place

namespace Disk

variable {d e : Disk} {p : Path} {place there : Location}
variable {node : Node}

/- Changes where such a path leads spare the place. -/
theorem Spares.keeps
    (hSpares : Spares p d e)
    (hMisses : p.Misses place)
    (hNode : d.node? place = some node) :
    e.node? place = some node := by
  rcases hSpares.nodes place node hNode with hKept | hLeads
  · exact hKept
  · exact absurd hLeads (hMisses e)

/- So does what is written to another file. -/
theorem keeps_append
    (hApart : there ≠ place)
    (more : Bytes)
    (hNode : d.node? place = some node) :
    (d.perform (.append there more)).2.node? place =
      some node := by
  rw [d.node?_append_of_ne there more (Ne.symm hApart)]
  exact hNode

/- Steps lead to one place at the most, on whatever disk. -/
theorem follow_unique
    {here a b : Location}
    {names : List String}
    (hFirst : d.follow here names = .ok a)
    (hOther : e.follow here names = .ok b) :
    a = b := by
  induction names generalizing here with
  | nil =>
      cases hFirst
      cases hOther
      rfl
  | cons name rest ih =>
      rw [follow_cons] at hFirst hOther
      cases hNext : d.descend here name with
      | error fault =>
          rw [hNext] at hFirst
          cases hFirst
      | ok next =>
          cases hAlso : e.descend here name with
          | error fault =>
              rw [hAlso] at hOther
              cases hOther
          | ok next' =>
              rw [hNext] at hFirst
              rw [hAlso] at hOther
              have hSame : next = next' := by
                unfold descend at hNext hAlso
                split at hNext
                · cases hNext
                · cases hNext
                · split at hAlso
                  · cases hAlso
                  · cases hAlso
                  · rw [hNext] at hAlso
                    cases hAlso
                    rfl
              subst hSame
              exact ih hFirst hOther

/-
  Checked names lead below the output directory, and so miss
  a place that is elsewhere.
-/
theorem Hosts.misses
    {full target : Path}
    {base : Location}
    {name : String}
    (hHosts : d.Hosts full base)
    (hElsewhere : ∀ rel, rel ≠ [] → base ++ rel ≠ place)
    (hTarget : Ustar.target full name true = .ok target) :
    target.Misses place := by
  intro e hLeads
  unfold Ustar.target at hTarget
  rw [if_pos rfl] at hTarget
  split at hTarget
  next hSafe =>
    cases hTarget
    rcases Ustar.pieces_of_isSafe hSafe with ⟨hSome, hDown⟩
    have hPieces : ∀ piece ∈ Path.pieces ⟨name⟩,
        Path.isPiece piece = true :=
      fun _ hPiece => (List.mem_filter.mp hPiece).2
    have hWhole : ∀ piece ∈ Path.pieces ⟨name⟩,
        '/' ∉ piece.toList :=
      fun _ hPiece => Path.slash_notMem_pieces hPiece
    have hWay :=
      follow_of_absolute
        (Path.isAbsolute_join _ hHosts.absolute) hLeads
    rw [Path.pieces_join hHosts.absolute
        (Path.isAbsolute_ofPieces hSome hPieces hWhole),
      Path.pieces_ofPieces hSome hPieces hWhole,
      follow_append] at hWay
    cases hFirst : e.follow [] full.pieces with
    | error fault =>
        rw [hFirst] at hWay
        cases hWay
    | ok here =>
        rw [hFirst] at hWay
        have hHere :=
          follow_unique hFirst
            (follow_of_absolute hHosts.absolute hHosts.leads)
        subst hHere
        have hPlace := follow_down hDown hWay
        rw [List.filter_eq_self.mpr hPieces] at hPlace
        exact hElsewhere _ hSome hPlace.symm
  next => cases hTarget

end Disk

------------------------------------------------------------
-- Walks in Step
------------------------------------------------------------

namespace Walk

/-
  The second walk is the first one with its tape kept on the
  file at a place.  That file holds the bytes of the tape, and
  no entry of the walks leads to it.
-/
structure Moors
    (place : Location)
    (w v : Walk) : Prop where
  adrift : w.tape.medium = .file none
  file :
    ∃ modified,
      w.disk.node? place = some (.file w.tape.bytes modified)
  avoids :
    ∀ name target,
      Ustar.target w.directory name w.options.sanitize =
          .ok target →
        target.Misses place
  moored : v = { w with tape := w.tape.moor place }

/- Two steps with the same result that leave such walks. -/
def MoorsAfter
    {α : Type}
    (place : Location)
    (x y : α × Walk) : Prop :=
  y.1 = x.1 ∧ Moors place x.2 y.2

namespace Moors

variable {place : Location} {w v : Walk}

/- All but the tapes are the same. -/
theorem disk
    (hMoors : Moors place w v) :
    v.disk = w.disk := by
  rw [hMoors.moored]

/- Both tapes are read and moved in the same way. -/
theorem onTape
    (hMoors : Moors place w v)
    {tape : Tape}
    (hSource : w.tape.SameSource tape) :
    Moors place { w with tape := tape }
      { v with tape := tape.moor place } := by
  rcases hMoors with
    ⟨hAdrift, ⟨modified, hFile⟩, hAvoids, rfl⟩
  constructor
  · exact hSource.medium.trans hAdrift
  · refine ⟨modified, ?_⟩
    dsimp only
    rw [hSource.bytes]
    exact hFile
  · exact hAvoids
  · rfl

/- What is logged makes no difference. -/
theorem telling
    (hMoors : Moors place w v)
    (change : Report → Report) :
    Moors place (w.telling change)
      (v.telling change) := by
  rcases hMoors with ⟨hAdrift, hFile, hAvoids, rfl⟩
  exact ⟨hAdrift, hFile, hAvoids, rfl⟩

/- The same failures are recorded. -/
theorem survive
    (hMoors : Moors place w v)
    (failure : Failure) :
    Moors place (w.survive failure)
      (v.survive failure) := by
  rcases hMoors with ⟨hAdrift, hFile, hAvoids, rfl⟩
  exact ⟨hAdrift, hFile, hAvoids, rfl⟩

/-
  A change of the disk that keeps the file changes neither
  tape.
-/
theorem onDisk
    {disk : Disk}
    (hMoors : Moors place w v)
    (hKept :
      ∀ node, w.disk.node? place = some node →
        disk.node? place = some node) :
    Moors place (w.onDisk disk) (v.onDisk disk) := by
  rcases hMoors with
    ⟨hAdrift, ⟨modified, hFile⟩, hAvoids, rfl⟩
  have hStill := hKept _ hFile
  have hLoose : disk.refresh w.tape = w.tape := by
    apply Disk.refresh_detached
    rw [hAdrift]
    exact nofun
  have hMoored :
      disk.refresh (w.tape.moor place) =
        w.tape.moor place := by
    unfold Disk.refresh
    rw [Tape.moor_medium]
    dsimp only
    rw [hStill]
    rfl
  unfold Walk.onDisk
  rw [hLoose, hMoored]
  exact ⟨hAdrift, ⟨modified, hStill⟩, hAvoids, rfl⟩

/- So it is when directories are made. -/
theorem grown
    {disk : Disk}
    (hMoors : Moors place w v)
    (hGrows : w.disk.Grows disk) :
    Moors place (w.onDisk disk) (v.onDisk disk) :=
  hMoors.onDisk (hGrows.nodes place)

/- And when a file is made or removed elsewhere. -/
theorem spared
    {disk : Disk}
    {target : Path}
    (hMoors : Moors place w v)
    (hMisses : target.Misses place)
    (hSpares : w.disk.Spares target disk) :
    Moors place (w.onDisk disk) (v.onDisk disk) :=
  hMoors.onDisk (fun _ => hSpares.keeps hMisses)

------------------------------------------------------------
-- Files
------------------------------------------------------------

section Files

variable {target : Path} {there : Location}

theorem makeParents
    (hMoors : Moors place w v)
    (target : Path) :
    MoorsAfter place (w.makeParents target)
      (v.makeParents target) := by
  unfold Walk.makeParents
  rw [hMoors.disk]
  split
  · exact ⟨rfl, hMoors⟩
  next parent _ =>
    exact
      ⟨rfl,
        hMoors.grown (w.disk.grows_makeDirectories parent)⟩

/- The same file is begun, and it is another one. -/
theorem beginFile
    (hMoors : Moors place w v)
    (hMisses : target.Misses place) :
    MoorsAfter place (w.beginFile target)
        (v.beginFile target) ∧
      ∀ there, (w.beginFile target).1 = .ok there →
        there ≠ place := by
  have hParents := hMoors.makeParents target
  unfold Walk.beginFile
  rcases hFirst : w.makeParents target with ⟨made, ready⟩
  rcases hOther : v.makeParents target with ⟨made', ready'⟩
  rw [hFirst, hOther] at hParents
  rcases hParents with ⟨rfl, hReady⟩
  cases made' with
  | error failure => exact ⟨⟨rfl, hReady⟩, nofun⟩
  | ok _ =>
      dsimp only at hReady ⊢
      rw [hReady.disk]
      refine
        ⟨⟨rfl, hReady.spared hMisses
          (ready.disk.spares_createFile target)⟩, ?_⟩
      rcases hCreate : ready.disk.createFile target with
        ⟨reply, created⟩
      intro there hThere
      cases reply with
      | error fault => cases hThere
      | ok first =>
          cases hThere
          rintro rfl
          exact
            hMisses ready.disk
              (Disk.node?_of_createFile hCreate).1

theorem flush
    (hMoors : Moors place w v)
    (hApart : there ≠ place)
    (pending : Bytes) :
    MoorsAfter place (w.flush there pending)
      (v.flush there pending) := by
  unfold Walk.flush
  rw [hMoors.disk]
  split
  · exact ⟨rfl, hMoors⟩
  · exact
      ⟨rfl,
        hMoors.onDisk
          (fun _ => Disk.keeps_append hApart pending)⟩

theorem close
    (hMoors : Moors place w v)
    (hApart : there ≠ place)
    (pending : Bytes) :
    MoorsAfter place (w.close there pending)
      (v.close there pending) := by
  have hFlush := hMoors.flush hApart pending
  unfold Walk.close
  rcases hFirst : w.flush there pending with ⟨done, written⟩
  rcases hOther : v.flush there pending with
    ⟨done', written'⟩
  rw [hFirst, hOther] at hFlush
  rcases hFlush with ⟨rfl, hWritten⟩
  cases done' with
  | ok _ => exact ⟨rfl, hWritten⟩
  | error failure =>
      exact ⟨rfl, (hWritten.flush hApart pending).2⟩

theorem store
    (hMoors : Moors place w v)
    (hApart : there ≠ place)
    (pending got : Bytes) :
    MoorsAfter place (w.store there pending got)
      (v.store there pending got) := by
  have hFlush := hMoors.flush hApart pending
  unfold Walk.store
  split
  · exact ⟨rfl, hMoors⟩
  · rcases hFirst : w.flush there pending with
      ⟨done, written⟩
    rcases hOther : v.flush there pending with
      ⟨done', written'⟩
    rw [hFirst, hOther] at hFlush
    rcases hFlush with ⟨rfl, hWritten⟩
    cases done' with
    | ok _ => exact ⟨rfl, hWritten⟩
    | error failure => exact ⟨rfl, hWritten⟩

/- The same bytes are read and written. -/
theorem copyUpTo
    (hMoors : Moors place w v)
    (hApart : there ≠ place)
    (fuel : Nat)
    (c : Cursor)
    (pending : Bytes) :
    (Walk.copyUpTo there fuel v c pending).1 =
        (Walk.copyUpTo there fuel w c pending).1 ∧
      MoorsAfter place
        (Walk.copyUpTo there fuel w c pending).2
        (Walk.copyUpTo there fuel v c pending).2 := by
  induction fuel generalizing w v c pending with
  | zero => exact ⟨rfl, rfl, hMoors⟩
  | succ fuel ih =>
      have hRead :=
        Tape.readPatiently_moor place hMoors.adrift
          c.nextChunk
      have hTook :=
        (w.tape.took_readPatiently c.nextChunk).1.source
      have hTape : v.tape = w.tape.moor place := by
        rw [hMoors.moored]
      unfold Walk.copyUpTo
      rw [hTape, hRead]
      split
      · exact ⟨rfl, hMoors.close hApart pending⟩
      · rcases hReply : w.tape.readPatiently c.nextChunk with
          ⟨reply, tape⟩
        rw [hReply] at hTook
        have hMoved := hMoors.onTape hTook
        cases reply with
        | error fault =>
            exact
              ⟨rfl, rfl, (hMoved.flush hApart pending).2⟩
        | ok got =>
            dsimp only
            split
            · exact ⟨rfl, hMoved.close hApart pending⟩
            · rcases hMoved.store hApart pending got with
                ⟨hSame, hStored⟩
              rcases hFirst :
                  { w with tape := tape }.store there pending
                    got with ⟨done, stored⟩
              rcases hOther :
                  { v with tape := tape.moor place }.store
                    there pending got with ⟨done', stored'⟩
              rw [hFirst, hOther] at hSame hStored
              dsimp only at hSame hStored
              subst hSame
              rw [hFirst, hOther]
              cases done' with
              | ok held => exact ih hStored _ held
              | error failure =>
                  exact
                    ⟨rfl, rfl,
                      (hStored.flush hApart pending).2⟩

theorem copy
    (hMoors : Moors place w v)
    (hMisses : target.Misses place)
    (c : Cursor) :
    (v.copy c target).1 = (w.copy c target).1 ∧
      MoorsAfter place (w.copy c target).2
        (v.copy c target).2 := by
  rcases hMoors.beginFile hMisses with ⟨hBegin, hApart⟩
  unfold Walk.copy
  rcases hFirst : w.beginFile target with ⟨begun, ready⟩
  rcases hOther : v.beginFile target with ⟨begun', ready'⟩
  rw [hFirst, hOther] at hBegin
  rw [hFirst] at hApart
  rcases hBegin with ⟨hSame, hReady⟩
  dsimp only at hSame hReady hApart
  subst hSame
  have hTape : ready'.tape = ready.tape.moor place := by
    rw [hReady.moored]
  cases begun' with
  | error failure => exact ⟨rfl, rfl, hReady⟩
  | ok there =>
      dsimp only at hTape ⊢
      rw [hTape]
      exact hReady.copyUpTo (hApart there rfl) _ c []

/- The same files are kept and removed. -/
theorem removePartial
    (hMoors : Moors place w v)
    (hMisses : target.Misses place) :
    Moors place (w.removePartial target)
      (v.removePartial target) := by
  have hRemoved :=
    hMoors.spared hMisses (w.disk.spares_removeFile target)
  unfold Walk.removePartial
  rw [hMoors.disk]
  dsimp only
  split
  · exact hRemoved
  · exact hRemoved
  · exact hRemoved.telling _

theorem settleFile
    (hMoors : Moors place w v)
    (hMisses : target.Misses place)
    (c : Cursor)
    (name : String)
    (copied : Outcome Unit) :
    MoorsAfter place
      (w.settleFile c name target copied)
      (v.settleFile c name target copied) := by
  have hSize :
      v.ensureNotEmpty target = w.ensureNotEmpty target := by
    unfold ensureNotEmpty
    rw [hMoors.disk]
  unfold Walk.settleFile
  dsimp only
  rw [hSize]
  split
  · refine ⟨rfl, ?_⟩
    rcases hMoors with
      ⟨hAdrift, hFile, hAvoids, rfl⟩
    exact ⟨hAdrift, hFile, hAvoids, rfl⟩
  · exact ⟨rfl, hMoors.removePartial hMisses⟩

end Files

------------------------------------------------------------
-- Entries
------------------------------------------------------------

/- The same target is found for an entry. -/
theorem target_eq
    (hMoors : Moors place w v)
    (name : String) :
    Ustar.target v.directory name v.options.sanitize =
      Ustar.target w.directory name w.options.sanitize := by
  rw [hMoors.moored]

theorem writeFile
    (hMoors : Moors place w v)
    (c : Cursor)
    (name : String) :
    (v.writeFile c name).1 = (w.writeFile c name).1 ∧
      MoorsAfter place (w.writeFile c name).2
        (v.writeFile c name).2 := by
  unfold Walk.writeFile
  rw [hMoors.target_eq]
  split
  · exact ⟨rfl, rfl, hMoors⟩
  next target hTarget =>
    have hMisses := hMoors.avoids name target hTarget
    have hCopy := hMoors.copy hMisses (c.withTarget target)
    rcases hFirst : w.copy (c.withTarget target) target with
      ⟨read, copied, written⟩
    rcases hOther : v.copy (c.withTarget target) target with
      ⟨read', copied', written'⟩
    rw [hFirst, hOther] at hCopy
    rcases hCopy with ⟨rfl, rfl, hWritten⟩
    exact
      ⟨rfl, hWritten.settleFile hMisses read' name copied'⟩

theorem makeDirectory
    (hMoors : Moors place w v)
    (name : String) :
    MoorsAfter place (w.makeDirectory name)
      (v.makeDirectory name) := by
  unfold Walk.makeDirectory
  rw [hMoors.target_eq, hMoors.disk]
  split
  · exact ⟨rfl, hMoors⟩
  next target _ =>
    have hMade :=
      hMoors.grown (w.disk.grows_makeDirectories target)
    rcases hMake : w.disk.makeDirectories target with
      ⟨made, disk⟩
    rw [hMake] at hMade
    cases made with
    | error fault => exact ⟨rfl, hMade⟩
    | ok _ =>
        refine ⟨rfl, ?_⟩
        dsimp only at hMade ⊢
        exact hMade.telling _

theorem content
    (hMoors : Moors place w v)
    (c : Cursor)
    (header : Header) :
    (v.content c header).1 = (w.content c header).1 ∧
      MoorsAfter place (w.content c header).2
        (v.content c header).2 := by
  unfold Walk.content
  split
  · have hCounted :
        Moors place
          { w with expected := w.expected + 1 }
          { v with expected := v.expected + 1 } := by
      rcases hMoors with
        ⟨hAdrift, hFile, hAvoids, rfl⟩
      exact ⟨hAdrift, hFile, hAvoids, rfl⟩
    exact hCounted.writeFile c header.path
  · exact ⟨rfl, hMoors.makeDirectory header.path⟩
  · unfold passOver
    refine ⟨rfl, rfl, ?_⟩
    dsimp only
    exact hMoors.telling _

/- The same seek is made behind it. -/
theorem skipped
    (hMoors : Moors place w v)
    (goal : Seek) :
    (v.skipped (v.tape.seek goal)).2 =
        (w.skipped (w.tape.seek goal)).2 ∧
      Moors place (w.skipped (w.tape.seek goal)).1
        (v.skipped (v.tape.seek goal)).1 := by
  have hTape : v.tape = w.tape.moor place := by
    rw [hMoors.moored]
  have hKept := (w.tape.kept_seek goal).source
  rw [hTape, Tape.seek_moor place hMoors.adrift]
  rcases hSeek : w.tape.seek goal with ⟨reply, tape⟩
  rw [hSeek] at hKept
  have hMoved := hMoors.onTape hKept
  cases reply with
  | ok position => exact ⟨rfl, hMoved⟩
  | error fault =>
      refine ⟨rfl, ?_⟩
      unfold Walk.skipped endWith
      dsimp only at hMoved ⊢
      exact hMoved.telling _

theorem entry
    (hMoors : Moors place w v)
    (block : Block) :
    (v.entry block).2 = (w.entry block).2 ∧
      Moors place (w.entry block).1
        (v.entry block).1 := by
  have hDirectory : v.directory = w.directory := by
    rw [hMoors.moored]
  have hContent :=
    hMoors.content
      { directory := w.directory, header? := some block }
      block.header
  unfold Walk.entry
  rw [hDirectory]
  dsimp only
  rcases hFirst :
      w.content
        { directory := w.directory, header? := some block }
        block.header with ⟨c, outcome, done⟩
  rcases hOther :
      v.content
        { directory := w.directory, header? := some block }
        block.header with ⟨c', outcome', done'⟩
  rw [hFirst, hOther] at hContent
  rcases hContent with ⟨rfl, rfl, hDone⟩
  cases outcome' with
  | ok _ => exact hDone.skipped _
  | error source =>
      exact
        (hDone.survive
          (.entryFailed block.header.path source)).skipped _

theorem realign
    (hMoors : Moors place w v)
    (block : Block) :
    Moors place (w.realign block)
      (v.realign block) := by
  unfold Walk.realign
  split
  · unfold giveUp
    split
    · exact hMoors.telling _
    · exact hMoors.telling _
  next junk _ =>
    have hTape : v.tape = w.tape.moor place := by
      rw [hMoors.moored]
    have hKept :=
      (w.tape.kept_seek (.fromHere (realignment junk))).source
    rw [hTape, Tape.seek_moor place hMoors.adrift]
    rcases hSeek :
        w.tape.seek (.fromHere (realignment junk)) with
      ⟨reply, tape⟩
    rw [hSeek] at hKept
    have hMoved := hMoors.onTape hKept
    unfold Walk.realigned
    cases reply with
    | ok position =>
        dsimp only at hMoved ⊢
        exact hMoved.telling _
    | error fault => exact hMoved.survive _

------------------------------------------------------------
-- Rounds
------------------------------------------------------------

theorem readBlock
    (hMoors : Moors place w v) :
    MoorsAfter place w.readBlock v.readBlock := by
  have hTape : v.tape = w.tape.moor place := by
    rw [hMoors.moored]
  have hKept := (w.tape.kept_gather blockSize blockSize).source
  unfold Walk.readBlock
  rw [hTape, Tape.readUpTo_moor place hMoors.adrift]
  unfold Tape.readUpTo
  rcases hRead : Tape.gather blockSize w.tape blockSize with
    ⟨reply, tape⟩
  rw [hRead] at hKept
  cases reply with
  | error fault => exact ⟨rfl, hMoors.onTape hKept⟩
  | ok got => exact ⟨rfl, hMoors.onTape hKept⟩

/- A round goes on or ends for both, in the same way. -/
theorem round
    (hMoors : Moors place w v) :
    v.round.2 = w.round.2 ∧
      Moors place w.round.1 v.round.1 := by
  have hOptions : v.options = w.options := by
    rw [hMoors.moored]
  have hRead := hMoors.readBlock
  unfold Walk.round
  rw [hOptions]
  rcases hFirst : w.readBlock with ⟨reply, read⟩
  rcases hOther : v.readBlock with ⟨reply', read'⟩
  rw [hFirst, hOther] at hRead
  rcases hRead with ⟨rfl, hRead⟩
  unfold endWith
  rcases reply' with fault | _ | block
  · dsimp only at hRead ⊢
    exact ⟨rfl, hRead.telling _⟩
  · dsimp only at hRead ⊢
    exact ⟨rfl, hRead.telling _⟩
  · dsimp only at hRead ⊢
    split
    · dsimp only
      exact ⟨rfl, hRead.telling _⟩
    · exact hRead.entry block
    · exact ⟨rfl, hRead.realign block⟩

/- So does the whole walk. -/
theorem run
    (fuel : Nat)
    (hMoors : Moors place w v) :
    Option.Rel (Moors place) (w.run? fuel)
      (v.run? fuel) := by
  induction fuel generalizing w v with
  | zero => exact .none
  | succ fuel ih =>
      have hRound := hMoors.round
      unfold run?
      rcases hFirst : w.round with ⟨next, goes⟩
      rcases hOther : v.round with ⟨next', goes'⟩
      rw [hFirst, hOther] at hRound
      rcases hRound with ⟨rfl, hNext⟩
      cases goes' with
      | true => exact ih hNext
      | false => exact .some hNext

/- It ends where the walk with the loose tape ends. -/
theorem ends
    {last : Walk}
    (hMoors : Moors place w v)
    (hEnds : w.Ends last) :
    ∃ last', v.Ends last' ∧
      Moors place last last' := by
  rcases hEnds with ⟨least, hLeast⟩
  have hEach : ∀ fuel, least ≤ fuel →
      v.run? fuel =
          some { last with tape := last.tape.moor place } ∧
        Moors place last
          { last with tape := last.tape.moor place } := by
    intro fuel hFuel
    have hRun := hMoors.run fuel
    rw [hLeast fuel hFuel] at hRun
    cases hOther : v.run? fuel with
    | none =>
        rw [hOther] at hRun
        cases hRun
    | some last' =>
        rw [hOther] at hRun
        cases hRun with
        | some hLast =>
            have hSame := hLast.moored
            subst hSame
            exact ⟨rfl, hLast⟩
  exact
    ⟨_, ⟨least, fun fuel hFuel => (hEach fuel hFuel).1⟩,
      (hEach least (Nat.le_refl least)).2⟩

end Moors

end Walk

------------------------------------------------------------
-- Archives That Are Files
------------------------------------------------------------

namespace Extraction

section Files

variable {disk later ready : Disk} {directory full : Path}
variable {created : Bool} {base : Location}

/- Disks that are alike are prepared alike. -/
theorem prepare_alike
    (hAlike : disk.Alike later)
    (directory : Path) :
    Disk.AlikeAfter (prepare disk directory)
      (prepare later directory) := by
  unfold prepare
  rw [hAlike.absolute_eq]
  split
  · exact ⟨rfl, hAlike⟩
  next full _ =>
    rw [hAlike.look_eq]
    split
    · exact ⟨rfl, hAlike⟩
    · exact ⟨rfl, hAlike⟩
    · have hMake := hAlike.makeDirectories full
      rcases hFirst : disk.makeDirectories full with
        ⟨made, tried⟩
      rcases hOther : later.makeDirectories full with
        ⟨made', tried'⟩
      rw [hFirst, hOther] at hMake
      rcases hMake with ⟨rfl, hTried⟩
      cases made' with
      | error fault => exact ⟨rfl, hTried⟩
      | ok _ => exact ⟨rfl, hTried⟩

/- A fresh directory is so when the disk has been read. -/
theorem IsFresh.ticks
    (hFresh :
      IsFresh disk directory full created ready base)
    (hTicks : disk.Ticks later) :
    ∃ ready',
      IsFresh later directory full created ready' base ∧
        ready.Alike ready' := by
  have hAlike :=
    prepare_alike (hTicks.alike hFresh.permits.steady) directory
  rcases hPrepare : prepare later directory with
    ⟨outcome, ready'⟩
  rw [hFresh.prepared, hPrepare] at hAlike
  rcases hAlike with ⟨hSame, hReady⟩
  cases hSame
  refine ⟨ready', ⟨hPrepare, ?_, ?_, hFresh.room, ?_⟩, hReady⟩
  · rw [hReady.locate_eq]
    exact hFresh.leads
  · intro rel hRel
    rw [hReady.node?_eq]
    exact hFresh.empty rel hRel
  · rw [hTicks.settings.trouble]
    exact hFresh.permits

/- What is restored does not depend on what was only read. -/
theorem Restores.of_alike
    {x : Extracted}
    {items : List Item}
    {ready' : Disk}
    (hRestores : Restores x items full created ready' base)
    (hAlike : ready.Alike ready') :
    Restores x items full created ready base :=
  { hRestores with
    beside := fun place hPlace =>
      (hRestores.beside place hPlace).trans
        (hAlike.node?_eq place) }

/- The walk that an extraction from a file sets out with. -/
def outsetOfFile
    (options : ExtractionOptions)
    (archive : Path)
    (tape : Tape)
    (full : Path)
    (ready : Disk) : Walk :=
  let report : Report :=
    { operation := operation .blocking "extract_tar_file"
      snapshot := { inputPath := some archive } }
  { disk := ready
    tape := tape
    directory := full
    options := options
    report :=
      report.note (fun s =>
        { s with outputPath := some full }) }

section SettingOut

variable {options : ExtractionOptions} {archive : Path}
variable {tape : Tape} {place : Location}

/- The items of an archive are awaited by it as well. -/
theorem IsFresh.awaits_ofFile
    {items : List Item}
    (hFresh :
      IsFresh disk directory full created ready base)
    (hTaken : ∀ item ∈ items, item.IsTaken options.sanitize)
    (hSound : ∀ item ∈ items, item.IsSound)
    (hApart : items.Pairwise Item.Apart) :
    (outsetOfFile options archive tape full ready).Awaits base
      items where
  hosts := hFresh.hosts
  empty := hFresh.empty
  taken := hTaken
  sound := hSound
  apart := hApart

/-
  A file on the disk cannot be below a fresh directory.  So a
  walk through it is moored there.
-/
theorem IsFresh.moors
    {modified : Int}
    (archive : Path)
    (hFresh :
      IsFresh disk directory full created ready base)
    (hSanitize : options.sanitize = true)
    (hMedium : tape.medium = .file (some place))
    (hNode :
      ready.node? place =
        some (.file tape.bytes modified)) :
    Walk.Moors place
      (outsetOfFile options archive
        { tape with medium := .file none } full ready)
      (outsetOfFile options archive tape full ready) where
  adrift := rfl
  file := ⟨modified, hNode⟩
  avoids := by
    intro name target hTarget
    change Ustar.target full name options.sanitize = _
      at hTarget
    rw [hSanitize] at hTarget
    refine hFresh.hosts.misses ?_ hTarget
    rintro rel hRel rfl
    rw [hFresh.empty rel hRel] at hNode
    cases hNode
  moored := by
    unfold outsetOfFile Tape.moor
    dsimp only
    rw [← hMedium]

end SettingOut

/-
  The archive of the items may as well be a file on the disk.
-/
theorem restores_file
    (options : ExtractionOptions)
    {headed : List (Item × Block)}
    {archive : Path}
    (hSanitize : options.sanitize = true)
    (hSeries : Item.IsSeries headed)
    (hShows :
      disk.fileAt? archive = some (Item.archived headed))
    (hOpens : (Source.file archive).Opens disk)
    (hShort : (Item.archived headed).length < 2 ^ 63)
    (hFresh :
      IsFresh disk directory full created ready base) :
    ∃ x,
      Yields
        (fun fuel =>
          ofFile? .blocking fuel options archive directory
            disk)
        x ∧
      Restores x (headed.map Prod.fst) full created ready
        base := by
  rcases Disk.fileAt?_cases hShows with
    ⟨place, modified, hLeads, hNode, hPlain⟩
  rcases Disk.openFile_eq (hOpens _ _ rfl hLeads) hLeads hNode
      hPlain with
    ⟨tape, opened, hOpen, hTape, -⟩
  rcases Disk.openFile_shows hShows hOpen with
    ⟨there, hThere, hBytes, hStart, -, hMedium⟩
  cases hLeads.symm.trans hThere
  have hTicks := disk.ticks_openFile archive
  rw [hOpen] at hTicks
  rcases hFresh.ticks hTicks with ⟨ready', hOpened, hAlike⟩
  have hGrows := grows_prepare opened directory
  rw [hOpened.prepared] at hGrows
  rw [← hBytes] at hNode
  have hMoors :=
    hOpened.moors archive hSanitize hMedium
      ((hTicks.grows.trans hGrows).nodes place _ hNode)
  -- With its tape kept nowhere, the walk is one of a series.
  have hStands :
      (outsetOfFile options archive
          { tape with medium := .file none } full
          ready').Stands (Item.archived headed) :=
    Tape.Holds.stands
      ⟨⟨hTape.calm, nofun, hTape.inStep⟩, hStart, hBytes,
        hShort⟩
  have hAwaits :
      (outsetOfFile options archive
          { tape with medium := .file none } full
          ready').Awaits base
        ([] ++ headed.map Prod.fst) :=
    hOpened.awaits_ofFile
      (fun item _ => item.isTaken_of_sanitize hSanitize)
      hSeries.sound hSeries.apart
  rcases hAwaits.ends_behind_series
      ((Walk.Alike.refl _).gains base) hSeries.headed hStands
      (magic_notIn_zeros _) with ⟨last, hEnds, hLast⟩
  rcases hMoors.ends hEnds with ⟨last', hEnds', hMoored⟩
  have hGains :
      (outsetOfFile options archive
          { tape with medium := .file none } full ready').Gains
        last' base (headed.map Prod.fst) := by
    rw [hMoored.moored]
    exact { hLast with }
  refine ⟨finish last' full created, ?_, ?_⟩
  · unfold ofFile?
    rw [hOpen]
    exact yields_of_ends hOpened.prepared hEnds'
  · exact
      (restores_of_gains created hAwaits rfl rfl rfl rfl
        hGains).of_alike hAlike

end Files

end Extraction

end ArchiveRescue
