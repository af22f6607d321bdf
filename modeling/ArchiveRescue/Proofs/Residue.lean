import Mathlib
import ArchiveRescue.Proofs.Bookkeeping
import ArchiveRescue.Proofs.Enclosure
import ArchiveRescue.Proofs.MadeDirectories
import ArchiveRescue.Proofs.Wholeness

/-
  What is left of a run that extracts nothing.  The files of
  all entries that failed are gone.  The directories that
  were made for them stay, and keep the output directory from
  being taken away.

  Key definitions include:
    * `Trouble.Yields`
    * `Walk.IsWay`
    * `Extraction.LeavesWays`

  Main statements:
    * `Walk.paves_writeFile`
    * `Walk.paves_run`
    * `Extraction.leaves_ways_only`
-/

namespace ArchiveRescue

open Ustar Disk

/- No removal is refused, of a file or of a directory. -/
structure Trouble.Yields (trouble : Trouble) : Prop where
  files : trouble.Removes
  directories :
    ∀ turn place,
      trouble.refuses turn (.removeDirectory place) = none

namespace Walk

------------------------------------------------------------
-- Entries That Fail
------------------------------------------------------------

section Files

variable {w v : Walk} {target : Path} {place : Location}

/- The directories of a file are made above it. -/
theorem paves_makeParents
    (w : Walk)
    (hDescends : target.Descends) :
    Paves (IsBelow · target.pieces) w.disk
      (w.makeParents target).2.disk := by
  unfold makeParents
  split
  next => exact .refl _ w.disk
  next parent hParent =>
    have hAbove := hDescends.above_parent hParent
    exact
      w.disk.paves_makeDirectories
        (hDescends.parent hParent).1
        (fun _ hPrefix => hAbove.of_prefix hPrefix)

/- Removing a file is all that happens to the disk. -/
theorem disk_removePartial
    (w : Walk)
    (target : Path) :
    (w.removePartial target).disk =
      (w.disk.removeFile target).2 := by
  unfold removePartial
  dsimp only
  split <;> rfl

/- All that a copy writes goes to its file. -/
theorem elsewhere_copyUpTo
    (place : Location)
    (fuel : Nat)
    (w : Walk)
    (c : Cursor)
    (pending : Bytes) :
    ∀ there, there ≠ place →
      (copyUpTo place fuel w c pending).2.2.disk.node? there =
        w.disk.node? there := by
  refine
    related_copyUpTo
      (R := fun w v => ∀ there, there ≠ place →
        v.disk.node? there = w.disk.node? there)
      (fun _ _ _ => rfl) ?_ (fun _ hSame => hSame) ?_ fuel w c
      pending
  · intro u v w hFirst hSecond there hThere
    exact
      (hSecond there hThere).trans (hFirst there hThere)
  · intro w pending there hThere
    unfold flush
    split
    next => rfl
    next => exact w.disk.node?_append_of_ne place _ hThere

/-
  A copy makes directories only, or behind them the file that
  its target leads to.
-/
theorem copy_cases
    {c read : Cursor}
    {copied : Outcome Unit}
    (hDescends : target.Descends)
    (hCopy : w.copy c target = (read, copied, v)) :
    Paves (IsBelow · target.pieces) w.disk v.disk ∨
      ∃ ready place,
        Paves (IsBelow · target.pieces) w.disk ready ∧
          ready.node? place ≠ some .directory ∧
          target.endsWithSlash = false ∧
          Aims target place v.disk ∧
          ∀ there, there ≠ place →
            v.disk.node? there = ready.node? there := by
  have hParents := w.paves_makeParents hDescends
  unfold copy at hCopy
  rcases hBegin : w.beginFile target with ⟨begun, begins⟩
  rcases tries_beginFile hBegin with ⟨-, hAims⟩
  rw [hBegin] at hCopy
  unfold beginFile at hBegin
  split at hBegin
  next hFailed =>
    cases hBegin
    cases hCopy
    rw [hFailed] at hParents
    exact .inl hParents
  next ready hReady =>
    rw [hReady] at hParents
    rcases hCreate : ready.disk.createFile target with
      ⟨result, disk⟩
    rw [hCreate] at hBegin
    cases hBegin
    cases result with
    | error fault =>
        cases hCopy
        exact
          .inl (hParents.trans (paves_of_uncreated _ hCreate))
    | ok place =>
        rcases node?_of_createFile hCreate with
          ⟨-, hFree, hPlain, hMade⟩
        have hFills :=
          fills_copyUpTo target place
            ((ready.onDisk disk).tape.bytes.length +
              (ready.onDisk disk).tape.ahead.length + 1)
            (ready.onDisk disk) c [] (hAims place rfl)
        have hSame :=
          elsewhere_copyUpTo place
            ((ready.onDisk disk).tape.bytes.length +
              (ready.onDisk disk).tape.ahead.length + 1)
            (ready.onDisk disk) c []
        dsimp only [Except.mapError] at hCopy
        rw [hCopy] at hFills hSame
        refine
          .inr ⟨ready.disk, place, hParents, hFree, hPlain,
            hFills.2, ?_⟩
        intro there hThere
        rw [hSame there hThere]
        exact (hMade there).trans (if_neg hThere)

/-
  A file that fails is gone, and leaves directories above its
  target at most.
-/
theorem paves_writeFile
    {c read : Cursor}
    {name : String}
    {source : Failure}
    (hRemoves : w.disk.trouble.Removes)
    (hDescends : target.Descends)
    (hTarget :
      Ustar.target w.directory name w.options.sanitize =
        .ok target)
    (hWrite : w.writeFile c name = (read, .error source, v)) :
    Paves (IsBelow · target.pieces) w.disk v.disk := by
  unfold writeFile at hWrite
  rw [hTarget] at hWrite
  dsimp only at hWrite
  rcases hCopied : w.copy (c.withTarget target) target with
    ⟨later, copied, written⟩
  have hSettings := (tries_copy hCopied).1.disk.settings
  rw [hCopied] at hWrite
  rcases Prod.mk.inj hWrite with ⟨-, hSettle⟩
  unfold settleFile at hSettle
  dsimp only at hSettle
  split at hSettle
  next => cases hSettle
  next =>
    cases hSettle
    rw [disk_removePartial]
    rcases copy_cases hDescends hCopied with
      hPaves | ⟨ready, place, hPaves, hFree, hPlain, hAims,
        hSame⟩
    · exact
        hPaves.trans (written.disk.paves_removeFile _ target)
    · have hBack : ready.SameSettings w.disk :=
        ⟨hPaves.settings.workDir.symm,
          hPaves.settings.trouble.symm⟩
      refine hPaves.trans ⟨?_, ?_, ?_⟩
      · exact
          (hBack.trans hSettings).trans
            (written.disk.settings_removeFile target)
      · intro there hThere
        have hOther : there ≠ place := by
          rintro rfl
          exact hFree hThere
        refine
          (written.disk.spares_removeFile target).directories
            there ?_
        rw [hSame there hOther]
        exact hThere
      · intro there node hNode
        have hGone :=
          node?_removeFile
            (hSettings.trouble ▸ hRemoves) hAims hPlain
        have hOther : there ≠ place := by
          rintro rfl
          rw [hGone] at hNode
          cases hNode
        rcases (written.disk.paves_removeFile
            (fun _ => False) target).nodes there node hNode with
          hOld | ⟨-, hNever⟩
        · rw [hSame there hOther] at hOld
          exact .inl hOld
        · exact hNever.elim

end Files

------------------------------------------------------------
-- Rounds
------------------------------------------------------------

/-
  A place above the target of a regular file with an accepted
  name, below a place that the output directory leads to.
-/
def IsWay
    (base : Location)
    (block : Block)
    (place : Location) : Prop :=
  block.header.kind = .file ∧
    isSafe ⟨block.header.path⟩ = true ∧
    IsBelow place (base ++ Path.pieces ⟨block.header.path⟩)

section Rounds

variable {base : Location} {w v : Walk} {block : Block}

/- An entry that adds no file leaves directories at most. -/
theorem paves_content
    {c read : Cursor}
    {outcome : Outcome Unit}
    (hBound : w.IsBound base)
    (hRemoves : w.disk.trouble.Removes)
    (hKind : block.header.kind ≠ .directory)
    (hContent :
      w.content c block.header = (read, outcome, v))
    (hNone : v.extracted = []) :
    Paves (IsWay base block) w.disk v.disk := by
  unfold content at hContent
  split at hContent
  next hFile =>
    cases hTarget :
        Ustar.target w.directory block.header.path
          w.options.sanitize with
    | error failure =>
        unfold writeFile at hContent
        dsimp only at hContent
        rw [hTarget] at hContent
        cases hContent
        exact .refl _ w.disk
    | ok target =>
        have hWithin := hBound.within hTarget
        have hChecked := hTarget
        rw [hBound.sanitize] at hChecked
        rcases pieces_target hBound.descends.absolute
            hChecked with
          ⟨hSafe, -, hPieces⟩
        rw [hBound.pieces] at hPieces
        rcases writeFile_cases hContent with
          ⟨⟨source, rfl⟩, -⟩ |
            ⟨other, written, -, -, -, hKept⟩
        · have hPaves :=
            paves_writeFile
              (w := { w with expected := w.expected + 1 })
              hRemoves hWithin.descends hTarget hContent
          refine hPaves.widen fun place hAbove => ?_
          exact ⟨hFile, hSafe, hPieces ▸ hAbove⟩
        · rw [hKept] at hNone
          simp at hNone
  next hDirectory => exact absurd hDirectory hKind
  next =>
    cases hContent
    exact .refl _ w.disk

/- A seek is not seen on the disk. -/
theorem skipped_keeps
    (w : Walk)
    (reply : Except Fault Nat × Tape) :
    (w.skipped reply).1.disk = w.disk ∧
      (w.skipped reply).1.extracted = w.extracted := by
  rcases reply with ⟨fault | position, tape⟩
  · exact ⟨rfl, rfl⟩
  · exact ⟨rfl, rfl⟩

/- Neither do the failures that are noted, nor the seek. -/
theorem paves_entry
    (hBound : w.IsBound base)
    (hRemoves : w.disk.trouble.Removes)
    (hKind : block.header.kind ≠ .directory)
    (hNone : (w.entry block).1.extracted = []) :
    Paves (IsWay base block) w.disk (w.entry block).1.disk := by
  unfold entry at hNone ⊢
  dsimp only at hNone ⊢
  rcases hContent :
      w.content
        { directory := w.directory, header? := some block }
        block.header with
    ⟨read, outcome, v⟩
  rw [hContent] at hNone
  rw [(skipped_keeps _ _).2] at hNone
  rw [(skipped_keeps _ _).1]
  cases outcome with
  | ok done =>
      exact
        paves_content (v := v) hBound hRemoves hKind hContent
          hNone
  | error source =>
      exact
        paves_content (v := v) hBound hRemoves hKind hContent
          hNone

/- What is not an entry is not seen there either. -/
theorem realign_keeps
    (w : Walk)
    (block : Block) :
    (w.realign block).disk = w.disk ∧
      (w.realign block).extracted = w.extracted := by
  unfold realign
  split
  next =>
    unfold giveUp
    split
    · exact ⟨rfl, rfl⟩
    · exact ⟨rfl, rfl⟩
  next junk _ =>
    rcases w.tape.seek (.fromHere (realignment junk)) with
      ⟨fault | position, tape⟩
    · exact ⟨rfl, rfl⟩
    · exact ⟨rfl, rfl⟩

/- So a round that adds no file leaves directories at most. -/
theorem paves_round
    (hBound : w.IsBound base)
    (hRemoves : w.disk.trouble.Removes)
    (hKind :
      ∀ block, w.header? = some block →
        block.header.kind ≠ .directory)
    (hNone : w.round.1.extracted = []) :
    Paves
      (fun place =>
        ∃ block, w.header? = some block ∧
          IsWay base block place)
      w.disk w.round.1.disk := by
  unfold header? at hKind ⊢
  unfold round at hNone ⊢
  rcases hBlock : w.readBlock with ⟨reply, read⟩
  rcases readBlock_tape hBlock with ⟨tape, rfl⟩
  rw [hBlock] at hNone hKind
  cases reply with
  | error fault => exact .refl _ w.disk
  | ok found =>
      cases found with
      | none => exact .refl _ w.disk
      | some block =>
          dsimp only at hNone hKind ⊢
          cases hSight : sight w.options block with
          | blank => exact .refl _ w.disk
          | header =>
              rw [hSight] at hNone hKind
              have hRead :
                  IsBound base { w with tape := tape } :=
                { hBound with }
              have hPaves :=
                paves_entry hRead hRemoves
                  (hKind block rfl) hNone
              exact
                hPaves.widen
                  (fun place hWay => ⟨block, rfl, hWay⟩)
          | other =>
              dsimp only
              rw [(realign_keeps _ block).1]
              exact .refl _ w.disk

/- What has been extracted stays in the list. -/
theorem extracted_entry
    (w : Walk)
    (block : Block) :
    w.extracted <+: (w.entry block).1.extracted := by
  unfold entry
  dsimp only
  rcases hContent :
      w.content
        { directory := w.directory, header? := some block }
        block.header with
    ⟨read, outcome, v⟩
  have hKept : w.extracted <+: v.extracted := by
    rcases content_cases hContent with
      ⟨-, -, -, -, hSame⟩ | ⟨target, -, hHandles⟩
    · rw [hSame]
    · rcases hHandles.settles with
        ⟨-, hSame⟩ | ⟨-, -, hMore⟩
      · rw [hSame]
      · rw [hMore]
        exact List.prefix_append _ _
  rw [(skipped_keeps _ _).2]
  cases outcome with
  | ok done => exact hKept
  | error source => exact hKept

theorem extracted_round (w : Walk) :
    w.extracted <+: w.round.1.extracted := by
  unfold round
  rcases hBlock : w.readBlock with ⟨reply, read⟩
  rcases readBlock_tape hBlock with ⟨tape, rfl⟩
  cases reply with
  | error fault => exact List.prefix_rfl
  | ok found =>
      cases found with
      | none => exact List.prefix_rfl
      | some block =>
          dsimp only
          cases sight w.options block with
          | blank => exact List.prefix_rfl
          | header =>
              exact
                { w with tape := tape }.extracted_entry block
          | other =>
              dsimp only
              rw [(realign_keeps _ block).2]

theorem extracted_run
    {fuel : Nat}
    {last : Walk}
    (hRun : w.run? fuel = some last) :
    w.extracted <+: last.extracted := by
  induction fuel generalizing w with
  | zero => cases hRun
  | succ fuel ih =>
      have hRound := w.extracted_round
      unfold run? at hRun
      split at hRun
      next next hNext =>
        rw [hNext] at hRound
        exact hRound.trans (ih hRun)
      next hLast =>
        cases hRun
        rw [hLast] at hRound
        exact hRound

/-
  So does a run.  By induction on the rounds: a run that ends
  with nothing extracted has extracted nothing on the way.
-/
theorem paves_run
    {fuel : Nat}
    {last : Walk}
    (hBound : w.IsBound base)
    (hRemoves : w.disk.trouble.Removes)
    (hFiles :
      ∀ block ∈ w.headers fuel,
        block.header.kind ≠ .directory)
    (hRun : w.run? fuel = some last)
    (hNone : last.extracted = []) :
    Paves
      (fun place =>
        ∃ block ∈ w.headers fuel, IsWay base block place)
      w.disk last.disk := by
  induction fuel generalizing w with
  | zero => cases hRun
  | succ fuel ih =>
      have hStays := hBound.stays_round
      unfold headers at hFiles ⊢
      have hHere :
          ∀ block, w.header? = some block →
            block ∈ w.header?.toList := by
        intro block hBlock
        rw [hBlock]
        exact List.mem_singleton_self block
      have hKind :
          ∀ block, w.header? = some block →
            block.header.kind ≠ .directory :=
        fun block hBlock =>
          hFiles block
            (List.mem_append_left _ (hHere block hBlock))
      -- What the first round paves is among what all pave.
      have hRound : ∀ more, w.round.1.extracted = [] →
          Paves
            (fun place =>
              ∃ block ∈ w.header?.toList ++ more,
                IsWay base block place)
            w.disk w.round.1.disk := by
        intro more hVain
        refine
          (paves_round hBound hRemoves hKind hVain).widen ?_
        rintro place ⟨block, hBlock, hWay⟩
        exact
          ⟨block, List.mem_append_left _ (hHere block hBlock),
            hWay⟩
      unfold run? at hRun
      split at hRun
      next next hNext =>
        rw [hNext] at hStays hRound hFiles ⊢
        have hVain : next.extracted = [] :=
          List.prefix_nil.mp (hNone ▸ extracted_run hRun)
        have hFirst := hRound (headers fuel next) hVain
        have hLater :=
          ih (hBound.of_stays hStays)
            (hFirst.settings.trouble ▸ hRemoves)
            (fun block hMem =>
              hFiles block (List.mem_append_right _ hMem))
            hRun
        refine hFirst.trans (hLater.widen ?_)
        rintro place ⟨block, hMem, hWay⟩
        exact ⟨block, List.mem_append_right _ hMem, hWay⟩
      next hLast =>
        cases hRun
        rw [hLast] at hRound ⊢
        exact hRound [] hNone

end Rounds

end Walk

------------------------------------------------------------
-- Whole Runs
------------------------------------------------------------

/- Where nothing stands on a tree, nothing stands below. -/
theorem Disk.IsTree.none_below
    {d : Disk}
    {base place : Location}
    (hTree : d.IsTree)
    (hNone : d.node? base = none)
    (hBelow : IsBelow base place) :
    d.node? place = none := by
  rcases hBelow with ⟨⟨rel, rfl⟩, hOther⟩
  have hSome : rel ≠ [] := by
    rintro rfl
    exact hOther (List.append_nil base)
  by_contra hThere
  rcases Option.ne_none_iff_exists'.mp hThere with
    ⟨node, hNode⟩
  unfold node? at hNode
  rw [if_neg (append_ne_root base hSome)] at hNode
  rcases List.lookup_eq_some_iff.mp hNode with
    ⟨before, behind, hEntries, -⟩
  have hParent :=
    hTree.parents (base ++ rel, node) (by simp [hEntries])
  rw [List.dropLast_append_of_ne_nil hSome] at hParent
  have hBase := hTree.above hParent
  rw [hNone] at hBase
  cases hBase

namespace Extraction

section Vain

variable {options : ExtractionOptions} {report : Report}
variable {tape : Tape} {directory full : Path} {disk : Disk}
variable {base : Location} {last : Walk} {fuel : Nat}
variable {x : Extracted}

/-
  An output directory that is missing is made, with what leads
  there, or it is still missing.
-/
theorem prepare_missing
    (hDown : ".." ∉ directory.pieces)
    (hTree : disk.IsTree)
    (hMissing : disk.node? (disk.named directory) = none) :
    (∃ failure tried,
        prepare disk directory = (.error failure, tried) ∧
          Paves (IsBelow · (disk.named directory)) disk
            tried) ∨
      ∃ full ready,
        prepare disk directory = (.ok (full, true), ready) ∧
          ready.isDirectory full = true ∧
          Paves (· <+: disk.named directory) disk ready := by
  unfold prepare
  split
  next => exact .inl ⟨_, disk, rfl, .refl _ disk⟩
  next full hFull =>
    rcases hTree.absolute hDown hFull with
      ⟨hDescends, hPieces⟩
    split
    next hLook =>
      have hThere : disk.isDirectory full = true := by
        unfold isDirectory
        rw [hLook]
      rcases isDirectory_iff.mp hThere with
        ⟨place, hLocate, hNode⟩
      have hPlace := locate_descends hDescends hLocate
      rw [hPlace, hPieces, hMissing] at hNode
      cases hNode
    next => exact .inl ⟨_, disk, rfl, .refl _ disk⟩
    next =>
      split
      next hFailed =>
        refine .inl ⟨_, _, rfl, ?_⟩
        rw [← hPieces]
        exact paves_of_failed hDescends hFailed
      next made hMade =>
        have hPaves :
            Paves (· <+: disk.named directory) disk
              (disk.makeDirectories full).2 :=
          disk.paves_makeDirectories hDescends
            (fun place hPrefix => hPieces ▸ hPrefix)
        rw [hMade] at hPaves
        exact
          .inr ⟨full, made, rfl,
            isDirectory_of_makeDirectories hDescends.absolute
              hMade, hPaves⟩

/- An empty directory that was made in vain is taken away. -/
theorem withdraw_empty
    (hDescends : full.Descends)
    (hThere : last.disk.isDirectory full = true)
    (hEmpty : last.disk.children full.pieces = []) :
    (withdraw last full true).disk =
      (last.disk.perform (.removeDirectory full.pieces)).2 := by
  rcases isDirectory_iff.mp hThere with
    ⟨place, hLocate, hNode⟩
  have hPlace := locate_descends hDescends hLocate
  subst hPlace
  have hFound : last.disk.isEmptyDirectory full = true := by
    unfold isEmptyDirectory holdsDirectory
    rw [hLocate]
    dsimp only
    rw [hNode, hEmpty]
    rfl
  unfold withdraw
  rw [hFound, if_pos (Bool.and_self true),
    ← (removeDirectory_eq hDescends hFound).1]
  rcases last.disk.removeDirectory full with ⟨reply, later⟩
  cases reply with
  | error fault => rfl
  | ok done => rfl

/-
  How a walk ends that has extracted nothing into a directory
  that was made for it.  The directory is gone if it is empty,
  and otherwise nothing has changed.
-/
theorem finish_vain
    (hDescends : full.Descends)
    (hThere : last.disk.isDirectory full = true)
    (hRemoves :
      ∀ turn place,
        last.disk.trouble.refuses turn
          (.removeDirectory place) = none)
    (hRoot : full.pieces ≠ [])
    (hVain : last.extracted = []) :
    (last.disk.children full.pieces = [] ∧
        ∀ place,
          (finish last full true).disk.node? place =
            if place = full.pieces then none
            else last.disk.node? place) ∨
      last.disk.children full.pieces ≠ [] ∧
        (finish last full true).disk = last.disk := by
  by_cases hEmpty : last.disk.children full.pieces = []
  · refine .inl ⟨hEmpty, fun place => ?_⟩
    have hFinish :
        (finish last full true).disk =
          (last.disk.perform
            (.removeDirectory full.pieces)).2 := by
      unfold finish conclude
      dsimp only
      rw [hVain, if_pos List.isEmpty_nil]
      exact withdraw_empty hDescends hThere hEmpty
    rw [hFinish,
      perform_allowed (hRemoves last.disk.turns full.pieces)]
    dsimp only [apply]
    rw [node?_erase _ hRoot]
    rfl
  · have hCases :
        (finish last full true).disk = last.disk ∨ _ :=
      finish_cases last hDescends
    rcases hCases with hSame | ⟨-, -, hNone, -⟩
    · exact .inr ⟨hEmpty, hSame⟩
    · exact absurd hNone hEmpty

/-
  Below the place of an output directory there are only
  directories on the way to the files of some headers, and
  the output directory is gone unless one stands in it.
-/
structure LeavesWays
    (base : Location)
    (blocks : List Block)
    (e : Disk) : Prop where
  ways :
    ∀ place node, IsBelow base place →
      e.node? place = some node →
        node = .directory ∧
          ∃ block ∈ blocks, Walk.IsWay base block place
  gone :
    e.node? base = none ↔
      ∀ name, e.node? (base ++ [name]) = none

/- Where nothing is put at a place, nothing is left below. -/
theorem leavesWays_of_missing
    {tried : Disk}
    (hTree : disk.IsTree)
    (hMissing : disk.node? base = none)
    (hPaves : Paves (IsBelow · base) disk tried)
    (blocks : List Block) :
    LeavesWays base blocks tried := by
  have hNone : ∀ place, base <+: place →
      tried.node? place = none := by
    intro place hPrefix
    by_contra hThere
    rcases Option.ne_none_iff_exists'.mp hThere with
      ⟨node, hNode⟩
    rcases hPaves.nodes place node hNode with
      hOld | ⟨-, hAbove⟩
    · by_cases hHere : place = base
      · rw [hHere, hMissing] at hOld
        cases hOld
      · rw [hTree.none_below hMissing ⟨hPrefix, hHere⟩]
          at hOld
        cases hOld
    · exact (hAbove.of_prefix hPrefix).2 rfl
  constructor
  · intro place node hBelow hNode
    rw [hNone place hBelow.1] at hNode
    cases hNode
  · exact
      iff_of_true (hNone base List.prefix_rfl)
        (fun name => hNone _ (List.prefix_append _ _))

/-
  What a walk leaves that began in a directory with nothing
  in it, when that has been taken away or not.
-/
theorem leavesWays_of_finish
    {ready : Disk}
    {blocks : List Block}
    (hYields : ready.trouble.Yields)
    (hDescends : full.Descends)
    (hRoot : full.pieces ≠ [])
    (hThere : ready.isDirectory full = true)
    (hEmpty :
      ∀ place, IsBelow full.pieces place →
        ready.node? place = none)
    (hPaves :
      Paves
        (fun place =>
          ∃ block ∈ blocks,
            Walk.IsWay full.pieces block place)
        ready last.disk)
    (hVain : last.extracted = []) :
    LeavesWays full.pieces blocks
      (finish last full true).disk := by
  have hLast : last.disk.isDirectory full = true := by
    rcases isDirectory_iff.mp hThere with
      ⟨place, hLocate, hNode⟩
    exact
      isDirectory_iff.mpr
        ⟨place,
          locate_grown hPaves.directories hPaves.settings
            hLocate,
          hPaves.directories place hNode⟩
  have hWays : ∀ place node, IsBelow full.pieces place →
      last.disk.node? place = some node →
        node = .directory ∧
          ∃ block ∈ blocks,
            Walk.IsWay full.pieces block place := by
    intro place node hBelow hNode
    rcases hPaves.nodes place node hNode with hOld | hWay
    · rw [hEmpty place hBelow] at hOld
      cases hOld
    · exact hWay
  have hBase :
      last.disk.node? full.pieces = some .directory := by
    rcases isDirectory_iff.mp hLast with
      ⟨place, hLocate, hNode⟩
    rwa [locate_descends hDescends hLocate] at hNode
  rcases finish_vain hDescends hLast
      (hPaves.settings.trouble ▸ hYields.directories) hRoot
      hVain with
    ⟨hNone, hGone⟩ | ⟨hSome, hSame⟩
  · rw [children_eq_nil_iff] at hNone
    constructor
    · intro place node hBelow hNode
      rw [hGone, if_neg hBelow.2] at hNode
      exact hWays place node hBelow hNode
    · refine
        iff_of_true ((hGone _).trans (if_pos rfl)) ?_
      intro name
      rw [hGone, if_neg (by simp)]
      exact hNone name
  · rw [hSame]
    refine ⟨hWays, iff_of_false ?_ ?_⟩
    · rw [hBase]
      exact Option.some_ne_none _
    · exact fun hNone =>
        hSome ((children_eq_nil_iff _ _).mpr hNone)

/-
  Files with a single name need no directory of their own, and
  so nothing is left of them.
-/
theorem LeavesWays.missing
    {blocks : List Block}
    {e : Disk}
    (hLeaves : LeavesWays base blocks e)
    (hSingle :
      ∀ block ∈ blocks, block.header.kind = .file →
        isSafe ⟨block.header.path⟩ = true →
          (Path.pieces ⟨block.header.path⟩).length = 1) :
    e.node? base = none := by
  rw [hLeaves.gone]
  intro name
  by_contra hThere
  rcases Option.ne_none_iff_exists'.mp hThere with
    ⟨node, hNode⟩
  have hBelow : IsBelow base (base ++ [name]) :=
    isBelow_append base (List.cons_ne_nil name [])
  rcases hLeaves.ways _ node hBelow hNode with
    ⟨-, block, hMem, hKind, hSafe, hAbove⟩
  have hLength := hSingle block hMem hKind hSafe
  refine hAbove.2 (hAbove.1.eq_of_length_le ?_).symm
  simp [hLength]

/-
  A run that extracts nothing into a directory that was
  missing leaves directories there at most.  They are above
  the targets of the files that it met.  The output directory
  is gone unless one of them stands in it, and so it is always
  gone if no file was to be put in a directory of its own.
-/
theorem leaves_ways_only
    (hSanitize : options.sanitize = true)
    (hDown : ".." ∉ directory.pieces)
    (hTree : disk.IsTree)
    (hYields : disk.trouble.Yields)
    (hMissing : disk.node? (disk.named directory) = none)
    (hFiles :
      ∀ block ∈
        (beginning options report tape directory
          disk).headers fuel,
        block.header.kind ≠ .directory)
    (hRun :
      run? .blocking fuel options report tape directory disk =
        some x)
    (hVain : x.result.extracted = []) :
    LeavesWays (disk.named directory)
        ((beginning options report tape directory
          disk).headers fuel)
        x.disk ∧
      ((∀ block ∈
          (beginning options report tape directory
            disk).headers fuel,
          block.header.kind = .file →
            isSafe ⟨block.header.path⟩ = true →
              (Path.pieces ⟨block.header.path⟩).length = 1) →
        x.disk.node? (disk.named directory) = none) := by
  have hLeaves :
      LeavesWays (disk.named directory)
        ((beginning options report tape directory
          disk).headers fuel)
        x.disk := by
    rcases prepare_missing hDown hTree hMissing with
      ⟨failure, tried, hPrepare, hPaves⟩ |
        ⟨full, ready, hPrepare, hThere, hPaves⟩
    · unfold run? at hRun
      rw [hPrepare] at hRun
      cases hRun
      exact leavesWays_of_missing hTree hMissing hPaves _
    · rcases prepare_ok hDown hTree hPrepare with
        ⟨hDescends, hPieces, -⟩
      have hBegins :
          (beginning options report tape directory
              disk).IsBound (disk.named directory) ∧
            (beginning options report tape directory
              disk).disk = (prepare disk directory).2 :=
        isBound_beginning hSanitize hDown hTree
          (congrArg Prod.fst hPrepare)
      rcases hBegins with ⟨hBound, hStart⟩
      rw [run?_of_prepare hPrepare] at hRun
      rcases Option.map_eq_some_iff.mp hRun with
        ⟨last, hWalk, rfl⟩
      rw [finish_extracted] at hVain
      rw [hPrepare] at hStart
      have hStill : ready.trouble.Yields :=
        hPaves.settings.trouble ▸ hYields
      have hWays :=
        Walk.paves_run hBound (hStart ▸ hStill.files) hFiles
          hWalk hVain
      rw [hStart] at hWays
      rw [← hPieces] at hMissing hPaves hWays ⊢
      refine
        leavesWays_of_finish hStill hDescends ?_ hThere ?_
          hWays hVain
      · intro hRoot
        rw [hRoot] at hMissing
        cases hMissing
      · intro place hBelow
        by_contra hSome
        rcases Option.ne_none_iff_exists'.mp hSome with
          ⟨node, hNode⟩
        rcases hPaves.nodes place node hNode with
          hOld | ⟨-, hPrefix⟩
        · rw [hTree.none_below hMissing hBelow] at hOld
          cases hOld
        · exact (hBelow.of_prefix hPrefix).2 rfl
  exact ⟨hLeaves, hLeaves.missing⟩

end Vain

/- An empty file with a single name. -/
def lonelyFile : Bytes := Ustar.archive [.file "a" []]

set_option maxRecDepth 100000 in
/- The output directory that was made for it is gone. -/
theorem lonelyFile_withdrawn :
    ∃ x,
      run? .blocking 8 {} { operation := "extract" }
          { bytes := lonelyFile } ⟨"new/out"⟩ {} = some x ∧
        x.result.extracted = [] ∧
        x.disk.node? ["new", "out"] = none := by
  have hEnds :
      (run? .blocking 8 {} { operation := "extract" }
          { bytes := lonelyFile } ⟨"new/out"⟩ {}).map
        (fun x => x.result.extracted) = some [] := by
    decide +kernel
  rcases Option.map_eq_some_iff.mp hEnds with
    ⟨x, hRun, hExtracted⟩
  have hTree : IsTree {} :=
    ⟨by decide, by decide, by decide, by decide⟩
  have hNamed :
      Disk.named {} ⟨"new/out"⟩ = ["new", "out"] := by
    decide +kernel
  have hMet :
      ∀ block ∈
        (beginning {} { operation := "extract" }
          { bytes := lonelyFile } ⟨"new/out"⟩ {}).headers 8,
        block.header.kind ≠ .directory ∧
          (Path.pieces ⟨block.header.path⟩).length = 1 := by
    decide +kernel
  have hGone :=
    (leaves_ways_only rfl (by decide) hTree
      ⟨fun _ _ => rfl, fun _ _ => rfl⟩ (by decide +kernel)
      (fun block hMem => (hMet block hMem).1) hRun
      hExtracted).2
      (fun block hMem _ _ => (hMet block hMem).2)
  rw [hNamed] at hGone
  exact ⟨x, hRun, hExtracted, hGone⟩

/- An empty file in a directory of its own. -/
def nestedFile : Bytes := Ustar.archive [.file "sub/a" []]

set_option maxRecDepth 100000 in
/-
  The directory of the file stays in the output directory,
  and so both are left.  An output directory that is named by
  way of another one is left even if no entry is met.
-/
theorem nestedFile_left :
    (∃ x,
      run? .blocking 8 {} { operation := "extract" }
          { bytes := nestedFile } ⟨"out"⟩ {} = some x ∧
        (∀ block ∈
          (beginning {} { operation := "extract" }
            { bytes := nestedFile } ⟨"out"⟩ {}).headers 8,
          block.header.kind ≠ .directory) ∧
        x.result.extracted = [] ∧
        x.result.directory = ⟨"/out"⟩ ∧
        x.disk.node? ["out"] = some .directory ∧
        x.disk.node? ["out", "sub"] = some .directory) ∧
      ∃ x,
        run? .blocking 8 {} { operation := "extract" }
            { bytes := [] } ⟨"x/y/.."⟩ {} = some x ∧
          x.result.extracted = [] ∧
          x.result.directory = ⟨"/x/y/.."⟩ ∧
          x.disk.isDirectory ⟨"/x/y/.."⟩ = true := by
  have hNested :
      (run? .blocking 8 {} { operation := "extract" }
          { bytes := nestedFile } ⟨"out"⟩ {}).map
        (fun x => (x.result.extracted, x.result.directory,
          x.disk.node? ["out"],
          x.disk.node? ["out", "sub"])) =
        some ([], ⟨"/out"⟩, some .directory,
          some .directory) := by
    decide +kernel
  have hAround :
      (run? .blocking 8 {} { operation := "extract" }
          { bytes := [] } ⟨"x/y/.."⟩ {}).map
        (fun x => (x.result.extracted, x.result.directory,
          x.disk.isDirectory ⟨"/x/y/.."⟩)) =
        some ([], ⟨"/x/y/.."⟩, true) := by
    decide +kernel
  rcases Option.map_eq_some_iff.mp hNested with
    ⟨x, hRun, hFields⟩
  rcases Option.map_eq_some_iff.mp hAround with
    ⟨y, hOther, hFacts⟩
  simp only [Prod.mk.injEq] at hFields hFacts
  rcases hFields with ⟨hVain, hDirectory, hOut, hSub⟩
  rcases hFacts with ⟨hNone, hPath, hThere⟩
  exact
    ⟨⟨x, hRun, by decide +kernel, hVain, hDirectory, hOut,
        hSub⟩,
      y, hOther, hNone, hPath, hThere⟩

end Extraction

end ArchiveRescue
