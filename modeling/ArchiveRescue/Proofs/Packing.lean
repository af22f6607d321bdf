import Mathlib
import ArchiveRescue.Bundle
import ArchiveRescue.Proofs.Descent
import ArchiveRescue.Proofs.Readiness
import ArchiveRescue.Proofs.Series
import ArchiveRescue.Proofs.SourceReads

/-
  What packing leaves on a disk.  Each file that can be read
  is entered under its last name, with just its bytes, and the
  archive of the entries stands where its name leads.

  Key definitions include:
    * `Path.NamesFile`
    * `Bundle.readable`
    * `Bundle.item`
    * `Bundle.Entered`
    * `Bundle.Accepts`
    * `Bundle.Packs`

  Main statements:
    * `Disk.IsTree.locate_absolute`
    * `Bundle.shows_readable`
    * `Bundle.exists_headed`
    * `Bundle.packs`
-/

namespace ArchiveRescue

open Ustar

------------------------------------------------------------
-- Names of Archives
------------------------------------------------------------

/-
  A path that can be the name of a file: its last step is a
  piece, there is no zero in it, and it is not too long.
-/
structure Path.NamesFile (p : Path) : Prop where
  last :
    ∃ name, p.steps.getLast? = some name ∧
      isPiece name = true
  clear : '\x00' ∉ p.text.toList
  short : (Text.encode p.text).length < 4096

/- Such a path does not end with a slash. -/
theorem Path.NamesFile.plain
    {p : Path}
    (hNames : p.NamesFile) :
    p.endsWithSlash = false := by
  rcases hNames.last with ⟨name, hLast, hPiece⟩
  by_contra hSlash
  rw [Bool.not_eq_false] at hSlash
  cases hLast.symm.trans (Path.getLast?_steps hSlash)
  cases hPiece

namespace Disk

variable {d e : Disk} {here there : Location}
variable {names : List String}

/-
  Steps that lead nowhere can be put in front of a piece,
  which is looked for in a directory.
-/
theorem follow_of_pieces
    {last : String}
    (hLast : names.getLast? = some last)
    (hPiece : Path.isPiece last = true)
    (hFollow :
      d.follow here (names.filter Path.isPiece) =
        .ok there) :
    d.follow here names = .ok there := by
  induction names generalizing here with
  | nil => exact hFollow
  | cons name rest ih =>
      cases rest with
      | nil =>
          rw [List.getLast?_singleton] at hLast
          cases hLast
          rwa [List.filter_cons_of_pos hPiece] at hFollow
      | cons second more =>
          rw [List.getLast?_cons_cons] at hLast
          cases hName : Path.isPiece name with
          | true =>
              rw [List.filter_cons_of_pos hName, follow_cons]
                at hFollow
              rw [follow_cons]
              cases hNext : d.descend here name with
              | error fault =>
                  rw [hNext] at hFollow
                  cases hFollow
              | ok next =>
                  rw [hNext] at hFollow
                  exact ih hLast hFollow
          | false =>
              rw [List.filter_cons_of_neg (by simp [hName])]
                at hFollow
              have hRest := ih hLast hFollow
              have hHere :
                  d.node? here = some .directory := by
                unfold follow descend at hRest
                split at hRest
                · cases hRest
                next hDescend =>
                  split at hDescend
                  · cases hDescend
                  · cases hDescend
                  next hNode => exact hNode
              rw [follow_cons, descend_idle d here hName,
                hHere]
              exact hRest

/- The name of a file is followed to its last step. -/
theorem locate_of_namesFile
    (d : Disk)
    {p : Path}
    (hNames : p.NamesFile) :
    d.locate p =
      d.follow (if p.isAbsolute then [] else d.workDir)
        p.steps := by
  rcases hNames.last with ⟨last, hLast, hPiece⟩
  have hSome : last ≠ "" := by
    rintro rfl
    cases hPiece
  have hText : p.text ≠ "" := by
    intro hNone
    have hOne : p.steps = [""] := by
      unfold Path.steps
      rw [hNone]
      rfl
    rw [hOne] at hLast
    cases hLast
    exact hSome rfl
  have hWhole :
      (p.steps.reverse.dropWhile (· == "")).reverse =
        p.steps := by
    rcases List.getLast?_eq_some_iff.mp hLast with
      ⟨front, hFront⟩
    rw [hFront]
    simp [hSome]
  unfold locate
  rw [if_neg (by simpa using hNames.clear),
    if_neg (by simpa using hText),
    if_neg (Nat.not_le.mpr hNames.short)]
  dsimp only
  rw [hWhole]

/-
  What the absolute form of such a path leads to, the path
  leads to as well, from the same working directory.
-/
theorem IsTree.locate_absolute
    {p full : Path}
    {place : Location}
    (hTree : d.IsTree)
    (hNames : p.NamesFile)
    (hFull : d.absolute p = .ok full)
    (hWorkDir : e.workDir = d.workDir)
    (hLeads : e.locate full = .ok place) :
    e.locate p = .ok place := by
  rcases hTree.workDir_descends with ⟨hDescends, hPieces⟩
  rcases hNames.last with ⟨last, hLast, hPiece⟩
  have hWay :=
    follow_of_absolute
      (Path.isAbsolute_of_absolute hDescends.absolute hFull)
      hLeads
  rw [Path.pieces_absolute hDescends.absolute hFull, hPieces]
    at hWay
  rw [locate_of_namesFile e hNames]
  apply follow_of_pieces hLast hPiece
  change
    e.follow (if p.isAbsolute then [] else e.workDir)
        p.pieces =
      .ok place
  cases hSlash : p.isAbsolute with
  | true =>
      rw [hSlash] at hWay
      exact hWay
  | false =>
      rw [hSlash, if_neg Bool.false_ne_true, follow_append]
        at hWay
      cases hFirst : e.follow [] d.workDir with
      | error fault =>
          rw [hFirst] at hWay
          cases hWay
      | ok first =>
          have hHere := follow_down hTree.down hFirst
          rw [List.filter_eq_self.mpr hTree.pieces] at hHere
          rw [hFirst, hHere] at hWay
          rw [if_neg Bool.false_ne_true, hWorkDir]
          exact hWay

/- What was read of a path is what its file holds. -/
theorem shows_of_contents
    {p : Path}
    {data : Bytes}
    (hRead : d.contents p = (.ok data, e)) :
    d.fileAt? p = some data := by
  have hFound : ∃ shown, d.fileAt? p = some shown := by
    unfold contents openFile at hRead
    split at hRead
    · cases hRead
    next hOpened =>
      split at hOpened
      · cases hOpened
      next place hLeads =>
        split at hOpened
        · cases hOpened
        · -- A directory can be opened, but not be read.
          cases hOpened
          cases hRead
        next shown modified hNode =>
          split at hOpened
          · cases hOpened
          next hPlain =>
            exact
              ⟨shown,
                fileAt?_eq hLeads hNode
                  (Bool.eq_false_of_not_eq_true hPlain)⟩
  rcases hFound with ⟨shown, hShows⟩
  rw [hShows, contents_whole hShows hRead]

end Disk

------------------------------------------------------------
-- Files That Are Entered
------------------------------------------------------------

namespace Bundle

/-
  The files of a list that can be read one after another, and
  what is read of them.
-/
def readable : Disk → List Path → List (Path × Bytes)
| _, [] => []
| disk, path :: more =>
    match disk.contents path with
    | (.error _, tried) => readable tried more
    | (.ok data, read) => (path, data) :: readable read more

/- It is what their files hold. -/
theorem shows_readable
    (files : List Path)
    (disk : Disk) :
    ∀ input ∈ readable disk files,
      disk.fileAt? input.1 = some input.2 := by
  induction files generalizing disk with
  | nil => exact nofun
  | cons path more ih =>
      intro input hInput
      have hTicks := disk.ticks_contents path
      unfold readable at hInput
      rcases hRead : disk.contents path with ⟨reply, read⟩
      rw [hRead] at hInput hTicks
      have hBack : read.Grows disk :=
        .of_entries hTicks.entries.symm
          ⟨hTicks.settings.workDir.symm,
            hTicks.settings.trouble.symm⟩
      cases reply with
      | error fault =>
          exact hBack.fileAt?_eq (ih read input hInput)
      | ok data =>
          rcases List.mem_cons.mp hInput with rfl | hLater
          · exact Disk.shows_of_contents hRead
          · exact hBack.fileAt?_eq (ih read input hLater)

/- A file as an item of an archive, under its last name. -/
def item (input : Path × Bytes) : Item :=
  .file (input.1.fileName?.getD "") input.2

/- The entry of a file, which tells when the file changed. -/
def Entered
    (input : Path × Bytes)
    (entry : Entry) : Prop :=
  ∃ disk, entry = entryOf disk input.1 input.2

/- All files that can be read are entered, in their order. -/
theorem gathers
    (files : List Path)
    (g : Gathered) :
    g.disk.Ticks (files.foldl gather g).disk ∧
      ∃ entries,
        (files.foldl gather g).entries =
            g.entries ++ entries ∧
          List.Forall₂ Entered (readable g.disk files)
            entries := by
  induction files generalizing g with
  | nil =>
      exact
        ⟨.refl g.disk, [], (List.append_nil _).symm, .nil⟩
  | cons path more ih =>
      have hTicks := g.disk.ticks_contents path
      have hRest := ih (gather g path)
      unfold readable
      rw [List.foldl_cons]
      unfold gather at hRest ⊢
      rcases hRead : g.disk.contents path with ⟨reply, read⟩
      rw [hRead] at hTicks hRest
      rcases hRest with ⟨hLater, entries, hEntries, hAll⟩
      cases reply with
      | error fault =>
          exact ⟨hTicks.trans hLater, entries, hEntries, hAll⟩
      | ok data =>
          refine
            ⟨hTicks.trans hLater,
              entryOf read path data :: entries, ?_,
              .cons ⟨read, rfl⟩ hAll⟩
          rw [← List.append_cons] at hEntries
          exact hEntries

/- Its header announces the file, whenever that changed. -/
theorem Entered.headed
    {input : Path × Bytes}
    {entry : Entry}
    (hEntered : Entered input entry)
    (hSound : (item input).IsSound) :
    (item input).IsHeadedBy entry.header.toBlock ∧
      (item input).behind entry.header.toBlock =
        entry.toBytes := by
  rcases hEntered with ⟨disk, rfl⟩
  have hLegible := hSound.1
  have hHeader :=
    header_toBlock
      (entryOf disk input.1 input.2).header rfl hLegible
  have hWritten :=
    header_toBlock (item input).entry.header rfl hLegible
  refine ⟨⟨?_, ?_⟩, ?_⟩
  · exact Header.accepted_toBlock _ hSound.marked
  · constructor
    · exact hHeader.1.trans hWritten.1.symm
    · exact hHeader.2.trans hWritten.2.symm
    · rw [Header.size_toBlock, Header.size_toBlock]
      rfl
  · unfold Item.behind Entry.toBytes
    rw [List.append_assoc]
    rfl

/- So an archive is a series of the files and their headers. -/
theorem exists_headed
    {inputs : List (Path × Bytes)}
    {entries : List Entry}
    (hEntered : List.Forall₂ Entered inputs entries)
    (hSound : ∀ input ∈ inputs, (item input).IsSound) :
    ∃ headed : List (Item × Block),
      headed.map Prod.fst = inputs.map item ∧
        (∀ pair ∈ headed, pair.1.IsHeadedBy pair.2) ∧
        Item.series headed =
          entries.flatMap Entry.toBytes := by
  induction hEntered with
  | nil => exact ⟨[], rfl, nofun, rfl⟩
  | @cons input entry inputs entries hFirst hMore ih =>
      rcases hFirst.headed (hSound input List.mem_cons_self)
        with ⟨hHeaded, hBytes⟩
      rcases ih (fun other hOther =>
          hSound other (List.mem_cons_of_mem input hOther)) with
        ⟨headed, hItems, hAll, hSeries⟩
      refine
        ⟨(item input, entry.header.toBlock) :: headed, ?_, ?_,
          ?_⟩
      · rw [List.map_cons, List.map_cons, hItems]
      · intro pair hPair
        rcases List.mem_cons.mp hPair with rfl | hLater
        · exact hHeaded
        · exact hAll pair hLater
      · unfold Item.series at hSeries ⊢
        rw [List.flatMap_cons, List.flatMap_cons, hSeries,
          hBytes]

------------------------------------------------------------
-- Archives That Are Written
------------------------------------------------------------

/- What is written of some entries. -/
def bytesOf
    (encode : Bytes → Bytes)
    (archive : Path)
    (entries : List Entry) : Bytes :=
  if isGzipName archive then
    encode (Ustar.archive entries)
  else Ustar.archive entries

/-
  An archive can be written at a place: no change is refused,
  its name is that of a file, and its absolute form leads to
  the place when its directories are made.
-/
structure Accepts
    (disk : Disk)
    (archive : Path)
    (place : Location) : Prop where
  tree : disk.IsTree
  permits : disk.trouble.Permits
  names : archive.NamesFile
  resolves :
    ∃ full made,
      (resolveOutput archive).perform disk =
          (.ok full, made) ∧
        made.Admits full place

/- An archive of the files that can be read is at the place. -/
structure Packs
    (encode : Bytes → Bytes)
    (archive : Path)
    (files : List Path)
    (disk : Disk)
    (place : Location)
    (entries : List Entry)
    (x : Packed) : Prop where
  entered :
    List.Forall₂ Entered (readable disk files) entries
  outcome : x.outcome = .ok (readable disk files).length
  settings : disk.SameSettings x.disk
  leads : x.disk.locate archive = .ok place
  file :
    x.disk.node? place =
      some (.file (bytesOf encode archive entries) 0)

/- The path that an output is resolved to is absolute. -/
theorem absolute_of_resolveOutput
    {path full : Path}
    {disk made : Disk}
    (hResolves :
      (resolveOutput path).perform disk = (.ok full, made)) :
    disk.absolute path = .ok full := by
  unfold resolveOutput at hResolves
  rw [Stage.perform_ofStep] at hResolves
  split at hResolves
  · cases hResolves
  next hFull =>
    rw [hFull]
    split at hResolves
    · cases hResolves
      rfl
    · split at hResolves
      · cases hResolves
        rfl
      · cases hResolves

/- A file is written in one go where nothing is refused. -/
theorem writeFile_eq
    {full : Path}
    {made : Disk}
    {place : Location}
    (data : Bytes)
    (hAdmits : made.Admits full place)
    (hPermits : made.trouble.Permits) :
    ∃ written,
      (writeFile full data).perform made = (.ok (), written) ∧
        made.SameSettings written ∧
        written.locate full = .ok place ∧
        written.node? place = some (.file data 0) := by
  obtain ⟨created, hCreate⟩ :
      ∃ created, made.createFile full = (.ok place, created) :=
    ⟨_, hAdmits.createFile_eq hPermits⟩
  rcases Disk.node?_of_createFile hCreate with
    ⟨-, -, -, hNodes⟩
  have hEmpty : created.node? place = some (.file [] 0) := by
    rw [hNodes, if_pos rfl]
  rcases Disk.aims_of_createFile hCreate with
    ⟨hSpares, hAims⟩
  unfold writeFile
  rw [Stage.perform_ofStep, hCreate]
  dsimp only
  split
  next hNone =>
    cases List.isEmpty_iff.mp hNone
    exact ⟨created, rfl, hSpares.settings, hAims.leads, hEmpty⟩
  next =>
    rcases Disk.spares_append hAims data with ⟨hMore, hLast⟩
    have hStill : created.trouble.Permits :=
      hSpares.settings.trouble ▸ hPermits
    have hAppend :=
      Disk.perform_eq hStill (.append place data)
    have hWritten := Disk.node?_of_append hEmpty hAppend
    rw [hAppend] at hMore hLast ⊢
    exact
      ⟨_, rfl, hSpares.settings.trans hMore.settings,
        hLast.leads, hWritten⟩

/-
  Packing enters the files that can be read, and leaves their
  archive where its name leads.
-/
theorem packs
    (encode : Bytes → Bytes)
    {archive : Path}
    {disk : Disk}
    {place : Location}
    (files : List Path)
    (hAccepts : Accepts disk archive place) :
    ∃ entries,
      Packs encode archive files disk place entries
        (packWith encode archive files disk) := by
  rcases hAccepts.resolves with
    ⟨full, made, hResolves, hAdmits⟩
  rcases gathers files { disk := disk } with
    ⟨hTicks, entries, hEntries, hEntered⟩
  rw [List.nil_append] at hEntries
  have hAlike :=
    (hTicks.alike hAccepts.permits.steady).resolveOutput archive
  rcases hLater :
      (resolveOutput archive).perform
        (files.foldl gather { disk := disk }).disk with
    ⟨outcome, later⟩
  rw [hResolves, hLater] at hAlike
  rcases hAlike with ⟨hSame, hMade⟩
  cases hSame
  have hSettings : disk.SameSettings later := by
    have hGrows := grows_resolveOutput archive
      (files.foldl gather { disk := disk }).disk
    rw [hLater] at hGrows
    exact hTicks.settings.trans hGrows.settings
  rcases writeFile_eq (bytesOf encode archive entries)
      (hMade.admits hAdmits)
      (hSettings.trouble ▸ hAccepts.permits) with
    ⟨written, hWrite, hMore, hLeads, hFile⟩
  have hPack :
      packWith encode archive files disk =
        ⟨.ok entries.length, written,
          (packWith encode archive files disk).lines⟩ := by
    have hWriting :
        (do
          let full ← resolveOutput archive
          writeFile full (bytesOf encode archive entries)
          pure full : Stage Disk Path).perform
            (files.foldl gather { disk := disk }).disk =
          (.ok full, written) := by
      rw [Stage.perform_bind_ok hLater,
        Stage.perform_bind_ok hWrite]
      rfl
    unfold bytesOf at hWriting
    rw [← hEntries] at hWriting
    unfold packWith
    dsimp only
    rw [hWriting, hEntries]
  have hFull := absolute_of_resolveOutput hResolves
  have hAll := hSettings.trans hMore
  rw [hPack]
  refine ⟨entries, hEntered, ?_, hAll, ?_, hFile⟩
  · dsimp only
    rw [hEntered.length_eq]
  · exact
      hAccepts.tree.locate_absolute hAccepts.names hFull
        hAll.workDir hLeads

end Bundle

end ArchiveRescue
