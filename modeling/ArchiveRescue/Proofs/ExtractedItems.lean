import Mathlib
import ArchiveRescue.Proofs.Copying
import ArchiveRescue.Proofs.Items
import ArchiveRescue.Proofs.RoundAdvance

/-
  What a walk gains from the items of an archive.  A file is
  copied below the output directory and kept if it is there
  as a whole and has data.  Otherwise it fails, and nothing
  but the directories that were made for it stays.

  Key definitions include:
    * `Walk.Gains`
    * `Disk.Copied`
    * `Walk.HasCopied`
    * `Walk.Fails`
    * `Walk.IsReady`

  Main statements:
    * `Walk.IsReady.gains`
    * `Walk.fails_copied`
-/

namespace ArchiveRescue

open Ustar

------------------------------------------------------------
-- Copies
------------------------------------------------------------

/-
  A file has been copied below `base`.  The directories that
  it stands in were made first, which gave `opened`, and then
  the file was put where nothing stood.
-/
structure Disk.Copied
    (d opened copied : Disk)
    (base : Location)
    (names : List String)
    (data : Bytes) : Prop where
  way :
    d.Adds opened base
      (fun rel node =>
        rel <+: names ∧ rel ≠ names ∧ node = .directory)
  isOpen : opened.IsOpen base names
  free : opened.node? (base ++ names) = none
  settings : opened.SameSettings copied
  nodes :
    ∀ place, copied.node? place =
      if place = base ++ names then some (.file data 0)
      else opened.node? place

namespace Disk.Copied

variable {d opened copied removed : Disk} {base : Location}
variable {names : List String} {data : Bytes}

/- More data is appended to the file. -/
theorem stored
    (hCopied : d.Copied opened copied base names [])
    (changes : Nat) :
    d.Copied opened
      ((copied.stored (base ++ names) data).later changes)
      base names data where
  way := hCopied.way
  isOpen := hCopied.isOpen
  free := hCopied.free
  settings :=
    hCopied.settings.trans
      ((copied.settings_stored (base ++ names) data).trans
        ⟨rfl, rfl⟩)
  nodes place := by
    have hBegun :
        copied.node? (base ++ names) =
          some (.file [] 0) := by
      rw [hCopied.nodes, if_pos rfl]
    have hStored := Disk.node?_stored hBegun data place
    rw [List.nil_append] at hStored
    refine hStored.trans ?_
    split
    next => rfl
    next hOther => rw [hCopied.nodes, if_neg hOther]

/- The file stands there. -/
theorem there
    (hCopied : d.Copied opened copied base names data) :
    copied.node? (base ++ names) = some (.file data 0) := by
  rw [hCopied.nodes, if_pos rfl]

/- Nothing but the file is added to its directories. -/
theorem adds
    (hCopied : d.Copied opened copied base names data)
    (hNames : names ≠ []) :
    opened.Adds copied base
      (fun rel node => rel = names ∧ node = .file data 0) :=
  .single hCopied.settings hCopied.free hCopied.nodes hNames

/- The way to the file is open. -/
theorem isOpen_copied
    (hCopied : d.Copied opened copied base names data)
    (hNames : names ≠ []) :
    copied.IsOpen base names := by
  intro front hFront hOther
  exact
    (hCopied.adds hNames).grown _
      (hCopied.isOpen front hFront hOther)

/- The directory goes on to host. -/
theorem hosts
    (hCopied : d.Copied opened copied base names data)
    (hNames : names ≠ [])
    {full : Path}
    (hHosts : d.Hosts full base) :
    copied.Hosts full base :=
  (hCopied.adds hNames).hosts (hCopied.way.hosts hHosts)

/- The way to a file and the file are what it puts. -/
theorem kept
    {name : String}
    (hCopied :
      d.Copied opened copied base (Path.pieces ⟨name⟩) data)
    (hSafe : isSafe ⟨name⟩ = true)
    (hNames : Path.pieces ⟨name⟩ ≠ [])
    (hSome : data ≠ []) :
    d.Adds copied base (Item.PutBy [.file name data]) := by
  apply (hCopied.way.trans (hCopied.adds hNames)).widen
  · intro rel node hPut
    apply (Item.putBy_singleton _).mpr
    rcases hPut with hWay | ⟨hHere, hNode⟩
    · exact ⟨hSafe, .inl hWay⟩
    · exact ⟨hSafe, .inr ⟨hHere, hSome, hNode⟩⟩
  · intro rel _ node hPut
    rcases (Item.putBy_singleton _).mp hPut with
      ⟨-, hWay | ⟨hHere, -, hNode⟩⟩
    · exact .inr (.inl hWay)
    · exact .inr (.inr ⟨hHere, hNode⟩)

/- When the file is removed again, only the way is put. -/
theorem emptied
    {name : String}
    (hCopied :
      d.Copied opened copied base (Path.pieces ⟨name⟩) data)
    (hSafe : isSafe ⟨name⟩ = true)
    (hSettings : copied.SameSettings removed)
    (hNodes :
      ∀ place, removed.node? place =
        if place = base ++ Path.pieces ⟨name⟩ then none
        else copied.node? place) :
    d.Adds removed base (Item.PutBy [.file name []]) := by
  have hGone : ∀ place,
      removed.node? place = opened.node? place := by
    intro place
    rw [hNodes]
    split
    next hHere => rw [hHere, hCopied.free]
    next hOther => rw [hCopied.nodes, if_neg hOther]
  have hBack : opened.Adds removed base (fun _ _ => False) :=
    .unchanged (hCopied.settings.trans hSettings) hGone
      (fun _ _ _ hNever => hNever.elim)
  apply (hCopied.way.trans hBack).widen
  · rintro rel node (hWay | hNever)
    · exact
        (Item.putBy_singleton _).mpr ⟨hSafe, .inl hWay⟩
    · exact hNever.elim
  · intro rel _ node hPut
    rcases (Item.putBy_singleton _).mp hPut with
      ⟨-, hWay | ⟨-, hNever, -⟩⟩
    · exact .inr (.inl hWay)
    · exact (hNever rfl).elim

end Disk.Copied

namespace Walk

------------------------------------------------------------
-- Gains
------------------------------------------------------------

/- What the walk gains from some items, and what it keeps. -/
structure Gains
    (w v : Walk)
    (base : Location)
    (items : List Item) : Prop where
  directory : v.directory = w.directory
  options : v.options = w.options
  verdict : v.report.verdict = w.report.verdict
  expected :
    v.expected = w.expected + items.countP Item.isFile
  extracted :
    v.extracted =
      w.extracted ++
        items.filterMap (Item.extracted? w.directory)
  failures :
    v.failures =
      w.failures ++
        items.filterMap (Item.failure? w.directory)
  disk : w.disk.Adds v.disk base (Item.PutBy items)

/- Nothing is gained when nothing that matters happens. -/
theorem Alike.gains
    {w v : Walk}
    (hAlike : w.Alike v)
    (base : Location) :
    w.Gains v base [] := by
  constructor
  · exact hAlike.directory
  · exact hAlike.options
  · exact hAlike.verdict
  · exact hAlike.expected
  · rw [hAlike.extracted]
    exact (List.append_nil _).symm
  · rw [hAlike.failures]
    exact (List.append_nil _).symm
  · apply Disk.Adds.unchanged
      ⟨hAlike.disk.workDir, hAlike.disk.trouble⟩
      hAlike.disk.node?_eq
    rintro rel - node ⟨item, hItem, -⟩
    cases hItem

/- What is gained step by step is gained together. -/
theorem Gains.trans
    {u v w : Walk}
    {base : Location}
    {done more : List Item}
    (hFirst : Gains u v base done)
    (hSecond : Gains v w base more) :
    Gains u w base (done ++ more) := by
  constructor
  · rw [hSecond.directory, hFirst.directory]
  · rw [hSecond.options, hFirst.options]
  · rw [hSecond.verdict, hFirst.verdict]
  · rw [hSecond.expected, hFirst.expected,
      List.countP_append, Nat.add_assoc]
  · rw [hSecond.extracted, hFirst.extracted,
      hFirst.directory, List.filterMap_append,
      List.append_assoc]
  · rw [hSecond.failures, hFirst.failures,
      hFirst.directory, List.filterMap_append,
      List.append_assoc]
  · apply (hFirst.disk.trans hSecond.disk).widen
    · intro rel node hPut
      exact (Item.putBy_append done more).mpr hPut
    · intro rel _ node hPut
      exact .inr ((Item.putBy_append done more).mp hPut)

/- What is gained in the end does not depend on the tape. -/
theorem Gains.alike
    {u v w : Walk}
    {base : Location}
    {items : List Item}
    (hGains : Gains u v base items)
    (hAlike : v.Alike w) :
    Gains u w base items := by
  have hBoth := hGains.trans (hAlike.gains base)
  rwa [List.append_nil] at hBoth

section Gaining

variable {w : Walk} {base : Location} {block : Block}

/- An entry of another type is passed over. -/
theorem gains_other
    {header : Header}
    (data : Bytes)
    {flag : UInt8}
    (hKind : block.header.kind = .other flag) :
    w.Gains (w.attempted block) base [.other header data] := by
  unfold attempted content
  dsimp only
  rw [hKind]
  constructor
  · rfl
  · rfl
  · rfl
  · rfl
  · exact (List.append_nil _).symm
  · exact (List.append_nil _).symm
  · apply Disk.Adds.unchanged (.refl _) (fun _ => rfl)
    intro rel _ node hPut
    exact ((Item.putBy_singleton _).mp hPut).elim

/-
  Of an item whose name is refused, only the failure is
  recorded.
-/
theorem gains_refused
    {item : Item}
    {name : String}
    (hNone : item.place? = none)
    (hExtracted : item.extracted? w.directory = none)
    (hFailure :
      item.failure? w.directory =
        some (.entryFailed name (.unsafeName name))) :
    w.Gains
      { w.entryFailed name (.unsafeName name) with
        expected :=
          w.expected + [item].countP Item.isFile }
      base [item] := by
  constructor
  · rfl
  · rfl
  · rfl
  · rfl
  · simp [hExtracted]
    rfl
  · simp [hFailure]
    rfl
  · apply Disk.Adds.unchanged (.refl _) (fun _ => rfl)
    intro rel _ node hPut
    rcases ((Item.putBy_singleton item).mp hPut).on_way with
      ⟨place, hPlace, -⟩
    rw [hNone] at hPlace
    cases hPlace

/- A directory is made, or its name is refused. -/
theorem gains_directory
    {name : String}
    (hHosts : w.disk.Hosts w.directory base)
    (hTaken :
      (Item.directory name).IsTaken w.options.sanitize)
    (hLegible : IsLegible name)
    (hFits : (Item.directory name).Fits w.disk base)
    (hPath : block.header.path = name)
    (hKind : block.header.kind = .directory) :
    w.Gains (w.attempted block) base [.directory name] := by
  unfold attempted content
  dsimp only
  rw [hKind, hPath]
  unfold makeDirectory
  cases hSafe : isSafe ⟨name⟩ with
  | false =>
      rw [target_of_rejected w.directory hTaken hSafe]
      have hFailure :
          (Item.directory name).failure? w.directory =
            some (.entryFailed name (.unsafeName name)) := by
        simp [Item.failure?, hSafe]
      have hNone : (Item.directory name).place? = none := by
        simp [Item.place?, hSafe]
      exact gains_refused hNone rfl hFailure
  | true =>
      have hPlain :=
        Path.isPlain_pieces hSafe hLegible.short
          hLegible.clear
      have hFree := (hFits _ (if_pos hSafe)).1
      rcases hHosts.makeDirectories_join hPlain hFree with
        ⟨made, hAdds, hMake⟩
      have hFailure :
          [Item.directory name].filterMap
              (Item.failure? w.directory) = [] := by
        simp [Item.failure?, hSafe]
      rw [target_of_accepted w.directory hTaken hSafe]
      unfold landing
      dsimp only
      rw [hMake]
      constructor
      · rfl
      · rfl
      · rfl
      · rfl
      · exact (List.append_nil _).symm
      · rw [hFailure]
        exact (List.append_nil _).symm
      · apply hAdds.widen
        · intro rel node hPut
          exact (Item.putBy_singleton _).mpr ⟨hSafe, hPut⟩
        · intro rel _ node hPut
          exact .inr ((Item.putBy_singleton _).mp hPut).2

/-
  A file with a plain name is begun: the directories that it
  stands in are made, and it stands in them without data.
-/
theorem beginFile_join
    {names : List String}
    (hHosts : w.disk.Hosts w.directory base)
    (hPlain : Path.IsPlain names)
    (hFree : w.disk.IsFree base names)
    (hNone : w.disk.node? (base ++ names) = none) :
    ∃ opened made,
      w.beginFile (w.directory.join (.ofPieces names)) =
        (.ok (base ++ names),
          (w.onDisk opened).onDisk made) ∧
      w.disk.Copied opened made base names [] := by
  rcases hPlain.exists_concat with ⟨front, name, rfl, -⟩
  rcases hHosts.makeParents_join hPlain hFree with
    ⟨parent, opened, hParent, hAdds, hMake⟩
  have hWay : ∀ rel,
      rel <+: front ↔
        rel <+: front ++ [name] ∧ rel ≠ front ++ [name] := by
    intro rel
    rw [List.prefix_concat_iff]
    constructor
    · intro hFront
      refine ⟨.inr hFront, ?_⟩
      rintro rfl
      have hLength := hFront.length_le
      rw [List.length_append, List.length_singleton]
        at hLength
      omega
    · rintro ⟨hSame | hFront, hOther⟩
      · exact (hOther hSame).elim
      · exact hFront
  have hOpen := Disk.isOpen_of_adds hHosts hAdds name
  have hStill :
      opened.node? (base ++ (front ++ [name])) = none := by
    rw [← Option.not_isSome_iff_eq_none,
      Option.isSome_iff_exists]
    rintro ⟨node, hNode⟩
    rcases (hAdds.below _ hPlain.nonempty node).mp hNode with
      hOld | ⟨hFront, -⟩
    · rw [hNone] at hOld
      cases hOld
    · exact ((hWay _).mp hFront).2 rfl
  rcases (hAdds.hosts hHosts).createFile_join hPlain hOpen
      hStill with ⟨made, hCreate, hSettings, hNodes⟩
  refine
    ⟨opened, made, ?_, ?_, hOpen, hStill, hSettings, hNodes⟩
  · have hParents :
        w.makeParents
            (w.directory.join (.ofPieces (front ++ [name]))) =
          (.ok (), w.onDisk opened) := by
      unfold makeParents
      rw [hParent]
      dsimp only
      rw [hMake]
      rfl
    have hReady : (w.onDisk opened).disk = opened := rfl
    unfold beginFile
    rw [hParents]
    dsimp only
    rw [hReady, hCreate]
    rfl
  · apply hAdds.widen
    · rintro rel node ⟨hFront, hNode⟩
      rcases (hWay rel).mp hFront with ⟨hPart, hOther⟩
      exact ⟨hPart, hOther, hNode⟩
    · rintro rel - node ⟨hPart, hOther, hNode⟩
      exact .inr ⟨(hWay rel).mpr ⟨hPart, hOther⟩, hNode⟩

/- What is found of the data is copied to its file. -/
theorem copy_join
    {names : List String}
    {data : Bytes}
    {c : Cursor}
    (hHosts : w.disk.Hosts w.directory base)
    (hTape : w.tape.Reliable)
    (hFinds : w.Finds c data)
    (hPlain : Path.IsPlain names)
    (hFree : w.disk.IsFree base names)
    (hNone : w.disk.node? (base ++ names) = none) :
    ∃ opened tape copied,
      w.copy c (w.directory.join (.ofPieces names)) =
        (c.advance data.length, .ok (),
          { w with tape := tape, disk := copied }) ∧
      w.disk.Copied opened copied base names data := by
  rcases beginFile_join hHosts hPlain hFree hNone with
    ⟨opened, made, hBegin, hBegun⟩
  rcases w.copy_finds c _ hHosts.permits.keepsWriting hTape
      hFinds hBegin with ⟨tape, k, hCopy, -⟩
  exact
    ⟨opened, tape, (made.stored (base ++ names) data).later k,
      hCopy, hBegun.stored k⟩

/- All the data of an entry has been read. -/
theorem complete_of_remaining
    {c : Cursor}
    (hDone : c.remaining = 0) :
    complete c = .ok () := by
  unfold complete
  rw [hDone]
  rfl

section Settling

variable {full : Path} {name : String} {c : Cursor}

/- A file without data does not pass for an output. -/
theorem ensureNotEmpty_empty
    (hHosts : w.disk.Hosts full base)
    (hPlain : Path.IsPlain (Path.pieces ⟨name⟩))
    (hOpen : w.disk.IsOpen base (Path.pieces ⟨name⟩))
    (hFile :
      w.disk.node? (base ++ Path.pieces ⟨name⟩) =
        some (.file [] 0)) :
    w.ensureNotEmpty (landing full name) =
      .error (.outputEmpty (landing full name).text) := by
  unfold ensureNotEmpty landing
  rw [hHosts.fileSize_join hPlain hOpen hFile]
  rfl

/- A file with data is kept. -/
theorem settleFile_kept
    {b : UInt8}
    {more : Bytes}
    (hHosts : w.disk.Hosts full base)
    (hPlain : Path.IsPlain (Path.pieces ⟨name⟩))
    (hOpen : w.disk.IsOpen base (Path.pieces ⟨name⟩))
    (hFile :
      w.disk.node? (base ++ Path.pieces ⟨name⟩) =
        some (.file (b :: more) 0))
    (hDone : c.remaining = 0) :
    ∃ note,
      w.settleFile c name (landing full name) (.ok ()) =
        (.ok (),
          { w.telling (·.info note) with
            extracted :=
              w.extracted ++ [landing full name] }) := by
  have hSome :
      w.ensureNotEmpty (landing full name) = .ok () := by
    unfold ensureNotEmpty landing
    rw [hHosts.fileSize_join hPlain hOpen hFile]
    rfl
  refine
    ⟨"extracted " ++ Failure.quoted name ++ " (" ++
      toString c.consumed ++ " byte(s))", ?_⟩
  unfold settleFile
  rw [complete_of_remaining hDone, hSome]
  rfl

/- A file that is not kept is removed. -/
theorem settleFile_removed
    {data : Bytes}
    {failure : Failure}
    (hHosts : w.disk.Hosts full base)
    (hPlain : Path.IsPlain (Path.pieces ⟨name⟩))
    (hOpen : w.disk.IsOpen base (Path.pieces ⟨name⟩))
    (hFile :
      w.disk.node? (base ++ Path.pieces ⟨name⟩) =
        some (.file data 0))
    (hOutcome :
      (complete c).bind
          (fun _ => w.ensureNotEmpty (landing full name)) =
        .error failure) :
    ∃ removed,
      w.settleFile c name (landing full name) (.ok ()) =
        (.error failure, w.onDisk removed) ∧
      w.disk.SameSettings removed ∧
      ∀ place, removed.node? place =
        if place = base ++ Path.pieces ⟨name⟩ then none
        else w.disk.node? place := by
  rcases hHosts.removeFile_join hPlain hOpen hFile with
    ⟨removed, hRemove, hSettings, hNodes⟩
  refine ⟨removed, ?_, hSettings, hNodes⟩
  unfold settleFile
  dsimp only [bind, Except.bind] at hOutcome ⊢
  rw [hOutcome]
  dsimp only
  unfold removePartial landing
  rw [hRemove]

end Settling

/-
  What the walk is left with from a file that was begun and
  then failed: the failure, and the directories that were
  made for it.
-/
structure Fails
    (w v : Walk)
    (base : Location)
    (name : String)
    (source : Failure) : Prop where
  directory : v.directory = w.directory
  options : v.options = w.options
  verdict : v.report.verdict = w.report.verdict
  expected : v.expected = w.expected + 1
  extracted : v.extracted = w.extracted
  failures :
    v.failures = w.failures ++ [.entryFailed name source]
  disk :
    w.disk.Adds v.disk base (Item.PutBy [.file name []])

theorem Fails.alike
    {v last : Walk}
    {name : String}
    {source : Failure}
    (hFails : w.Fails v base name source)
    (hAlike : v.Alike last) :
    w.Fails last base name source := by
  constructor
  · exact hAlike.directory.trans hFails.directory
  · exact hAlike.options.trans hFails.options
  · exact hAlike.verdict.trans hFails.verdict
  · exact hAlike.expected.trans hFails.expected
  · exact hAlike.extracted.trans hFails.extracted
  · exact hAlike.failures.trans hFails.failures
  · have hAfter := (hAlike.gains base).disk
    apply (hFails.disk.trans hAfter).widen
    · rintro rel node (hPut | ⟨item, hItem, -⟩)
      · exact hPut
      · cases hItem
    · intro rel _ node hPut
      exact .inr (.inl hPut)

/-
  The walk has copied what it found of a file, and has not
  decided about it yet.
-/
structure HasCopied
    (w v : Walk)
    (base : Location)
    (name : String)
    (data : Bytes) : Prop where
  directory : v.directory = w.directory
  options : v.options = w.options
  verdict : v.report.verdict = w.report.verdict
  expected : v.expected = w.expected + 1
  extracted : v.extracted = w.extracted
  failures : v.failures = w.failures
  disk :
    ∃ opened,
      w.disk.Copied opened v.disk base (Path.pieces ⟨name⟩)
        data

/- Where the cursor is when so much of a file was copied. -/
def cursorBehind
    (w : Walk)
    (block : Block)
    (name : String)
    (n : Nat) : Cursor where
  directory := w.directory
  header? := some block
  consumed := n
  target? := some (landing w.directory name)

section Files

variable {name : String} {data : Bytes}

/- A file under an accepted name is copied, then settled. -/
theorem attempted_file
    (hHosts : w.disk.Hosts w.directory base)
    (hTaken :
      (Item.directory name).IsTaken w.options.sanitize)
    (hTape : w.tape.Reliable)
    (hFinds :
      w.Finds (w.cursorBehind block name 0) data)
    (hPlain : Path.IsPlain (Path.pieces ⟨name⟩))
    (hSafe : isSafe ⟨name⟩ = true)
    (hFits : (Item.file name data).Fits w.disk base)
    (hPath : block.header.path = name)
    (hKind : block.header.kind = .file) :
    ∃ held,
      w.HasCopied held base name data ∧
      w.attempted block =
        noted name
          (held.settleFile
            (w.cursorBehind block name data.length) name
            (landing w.directory name) (.ok ())) := by
  rcases hFits _ (if_pos hSafe) with ⟨hFree, hNone⟩
  rcases copy_join
      (w := { w with expected := w.expected + 1 }) hHosts
      hTape hFinds hPlain hFree (hNone rfl) with
    ⟨opened, tape, copied, hCopy, hCopied⟩
  refine
    ⟨{ w with
        expected := w.expected + 1
        tape := tape
        disk := copied },
      ⟨rfl, rfl, rfl, rfl, rfl, rfl, opened, hCopied⟩, ?_⟩
  have hWrite :
      { w with expected := w.expected + 1 }.writeFile
          { directory := w.directory, header? := some block }
          name =
        (w.cursorBehind block name data.length,
          { w with
            expected := w.expected + 1
            tape := tape
            disk := copied }.settleFile
              (w.cursorBehind block name data.length) name
              (landing w.directory name) (.ok ())) := by
    unfold writeFile
    dsimp only
    rw [target_of_accepted w.directory hTaken hSafe]
    have hStart :
        Cursor.withTarget
            { directory := w.directory, header? := some block }
            (landing w.directory name) =
          w.cursorBehind block name 0 :=
      rfl
    have hEnd :
        (w.cursorBehind block name 0).advance data.length =
          w.cursorBehind block name data.length := by
      unfold Cursor.advance cursorBehind
      rw [Nat.zero_add]
    rw [hEnd] at hCopy
    dsimp only
    rw [hStart]
    unfold landing
    dsimp only at hCopy
    rw [hCopy]
  unfold attempted content
  dsimp only
  rw [hKind, hPath]
  dsimp only
  rw [hWrite]

/-
  If it is not complete, or without data, the file fails and
  is removed.
-/
theorem fails_copied
    {held : Walk}
    {c : Cursor}
    {failure : Failure}
    (hHosts : w.disk.Hosts w.directory base)
    (hPlain : Path.IsPlain (Path.pieces ⟨name⟩))
    (hSafe : isSafe ⟨name⟩ = true)
    (hHeld : w.HasCopied held base name data)
    (hOutcome :
      (complete c).bind
          (fun _ =>
            held.ensureNotEmpty (landing w.directory name)) =
        .error failure) :
    w.Fails
      (noted name
        (held.settleFile c name (landing w.directory name)
          (.ok ())))
      base name failure := by
  rcases hHeld.disk with ⟨opened, hCopied⟩
  have hNames := hPlain.nonempty
  rcases settleFile_removed (hCopied.hosts hNames hHosts)
      hPlain (hCopied.isOpen_copied hNames) hCopied.there
      hOutcome with
    ⟨removed, hSettle, hSettings, hNodes⟩
  rw [hSettle]
  constructor
  · exact hHeld.directory
  · exact hHeld.options
  · exact hHeld.verdict
  · exact hHeld.expected
  · exact hHeld.extracted
  · exact
      congrArg (· ++ [Failure.entryFailed name failure])
        hHeld.failures
  · exact hCopied.emptied hSafe hSettings hNodes

/- A file that has data and is complete is kept. -/
theorem gains_kept
    {held : Walk}
    {c : Cursor}
    (hHosts : w.disk.Hosts w.directory base)
    (hPlain : Path.IsPlain (Path.pieces ⟨name⟩))
    (hSafe : isSafe ⟨name⟩ = true)
    (hHeld : w.HasCopied held base name data)
    (hDone : c.remaining = 0)
    (hData : data ≠ []) :
    w.Gains
      (noted name
        (held.settleFile c name (landing w.directory name)
          (.ok ())))
      base [.file name data] := by
  rcases hHeld.disk with ⟨opened, hCopied⟩
  have hNames := hPlain.nonempty
  rcases List.exists_cons_of_ne_nil hData with
    ⟨b, more, rfl⟩
  rcases settleFile_kept (c := c)
      (hCopied.hosts hNames hHosts) hPlain
      (hCopied.isOpen_copied hNames) hCopied.there hDone with
    ⟨note, hSettle⟩
  rw [hSettle]
  have hExtracted :
      [Item.file name (b :: more)].filterMap
          (Item.extracted? w.directory) =
        [landing w.directory name] := by
    simp [Item.extracted?, hSafe]
  have hFailure :
      [Item.file name (b :: more)].filterMap
          (Item.failure? w.directory) = [] := by
    simp [Item.failure?, hSafe]
  constructor
  · exact hHeld.directory
  · exact hHeld.options
  · exact hHeld.verdict
  · exact hHeld.expected
  · rw [hExtracted]
    exact
      congrArg (· ++ [landing w.directory name])
        hHeld.extracted
  · rw [hFailure, List.append_nil]
    exact hHeld.failures
  · exact hCopied.kept hSafe hNames hData

/- A file without data gains the failure that says so. -/
theorem Fails.gains_empty
    {v : Walk}
    (hSafe : isSafe ⟨name⟩ = true)
    (hFails :
      w.Fails v base name
        (.outputEmpty (landing w.directory name).text)) :
    w.Gains v base [.file name []] := by
  constructor
  · exact hFails.directory
  · exact hFails.options
  · exact hFails.verdict
  · exact hFails.expected
  · rw [hFails.extracted]
    simp [Item.extracted?]
  · rw [hFails.failures]
    simp [Item.failure?, hSafe]
  · exact hFails.disk

/-
  A file whose name is accepted is copied below the output
  directory, and kept there if it has data.
-/
theorem gains_accepted
    (hHosts : w.disk.Hosts w.directory base)
    (hTaken :
      (Item.directory name).IsTaken w.options.sanitize)
    (hTape : w.tape.Reliable)
    (hData : data <+: w.tape.bytes.drop w.tape.position)
    (hPlain : Path.IsPlain (Path.pieces ⟨name⟩))
    (hSafe : isSafe ⟨name⟩ = true)
    (hFits : (Item.file name data).Fits w.disk base)
    (hSize : block.header.size.toNat = data.length)
    (hPath : block.header.path = name)
    (hKind : block.header.kind = .file) :
    w.Gains (w.attempted block) base [.file name data] := by
  rcases attempted_file hHosts hTaken hTape
      (.inl ⟨hData, hSize⟩) hPlain hSafe hFits hPath hKind
    with ⟨held, hHeld, hAttempted⟩
  have hDone :
      (w.cursorBehind block name data.length).remaining =
        0 := by
    unfold Cursor.remaining Cursor.declared cursorBehind
    dsimp only
    rw [hSize, Nat.sub_self]
  rw [hAttempted]
  by_cases hNone : data = []
  · subst hNone
    rcases hHeld.disk with ⟨opened, hCopied⟩
    have hNames := hPlain.nonempty
    have hEmpty :=
      ensureNotEmpty_empty (hCopied.hosts hNames hHosts)
        hPlain (hCopied.isOpen_copied hNames) hCopied.there
    apply Fails.gains_empty hSafe
    apply fails_copied hHosts hPlain hSafe hHeld
    rw [complete_of_remaining hDone]
    dsimp only [Except.bind]
    exact hEmpty
  · exact gains_kept hHosts hPlain hSafe hHeld hDone hNone

/- A file gains what its name and its data stand for. -/
theorem gains_file
    (hHosts : w.disk.Hosts w.directory base)
    (hTaken :
      (Item.directory name).IsTaken w.options.sanitize)
    (hTape : w.tape.Reliable)
    (hData : data <+: w.tape.bytes.drop w.tape.position)
    (hLegible : IsLegible name)
    (hFits : (Item.file name data).Fits w.disk base)
    (hSize : block.header.size.toNat = data.length)
    (hPath : block.header.path = name)
    (hKind : block.header.kind = .file) :
    w.Gains (w.attempted block) base [.file name data] := by
  cases hSafe : isSafe ⟨name⟩ with
  | true =>
      have hPlain :=
        Path.isPlain_pieces hSafe hLegible.short
          hLegible.clear
      exact
        gains_accepted hHosts hTaken hTape hData hPlain
          hSafe hFits hSize hPath hKind
  | false =>
      have hFailure :
          (Item.file name data).failure? w.directory =
            some (.entryFailed name (.unsafeName name)) := by
        simp [Item.failure?, hSafe]
      have hExtracted :
          (Item.file name data).extracted? w.directory =
            none := by
        simp [Item.extracted?, hSafe]
      have hNone : (Item.file name data).place? = none := by
        simp [Item.place?, hSafe]
      unfold attempted content
      dsimp only
      rw [hKind, hPath]
      dsimp only
      unfold writeFile
      dsimp only
      rw [target_of_rejected w.directory hTaken hSafe]
      exact gains_refused hNone hExtracted hFailure

end Files

/-
  A walk in front of an item that is sound, whose name is
  taken and for which there is room.
-/
structure IsReady
    (w : Walk)
    (base : Location)
    (item : Item) : Prop where
  hosts : w.disk.Hosts w.directory base
  taken : item.IsTaken w.options.sanitize
  fits : item.Fits w.disk base
  sound : item.IsSound

/-
  An item gains what it stands for when it is announced and
  its data is there.
-/
theorem IsReady.gains
    {item : Item}
    (hReady : w.IsReady base item)
    (hAnnounced : item.IsAnnounced block)
    (hTape : w.tape.Reliable)
    (hData :
      item.entry.data <+: w.tape.bytes.drop w.tape.position)
    (hLength : item.entry.data.length < 2 ^ 63) :
    w.Gains (w.attempted block) base [item] := by
  rcases hReady with ⟨hHosts, hTaken, hFits, hSound⟩
  have hPath := hAnnounced.path
  have hKind := hAnnounced.kind
  have hSize := hAnnounced.size_eq hSound hLength
  cases item with
  | file name data =>
      rcases header_file data hSound.1 hSound.2 with
        ⟨hName, hFile⟩
      exact
        gains_file hHosts hTaken hTape hData hSound.1 hFits
          hSize (hPath.trans hName) (hKind.trans hFile)
  | directory name =>
      rcases header_toBlock (Header.directory name) rfl
          hSound with ⟨hName, hDirectory⟩
      exact
        gains_directory hHosts hTaken hSound hFits
          (hPath.trans hName) (hKind.trans hDirectory)
  | other header data =>
      exact
        gains_other data (hKind.trans (kind_other hSound.1))

end Gaining

end Walk

end ArchiveRescue
