import Mathlib
import ArchiveRescue.Proofs.Recovery
import ArchiveRescue.Proofs.Series

/-
  An archive that was written is extracted to what it was
  made from.  Every file with data and every directory below
  the output directory comes back, and the items that are
  refused or empty fail alone: what follows them is extracted
  as if they were not there.

  Key definitions include:
    * `Extraction.IsFresh`
    * `Extraction.Restores`

  Main statements:
    * `Extraction.concluded`
    * `Extraction.restores_of_gains`
    * `Extraction.restores_series`
    * `Extraction.restores_archive`
-/

namespace ArchiveRescue

open Ustar

------------------------------------------------------------
-- Items That Leave Nothing
------------------------------------------------------------

namespace Ustar.Item

/-
  A directory that was empty is empty still when no item puts
  anything right below it.
-/
theorem children_of_adds
    {items : List Item}
    {d e : Disk}
    {base : Location}
    (hEmpty :
      ∀ rel, rel ≠ [] → d.node? (base ++ rel) = none)
    (hAdds : d.Adds e base (PutBy items)) :
    e.children base = [] ↔
      ¬ ∃ item ∈ items, ∃ name node,
        item.Puts [name] node := by
  rw [Disk.children_eq_nil_iff]
  constructor
  · rintro hNone ⟨item, hItem, name, node, hPuts⟩
    have hNode :=
      (hAdds.below_empty hEmpty (List.cons_ne_nil name [])
        node).mpr ⟨item, hItem, hPuts⟩
    rw [hNone name] at hNode
    cases hNode
  · intro hNone name
    by_contra hSome
    rcases Option.ne_none_iff_exists'.mp hSome with
      ⟨node, hNode⟩
    rcases (hAdds.below_empty hEmpty
        (List.cons_ne_nil name []) node).mp hNode with
      ⟨item, hItem, hPuts⟩
    exact hNone ⟨item, hItem, name, node, hPuts⟩

/- Then no file is extracted. -/
theorem extracted_of_puts
    {items : List Item}
    (full : Path)
    (hNone :
      ¬ ∃ item ∈ items, ∃ name node,
        item.Puts [name] node) :
    items.filterMap (extracted? full) = [] := by
  rw [List.filterMap_eq_nil_iff]
  intro item hItem
  by_contra hSome
  rcases Option.ne_none_iff_exists'.mp hSome with
    ⟨path, hPath⟩
  rcases puts_of_extracted hPath with ⟨name, node, hPuts⟩
  exact hNone ⟨item, hItem, name, node, hPuts⟩

end Ustar.Item

------------------------------------------------------------
-- Whole Extractions
------------------------------------------------------------

namespace Extraction

/- A prepared output directory is there. -/
theorem isDirectory_of_prepare
    {disk ready : Disk}
    {directory full : Path}
    {created : Bool}
    (hPrepare :
      prepare disk directory = (.ok (full, created), ready)) :
    full.isAbsolute = true ∧ ready.isDirectory full = true := by
  unfold prepare at hPrepare
  split at hPrepare
  · cases hPrepare
  next path hPath =>
    have hAbsolute : path.isAbsolute = true := by
      apply Path.isAbsolute_of_absolute _ hPath
      simp [Path.ofLocation, Path.isAbsolute]
    split at hPrepare
    next hLook =>
      cases hPrepare
      refine ⟨hAbsolute, ?_⟩
      unfold Disk.isDirectory
      rw [hLook]
    next => cases hPrepare
    next =>
      split at hPrepare
      next => cases hPrepare
      next made hMake =>
        cases hPrepare
        exact
          ⟨hAbsolute,
            Disk.isDirectory_of_makeDirectories hAbsolute
              hMake⟩

/-
  The output directory could be prepared at a place where
  nothing stands below it, and has room for the names of an
  archive; no change is refused.
-/
structure IsFresh
    (disk : Disk)
    (directory full : Path)
    (created : Bool)
    (ready : Disk)
    (base : Location) : Prop where
  prepared :
    prepare disk directory = (.ok (full, created), ready)
  leads : ready.locate full = .ok base
  empty : ∀ rel, rel ≠ [] → ready.node? (base ++ rel) = none
  room : (Text.encode full.text).length + 101 < 4096
  permits : disk.trouble.Permits

/- Such a directory hosts what is extracted. -/
theorem IsFresh.hosts
    {disk ready : Disk}
    {directory full : Path}
    {created : Bool}
    {base : Location}
    (hFresh :
      IsFresh disk directory full created ready base) :
    ready.Hosts full base := by
  have hSettings := settings_prepare disk directory
  rw [hFresh.prepared] at hSettings
  rcases isDirectory_of_prepare hFresh.prepared with
    ⟨hAbsolute, hThere⟩
  rcases Disk.isDirectory_iff.mp hThere with
    ⟨place, hLocate, hNode⟩
  constructor
  · exact hAbsolute
  · exact hFresh.leads
  · rw [hFresh.leads] at hLocate
    cases hLocate
    exact hNode
  · exact hFresh.room
  · rw [hSettings.trouble]
    exact hFresh.permits

/-
  What the extraction of an archive has come to: each file
  with data is extracted and each other file or directory has
  failed or not as its name and its data say.  Below the
  output directory stands what the items put there and
  nothing else, and beside it nothing has changed.  The
  output directory itself stays, unless it was created and
  nothing stands in it.
-/
structure Restores
    (x : Extracted)
    (items : List Item)
    (full : Path)
    (created : Bool)
    (ready : Disk)
    (base : Location) : Prop where
  directory : x.result.directory = full
  extracted :
    x.result.extracted =
      items.filterMap (Item.extracted? full)
  expected : x.result.expected = items.countP Item.isFile
  failures :
    x.result.failures = items.filterMap (Item.failure? full)
  success :
    x.result.success = true ↔ x.result.extracted ≠ []
  below :
    ∀ rel, rel ≠ [] → ∀ node,
      x.disk.node? (base ++ rel) = some node ↔
        ∃ item ∈ items, item.Puts rel node
  beside :
    ∀ place, ¬ base <+: place →
      x.disk.node? place = ready.node? place
  kept :
    created = false ∨
        (∃ item ∈ items, ∃ name node,
          item.Puts [name] node) →
      x.disk.node? base = some .directory
  withdrawn :
    created = true → base ≠ [] →
      (¬ ∃ item ∈ items, ∃ name node,
        item.Puts [name] node) →
      x.disk.node? base = none

/-
  Deciding about a walk counts nothing anew.  It changes at
  most the output directory: that one is taken away if it was
  created in vain.
-/
structure Concluded
    (w final : Walk)
    (base : Location)
    (created : Bool) : Prop where
  expected : final.expected = w.expected
  extracted : final.extracted = w.extracted
  failures : final.failures = w.failures
  success :
    final.report.success = true ↔ w.extracted ≠ []
  beside :
    ∀ place, place ≠ base →
      final.disk.node? place = w.disk.node? place
  kept :
    ¬ (w.extracted = [] ∧ created = true ∧
        w.disk.children base = []) →
      final.disk.node? base = w.disk.node? base
  withdrawn :
    w.extracted = [] ∧ created = true ∧
        w.disk.children base = [] →
      base ≠ [] → final.disk.node? base = none

/- A walk that has extracted files has succeeded. -/
theorem concluded_some
    {w : Walk}
    (directory : Path)
    (base : Location)
    (created : Bool)
    (hVerdict : w.report.verdict = .undecided)
    (hSome : w.extracted ≠ []) :
    Concluded w (conclude w directory created) base
      created := by
  have hSuccess : ∀ message : String,
      (w.report.info message).succeed.success = true := by
    intro message
    unfold Report.info Report.log Report.succeed
    dsimp only
    rw [hVerdict]
    rfl
  unfold conclude
  rw [if_neg (by simpa using hSome)]
  constructor
  · rfl
  · rfl
  · rfl
  · exact ⟨fun _ => hSome, fun _ => hSuccess _⟩
  · exact fun _ _ => rfl
  · exact fun _ => rfl
  · exact fun hVain => (hSome hVain.1).elim

/- An output directory that was made in vain is removed. -/
theorem withdraw_vain
    {w : Walk}
    {directory : Path}
    {base : Location}
    (hHosts : w.disk.Hosts directory base)
    (hChildren : w.disk.children base = []) :
    ∃ removed message,
      withdraw w directory true =
        { w with disk := removed }.telling (·.error message) ∧
      (base ≠ [] → removed.node? base = none) ∧
      ∀ place, place ≠ base →
        removed.node? place = w.disk.node? place := by
  rcases hHosts.removeDirectory_full hChildren with
    ⟨removed, hRemove, hNodes⟩
  have hEmpty : w.disk.isEmptyDirectory directory = true := by
    rw [hHosts.isEmptyDirectory_full, hChildren]
    rfl
  refine
    ⟨removed, (Failure.directoryEmpty directory).message,
      ?_, hNodes⟩
  unfold withdraw
  rw [hEmpty, if_pos (by rfl), hRemove]

/- One that holds something, or that was there, is kept. -/
theorem withdraw_kept
    {w : Walk}
    {directory : Path}
    {base : Location}
    {created : Bool}
    (hHosts : w.disk.Hosts directory base)
    (hKept :
      ¬ (created = true ∧ w.disk.children base = [])) :
    withdraw w directory created = w := by
  unfold withdraw
  rw [hHosts.isEmptyDirectory_full]
  exact if_neg (by simpa using hKept)

/- A walk without files has failed. -/
theorem concluded_none
    {w : Walk}
    {directory : Path}
    {base : Location}
    (created : Bool)
    (hHosts : w.disk.Hosts directory base)
    (hVerdict : w.report.verdict = .undecided)
    (hNone : w.extracted = []) :
    Concluded w (conclude w directory created) base
      created := by
  let failed : Walk :=
    w.telling (·.fail (.nothingExtracted w.expected))
  have hFailure : failed.report.verdict =
      .failed (.nothingExtracted w.expected) := by
    dsimp only [failed, Walk.telling]
    unfold Report.fail
    dsimp only
    rw [hVerdict]
  have hFailed : failed.disk.Hosts directory base := hHosts
  have hConclude :
      conclude w directory created =
        withdraw failed directory created := by
    unfold conclude
    rw [if_pos (by simpa using hNone)]
  have hNever : ∀ report : Report,
      report.verdict = failed.report.verdict →
        (report.success = true ↔ w.extracted ≠ []) := by
    intro report hReport
    unfold Report.success
    rw [hReport, hFailure]
    simp [hNone]
  rw [hConclude]
  by_cases hVain : created = true ∧ w.disk.children base = []
  · rcases hVain with ⟨rfl, hChildren⟩
    rcases withdraw_vain hFailed hChildren with
      ⟨removed, message, hWithdraw, hGone, hOthers⟩
    rw [hWithdraw]
    constructor
    · rfl
    · rfl
    · rfl
    · exact hNever _ rfl
    · exact hOthers
    · intro hKept
      exact (hKept ⟨hNone, rfl, hChildren⟩).elim
    · exact fun _ => hGone
  · rw [withdraw_kept hFailed hVain]
    constructor
    · rfl
    · rfl
    · rfl
    · exact hNever _ rfl
    · exact fun _ _ => rfl
    · exact fun _ => rfl
    · exact fun hGone => (hVain hGone.2).elim

theorem concluded
    {w : Walk}
    {directory : Path}
    {base : Location}
    (created : Bool)
    (hHosts : w.disk.Hosts directory base)
    (hVerdict : w.report.verdict = .undecided) :
    Concluded w (conclude w directory created) base
      created := by
  by_cases hNone : w.extracted = []
  · exact concluded_none created hHosts hVerdict hNone
  · exact
      concluded_some directory base created hVerdict hNone

/-
  What stands below the output directory at the end is what
  some items put there, and nothing else; beside it nothing
  has changed.  The output directory itself stays, unless it
  was created and nothing stands in it.
-/
structure Leaves
    (x : Extracted)
    (items : List Item)
    (created : Bool)
    (ready : Disk)
    (base : Location) : Prop where
  below :
    ∀ rel, rel ≠ [] → ∀ node,
      x.disk.node? (base ++ rel) = some node ↔
        Item.PutBy items rel node
  beside :
    ∀ place, ¬ base <+: place →
      x.disk.node? place = ready.node? place
  kept :
    created = false ∨
        (∃ item ∈ items, ∃ name node,
          item.Puts [name] node) →
      x.disk.node? base = some .directory
  withdrawn :
    created = true → base ≠ [] →
      (¬ ∃ item ∈ items, ∃ name node,
        item.Puts [name] node) →
      x.disk.node? base = none

/-
  A walk that has put what some items stand for into a fresh
  directory leaves that.
-/
theorem leaves_of_adds
    {start last : Walk}
    {items : List Item}
    {base : Location}
    {created : Bool}
    (hLast : last.disk.Hosts start.directory base)
    (hEmpty :
      ∀ rel, rel ≠ [] → start.disk.node? (base ++ rel) = none)
    (hDone :
      Concluded last (conclude last start.directory created)
        base created)
    (hAdds : start.disk.Adds last.disk base (Item.PutBy items))
    (hVain :
      (¬ ∃ item ∈ items, ∃ name node,
        item.Puts [name] node) →
        last.extracted = []) :
    Leaves (finish last start.directory created) items created
      start.disk base := by
  have hFirst := Item.children_of_adds hEmpty hAdds
  constructor
  · intro rel hRel node
    have hOther : base ++ rel ≠ base := by
      simpa using hRel
    have hSame :
        (finish last start.directory created).disk.node?
            (base ++ rel) =
          last.disk.node? (base ++ rel) :=
      hDone.beside _ hOther
    rw [hSame]
    exact hAdds.below_empty hEmpty hRel node
  · intro place hPlace
    have hOther : place ≠ base := by
      rintro rfl
      exact hPlace (List.prefix_refl place)
    refine (hDone.beside place hOther).trans ?_
    apply hAdds.beside
    rintro rel - rfl
    exact hPlace (List.prefix_append base rel)
  · intro hSome
    refine (hDone.kept ?_).trans hLast.directory
    rintro ⟨-, hCreated, hChildren⟩
    rcases hSome with hNever | hPut
    · rw [hCreated] at hNever
      cases hNever
    · exact hFirst.mp hChildren hPut
  · intro hCreated hRoot hNone
    exact
      hDone.withdrawn
        ⟨hVain hNone, hCreated, hFirst.mpr hNone⟩ hRoot

/-
  A walk that has gained some items in a fresh directory ends
  with what they stand for.
-/
theorem restores_of_gains
    {start last : Walk}
    {items : List Item}
    {base : Location}
    (created : Bool)
    (hAwaits : start.Awaits base items)
    (hExpected : start.expected = 0)
    (hExtracted : start.extracted = [])
    (hFailures : start.failures = [])
    (hVerdict : start.report.verdict = .undecided)
    (hGains : start.Gains last base items) :
    Restores (finish last start.directory created) items
      start.directory created start.disk base := by
  have hLast : last.disk.Hosts start.directory base :=
    hGains.disk.hosts hAwaits.hosts
  have hDone := concluded created hLast
    (hGains.verdict.trans hVerdict)
  have hFiles :
      last.extracted =
        items.filterMap
          (Item.extracted? start.directory) := by
    rw [hGains.extracted, hExtracted, List.nil_append]
  have hLeaves :=
    leaves_of_adds hLast hAwaits.empty hDone hGains.disk
      (fun hNone =>
        hFiles.trans (Item.extracted_of_puts _ hNone))
  constructor
  · rfl
  · exact hDone.extracted.trans hFiles
  · refine hDone.expected.trans ?_
    rw [hGains.expected, hExpected, Nat.zero_add]
  · refine hDone.failures.trans ?_
    rw [hGains.failures, hFailures, List.nil_append]
  · refine hDone.success.trans ?_
    rw [← hDone.extracted]
    rfl
  · exact hLeaves.below
  · exact hLeaves.beside
  · exact hLeaves.kept
  · exact hLeaves.withdrawn

/- The walk that an extraction from a tape sets out with. -/
def outset
    (options : ExtractionOptions)
    (tape : Tape)
    (full : Path)
    (ready : Disk) : Walk :=
  let report : Report :=
    { operation := operation .blocking "extract_tar_stream"
      snapshot := { inputIsStream := true } }
  { disk := ready
    tape := tape
    directory := full
    options := options
    report :=
      report.note (fun s => { s with outputPath := some full }) }

section SettingOut

variable {options : ExtractionOptions} {tape : Tape}
variable {items : List Item} {last : Walk}
variable {disk ready : Disk} {directory full : Path}
variable {created : Bool} {base : Location}

/- The items of an archive are awaited. -/
theorem IsFresh.awaits
    (hFresh :
      IsFresh disk directory full created ready base)
    (hTaken : ∀ item ∈ items, item.IsTaken options.sanitize)
    (hSound : ∀ item ∈ items, item.IsSound)
    (hApart : items.Pairwise Item.Apart) :
    (outset options tape full ready).Awaits base items where
  hosts := hFresh.hosts
  empty := hFresh.empty
  taken := hTaken
  sound := hSound
  apart := hApart

/- The extraction yields what the walk ends with. -/
theorem IsFresh.yields
    (hFresh :
      IsFresh disk directory full created ready base)
    (hEnds : (outset options tape full ready).Ends last) :
    Yields
      (fun fuel =>
        ofTape? .blocking fuel options tape directory disk)
      (finish last full created) :=
  yields_of_ends hFresh.prepared hEnds

end SettingOut

/-
  Sound items that are apart, each behind a header of its own,
  come to what they stand for when they are extracted into a
  fresh directory.
-/
theorem restores_series
    (options : ExtractionOptions)
    {headed : List (Item × Block)}
    {tape : Tape}
    {disk ready : Disk}
    {directory full : Path}
    {created : Bool}
    {base : Location}
    (hSanitize : options.sanitize = true)
    (hSeries : Item.IsSeries headed)
    (hTape : tape.Holds (Item.archived headed))
    (hFresh :
      IsFresh disk directory full created ready base) :
    ∃ x,
      Yields
        (fun fuel =>
          ofTape? .blocking fuel options tape directory disk)
        x ∧
      Restores x (headed.map Prod.fst) full created ready
        base := by
  let start : Walk := outset options tape full ready
  have hAwaits :
      start.Awaits base ([] ++ headed.map Prod.fst) :=
    hFresh.awaits
      (fun item _ => item.isTaken_of_sanitize hSanitize)
      hSeries.sound hSeries.apart
  have hStands : start.Stands (Item.archived headed) :=
    Tape.Holds.stands hTape
  have hNothing : start.Gains start base [] :=
    (Walk.Alike.refl start).gains base
  rcases hAwaits.ends_behind_series hNothing hSeries.headed
      hStands (magic_notIn_zeros _) with ⟨last, hEnds, hLast⟩
  exact
    ⟨finish last full created, hFresh.yields hEnds,
      restores_of_gains created hAwaits rfl rfl rfl rfl
        hLast⟩

/-
  The archive of sound items that are apart, extracted into a
  fresh directory with unsafe names refused, comes to what
  the items stand for, whether checksums are verified or not.
-/
theorem restores_archive
    (options : ExtractionOptions)
    {items : List Item}
    {tape : Tape}
    {disk ready : Disk}
    {directory full : Path}
    {created : Bool}
    {base : Location}
    (hSanitize : options.sanitize = true)
    (hSound : ∀ item ∈ items, item.IsSound)
    (hApart : items.Pairwise Item.Apart)
    (hTape : tape.Holds (archive (items.map Item.entry)))
    (hFresh :
      IsFresh disk directory full created ready base) :
    ∃ x,
      Yields
        (fun fuel =>
          ofTape? .blocking fuel options tape directory disk)
        x ∧
      Restores x items full created ready base := by
  have hHeaded := Item.headed_written hSound
  unfold archive at hTape
  rw [← Item.series_written] at hTape
  rw [← Item.fst_written items] at hSound hApart ⊢
  exact
    restores_series options hSanitize
      ⟨hHeaded, hSound, hApart⟩ hTape hFresh

/- A new directory on an empty disk is fresh. -/
theorem isFresh_out :
    IsFresh {} ⟨"out"⟩ ⟨"/out"⟩ true
      (prepare {} ⟨"out"⟩).2 ["out"] := by
  have hEntries :
      (prepare {} ⟨"out"⟩).2.entries =
        [(["out"], .directory)] := by
    decide +kernel
  constructor
  · rfl
  · rfl
  · intro rel hRel
    unfold Disk.node?
    rw [hEntries]
    simp [hRel]
  · decide +kernel
  · exact fun _ _ => rfl

/-
  A file that leads out of the directory, one without data,
  a directory and a file in it.
-/
def mixedItems : List Item :=
  [.file "../x" [0x41], .file "e" [], .directory "d",
    .file "d/f" [0x42]]

set_option maxRecDepth 100000 in
/- Their archive is extracted into a directory that is made. -/
theorem mixedItems_restored :
    ∃ x,
      Yields
        (fun fuel =>
          ofTape? .blocking fuel {}
            (taped (archive (mixedItems.map Item.entry)))
            ⟨"out"⟩ {})
        x ∧
      Restores x mixedItems ⟨"/out"⟩ true
        (prepare {} ⟨"out"⟩).2 ["out"] := by
  have hHolds :
      (taped (archive (mixedItems.map Item.entry))).Holds
        (archive (mixedItems.map Item.entry)) :=
    ⟨.ofMemory Script.plain_isCalm rfl rfl, rfl, rfl,
      by decide +kernel⟩
  exact
    restores_archive {} rfl (by decide +kernel)
      (by decide +kernel) hHolds isFresh_out

end Extraction

end ArchiveRescue
