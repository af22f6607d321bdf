import Mathlib
import ArchiveRescue.Proofs.Enclosure
import ArchiveRescue.Proofs.Polling
import ArchiveRescue.Proofs.Recovery
import ArchiveRescue.Tape.Rehearsal

/-
  An extraction that waits for its archive and one that is
  polled come to the same result.  This is put together from
  the preparation of the output directory, which both share,
  the walks, which are twins, and the decision about them.

  Main statements:
    * `Extraction.conclude_twins`
    * `Extraction.modes_agree`
-/

namespace ArchiveRescue

namespace Extraction

variable {trouble : Trouble} {loose : Location → Prop}
variable {w v : Walk}

------------------------------------------------------------
-- Decisions
------------------------------------------------------------

/- The same output directories are taken away. -/
theorem withdraw_twins
    {disk : Disk}
    (hDisk : w.disk.Similar trouble loose disk)
    (directory : Path)
    (created : Bool) :
    ∃ later,
      withdraw { w with disk := disk } directory created =
          { withdraw w directory created with
            disk := later } ∧
        (withdraw w directory created).disk.Similar trouble
          loose later := by
  have hEmpty :=
    Disk.Similar.isBisimulation.isEmptyDirectory_eq hDisk
      directory
  unfold withdraw
  dsimp only
  rw [hEmpty]
  split
  · have hRemove :=
      Disk.Similar.isBisimulation.removeDirectory hDisk
        directory
    rcases hFirst : w.disk.removeDirectory directory with
      ⟨removed, tried⟩
    rcases hOther : disk.removeDirectory directory with
      ⟨removed', tried'⟩
    rw [hFirst, hOther] at hRemove
    rcases hRemove with ⟨rfl, hTried⟩
    cases removed' with
    | error fault => exact ⟨tried', rfl, hTried⟩
    | ok done => exact ⟨tried', rfl, hTried⟩
  · exact ⟨disk, rfl, hDisk⟩

/- The same is decided about walks that are twins. -/
theorem conclude_twins
    (hTwins : Walk.Twins trouble loose w v)
    (directory : Path)
    (created : Bool) :
    ∃ later,
      conclude v directory created =
          { conclude w directory created with
            disk := later } ∧
        (conclude w directory created).disk.Similar trouble
          loose later := by
  rcases hTwins.rest with ⟨disk, rfl⟩
  have hDisk := hTwins.disk
  unfold conclude
  dsimp only at hDisk ⊢
  split
  · exact
      withdraw_twins
        (w := w.telling (·.fail (.nothingExtracted w.expected)))
        hDisk directory created
  · exact ⟨disk, rfl, hDisk⟩

/- So the results are the same. -/
theorem finish_twins
    (hTwins : Walk.Twins trouble loose w v)
    (directory : Path)
    (created : Bool) :
    (finish v directory created).result =
        (finish w directory created).result ∧
      (finish v directory created).tape =
        (finish w directory created).tape ∧
      (finish w directory created).disk.Similar trouble loose
        (finish v directory created).disk := by
  rcases conclude_twins hTwins directory created with
    ⟨later, hSame, hDisk⟩
  unfold finish
  rw [hSame]
  exact ⟨rfl, rfl, hDisk⟩

------------------------------------------------------------
-- Whole Runs
------------------------------------------------------------

section Runs

/- Both engines begin with the same walk. -/
theorem twins_beginning
    {options : ExtractionOptions}
    {report : Report}
    {tape : Tape}
    {directory : Path}
    {disk : Disk}
    (hSteady : disk.trouble.Steady)
    (hReads :
      (beginning options report tape directory
        disk).Readable) :
    Walk.Twins disk.trouble (fun _ => False)
      (beginning options report tape directory disk)
      (beginning options report tape directory disk) := by
  have hTrouble :=
    trouble_beginning options report tape directory disk
  refine ⟨?_, ⟨_, rfl⟩, fun _ _ => id, hReads⟩
  rw [← hTrouble] at hSteady ⊢
  exact .refl _ hSteady

/- A walk that waits ends when the task does. -/
theorem walk?_isSome_iff
    (hTwins : Walk.Twins trouble loose w w)
    (hStores : w.StoresAll) :
    (∃ fuel, (walk? .blocking fuel w).isSome) ↔
      ∃ fuel, (walk? .nonblocking fuel w).isSome := by
  constructor
  · rintro ⟨fuel, hEnds⟩
    rcases Option.isSome_iff_exists.mp hEnds with
      ⟨last, hRun⟩
    rcases Task.reaches_run hTwins hStores hRun with
      ⟨other, last', -, hReaches⟩
    rcases Task.run?_iff_reaches.mpr hReaches with
      ⟨more, hTask⟩
    exact ⟨more, Option.isSome_iff_exists.mpr ⟨_, hTask⟩⟩
  · rintro ⟨fuel, hEnds⟩
    rcases Option.isSome_iff_exists.mp hEnds with
      ⟨last, hTask⟩
    exact
      Task.exists_run hTwins hStores
        (Task.run?_iff_reaches.mp ⟨fuel, hTask⟩)

/- Where both end, they are twins. -/
theorem twins_of_walk?
    {fuel more : Nat}
    {last last' : Walk}
    (hTwins : Walk.Twins trouble loose w w)
    (hStores : w.StoresAll)
    (hRun : walk? .blocking fuel w = some last)
    (hTask : walk? .nonblocking more w = some last') :
    ∃ other, Walk.Twins trouble other last last' := by
  rcases Task.reaches_run hTwins hStores hRun with
    ⟨other, found, hLast, hReaches⟩
  have hSame :=
    hReaches.unique (Task.run?_iff_reaches.mp ⟨more, hTask⟩)
  subst hSame
  exact ⟨other, hLast⟩

end Runs

/-
  The engine that waits and the engine that is polled agree,
  for every archive, position, schedule of reads and seeks,
  options, disk and output directory, but for two things in
  which they differ.  If one of them comes to an end, so does
  the other, with the same report, counts, files, failures
  and log, and the same tape and nodes.

  The disk must refuse no chunk in the middle of a file.  An
  engine that waits leaves such a file at once, without
  counting the chunk that it has read; one that is polled
  writes behind, hears of the refusal later and has counted
  more by then.

  And there is one write that nobody hears of: an engine that
  waits writes what it has held back when it lets go of a
  file that cannot be read on, and one that is polled drops
  it.  That can be seen where the file can be written but not
  removed afterwards.  There the file ends sooner for the
  engine that is polled.  It could also be seen if the file
  were the one that is read as the archive.
-/
theorem modes_agree
    (options : ExtractionOptions)
    (report : Report)
    (tape : Tape)
    (directory : Path)
    (disk : Disk)
    (hSteady : disk.trouble.Steady)
    (hReads :
      (beginning options report tape directory
        disk).Readable)
    (hStores :
      (beginning options report tape directory
        disk).StoresAll) :
    ((∃ fuel,
        (run? .blocking fuel options report tape directory
          disk).isSome) ↔
      ∃ fuel,
        (run? .nonblocking fuel options report tape directory
          disk).isSome) ∧
      ∀ fuel more x y,
        run? .blocking fuel options report tape directory
            disk = some x →
          run? .nonblocking more options report tape directory
              disk = some y →
            y.result = x.result ∧
              y.tape = x.tape ∧
              y.disk.workDir = x.disk.workDir ∧
              ∀ place,
                y.disk.node? place = x.disk.node? place ∨
                  disk.trouble.Clings place ∧
                    x.disk.Lacks y.disk place := by
  rcases hPrepare : prepare disk directory with
    ⟨failure | ⟨full, created⟩, ready⟩
  · have hRun : ∀ mode fuel,
        run? mode fuel options report tape directory disk =
          some
            (finish
              (beginning options report tape directory disk)
              directory false) := by
      intro mode fuel
      unfold run? beginning
      rw [hPrepare]
    refine ⟨?_, ?_⟩
    · simp only [hRun, Option.isSome_some]
    · intro fuel more x y hFirst hOther
      rw [hRun] at hFirst hOther
      cases hFirst
      cases hOther
      exact ⟨rfl, rfl, rfl, fun _ => .inl rfl⟩
  · have hTwins := twins_beginning hSteady hReads
    refine ⟨?_, ?_⟩
    · simp only [run?_of_prepare hPrepare,
        Option.isSome_map]
      exact walk?_isSome_iff hTwins hStores
    · intro fuel more x y hFirst hOther
      rw [run?_of_prepare hPrepare,
        Option.map_eq_some_iff] at hFirst hOther
      rcases hFirst with ⟨last, hRun, rfl⟩
      rcases hOther with ⟨last', hTask, rfl⟩
      rcases twins_of_walk? hTwins hStores hRun hTask with
        ⟨other, hLast⟩
      rcases finish_twins hLast full created with
        ⟨hResult, hTape, hDisk⟩
      refine ⟨hResult, hTape, hDisk.workDir, fun place => ?_⟩
      exact
        (hDisk.nodes place).imp_right
          (And.imp_left (hDisk.clings place))

/- A disk from which one of the files cannot be removed. -/
def stuckDisk : Disk where
  trouble :=
    { refuses := fun _ change =>
        if change = .remove ["out", "a"] then
          some (.system .accessDenied)
        else none }

/-
  An archive of two files.  Reads are cut short and
  interrupted, and one inside the first file always fails.
-/
def haltingTape : Tape where
  bytes :=
    Ustar.archive
      [.file "a" (Bytes.zeros 700), .file "b" [0x42]]
  script :=
    Rehearsal.script
      { readChunk? := some 300
        failReadAt? := some 1024
        interruptAt := [0, 512, 512] }

set_option maxRecDepth 100000 in
/-
  Both engines lose the first file and extract the second.
  What cannot be removed of the first one is the block that
  was read of it, or nothing at all.
-/
theorem haltingTape_agrees :
    ∃ x y,
      run? .blocking 16 {} { operation := "extract" }
          haltingTape ⟨"out"⟩ stuckDisk = some x ∧
        run? .nonblocking 64 {} { operation := "extract" }
            haltingTape ⟨"out"⟩ stuckDisk = some y ∧
        x.result.extracted = [⟨"/out/b"⟩] ∧
        x.result.failures.length = 1 ∧
        y.result = x.result ∧
        y.tape = x.tape ∧
        x.disk.node? ["out", "a"] =
          some (.file (Bytes.zeros 512) 0) ∧
        y.disk.node? ["out", "a"] = some (.file [] 0) ∧
        ∀ place, place ≠ ["out", "a"] →
          y.disk.node? place = x.disk.node? place := by
  have hFirst :
      (run? .blocking 16 {} { operation := "extract" }
          haltingTape ⟨"out"⟩ stuckDisk).map
            (fun x =>
              (x.result.extracted,
                x.result.failures.length,
                x.disk.node? ["out", "a"])) =
        some
          ([⟨"/out/b"⟩], 1,
            some (.file (Bytes.zeros 512) 0)) := by
    decide +kernel
  have hOther :
      (run? .nonblocking 64 {} { operation := "extract" }
          haltingTape ⟨"out"⟩ stuckDisk).map
            (fun y => y.disk.node? ["out", "a"]) =
        some (some (.file [] 0)) := by
    decide +kernel
  rcases Option.map_eq_some_iff.mp hFirst with
    ⟨x, hRun, hShows⟩
  rcases Option.map_eq_some_iff.mp hOther with
    ⟨y, hTask, hLeft⟩
  simp only [Prod.mk.injEq] at hShows
  rcases hShows with ⟨hExtracted, hFailures, hBlock⟩
  have hReads :
      (beginning {} { operation := "extract" } haltingTape
        ⟨"out"⟩ stuckDisk).Readable := by
    intro place hMedium
    unfold beginning at hMedium
    split at hMedium
    · cases hMedium
    · cases hMedium
  have hStores :
      (beginning {} { operation := "extract" } haltingTape
        ⟨"out"⟩ stuckDisk).StoresAll := by
    apply Walk.storesAll_of_keepsWriting
    rw [trouble_beginning]
    exact fun _ _ _ => rfl
  rcases
      (modes_agree {} { operation := "extract" } haltingTape
        ⟨"out"⟩ stuckDisk (fun _ _ _ => rfl) hReads
        hStores).2 16 64 x y hRun hTask with
    ⟨hResult, hTape, -, hNodes⟩
  refine
    ⟨x, y, hRun, hTask, hExtracted, hFailures, hResult, hTape,
      hBlock, hLeft, ?_⟩
  intro place hPlace
  rcases hNodes place with hSame | ⟨⟨hClings, -⟩, -⟩
  · exact hSame
  · exfalso
    have hNone :
        stuckDisk.trouble.refuses 0 (.remove place) = none :=
      if_neg (by simpa using hPlace)
    rw [hNone] at hClings
    cases hClings

end Extraction

end ArchiveRescue
