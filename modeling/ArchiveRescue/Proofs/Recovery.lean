import Mathlib
import ArchiveRescue.Proofs.Copying
import ArchiveRescue.Proofs.Retention
import ArchiveRescue.Proofs.RoundAdvance

/-
  Extracting an archive with junk between its entries comes
  to the same as extracting the entries alone.  Two walks in
  front of the same entry do the same to their disks, and the
  one with junk in its way gets to that entry.

  Key definitions include:
    * `Walk.Fair`
    * `Stretch`
    * `Stretch.IsSound`
    * `Tape.Holds`
    * `Extraction.Yields`

  Main statements:
    * `Walk.Matched.attempted`
    * `Walk.stretches_alike`
    * `Extraction.recovers_from_junk`
-/

namespace ArchiveRescue

open Ustar

------------------------------------------------------------
-- Copies in Step
------------------------------------------------------------

namespace Disk.Alike

variable {d e : Disk}

/- The same bytes are appended on both. -/
theorem stored
    (hAlike : Alike d e)
    (place : Location)
    (data : Bytes) :
    Alike (d.stored place data) (e.stored place data) := by
  unfold Disk.stored
  split
  · exact hAlike
  · exact hAlike.apply _

/- Counts may part where they do not matter. -/
theorem later
    (hAlike : Alike d e)
    {first second : Nat}
    (hCount : second = first ∨ d.trouble.Steady) :
    Alike (d.later first) (e.later second) where
  entries := hAlike.entries
  workDir := hAlike.workDir
  trouble := hAlike.trouble
  turns := by
    rcases hCount with rfl | hSteady
    · exact hAlike.turns.imp_left
        (congrArg (· + second))
    · exact .inr hSteady

end Disk.Alike

namespace Walk

/-
  Two walks write alike: both of their tapes hand out whole
  blocks, or it does not matter when their disks are changed.
-/
def Fair (w v : Walk) : Prop :=
  (w.tape.Prompt ∧ v.tape.Prompt) ∨ w.disk.trouble.Steady

section Copying

variable {R : Report → Report → Prop} {w v : Walk}
variable {data : Bytes}

/- The same data is copied in the same way. -/
theorem Matched.copy
    {c : Cursor}
    (hMatched : Matched R w v)
    (hFair : w.Fair v)
    (hDisk : w.disk.trouble.KeepsWriting)
    (hTape : w.tape.Reliable)
    (hOther : v.tape.Reliable)
    (hFinds : w.Finds c data)
    (hSame : v.Finds c data)
    (target : Path) :
    (v.copy c target).1 = (w.copy c target).1 ∧
      MatchedAfter R (w.copy c target).2
        (v.copy c target).2 := by
  have hBegin := hMatched.beginFile target
  have hPassed := w.passed_beginFile target
  rcases hFirst : w.beginFile target with ⟨begun, ready⟩
  rcases hSecond : v.beginFile target with ⟨begun', ready'⟩
  rw [hFirst] at hBegin hPassed
  rw [hSecond] at hBegin
  rcases hBegin with ⟨rfl, hReady⟩
  dsimp only at hReady hPassed
  cases begun' with
  | error failure =>
      unfold Walk.copy
      rw [hFirst, hSecond]
      exact ⟨rfl, rfl, hReady⟩
  | ok place =>
      have hWrites : v.disk.trouble.KeepsWriting := by
        rw [hMatched.disk.trouble]
        exact hDisk
      rcases w.copy_finds c target hDisk hTape hFinds
          hFirst with
        ⟨tape, k, hCopy, hCount⟩
      rcases v.copy_finds c target hWrites hOther hSame
          hSecond with
        ⟨tape', k', hCopy', hCount'⟩
      rw [hCopy, hCopy']
      refine ⟨rfl, rfl, ?_⟩
      refine
        { hReady with
          disk := (hReady.disk.stored place data).later ?_ }
      rcases hFair with ⟨hPrompt, hPrompt'⟩ | hSteady
      · left
        rw [hCount hPrompt, hCount' hPrompt']
      · right
        have hKept := ready.disk.settings_stored place data
        rw [hKept.trouble, hPassed.settings.trouble]
        exact hSteady

variable (hReports : Report.IsBisimulation R)

include hReports

theorem Matched.writeFile
    {c : Cursor}
    (hMatched : Matched R w v)
    (hFair : w.Fair v)
    (hDisk : w.disk.trouble.KeepsWriting)
    (hTape : w.tape.Reliable)
    (hOther : v.tape.Reliable)
    (hFinds : w.Finds c data)
    (hSame : v.Finds c data)
    (name : String) :
    MatchedAfter R (w.writeFile c name).2
      (v.writeFile c name).2 := by
  unfold Walk.writeFile
  rw [hMatched.directory, hMatched.options]
  cases Ustar.target w.directory name w.options.sanitize with
  | error failure =>
      refine ⟨rfl, ?_⟩
      dsimp only
      exact hMatched
  | ok target =>
      have hCopy :=
        Matched.copy (c := c.withTarget target) hMatched hFair
          hDisk hTape hOther hFinds hSame target
      dsimp only
      rw [hCopy.1, hCopy.2.1]
      exact hCopy.2.2.settleFile hReports _ name target _

/- The same failures are noted. -/
theorem Matched.noted
    (name : String)
    {x y : Outcome Unit × Walk}
    (hAfter : MatchedAfter R x y) :
    Matched R (Walk.noted name x) (Walk.noted name y) := by
  rcases x with ⟨outcome, done⟩
  rcases y with ⟨outcome', done'⟩
  rcases hAfter with ⟨rfl, hDone⟩
  cases outcome' with
  | ok _ => exact hDone
  | error source => exact hDone.entryFailed hReports name source

/-
  Two walks that find the same data do the same with the
  entry that it belongs to.
-/
theorem Matched.attempted
    {block : Block}
    (hMatched : Matched R w v)
    (hFair : w.Fair v)
    (hDisk : w.disk.trouble.KeepsWriting)
    (hTape : w.tape.Reliable)
    (hOther : v.tape.Reliable)
    (hFinds :
      w.Finds
        { directory := w.directory, header? := some block }
        data)
    (hSame :
      v.Finds
        { directory := w.directory, header? := some block }
        data) :
    Matched R (w.attempted block) (v.attempted block) := by
  unfold Walk.attempted
  rw [hMatched.directory]
  apply Matched.noted hReports
  unfold content
  cases block.header.kind with
  | directory =>
      exact hMatched.makeDirectory hReports block.header.path
  | other flag => exact ⟨rfl, hMatched.log hReports _ _⟩
  | file =>
      have hCounted :
          Matched R { w with expected := w.expected + 1 }
            { v with expected := v.expected + 1 } :=
        { hMatched with
          expected := congrArg (· + 1) hMatched.expected }
      exact
        hCounted.writeFile hReports hFair hDisk hTape hOther
          hFinds hSame _

end Copying

/-
  Two walks in front of the same data do the same with the
  entry that it belongs to.
-/
theorem attempted_alike
    {w v : Walk}
    {block : Block}
    {data rest rest' : Bytes}
    (hAlike : w.Alike v)
    (hFair : w.Fair v)
    (hDisk : w.disk.trouble.KeepsWriting)
    (hStands : w.Stands (data ++ rest))
    (hOther : v.Stands (data ++ rest'))
    (hSize : block.header.size.toNat = data.length) :
    (w.attempted block).Alike (v.attempted block) := by
  have hData :
      data <+: w.tape.bytes.drop w.tape.position := by
    rw [hStands.rest]
    exact List.prefix_append data rest
  have hSame :
      data <+: v.tape.bytes.drop v.tape.position := by
    rw [hOther.rest]
    exact List.prefix_append data rest'
  exact
    (hAlike.matched.attempted
      Report.sameVerdict_isBisimulation hFair hDisk
      hStands.reliable hOther.reliable (.inl ⟨hData, hSize⟩)
      (.inl ⟨hSame, hSize⟩)).alike

------------------------------------------------------------
-- Stretches
------------------------------------------------------------

end Walk

/- An entry with the junk that stands in front of it. -/
structure Stretch where
  junk : Bytes
  entry : Entry

namespace Stretch

/- The bytes of a stretch. -/
def toBytes (s : Stretch) : Bytes :=
  s.junk ++ s.entry.toBytes

/-
  A stretch from which the entry can be recovered.  The entry
  is marked and declares its data, and the junk neither holds
  a magic word nor pushes the one of the header out of the
  block that is read.
-/
structure IsSound (s : Stretch) : Prop where
  marked : magic <+: Text.encode s.entry.header.magic
  size : s.entry.header.size.toNat = s.entry.data.length
  short : s.junk = [] ∨ s.junk.length % blockSize ≤ 250
  clear :
    s.junk ≠ [] → ∀ i < s.junk.length + magicStart,
      ¬ magic <+:
        (s.junk ++ s.entry.header.toBlock.bytes).drop i

/- A stretch without junk is sound with its entry. -/
theorem IsSound.without_junk
    {s : Stretch}
    (hSound : s.IsSound) :
    IsSound ⟨[], s.entry⟩ :=
  ⟨hSound.marked, hSound.size, .inl rfl,
    fun hSome => (hSome rfl).elim⟩

end Stretch

namespace Walk

/-
  A walk in front of a stretch gets to the entry, and from
  there behind it.
-/
theorem Stands.stretch
    {w : Walk}
    {s : Stretch}
    {rest : Bytes}
    (hStands : w.Stands (s.toBytes ++ rest))
    (hSound : s.IsSound)
    (hDisk : w.disk.trouble.KeepsWriting) :
    ∃ rounds read next,
      Onward w read
        (s.entry.data ++
          (Bytes.zeros (padding s.entry.data.length) ++
            rest)) ∧
      w.after? rounds = some next ∧
      next.Stands rest ∧
      (read.attempted s.entry.header.toBlock).Alike next ∧
      (w.tape.Prompt → next.tape.Prompt) := by
  have hMagic :
      magic <+: s.entry.header.toBlock.bytes.drop
        magicStart := by
    rw [← Block.hasMagic_iff]
    exact s.entry.header.hasMagic_toBlock hSound.marked
  have hShort : s.junk.length % blockSize ≤ 250 := by
    rcases hSound.short with hNone | hShort
    · rw [hNone]
      exact Nat.zero_le 250
    · exact hShort
  unfold Stretch.toBytes Entry.toBytes at hStands
  simp only [List.append_assoc] at hStands
  rcases stands_behind_junk hStands hMagic hShort
      hSound.clear with ⟨rounds, there, hAfter, hOnward⟩
  have hSize :
      s.entry.header.toBlock.header.size.toNat =
        s.entry.data.length := by
    rw [Header.size_toBlock]
    exact hSound.size
  have hWrites : there.disk.trouble.KeepsWriting := by
    rw [hOnward.alike.disk.trouble]
    exact hDisk
  rcases hOnward.stands.round_entry
      (s.entry.header.accepted_toBlock hSound.marked _) hSize
      hWrites with
    ⟨read, next, hRead, hRound, hNext, hAlike, hPrompt⟩
  refine
    ⟨rounds + 1, read, next, hOnward.trans hRead, ?_, hNext,
      hAlike, fun hTape => hPrompt (hOnward.prompt hTape)⟩
  rw [after?_add, hAfter]
  simp only [Option.bind_some, after?, hRound]

/-
  Two walks with the same entries before them, behind junk or
  not, end alike.  The induction is on the stretches.
-/
theorem stretches_alike
    {w v : Walk}
    (stretches : List Stretch)
    {tail tail' : Bytes}
    (hAlike : w.Alike v)
    (hFair : w.Fair v)
    (hDisk : w.disk.trouble.KeepsWriting)
    (hSound : ∀ s ∈ stretches, s.IsSound)
    (hStands :
      w.Stands (stretches.flatMap Stretch.toBytes ++ tail))
    (hOther :
      v.Stands
        ((stretches.map Stretch.entry).flatMap
          Entry.toBytes ++ tail'))
    (hTail : ∀ i, ¬ magic <+: tail.drop i)
    (hTail' : ∀ i, ¬ magic <+: tail'.drop i) :
    ∃ last last', w.Ends last ∧ v.Ends last' ∧
      last.Alike last' := by
  induction stretches generalizing w v with
  | nil =>
      rcases ends_in_tail hStands hTail with
        ⟨last, hEnds, hLast⟩
      rcases ends_in_tail hOther hTail' with
        ⟨last', hEnds', hLast'⟩
      exact
        ⟨last, last', hEnds, hEnds',
          (hLast.symm.trans hAlike).trans hLast'⟩
  | cons s later ih =>
      have hHere := hSound s List.mem_cons_self
      have hLater : ∀ s ∈ later, s.IsSound := by
        intro t hMem
        exact hSound t (List.mem_cons_of_mem s hMem)
      rw [List.flatMap_cons, List.append_assoc] at hStands
      rw [List.map_cons, List.flatMap_cons,
        List.append_assoc] at hOther
      have hWrites : v.disk.trouble.KeepsWriting := by
        rw [hAlike.disk.trouble]
        exact hDisk
      rcases hStands.stretch hHere hDisk with
        ⟨rounds, read, next, hRead, hAfter, hNext, hDone,
          hPrompt⟩
      have hClean :
          v.Stands
            (Stretch.toBytes ⟨[], s.entry⟩ ++
              ((later.map Stretch.entry).flatMap
                Entry.toBytes ++ tail')) := by
        unfold Stretch.toBytes
        rw [List.nil_append]
        exact hOther
      rcases hClean.stretch hHere.without_junk hWrites with
        ⟨rounds', read', next', hRead', hAfter', hNext',
          hDone', hPrompt'⟩
      have hSize :
          s.entry.header.toBlock.header.size.toNat =
            s.entry.data.length := by
        rw [Header.size_toBlock]
        exact hHere.size
      have hBefore : read.Alike read' :=
        (hRead.alike.symm.trans hAlike).trans hRead'.alike
      have hReadDisk : read.disk.trouble.KeepsWriting := by
        rw [hRead.alike.disk.trouble]
        exact hDisk
      have hReadFair : read.Fair read' := by
        rcases hFair with ⟨hTape, hTape'⟩ | hSteady
        · exact .inl
            ⟨hRead.prompt hTape, hRead'.prompt hTape'⟩
        · right
          rw [hRead.alike.disk.trouble]
          exact hSteady
      have hBehind : next.Alike next' :=
        (hDone.symm.trans
          (attempted_alike hBefore hReadFair hReadDisk
            hRead.stands hRead'.stands hSize)).trans hDone'
      have hTrouble : next.disk.trouble = w.disk.trouble := by
        rcases read.entry_eq s.entry.header.toBlock hReadDisk
          with ⟨c, -, -, hPassed, -⟩
        rw [hDone.disk.trouble, hPassed.settings.trouble,
          hRead.alike.disk.trouble]
      have hNextFair : next.Fair next' := by
        rcases hFair with ⟨hTape, hTape'⟩ | hSteady
        · exact .inl ⟨hPrompt hTape, hPrompt' hTape'⟩
        · right
          rw [hTrouble]
          exact hSteady
      rcases ih hBehind hNextFair (hTrouble ▸ hDisk) hLater
          hNext hNext' with
        ⟨last, last', hEnds, hEnds', hLast⟩
      exact
        ⟨last, last', ends_of_after hAfter hEnds,
          ends_of_after hAfter' hEnds', hLast⟩

end Walk

------------------------------------------------------------
-- Whole Extractions
------------------------------------------------------------

/- A reliable tape that stands before just these bytes. -/
structure Tape.Holds (t : Tape) (bytes : Bytes) : Prop where
  reliable : t.Reliable
  start : t.position = 0
  contents : t.bytes = bytes
  length : bytes.length < 2 ^ 63

/- So a walk that begins with it stands before the bytes. -/
theorem Tape.Holds.stands
    {w : Walk}
    {bytes : Bytes}
    (hHolds : w.tape.Holds bytes) :
    w.Stands bytes := by
  constructor
  · exact hHolds.reliable
  · rw [hHolds.contents]
    exact hHolds.length
  · rw [hHolds.start]
    exact Nat.zero_le _
  · rw [hHolds.start, hHolds.contents, List.drop_zero]

/- There is no magic word in the zeros that end an archive. -/
theorem magic_notIn_zeros
    (n i : Nat) :
    ¬ magic <+: (Bytes.zeros n).drop i := by
  intro hHere
  have hMem : (0x75 : UInt8) ∈ Bytes.zeros n :=
    List.mem_of_mem_drop (hHere.subset List.mem_cons_self)
  exact absurd (List.eq_of_mem_replicate hMem) (by decide)

namespace Extraction

/- With any fuel that is enough, a run comes to `x`. -/
def Yields
    (run : Nat → Option Extracted)
    (x : Extracted) : Prop :=
  ∃ least, ∀ fuel, least ≤ fuel → run fuel = some x

/-
  Two results with the same files, failures and success, and
  disks that hold the same.
-/
structure SameResult (x y : Extracted) : Prop where
  directory : y.result.directory = x.result.directory
  expected : y.result.expected = x.result.expected
  extracted : y.result.extracted = x.result.extracted
  failures : y.result.failures = x.result.failures
  success : y.result.success = x.result.success
  entries : y.disk.entries = x.disk.entries

section Deciding

variable {R : Report → Report → Prop} {w v : Walk}
variable (hReports : Report.IsBisimulation R)

include hReports

/- Two walks that match are concluded in the same way. -/
theorem withdraw_matched
    (hMatched : Walk.Matched R w v)
    (directory : Path)
    (created : Bool) :
    Walk.Matched R (withdraw w directory created)
      (withdraw v directory created) := by
  unfold withdraw
  rw [hMatched.disk.isEmptyDirectory_eq]
  split
  · have hRemove := hMatched.disk.removeDirectory directory
    rcases hFirst : w.disk.removeDirectory directory with
      ⟨removed, tried⟩
    rcases hOther : v.disk.removeDirectory directory with
      ⟨removed', tried'⟩
    rw [hFirst, hOther] at hRemove
    rcases hRemove with ⟨rfl, hTried⟩
    have hRemoved :
        Walk.Matched R { w with disk := tried }
          { v with disk := tried' } :=
      { hMatched with disk := hTried }
    cases removed' with
    | error fault => exact hRemoved
    | ok _ => exact hRemoved.log hReports _ _
  · exact hMatched

theorem conclude_matched
    (hMatched : Walk.Matched R w v)
    (directory : Path)
    (created : Bool) :
    Walk.Matched R (conclude w directory created)
      (conclude v directory created) := by
  unfold conclude
  rw [hMatched.extracted, hMatched.expected]
  split
  · apply withdraw_matched hReports
    exact
      hMatched.telling (hReports.fail _ hMatched.report)
  · exact
      hMatched.telling
        (hReports.succeed (hReports.log _ _ hMatched.report))

end Deciding

/- So alike walks come to the same result. -/
theorem finish_alike
    {w v : Walk}
    (hAlike : w.Alike v)
    (directory : Path)
    (created : Bool) :
    SameResult (finish w directory created)
      (finish v directory created) := by
  have hFinal :=
    (conclude_matched Report.sameVerdict_isBisimulation
      hAlike.matched directory created).alike
  unfold finish
  exact
    { directory := rfl
      expected := hFinal.expected
      extracted := hFinal.extracted
      failures := hFinal.failures
      success := by
        unfold success Report.success
        dsimp only
        rw [hFinal.verdict]
      entries := hFinal.disk.entries }

/- A prepared extraction yields what its walk ends with. -/
theorem yields_of_ends
    {options : ExtractionOptions}
    {report : Report}
    {tape : Tape}
    {disk ready : Disk}
    {directory full : Path}
    {created : Bool}
    {last : Walk}
    (hPrepare :
      prepare disk directory = (.ok (full, created), ready))
    (hEnds :
      Walk.Ends
        { disk := ready
          tape := tape
          directory := full
          options := options
          report :=
            report.note (fun s =>
              { s with outputPath := some full }) } last) :
    Yields
      (fun fuel =>
        run? .blocking fuel options report tape directory
          disk)
      (finish last full created) := by
  rcases hEnds with ⟨least, hLeast⟩
  refine ⟨least, ?_⟩
  intro fuel hFuel
  unfold run?
  rw [hPrepare]
  simp only [walk?, hLeast fuel hFuel, Option.map_some]

/- One that cannot be prepared yields its failure. -/
theorem yields_of_unprepared
    (options : ExtractionOptions)
    (report : Report)
    (tape : Tape)
    {disk tried : Disk}
    {directory : Path}
    {failure : Failure}
    (hPrepare :
      prepare disk directory = (.error failure, tried)) :
    Yields
      (fun fuel =>
        run? .blocking fuel options report tape directory
          disk)
      (finish
        { disk := tried
          tape := tape
          directory := directory
          options := options
          report := report.fail failure } directory false) := by
  refine ⟨0, ?_⟩
  intro fuel _
  unfold run?
  rw [hPrepare]

/-
  Extracting entries behind junk, with a tail that holds no
  magic word, comes to the same as extracting the archive of
  the entries, on every disk that does not refuse to write.
-/
theorem recovers_from_junk
    (options : ExtractionOptions)
    {stretches : List Stretch}
    {tail : Bytes}
    {noisy clean : Tape}
    {disk : Disk}
    (directory : Path)
    (hSound : ∀ s ∈ stretches, s.IsSound)
    (hTail : ∀ i, ¬ magic <+: tail.drop i)
    (hNoisy :
      noisy.Holds (stretches.flatMap Stretch.toBytes ++ tail))
    (hClean :
      clean.Holds (archive (stretches.map Stretch.entry)))
    (hDisk : disk.trouble.KeepsWriting)
    (hFair :
      (noisy.Prompt ∧ clean.Prompt) ∨ disk.trouble.Steady) :
    ∃ x y,
      Yields
        (fun fuel =>
          ofTape? .blocking fuel options noisy directory disk)
        x ∧
      Yields
        (fun fuel =>
          ofTape? .blocking fuel options clean directory disk)
        y ∧
      SameResult x y := by
  have hSettings := settings_prepare disk directory
  unfold ofTape?
  rcases hPrepare : prepare disk directory with
    ⟨result, ready⟩
  rw [hPrepare] at hSettings
  cases result with
  | error failure =>
      refine
        ⟨_, _,
          yields_of_unprepared options _ noisy hPrepare,
          yields_of_unprepared options _ clean hPrepare, ?_⟩
      apply finish_alike
      exact ⟨.refl ready, rfl, rfl, rfl, rfl, rfl, rfl⟩
  | ok made =>
      rcases made with ⟨full, created⟩
      let report : Report :=
        { operation := operation .blocking "extract_tar_stream"
          snapshot := { inputIsStream := true } }
      let start (tape : Tape) : Walk :=
        { disk := ready
          tape := tape
          directory := full
          options := options
          report :=
            report.note (fun s =>
              { s with outputPath := some full }) }
      have hSame : (start noisy).Alike (start clean) :=
        ⟨.refl ready, rfl, rfl, rfl, rfl, rfl, rfl⟩
      have hWrites : ready.trouble.KeepsWriting := by
        rw [hSettings.trouble]
        exact hDisk
      have hReadyFair : (start noisy).Fair (start clean) := by
        rcases hFair with hPrompt | hSteady
        · exact .inl hPrompt
        · right
          rw [← hSettings.trouble] at hSteady
          exact hSteady
      rcases Walk.stretches_alike stretches hSame hReadyFair
          hWrites hSound (hNoisy.stands (w := start noisy))
          (hClean.stands (w := start clean)) hTail
          (magic_notIn_zeros _) with
        ⟨last, last', hEnds, hEnds', hLast⟩
      exact
        ⟨finish last full created, finish last' full created,
          yields_of_ends hPrepare hEnds,
          yields_of_ends hPrepare hEnds',
          finish_alike hLast full created⟩

/- A file of one byte behind one byte of junk. -/
def shiftedFile : Stretch where
  junk := [0x41]
  entry := .file "a" [0x42]

/- A tape of bytes in memory. -/
def taped (bytes : Bytes) : Tape :=
  { bytes := bytes }

set_option maxRecDepth 100000 in
/- Its archive is recovered. -/
theorem shiftedFile_recovered :
    ∃ x y,
      Yields
        (fun fuel =>
          ofTape? .blocking fuel {}
            (taped
              ([shiftedFile].flatMap Stretch.toBytes ++ []))
            ⟨"out"⟩ {})
        x ∧
      Yields
        (fun fuel =>
          ofTape? .blocking fuel {}
            (taped (archive ([shiftedFile].map Stretch.entry)))
            ⟨"out"⟩ {})
        y ∧
      SameResult x y := by
  have hSound : ∀ s ∈ [shiftedFile], s.IsSound := by
    intro s hMem
    rw [List.mem_singleton] at hMem
    subst hMem
    exact
      { marked := by decide +kernel
        size := by decide +kernel
        short := .inr (by decide +kernel)
        clear := fun _ => by decide +kernel }
  have hHolds : ∀ bytes : Bytes,
      bytes.length < 2 ^ 63 → (taped bytes).Holds bytes := by
    intro bytes hLength
    exact
      ⟨.ofMemory Script.plain_isCalm rfl rfl, rfl, rfl,
        hLength⟩
  exact
    recovers_from_junk {} ⟨"out"⟩ hSound
      (by simp [magic])
      (hHolds _ (by decide +kernel))
      (hHolds _ (by decide +kernel))
      (fun _ _ _ => rfl) (.inr fun _ _ _ => rfl)

end Extraction

end ArchiveRescue
