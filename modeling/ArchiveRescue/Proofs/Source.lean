import Mathlib
import ArchiveRescue.Decompression.Source
import ArchiveRescue.Proofs.Growth
import ArchiveRescue.Proofs.Stage
import ArchiveRescue.Proofs.Tape

/-
  What using a source does to the disk, and what a source
  hands out.  Nothing on the disk is changed, and the input
  stays the same for as long as nobody else touches it: it
  can be read whole, again and again, from its start.

  Key definitions include:
    * `Disk.Ticks`
    * `Source.Persists`
    * `Inlet.Ticks`
    * `Inlet.Kept`
    * `Source.Use`

  Main statements:
    * `Gzip.Framing.kept_ofTape`
    * `Source.ticks_verify`
    * `Source.kept_framing`
    * `Source.kept_readAll`
    * `Source.Use.ticks`
-/

namespace ArchiveRescue

------------------------------------------------------------
-- Disks That Are Read
------------------------------------------------------------

namespace Disk

/- Only the count of changes and openings has gone on. -/
structure Ticks (d e : Disk) : Prop where
  entries : e.entries = d.entries
  settings : d.SameSettings e

namespace Ticks

variable {d e f : Disk}

theorem refl (d : Disk) : Ticks d d :=
  ⟨rfl, .refl d⟩

/- The count goes on step by step. -/
theorem trans
    (hFirst : Ticks d e)
    (hSecond : Ticks e f) :
    Ticks d f :=
  ⟨hSecond.entries.trans hFirst.entries,
    hFirst.settings.trans hSecond.settings⟩

theorem symm (hTicks : Ticks d e) : Ticks e d where
  entries := hTicks.entries.symm
  settings :=
    ⟨hTicks.settings.workDir.symm,
      hTicks.settings.trouble.symm⟩

/- Every node stays. -/
theorem node?_eq
    (hTicks : Ticks d e)
    (place : Location) :
    e.node? place = d.node? place := by
  unfold node?
  rw [hTicks.entries]

theorem grows (hTicks : Ticks d e) : Grows d e :=
  .of_entries hTicks.entries hTicks.settings

end Ticks

/- Opening and reading files changes nothing. -/
theorem ticks_openFile
    (d : Disk)
    (p : Path) :
    Ticks d (d.openFile p).2 := by
  unfold openFile
  split
  · exact .refl d
  · split
    · exact .refl d
    · exact .refl d
    · split
      · exact .refl d
      · dsimp only
        split
        · exact ⟨rfl, ⟨rfl, rfl⟩⟩
        · exact ⟨rfl, ⟨rfl, rfl⟩⟩

theorem ticks_contents
    (d : Disk)
    (p : Path) :
    Ticks d (d.contents p).2 := by
  have hOpen := d.ticks_openFile p
  unfold contents
  split
  next hFailed => rwa [hFailed] at hOpen
  next hOpened =>
    rw [hOpened] at hOpen
    split <;> exact hOpen

end Disk

------------------------------------------------------------
-- Inlets That Are Read
------------------------------------------------------------

/-
  A source that is a file is the same file, a stream is a
  stream, and a copy of the input is the same copy.
-/
structure Source.Persists (s t : Source) : Prop where
  file : ∀ path, s = .file path → t = .file path
  stream :
    ∀ tape start copy?, s = .stream tape start copy? →
      ∃ told begun copied?, t = .stream told begun copied?
  copy :
    ∀ tape start data, s = .stream tape start (some data) →
      ∃ told begun, t = .stream told begun (some data)

namespace Source.Persists

variable {s t u : Source}

theorem refl (s : Source) : s.Persists s where
  file _ hFile := hFile
  stream tape start copy? hStream :=
    ⟨tape, start, copy?, hStream⟩
  copy tape start _ hCopy := ⟨tape, start, hCopy⟩

theorem trans
    (hFirst : s.Persists t)
    (hSecond : t.Persists u) :
    s.Persists u where
  file path hFile :=
    hSecond.file path (hFirst.file path hFile)
  stream tape start copy? hStream := by
    rcases hFirst.stream tape start copy? hStream with
      ⟨told, begun, copied?, hTold⟩
    exact hSecond.stream told begun copied? hTold
  copy tape start data hCopy := by
    rcases hFirst.copy tape start data hCopy with
      ⟨told, begun, hTold⟩
    exact hSecond.copy told begun data hTold

end Source.Persists

/- Nothing is changed on the disk, and the source persists. -/
structure Inlet.Ticks (i j : Inlet) : Prop where
  disk : i.2.Ticks j.2
  source : i.1.Persists j.1

namespace Inlet.Ticks

variable {i j k : Inlet}

theorem refl (i : Inlet) : Inlet.Ticks i i :=
  ⟨.refl i.2, .refl i.1⟩

theorem trans
    (hFirst : Inlet.Ticks i j)
    (hSecond : Inlet.Ticks j k) :
    Inlet.Ticks i k :=
  ⟨hFirst.disk.trans hSecond.disk,
    hFirst.source.trans hSecond.source⟩

/- A stream may stand elsewhere and have another start. -/
theorem ofStream
    {disk : Disk}
    (tape told : Tape)
    (start begun : Nat)
    (copy? : Option Bytes) :
    Inlet.Ticks (.stream tape start copy?, disk)
      (.stream told begun copy?, disk) where
  disk := .refl disk
  source :=
    { file := nofun
      stream := fun _ _ _ _ => ⟨told, begun, copy?, rfl⟩
      copy := by
        intro tape start data hCopy
        cases hCopy
        exact ⟨told, begun, rfl⟩ }

/- A stream without a copy may have become any stream. -/
theorem ofUncopied
    {d e : Disk}
    (tape told : Tape)
    (start begun : Nat)
    (copy? : Option Bytes)
    (hTicks : d.Ticks e) :
    Inlet.Ticks (.stream tape start none, d)
      (.stream told begun copy?, e) where
  disk := hTicks
  source :=
    { file := nofun
      stream := fun _ _ _ _ => ⟨told, begun, copy?, rfl⟩
      copy := nofun }

end Inlet.Ticks

/-
  Nothing is changed on the disk, a file is the same file,
  and of a stream the tape at most has been read and moved.
-/
structure Inlet.Kept (i j : Inlet) : Prop where
  disk : i.2.Ticks j.2
  file : ∀ path, i.1 = .file path → j.1 = .file path
  stream :
    ∀ tape start copy?, i.1 = .stream tape start copy? →
      ∃ told,
        j.1 = .stream told start copy? ∧ tape.Kept told

namespace Inlet.Kept

variable {i j k : Inlet}

theorem refl (i : Inlet) : Inlet.Kept i i where
  disk := .refl i.2
  file _ hFile := hFile
  stream tape _ _ hStream := ⟨tape, hStream, .refl tape⟩

theorem trans
    (hFirst : Inlet.Kept i j)
    (hSecond : Inlet.Kept j k) :
    Inlet.Kept i k where
  disk := hFirst.disk.trans hSecond.disk
  file path hFile :=
    hSecond.file path (hFirst.file path hFile)
  stream tape start copy? hStream := by
    rcases hFirst.stream tape start copy? hStream with
      ⟨told, hTold, hKept⟩
    rcases hSecond.stream told start copy? hTold with
      ⟨last, hLast, hStill⟩
    exact ⟨last, hLast, hKept.trans hStill⟩

/- The tape of a stream has been read and moved. -/
theorem ofStream
    {tape told : Tape}
    (start : Nat)
    (copy? : Option Bytes)
    (disk : Disk)
    (hKept : tape.Kept told) :
    Inlet.Kept (.stream tape start copy?, disk)
      (.stream told start copy?, disk) where
  disk := .refl disk
  file := nofun
  stream := by
    intro _ _ _ hStream
    cases hStream
    exact ⟨told, rfl, hKept⟩

/- So the source persists. -/
theorem ticks (hKept : Inlet.Kept i j) :
    Inlet.Ticks i j where
  disk := hKept.disk
  source :=
    { file := hKept.file
      stream := by
        intro tape start copy? hStream
        rcases hKept.stream tape start copy? hStream with
          ⟨told, hTold, -⟩
        exact ⟨told, start, copy?, hTold⟩
      copy := by
        intro tape start data hCopy
        rcases hKept.stream tape start (some data) hCopy with
          ⟨told, hTold, -⟩
        exact ⟨told, start, hTold⟩ }

end Inlet.Kept

------------------------------------------------------------
-- Framing
------------------------------------------------------------

namespace Gzip.Framing

open Stage

theorem kept_call
    {α : Type}
    {call : Tape → Except Fault α × Tape}
    (hCall : ∀ t : Tape, t.Kept (call t).2) :
    Keeps Tape.Kept (between.call call) :=
  hCall

/- Looking for the framing reads and moves the tape. -/
theorem kept_between (start ending : Nat) :
    Keeps Tape.Kept (between start ending) := by
  intro t
  unfold between
  dsimp only
  split
  · exact .refl t
  · refine Keeps.bind
      (kept_call (·.kept_seek _)) ?_ Tape.Kept.trans t
    intro _
    refine Keeps.bind
      (kept_call (·.kept_readExactly _)) ?_ Tape.Kept.trans
    intro _
    refine Keeps.bind
      (kept_call (·.kept_seek _)) ?_ Tape.Kept.trans
    intro _
    refine Keeps.bind
      (kept_call (·.kept_readExactly _)) ?_ Tape.Kept.trans
    intro _ u
    exact .refl u

theorem kept_ofTape : Keeps Tape.Kept ofTape := by
  intro t
  unfold ofTape
  rw [perform_ofStep]
  have hTold : t.Kept t.tell.2 := t.kept_seek _
  rcases hTell : t.tell with ⟨reply, told⟩
  rw [hTell] at hTold
  cases reply with
  | error fault => exact hTold
  | ok start =>
      dsimp only
      have hLater := told.kept_seek (.fromEnd 0)
      rcases hEnd : told.seek (.fromEnd 0) with
        ⟨reply, later⟩
      rw [hEnd] at hLater
      cases reply with
      | error fault => exact hTold.trans hLater
      | ok ending =>
          have hRead := kept_between start ending later
          have hBack :=
            ((between start ending).perform
              later).2.kept_seek (.fromStart start)
          have hAll :=
            ((hTold.trans hLater).trans hRead).trans hBack
          dsimp only
          split
          next hFailed => rwa [hFailed] at hAll
          next hDone => rwa [hDone] at hAll

end Gzip.Framing

namespace Source

open Stage

/- Stages on the disk that change nothing. -/
theorem kept_onDisk
    {α : Type}
    {stage : Stage Disk α}
    (hStage : Keeps Disk.Ticks stage) :
    Keeps Inlet.Kept (onDisk stage) := by
  unfold onDisk
  refine hStage.focus ?_
  intro i disk hDisk
  exact
    ⟨hDisk, fun _ hFile => hFile, fun tape _ _ hStream =>
      ⟨tape, hStream, .refl tape⟩⟩

theorem ticks_openFile (path : Path) :
    Keeps Disk.Ticks (openFile path) :=
  fun disk => disk.ticks_openFile path

/- Calls that read and move the tape. -/
theorem kept_onTape
    {α : Type}
    (origin : String)
    {call : Tape → Except Fault α × Tape}
    (hCall : ∀ t : Tape, t.Kept (call t).2) :
    Keeps Inlet.Kept (onTape origin call) := by
  rintro ⟨source, disk⟩
  unfold onTape
  rw [perform_ofStep]
  cases source with
  | file path => exact .refl _
  | stream tape start copy? =>
      exact .ofStream start copy? disk (hCall tape)

theorem kept_rewind (start : Nat) :
    Keeps Inlet.Kept (rewind start) := by
  unfold rewind
  refine Keeps.bind (kept_onTape _ (·.kept_seek _)) ?_
    Inlet.Kept.trans
  intro _ i
  exact .refl i

------------------------------------------------------------
-- Uses
------------------------------------------------------------

/- No use of a source changes the disk. -/
theorem ticks_verify : Keeps Inlet.Ticks verify := by
  rintro ⟨source, disk⟩
  unfold verify
  rw [perform_get_bind]
  cases source with
  | file path =>
      dsimp only
      rw [perform_get_bind]
      dsimp only
      split
      · exact .refl _
      · exact .refl _
      · apply Keeps.bind
          (fun i =>
            (kept_onDisk (ticks_openFile path) i).ticks) ?_
          Inlet.Ticks.trans
        intro _ i
        exact .refl i
  | stream tape start copy? =>
      dsimp only
      split
      · exact .ofStream _ _ _ _ _
      · exact .ofStream _ _ _ _ _

/- Looking at the framing keeps the source as it is. -/
theorem kept_framing : Keeps Inlet.Kept framing := by
  rintro ⟨source, disk⟩
  unfold framing
  rw [perform_get_bind]
  cases source with
  | file path =>
      dsimp only
      apply Keeps.bind
        (kept_onDisk (ticks_openFile path)) ?_
        Inlet.Kept.trans
      intro _ i
      exact .refl i
  | stream tape start copy? =>
      cases copy? with
      | some data => exact .refl _
      | none =>
          dsimp only
          apply Keeps.bind (kept_rewind start) ?_
            Inlet.Kept.trans
          rintro _ ⟨other, disk⟩
          rw [perform_ofStep]
          cases other with
          | file path => exact .refl _
          | stream told begun copied? =>
              exact
                .ofStream begun copied? disk
                  (Gzip.Framing.kept_ofTape told)

/- So does reading all of it. -/
theorem kept_readAll : Keeps Inlet.Kept readAll := by
  rintro ⟨source, disk⟩
  unfold readAll
  rw [perform_get_bind]
  cases source with
  | file path =>
      apply kept_onDisk
      intro d
      exact d.ticks_contents path
  | stream tape start copy? =>
      cases copy? with
      | some data => exact .refl _
      | none =>
          dsimp only
          apply Keeps.bind (kept_rewind start) ?_
            Inlet.Kept.trans
          intro _
          apply kept_onTape
          intro t
          have hKept := t.took_drain.kept
          split
          next hFailed => rwa [hFailed] at hKept
          next hRead => rwa [hRead] at hKept

/- A copy of the input is made at most. -/
theorem ticks_preserve : Keeps Inlet.Ticks preserve := by
  rintro ⟨source, disk⟩
  unfold preserve
  rw [perform_get_bind]
  cases source with
  | file path => exact .refl _
  | stream tape start copy? =>
      cases copy? with
      | some data => exact .refl _
      | none =>
          dsimp only
          have hRead :=
            (kept_readAll (.stream tape start none, disk)).ticks
          rcases hPerform :
              readAll.perform
                (.stream tape start none, disk) with
            ⟨outcome, later⟩
          rw [hPerform] at hRead
          cases outcome with
          | error failure =>
              rw [perform_bind_error hPerform]
              exact hRead
          | ok data =>
              rw [perform_bind_ok hPerform]
              rcases later with ⟨other, later⟩
              rcases hRead.source.stream tape start none rfl
                with ⟨told, begun, copied?, hTold⟩
              cases hTold
              exact
                .ofUncopied tape told start begun _ hRead.disk

theorem kept_opened : Keeps Inlet.Kept opened := by
  rintro ⟨source, disk⟩
  unfold opened
  rw [perform_get_bind]
  cases source with
  | file path =>
      dsimp only
      apply Keeps.bind
        (kept_onDisk (ticks_openFile path)) ?_
        Inlet.Kept.trans
      intro _ i
      exact .refl i
  | stream tape start copy? =>
      cases copy? with
      | some data => exact .refl _
      | none =>
          dsimp only
          apply Keeps.bind (kept_rewind start) ?_
            Inlet.Kept.trans
          intro _ i
          exact .refl i

theorem kept_drain (from' : Opened) :
    Keeps Inlet.Kept (drain from') := by
  rintro ⟨source, disk⟩
  unfold drain
  rw [perform_ofStep]
  cases from' with
  | file tape => exact .refl _
  | copy data => exact .refl _
  | stream =>
      cases source with
      | file path => exact .refl _
      | stream tape start copy? =>
          exact
            .ofStream start copy? disk tape.took_drain.kept

/- The uses that algorithms make of a source. -/
inductive Use : {α : Type} → Stage Inlet α → Prop where
  | opened : Use opened
  | drain (from' : Opened) : Use (drain from')
  | readAll : Use readAll
  | preserve : Use preserve

/- None of them changes the disk. -/
theorem Use.ticks
    {α : Type}
    {stage : Stage Inlet α}
    (hUse : Use stage) :
    Keeps Inlet.Ticks stage := by
  cases hUse with
  | opened => exact fun i => (kept_opened i).ticks
  | drain from' => exact fun i => (kept_drain from' i).ticks
  | readAll => exact fun i => (kept_readAll i).ticks
  | preserve => exact ticks_preserve

end Source

end ArchiveRescue
