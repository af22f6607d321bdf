import Mathlib
import ArchiveRescue.Proofs.Fallback

/-
  What a source hands out, whatever faults reading it meets.
  A read that is cut off by a fault has handed out the front
  of the input, and one that is not has handed out all of it.
  None of this changes what the source stands for, unless
  the input is the file that is written to.

  Key definitions include:
    * `Source.Feeds`
    * `Source.Brings`
    * `Bench.Mixes`
    * `Bench.Minds`

  Main statements:
    * `Source.Brings.verify_ok`
    * `Source.Feeds.readAll_ok`
    * `Source.Feeds.opened_ok`
    * `Bench.minds_upheld`
-/

namespace ArchiveRescue

open Stage

------------------------------------------------------------
-- Files
------------------------------------------------------------

namespace Disk

variable {d e : Disk} {p : Path} {place : Location}
variable {data : Bytes}

/- A file that a path shows stands where it leads. -/
theorem fileAt?_cases
    (hShows : d.fileAt? p = some data) :
    ∃ place modified,
      d.locate p = .ok place ∧
        d.node? place = some (.file data modified) ∧
        p.endsWithSlash = false := by
  unfold fileAt? at hShows
  split at hShows
  next shown modified hLook =>
    cases hShows
    rcases leads_of_look hLook with
      ⟨place, hLeads, hNode, hPlain⟩
    exact ⟨place, modified, hLeads, hNode, hPlain⟩
  · cases hShows

/- And the other way round. -/
theorem fileAt?_eq
    {modified : Int}
    (hLeads : d.locate p = .ok place)
    (hNode : d.node? place = some (.file data modified))
    (hPlain : p.endsWithSlash = false) :
    d.fileAt? p = some data := by
  unfold fileAt? look
  rw [hLeads]
  dsimp only
  rw [hNode]
  dsimp only
  rw [hPlain, if_neg (by decide)]

/- It is still shown where nothing is gone or changed. -/
theorem Grows.fileAt?_eq
    (hGrows : d.Grows e)
    (hShows : d.fileAt? p = some data) :
    e.fileAt? p = some data := by
  rcases fileAt?_cases hShows with
    ⟨place, modified, hLeads, hNode, hPlain⟩
  exact
    Disk.fileAt?_eq (hGrows.locate hLeads)
      (hGrows.nodes place _ hNode) hPlain

/- A file that was opened is read from its start. -/
theorem openFile_shows
    {opened : Disk}
    {tape : Tape}
    (hShows : d.fileAt? p = some data)
    (hOpen : d.openFile p = (.ok tape, opened)) :
    ∃ place,
      d.locate p = .ok place ∧
        tape.bytes = data ∧
        tape.position = 0 ∧
        tape.ahead = [] ∧
        tape.medium = .file (some place) := by
  rcases fileAt?_cases hShows with
    ⟨place, modified, hLeads, hNode, hPlain⟩
  unfold openFile at hOpen
  rw [hLeads] at hOpen
  dsimp only at hOpen
  rw [hNode] at hOpen
  dsimp only at hOpen
  split at hOpen
  · cases hOpen
  · split at hOpen
    · cases hOpen
    · cases hOpen
      exact ⟨place, hLeads, rfl, rfl, rfl, rfl⟩

/- What was read of it without a fault is all of it. -/
theorem contents_whole
    {got : Bytes}
    {read : Disk}
    (hShows : d.fileAt? p = some data)
    (hRead : d.contents p = (.ok got, read)) :
    got = data := by
  unfold contents at hRead
  rcases hOpen : d.openFile p with ⟨reply, opened⟩
  rw [hOpen] at hRead
  cases reply with
  | error fault => cases hRead
  | ok tape =>
      rcases openFile_shows hShows hOpen with
        ⟨place, -, hBytes, hPosition, hAhead, -⟩
      dsimp only at hRead
      rcases hDrain : tape.drain with ⟨all, fault?, last⟩
      rw [hDrain] at hRead
      cases fault? with
      | some fault => cases hRead
      | none =>
          cases hRead
          have hStep : tape.InStep := by
            unfold Tape.InStep
            rw [hAhead]
            exact List.nil_prefix
          rw [Tape.drain_whole hStep hDrain, hBytes,
            hPosition, List.drop_zero]

end Disk

------------------------------------------------------------
-- Sources
------------------------------------------------------------

namespace Source

/-
  The input that a verified source stands for, however its
  reading goes.
-/
inductive Feeds : Source → Disk → Bytes → Prop where
  | file
      {path : Path}
      {disk : Disk}
      {data : Bytes}
      (shows : disk.fileAt? path = some data) :
      Feeds (.file path) disk data
  | stream
      {tape : Tape}
      (start : Nat)
      (disk : Disk)
      (inStep : tape.InStep) :
      Feeds (.stream tape start none) disk
        (tape.bytes.drop start)
  | copy
      (tape : Tape)
      (start : Nat)
      (data : Bytes)
      (disk : Disk) :
      Feeds (.stream tape start (some data)) disk data

/-
  A source as it is given, and the input that it stands for:
  the bytes of a file, or those of a tape from where it
  stands.
-/
inductive Brings (disk : Disk) : Source → Bytes → Prop where
  | file
      {path : Path}
      {data : Bytes}
      (shows : disk.fileAt? path = some data) :
      Brings disk (.file path) data
  | tape
      {tape : Tape}
      (inStep : tape.InStep) :
      Brings disk (.ofTape tape)
        (tape.bytes.drop tape.position)

/- A source as it is given, be there an input or not. -/
inductive IsBrought : Source → Prop where
  | file (path : Path) : IsBrought (.file path)
  | tape
      {tape : Tape}
      (inStep : tape.InStep) :
      IsBrought (.ofTape tape)

variable {source : Source} {disk : Disk} {data : Bytes}

namespace Feeds

/- A file is the same on a disk that has grown. -/
theorem grown
    {later : Disk}
    (hFeeds : source.Feeds disk data)
    (hGrows : disk.Grows later) :
    source.Feeds later data := by
  cases hFeeds with
  | file hShows => exact .file (hGrows.fileAt?_eq hShows)
  | stream start _ hStep => exact .stream start later hStep
  | copy tape start _ _ => exact .copy tape start data later

/- Reading leaves the input as it is. -/
theorem kept
    {source' : Source}
    {later : Disk}
    (hFeeds : source.Feeds disk data)
    (hKept : Inlet.Kept (source, disk) (source', later)) :
    source'.Feeds later data := by
  have hGrown := hFeeds.grown hKept.disk.grows
  cases hGrown with
  | file hShows =>
      cases hKept.file _ rfl
      exact .file hShows
  | @stream tape start _ hStep =>
      rcases hKept.stream tape start none rfl with
        ⟨told, rfl, hTold⟩
      rw [← hTold.source.bytes]
      exact .stream start later (hTold.inStep hStep)
  | copy tape start _ _ =>
      rcases hKept.stream tape start (some data) rfl with
        ⟨told, rfl, -⟩
      exact .copy told start data later

end Feeds

/- A stream that was rewound stands at its start. -/
theorem rewind_cases
    {tape : Tape}
    {start : Nat}
    {copy? : Option Bytes}
    {later : Inlet}
    (hRewind :
      (rewind start).perform
          (.stream tape start copy?, disk) =
        (.ok (), later)) :
    ∃ told,
      later = (.stream told start copy?, disk) ∧
        tape.Kept told ∧ told.position = start := by
  unfold rewind onTape at hRewind
  rcases bind_ok_cases hRewind with ⟨_, between, hCall, hEnd⟩
  cases hEnd
  rw [perform_ofStep] at hCall
  dsimp only at hCall
  have hKept := tape.kept_seek (.fromStart start)
  rcases hSeek : tape.seek (.fromStart start) with
    ⟨reply, told⟩
  rw [hSeek] at hCall hKept
  cases reply with
  | error fault => cases hCall
  | ok here =>
      cases hCall
      rcases Tape.seek_ok hSeek with ⟨-, hPosition, hGoal, -⟩
      exact
        ⟨told, rfl, hKept,
          hPosition.trans (Int.ofNat_inj.mp hGoal)⟩

namespace Feeds

/- What was read without a fault is all of the input. -/
theorem readAll_ok
    {got : Bytes}
    {later : Inlet}
    (hFeeds : source.Feeds disk data)
    (hRead :
      readAll.perform (source, disk) = (.ok got, later)) :
    got = data := by
  unfold readAll at hRead
  rw [perform_get_bind] at hRead
  cases hFeeds with
  | @file path _ _ hShows =>
      dsimp only [onDisk] at hRead
      rw [perform_focus, perform_ofStep] at hRead
      dsimp only at hRead
      rcases hContents : disk.contents path with
        ⟨reply, read⟩
      rw [hContents] at hRead
      cases reply with
      | error fault => cases hRead
      | ok all =>
          cases hRead
          exact Disk.contents_whole hShows hContents
  | @stream tape start _ hStep =>
      dsimp only at hRead
      rcases bind_ok_cases hRead with
        ⟨_, between, hRewind, hRest⟩
      rcases rewind_cases hRewind with
        ⟨told, rfl, hKept, hPosition⟩
      unfold onTape at hRest
      rw [perform_ofStep] at hRest
      dsimp only at hRest
      rcases hDrain : told.drain with ⟨all, fault?, last⟩
      rw [hDrain] at hRest
      cases fault? with
      | some fault => cases hRest
      | none =>
          cases hRest
          rw [Tape.drain_whole (hKept.inStep hStep) hDrain,
            hPosition, hKept.source.bytes]
  | copy tape start _ _ =>
      cases hRead
      rfl

/-
  What has been opened hands out the front of the input, if
  the file is still the same then or is empty.
-/
theorem opened_ok
    {from' : Opened}
    {source' : Source}
    {later : Disk}
    (hFeeds : source.Feeds disk data)
    (hOpened :
      opened.perform (source, disk) =
        (.ok from', (source', later))) :
    ∀ last : Disk,
      (∀ path place,
        source = .file path →
        disk.locate path = .ok place →
        (∃ shown modified,
          last.node? place = some (.file shown modified) ∧
            shown <+: data)) →
      ∃ got fault? final,
        (drain from').perform (source', last) =
            (.ok (got, fault?), final) ∧
          got <+: data := by
  intro last hShown
  unfold opened at hOpened
  rw [perform_get_bind] at hOpened
  cases hFeeds with
  | @file path _ _ hShows =>
      dsimp only at hOpened
      rcases bind_ok_cases hOpened with
        ⟨tape, between, hOpen, hEnd⟩
      cases hEnd
      rcases openFile_cases hOpen with ⟨hTape, hSame⟩
      cases hSame
      rcases Disk.openFile_shows hShows (Prod.ext hTape rfl)
        with ⟨place, hLeads, -, hPosition, hAhead, hMedium⟩
      rcases hShown path place rfl hLeads with
        ⟨shown, modified, hNode, hPrefix⟩
      have hRefresh :
          last.refresh tape = { tape with bytes := shown } := by
        unfold Disk.refresh
        rw [hMedium]
        dsimp only
        rw [hNode]
      have hStep :
          { tape with bytes := shown }.InStep := by
        unfold Tape.InStep
        dsimp only
        rw [hAhead]
        exact List.nil_prefix
      have hHanded :
          ({ tape with bytes := shown } : Tape).drain.1 <+:
            shown.drop tape.position :=
        (Tape.took_drain _).handed hStep
      have hFront : shown.drop tape.position = shown := by
        rw [hPosition, List.drop_zero]
      rw [hFront] at hHanded
      unfold drain
      rw [perform_ofStep]
      dsimp only
      rw [hRefresh]
      exact ⟨_, _, _, rfl, hHanded.trans hPrefix⟩
  | @stream tape start _ hStep =>
      dsimp only at hOpened
      rcases bind_ok_cases hOpened with
        ⟨_, between, hRewind, hEnd⟩
      rcases rewind_cases hRewind with
        ⟨told, rfl, hKept, hPosition⟩
      cases hEnd
      have hHanded :=
        told.took_drain.handed (hKept.inStep hStep)
      rw [hPosition, hKept.source.bytes] at hHanded
      unfold drain
      rw [perform_ofStep]
      exact ⟨_, _, _, rfl, hHanded⟩
  | copy tape start _ _ =>
      cases hOpened
      exact ⟨_, _, _, rfl, List.prefix_refl data⟩

/- A copy is made of all of the input. -/
theorem preserve_ok
    {later : Inlet}
    (hFeeds : source.Feeds disk data)
    (hPreserve :
      preserve.perform (source, disk) = (.ok (), later)) :
    later.1.Feeds later.2 data := by
  unfold preserve at hPreserve
  rw [perform_get_bind] at hPreserve
  cases hFeeds with
  | file hShows =>
      cases hPreserve
      exact .file hShows
  | @stream tape start _ hStep =>
      dsimp only at hPreserve
      rcases bind_ok_cases hPreserve with
        ⟨got, ⟨source', read⟩, hRead, hEnd⟩
      have hWhole :=
        (Feeds.stream start disk hStep).readAll_ok hRead
      have hKept := kept_readAll (.stream tape start none, disk)
      rw [hRead] at hKept
      rcases hKept.stream tape start none rfl with
        ⟨told, rfl, -⟩
      cases hEnd
      rw [hWhole]
      exact .copy told start _ read
  | copy tape start _ _ =>
      cases hPreserve
      exact .copy tape start data disk

end Feeds

/- What has been verified stands for its input. -/
theorem IsBrought.verify_ok
    {later : Inlet}
    (hBrought : source.IsBrought)
    (hVerify :
      verify.perform (source, disk) = (.ok (), later)) :
    ∃ data,
      source.Brings disk data ∧
        later.1.Feeds later.2 data := by
  unfold verify at hVerify
  rw [perform_get_bind] at hVerify
  cases hBrought with
  | file path =>
      dsimp only at hVerify
      rw [perform_get_bind] at hVerify
      dsimp only at hVerify
      split at hVerify
      · cases hVerify
      · cases hVerify
      next data modified hLook =>
        rcases bind_ok_cases hVerify with
          ⟨tape, between, hOpen, hEnd⟩
        cases hEnd
        rcases openFile_cases hOpen with ⟨-, rfl⟩
        have hShows : disk.fileAt? path = some data := by
          unfold Disk.fileAt?
          rw [hLook]
        exact
          ⟨data, .file hShows,
            (Feeds.file hShows).grown
              (disk.ticks_openFile path).grows⟩
  | @tape tape hStep =>
      dsimp only [ofTape] at hVerify
      have hKept : tape.Kept tape.tell.2 := tape.kept_seek _
      rcases hTell : tape.tell with ⟨reply, told⟩
      rw [hTell] at hVerify hKept
      cases reply with
      | error fault => cases hVerify
      | ok here =>
          cases hVerify
          rcases Tape.tell_ok hTell with ⟨rfl, -⟩
          refine ⟨_, .tape hStep, ?_⟩
          rw [← hKept.source.bytes]
          exact .stream _ disk (hKept.inStep hStep)

/- No use of a source changes what it stands for. -/
theorem Use.feeds
    {α : Type}
    {stage : Stage Inlet α}
    (hUse : Use stage)
    (hFeeds : source.Feeds disk data) :
    (stage.perform (source, disk)).2.1.Feeds
      (stage.perform (source, disk)).2.2 data := by
  cases hUse with
  | opened => exact hFeeds.kept (kept_opened (source, disk))
  | drain from' =>
      exact hFeeds.kept (kept_drain from' (source, disk))
  | readAll => exact hFeeds.kept (kept_readAll (source, disk))
  | preserve =>
      rcases hPreserve :
          Source.preserve.perform (source, disk) with
        ⟨outcome, later⟩
      cases outcome with
      | ok _ => exact hFeeds.preserve_ok hPreserve
      | error failure =>
          -- Only reading the input can have failed.
          have hKept := kept_readAll (source, disk)
          unfold Source.preserve at hPreserve
          rw [perform_get_bind] at hPreserve
          cases hFeeds with
          | file hShows => cases hPreserve
          | @stream tape start _ hStep =>
              dsimp only at hPreserve
              rcases hRead :
                  Source.readAll.perform
                    (.stream tape start none, disk) with
                ⟨outcome, read⟩
              rw [hRead] at hKept
              cases outcome with
              | ok got =>
                  rw [perform_bind_ok hRead] at hPreserve
                  cases hPreserve
              | error other =>
                  rw [perform_bind_error hRead] at hPreserve
                  cases hPreserve
                  exact
                    (Feeds.stream start disk hStep).kept hKept
          | copy tape start _ _ => cases hPreserve

end Source

------------------------------------------------------------
-- Inputs That Are Written To
------------------------------------------------------------

/- No use of a sink touches anything but the file. -/
theorem Sink.spares_use
    {α : Type}
    {stage : Stage Outlet α}
    (hUse : Sink.Use stage)
    (out : Path)
    (disk : Disk) :
    disk.Spares out (stage.perform (.file out, disk)).2.2 := by
  cases hUse with
  | begin =>
      rw [perform_begin_file]
      exact disk.spares_createFile out
  | write origin bs =>
      by_cases hNone : bs = []
      · subst hNone
        exact .refl out disk
      · cases hLeads : disk.locate out with
        | error fault =>
            rw [perform_write_lost out disk origin hNone
              hLeads]
            exact .refl out disk
        | ok place =>
            rw [perform_write_file out disk origin hNone
              hLeads]
            exact Disk.spares_perform_append hLeads bs
  | flush origin => exact .refl out disk
  | written =>
      rw [written_file]
      exact .refl out disk
  | reset =>
      rw [perform_reset_file, perform_begin_file]
      exact disk.spares_createFile out
  | discard =>
      rw [perform_discard_file]
      exact disk.spares_removeFile out

namespace Bench

/- The input is the file that is written to. -/
def Mixes (b : Bench) : Prop :=
  ∃ path out place,
    b.source = .file path ∧
      b.sink = .file out ∧
      b.disk.locate path = .ok place ∧
      b.disk.locate out = .ok place ∧
      path.endsWithSlash = false

/-
  The input of the first bench is still that of the second
  one, unless it is the file that is written to.
-/
structure Minds (b c : Bench) : Prop where
  feeds :
    ∀ data, b.source.Feeds b.disk data →
      c.source.Feeds c.disk data ∨ c.Mixes
  mixes : b.Mixes → c.Mixes

theorem Minds.refl (b : Bench) : Minds b b where
  feeds _ hFeeds := .inl hFeeds
  mixes hMixes := hMixes

theorem Minds.trans
    {a b c : Bench}
    (hFirst : Minds a b)
    (hSecond : Minds b c) :
    Minds a c where
  feeds data hFeeds := by
    rcases hFirst.feeds data hFeeds with hStill | hMixes
    · exact hSecond.feeds data hStill
    · exact .inr (hSecond.mixes hMixes)
  mixes hMixes := hSecond.mixes (hFirst.mixes hMixes)

/- A file that is not written to goes on to be shown. -/
theorem minds_of_spares
    {b : Bench}
    {o : Outlet}
    {out : Path}
    (hSink : b.sink = .file out)
    (hSame : o.1 = .file out)
    (hSpares : b.disk.Spares out o.2) :
    Minds b { b with sink := o.1, disk := o.2 } where
  feeds := by
    intro data hFeeds
    rcases b with ⟨disk, source, sink, report⟩
    cases hFeeds with
    | @file path _ _ hShows =>
        rcases Disk.fileAt?_cases hShows with
          ⟨place, modified, hLeads, hNode, hPlain⟩
        have hStill := hSpares.locate hLeads
        rcases hSpares.nodes place _ hNode with hKept | hOut
        · exact
            .inl (.file
              (Disk.fileAt?_eq hStill hKept hPlain))
        · exact
            .inr ⟨path, out, place, rfl, hSame, hStill, hOut,
              hPlain⟩
    | stream start _ hStep =>
        exact .inl (.stream start o.2 hStep)
    | copy tape start _ _ =>
        exact .inl (.copy tape start data o.2)
  mixes := by
    rintro ⟨path, other, place, hSource, hOther, hLeads,
      hOut, hPlain⟩
    cases hSink.symm.trans hOther
    exact
      ⟨path, out, place, hSource, hSame,
        hSpares.locate hLeads, hSpares.locate hOut, hPlain⟩

/- So every use of the ends minds the input. -/
theorem minds_upheld : Upheld Minds where
  refl := .refl
  trans := .trans
  source := by
    intro α stage hUse b
    have hTicks := hUse.ticks (b.source, b.disk)
    unfold onSource
    rw [perform_focus]
    constructor
    · intro data hFeeds
      exact .inl (hUse.feeds hFeeds)
    · rintro ⟨path, out, place, hSource, hSink, hLeads, hOut,
        hPlain⟩
      exact
        ⟨path, out, place, hTicks.source.file path hSource,
          hSink, hTicks.disk.grows.locate hLeads,
          hTicks.disk.grows.locate hOut, hPlain⟩
  sink := by
    intro α stage hUse b
    have hRuns := Sink.runs_use hUse (b.sink, b.disk)
    unfold onSink
    rw [perform_focus]
    dsimp only
    cases hSink : b.sink with
    | file out =>
        rw [hSink] at hRuns
        exact
          minds_of_spares hSink (hRuns.file out rfl).1
            (Sink.spares_use hUse out b.disk)
    | stream tape start =>
        rw [hSink] at hRuns
        rcases hRuns.stream tape start rfl with
          ⟨told, hSame, -⟩
        rw [hSame]
        constructor
        · exact fun _ hFeeds => .inl hFeeds
        · rintro ⟨path, out, place, -, hFile, -⟩
          cases hSink.symm.trans hFile
  telling _ _ _ _ :=
    ⟨fun _ hFeeds => .inl hFeeds, fun hMixes => hMixes⟩

end Bench

end ArchiveRescue
