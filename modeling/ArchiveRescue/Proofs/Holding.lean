import Mathlib
import ArchiveRescue.Proofs.Source
import ArchiveRescue.Proofs.Writing

/-
  What a source holds.  Where neither the disk nor the tape
  refuses to be read, the input is read whole, as often as it
  is asked for, and reading its framing does not change it.

  Key definitions include:
    * `Trouble.OpensAt`
    * `Trouble.Opens`
    * `Source.Holds`
    * `Source.Opens`
    * `Source.Given`
    * `Source.Streams`

  Main statements:
    * `Disk.contents_eq`
    * `Source.Holds.readAll_ok`
    * `Source.Holds.preserve_ok`
    * `Source.Streams.fetch_ok`
    * `Source.Given.verify_ok`
    * `Source.Holds.framing_ok`
-/

namespace ArchiveRescue

open Stage

------------------------------------------------------------
-- Files
------------------------------------------------------------

/- A file at the place can be opened and read to its end. -/
def Trouble.OpensAt
    (trouble : Trouble)
    (place : Location) : Prop :=
  ∀ turn,
    ∃ script,
      trouble.opening turn place = .ok script ∧
        script.IsCalm

/- Every file can be opened and read to its end. -/
def Trouble.Opens (trouble : Trouble) : Prop :=
  ∀ turn place,
    ∃ script,
      trouble.opening turn place = .ok script ∧
        script.IsCalm

namespace Disk

section Files

variable {d : Disk} {p : Path} {place : Location}
variable {data : Bytes} {modified : Int}

/-
  A file that is opened can be read from its start, as long
  as it stays as it is.
-/
theorem openFile_eq
    (hOpens : d.trouble.OpensAt place)
    (hLeads : d.locate p = .ok place)
    (hNode : d.node? place = some (.file data modified))
    (hPlain : p.endsWithSlash = false) :
    ∃ tape opened,
      d.openFile p = (.ok tape, opened) ∧
        tape.Sound ∧
        tape.bytes = data ∧
        tape.position = 0 ∧
        ∀ e : Disk,
          e.node? place = some (.file data modified) →
            e.refresh tape = tape := by
  rcases hOpens d.turns with ⟨script, hScript, hCalm⟩
  unfold openFile
  rw [hLeads]
  dsimp only
  rw [hNode]
  dsimp only
  rw [hPlain, if_neg (by decide), hScript]
  refine
    ⟨_, _, rfl, ⟨hCalm, List.nil_prefix⟩, rfl, rfl, ?_⟩
  intro e hStill
  unfold refresh
  dsimp only
  rw [hStill]

/- It is read whole. -/
theorem contents_eq
    (hOpens : d.trouble.OpensAt place)
    (hLeads : d.locate p = .ok place)
    (hNode : d.node? place = some (.file data modified))
    (hPlain : p.endsWithSlash = false) :
    (d.contents p).1 = .ok data := by
  rcases openFile_eq hOpens hLeads hNode hPlain with
    ⟨tape, opened, hOpen, hSound, hBytes, hPosition, -⟩
  rcases hSound.drain_eq with ⟨drained, hDrain, -⟩
  unfold contents
  rw [hOpen]
  dsimp only
  rw [hDrain, hPosition, List.drop_zero, hBytes]

end Files

end Disk

namespace Source

------------------------------------------------------------
-- Inputs
------------------------------------------------------------

/-
  The input that a verified source stands for.  A file holds
  what its node holds, a tape what stands on it from the
  start on.
-/
inductive Holds : Source → Disk → Bytes → Prop where
  | file
      {path : Path}
      {disk : Disk}
      {place : Location}
      {data : Bytes}
      {modified : Int}
      (leads : disk.locate path = .ok place)
      (node : disk.node? place = some (.file data modified))
      (plain : path.endsWithSlash = false) :
      Holds (.file path) disk data
  | stream
      {tape : Tape}
      {start : Nat}
      (disk : Disk)
      (sound : tape.Sound)
      (bound : start < tape.medium.bound) :
      Holds (.stream tape start none) disk
        (tape.bytes.drop start)
  | copy
      (tape : Tape)
      (start : Nat)
      (data : Bytes)
      (disk : Disk) :
      Holds (.stream tape start (some data)) disk data

/- What a file source leads to can be opened and read. -/
def Opens (source : Source) (disk : Disk) : Prop :=
  ∀ path place, source = .file path →
    disk.locate path = .ok place →
    disk.trouble.OpensAt place

/- Where every file can be opened this one can. -/
theorem opens_of_trouble
    (source : Source)
    {disk : Disk}
    (hOpens : disk.trouble.Opens) :
    source.Opens disk :=
  fun _ place _ _ turn => hOpens turn place

/-
  A source as it is given: a file, or a tape that refuses
  nothing for good.
-/
inductive Given : Source → Prop where
  | file (path : Path) : Given (.file path)
  | tape
      {tape : Tape}
      (sound : tape.Sound) :
      Given (.ofTape tape)

/- A file is opened on the disk that the source is on. -/
theorem perform_openFile
    {path : Path}
    {source : Source}
    {disk opened : Disk}
    {tape : Tape}
    (hOpen : disk.openFile path = (.ok tape, opened)) :
    (onDisk (openFile path)).perform (source, disk) =
      (.ok tape, (source, opened)) := by
  unfold onDisk openFile
  rw [perform_focus, perform_ofStep, hOpen]
  rfl

/- A sound tape can be moved back to the start. -/
theorem rewind_ok
    {tape : Tape}
    {start : Nat}
    (copy? : Option Bytes)
    (disk : Disk)
    (hSound : tape.Sound)
    (hBound : start < tape.medium.bound) :
    ∃ told,
      (rewind start).perform
          (.stream tape start copy?, disk) =
        (.ok (), (.stream told start copy?, disk)) ∧
        told.Sound ∧
        tape.SameSource told ∧
        told.position = start := by
  have hGoal : tape.goalOf (.fromStart start) = start := rfl
  rcases hSound.goes hGoal hBound with
    ⟨told, hSeek, hTold, hSource, hPosition⟩
  have hCall :
      (onTape "input stream seek"
          (·.seek (.fromStart start))).perform
        (.stream tape start copy?, disk) =
      (.ok start, (.stream told start copy?, disk)) := by
    unfold onTape
    rw [perform_ofStep]
    dsimp only
    rw [hSeek]
    rfl
  refine ⟨told, ?_, hTold, hSource, hPosition⟩
  unfold rewind
  rw [perform_bind_ok hCall]
  rfl

/- So it can be read to its end. -/
theorem readAll_tape
    {tape : Tape}
    {start : Nat}
    (disk : Disk)
    (hSound : tape.Sound)
    (hBound : start < tape.medium.bound) :
    ∃ told,
      readAll.perform (.stream tape start none, disk) =
        (.ok (tape.bytes.drop start),
          (.stream told start none, disk)) := by
  rcases rewind_ok none disk hSound hBound with
    ⟨told, hRewind, hTold, hSource, hPosition⟩
  rcases hTold.drain_eq with ⟨drained, hDrain, -⟩
  refine ⟨drained, ?_⟩
  unfold readAll
  rw [perform_get_bind]
  dsimp only
  rw [perform_bind_ok hRewind]
  unfold onTape
  rw [perform_ofStep]
  dsimp only
  rw [hDrain, hSource.bytes, hPosition]
  rfl

namespace Holds

variable {source : Source} {disk : Disk} {data : Bytes}

/- A file holds the same on a disk that has grown. -/
theorem grown
    {later : Disk}
    (hHolds : Holds source disk data)
    (hGrows : disk.Grows later) :
    Holds source later data := by
  cases hHolds with
  | file hLeads hNode hPlain =>
      exact
        .file (hGrows.locate hLeads) (hGrows.nodes _ _ hNode)
          hPlain
  | stream _ hSound hBound => exact .stream later hSound hBound
  | copy tape start data disk =>
      exact .copy tape start data later

/- It can still be opened there. -/
theorem opens_grown
    {later : Disk}
    (hHolds : Holds source disk data)
    (hOpens : source.Opens disk)
    (hGrows : disk.Grows later) :
    source.Opens later := by
  intro path place hFile hLater
  cases hHolds with
  | file hLeads hNode hPlain =>
      cases hFile
      cases (hGrows.locate hLeads).symm.trans hLater
      rw [hGrows.settings.trouble]
      exact hOpens path _ rfl hLeads
  | stream _ hSound hBound => cases hFile
  | copy tape start data disk => cases hFile

/- What is read is all that the source holds. -/
theorem readAll_ok
    (hHolds : Holds source disk data)
    (hOpens : source.Opens disk) :
    ∃ later,
      readAll.perform (source, disk) = (.ok data, later) := by
  cases hHolds with
  | file hLeads hNode hPlain =>
      have hRead :=
        Disk.contents_eq (hOpens _ _ rfl hLeads) hLeads
          hNode hPlain
      unfold readAll
      rw [perform_get_bind]
      dsimp only [onDisk]
      rw [perform_focus, perform_ofStep]
      dsimp only
      rw [hRead]
      exact ⟨_, rfl⟩
  | stream _ hSound hBound =>
      rcases readAll_tape disk hSound hBound with ⟨told, hRead⟩
      exact ⟨_, hRead⟩
  | copy tape start data disk => exact ⟨_, rfl⟩

end Holds

/- The source is a stream, whatever happens on the disk. -/
def Streams
    (source : Source)
    (data : Bytes) : Prop :=
  (∃ tape start copy?, source = .stream tape start copy?) ∧
    ∀ disk, Holds source disk data

/-
  A file is left as it is, and of a stream a copy is made.
-/
theorem Holds.preserve_ok
    {source : Source}
    {disk : Disk}
    {data : Bytes}
    (hHolds : Holds source disk data) :
    (∃ path,
        source = .file path ∧
          preserve.perform (source, disk) =
            (.ok (), (source, disk))) ∨
      source.Streams data ∧
        ∃ told start,
          preserve.perform (source, disk) =
            (.ok (), (.stream told start (some data), disk)) := by
  cases hHolds with
  | @file path _ _ _ _ hLeads hNode hPlain =>
      exact .inl ⟨path, rfl, rfl⟩
  | @stream tape start _ hSound hBound =>
      refine
        .inr ⟨⟨⟨tape, start, none, rfl⟩, fun later =>
          .stream later hSound hBound⟩, ?_⟩
      rcases readAll_tape disk hSound hBound with ⟨told, hRead⟩
      refine ⟨told, start, ?_⟩
      unfold preserve
      rw [perform_get_bind]
      dsimp only
      rw [perform_bind_ok hRead]
      rfl
  | copy tape start data disk =>
      exact
        .inr ⟨⟨⟨tape, start, some data, rfl⟩, fun later =>
          .copy tape start data later⟩, tape, start, rfl⟩

/-
  A stream is opened and then read, whatever happens on the
  disk in between.
-/
theorem Streams.fetch_ok
    {source : Source}
    {data : Bytes}
    (hStreams : source.Streams data)
    (disk : Disk) :
    ∃ from' first,
      opened.perform (source, disk) =
        (.ok from', (first, disk)) ∧
      first.Streams data ∧
      ∀ later, ∃ last,
        (drain from').perform (first, later) =
          (.ok (data, none), (last, later)) ∧
        last.Streams data := by
  rcases hStreams with ⟨⟨tape, start, copy?, rfl⟩, hHolds⟩
  cases hHolds disk with
  | stream _ hSound hBound =>
      rcases rewind_ok none disk hSound hBound with
        ⟨told, hRewind, hTold, hSource, hPosition⟩
      rcases hTold.drain_eq with ⟨drained, hDrain, hTook⟩
      have hStart : start < told.medium.bound := by
        rwa [hSource.medium]
      refine
        ⟨.stream, .stream told start none, ?_, ?_, ?_⟩
      · unfold opened
        rw [perform_get_bind]
        dsimp only
        rw [perform_bind_ok hRewind]
        rfl
      · refine ⟨⟨told, start, none, rfl⟩, fun later => ?_⟩
        rw [← hSource.bytes]
        exact .stream later hTold hStart
      · intro later
        refine ⟨.stream drained start none, ?_, ?_⟩
        · unfold drain
          rw [perform_ofStep]
          dsimp only
          rw [hDrain, hSource.bytes, hPosition]
        · refine
            ⟨⟨drained, start, none, rfl⟩, fun disk => ?_⟩
          rw [← hSource.bytes, ← hTook.source.bytes]
          refine .stream disk (hTold.of_took hTook) ?_
          rwa [hTook.source.medium]
  | copy _ _ _ _ =>
      have hCopy :
          (Source.stream tape start (some data)).Streams
            data :=
        ⟨⟨tape, start, some data, rfl⟩, hHolds⟩
      exact
        ⟨.copy data, .stream tape start (some data), rfl,
          hCopy, fun later =>
            ⟨.stream tape start (some data), rfl, hCopy⟩⟩

end Source

------------------------------------------------------------
-- Framing
------------------------------------------------------------

namespace Gzip.Framing

/- A read of so many bytes that succeeds takes them. -/
theorem took_readExactly
    {t u : Tape}
    {n : Nat}
    {got : Bytes}
    (hRead : t.readExactly n = (.ok got, u)) :
    t.Took u got := by
  unfold Tape.readExactly at hRead
  rcases hUpTo : t.readUpTo n with ⟨reply, told⟩
  rw [hUpTo] at hRead
  cases reply with
  | error fault => cases hRead
  | ok all =>
      dsimp only at hRead
      split at hRead
      · cases hRead
        exact (Tape.took_gather n hUpTo).1
      · cases hRead

/- A call that succeeds is made. -/
theorem call_ok
    {α : Type}
    {call : Tape → Except Fault α × Tape}
    {t u : Tape}
    {value : α}
    (hCall : (between.call call).perform t = (.ok value, u)) :
    call t = (.ok value, u) := by
  unfold between.call at hCall
  rw [perform_ofStep] at hCall
  rcases hTold : call t with ⟨reply, told⟩
  rw [hTold] at hCall
  cases reply with
  | error fault => cases hCall
  | ok other =>
      cases hCall
      rfl

/-
  The framing is only read of data that is long enough, and
  the tape is still the same.
-/
theorem between_ok
    {t u : Tape}
    {start ending : Nat}
    {f : Framing}
    (hRead :
      (between start ending).perform t = (.ok f, u)) :
    framingLength ≤ ending - start ∧
      t.SameSource u ∧ (t.Sound → u.Sound) := by
  unfold between at hRead
  dsimp only at hRead
  split at hRead
  · cases hRead
  next hLong =>
    rcases bind_ok_cases hRead with ⟨_, first, hSeek, hRest⟩
    rcases bind_ok_cases hRest with
      ⟨header, second, hHeader, hRest⟩
    rcases bind_ok_cases hRest with ⟨_, third, hBack, hRest⟩
    rcases bind_ok_cases hRest with
      ⟨footer, fourth, hFooter, hEnd⟩
    cases hEnd
    have hFirst := call_ok hSeek
    have hSecond := took_readExactly (call_ok hHeader)
    have hThird := call_ok hBack
    have hFourth := took_readExactly (call_ok hFooter)
    refine ⟨by omega, ?_, ?_⟩
    · exact (((Tape.seek_ok hFirst).1.trans
        hSecond.source).trans (Tape.seek_ok hThird).1).trans
          hFourth.source
    · intro hSound
      exact (((hSound.of_seek hFirst).of_took
        hSecond).of_seek hThird).of_took hFourth

theorem ofTape_ok
    {t u : Tape}
    {f : Framing}
    (hRead : ofTape.perform t = (.ok f, u)) :
    framingLength ≤ t.bytes.length - t.position ∧
      t.SameSource u ∧ (t.Sound → u.Sound) := by
  unfold ofTape at hRead
  rw [perform_ofStep] at hRead
  rcases hTell : t.tell with ⟨reply, told⟩
  rw [hTell] at hRead
  cases reply with
  | error fault => cases hRead
  | ok start =>
      dsimp only at hRead
      rcases hEnd : told.seek (.fromEnd 0) with
        ⟨reply, later⟩
      rw [hEnd] at hRead
      cases reply with
      | error fault => cases hRead
      | ok ending =>
          dsimp only at hRead
          rcases hBetween :
              (between start ending).perform later with
            ⟨outcome, read⟩
          rw [hBetween] at hRead
          rcases hBack : read.seek (.fromStart start) with
            ⟨reply, final⟩
          dsimp only at hRead
          rw [hBack] at hRead
          cases reply with
          | error fault => cases hRead
          | ok _ =>
              cases hRead
              rcases between_ok hBetween with
                ⟨hLong, hSource, hSound⟩
              have hTold := Tape.seek_ok hTell
              have hLater := Tape.seek_ok hEnd
              have hStart := (Tape.tell_ok hTell).1
              have hEnding :
                  (ending : Int) = told.bytes.length + 0 :=
                hLater.2.2.1
              rw [hTold.1.bytes] at hEnding
              refine ⟨by omega, ?_, ?_⟩
              · exact ((hTold.1.trans hLater.1).trans
                  hSource).trans (Tape.seek_ok hBack).1
              · intro hFirst
                exact (hSound ((hFirst.of_seek hTell).of_seek
                  hEnd)).of_seek hBack

end Gzip.Framing

------------------------------------------------------------
-- Verified Sources
------------------------------------------------------------

namespace Disk

/- A path that shows a file leads to it. -/
theorem leads_of_look
    {d : Disk}
    {p : Path}
    {data : Bytes}
    {modified : Int}
    (hLook : d.look p = .ok (.file data modified)) :
    ∃ place,
      d.locate p = .ok place ∧
        d.node? place = some (.file data modified) ∧
        p.endsWithSlash = false := by
  unfold look at hLook
  split at hLook
  · cases hLook
  next place hLeads =>
    split at hLook
    · cases hLook
    · cases hLook
    next node _ hNode =>
      split at hLook
      · cases hLook
      next hPlain =>
        cases hLook
        exact
          ⟨place, hLeads, hNode, Bool.eq_false_iff.mpr hPlain⟩

/- What was opened is the file that is there. -/
theorem openFile_ok
    {d opened : Disk}
    {p : Path}
    {tape : Tape}
    {place : Location}
    {data : Bytes}
    {modified : Int}
    (hLeads : d.locate p = .ok place)
    (hNode : d.node? place = some (.file data modified))
    (hOpen : d.openFile p = (.ok tape, opened)) :
    tape.bytes = data ∧ tape.position = 0 := by
  unfold openFile at hOpen
  rw [hLeads] at hOpen
  dsimp only at hOpen
  rw [hNode] at hOpen
  dsimp only at hOpen
  split at hOpen
  · cases hOpen
  · split at hOpen
    · cases hOpen
    · cases hOpen
      exact ⟨rfl, rfl⟩

end Disk

namespace Source

/- A file that was opened has been opened on the disk. -/
theorem openFile_cases
    {path : Path}
    {source : Source}
    {disk : Disk}
    {tape : Tape}
    {later : Inlet}
    (hOpen :
      (onDisk (openFile path)).perform (source, disk) =
        (.ok tape, later)) :
    (disk.openFile path).1 = .ok tape ∧
      later = (source, (disk.openFile path).2) := by
  unfold onDisk openFile at hOpen
  rw [perform_focus, perform_ofStep] at hOpen
  rcases hCall : disk.openFile path with ⟨reply, opened⟩
  rw [hCall] at hOpen
  cases reply with
  | error fault => cases hOpen
  | ok there =>
      cases hOpen
      exact ⟨rfl, rfl⟩

/- What has been verified holds something. -/
theorem Given.verify_ok
    {source : Source}
    {disk : Disk}
    {later : Inlet}
    (hGiven : Given source)
    (hVerify :
      verify.perform (source, disk) = (.ok (), later)) :
    ∃ data, Holds later.1 later.2 data := by
  unfold verify at hVerify
  rw [perform_get_bind] at hVerify
  cases hGiven with
  | file path =>
      dsimp only at hVerify
      rw [perform_get_bind] at hVerify
      dsimp only at hVerify
      split at hVerify
      · cases hVerify
      · cases hVerify
      next data modified hLook =>
        rcases bind_ok_cases hVerify with
          ⟨tape, between, hOpen, hEnd⟩
        cases hEnd
        rcases openFile_cases hOpen with ⟨-, rfl⟩
        rcases Disk.leads_of_look hLook with
          ⟨place, hLeads, hNode, hPlain⟩
        exact
          ⟨data, (Holds.file hLeads hNode hPlain).grown
            (disk.ticks_openFile path).grows⟩
  | @tape tape hSound =>
      dsimp only [ofTape] at hVerify
      rcases hTell : tape.tell with ⟨reply, told⟩
      rw [hTell] at hVerify
      cases reply with
      | error fault => cases hVerify
      | ok here =>
          cases hVerify
          rcases Tape.tell_ok hTell with ⟨rfl, hBound⟩
          refine ⟨_, .stream _ (hSound.of_seek hTell) ?_⟩
          rwa [(Tape.seek_ok hTell).1.medium]

/- It still does when its framing has been looked at. -/
theorem Holds.framing_ok
    {source : Source}
    {disk : Disk}
    {data : Bytes}
    {f : Gzip.Framing}
    {later : Inlet}
    (hHolds : Holds source disk data)
    (hFraming :
      framing.perform (source, disk) = (.ok f, later)) :
    Holds later.1 later.2 data ∧
      Gzip.framingLength ≤ data.length := by
  unfold framing at hFraming
  rw [perform_get_bind] at hFraming
  cases hHolds with
  | @file path _ place data modified hLeads hNode hPlain =>
      dsimp only at hFraming
      rcases bind_ok_cases hFraming with
        ⟨tape, between, hOpen, hEnd⟩
      rcases openFile_cases hOpen with ⟨hTape, rfl⟩
      rcases Disk.openFile_ok hLeads hNode
          (Prod.ext hTape rfl) with
        ⟨hBytes, hPosition⟩
      rw [perform_mk] at hEnd
      rcases hRead : Gzip.Framing.ofTape.perform tape with
        ⟨outcome, read⟩
      rw [hRead] at hEnd
      cases hEnd
      have hLong := (Gzip.Framing.ofTape_ok hRead).1
      rw [hBytes, hPosition, Nat.sub_zero] at hLong
      exact
        ⟨(Holds.file hLeads hNode hPlain).grown
          (disk.ticks_openFile path).grows, hLong⟩
  | @stream tape start _ hSound hBound =>
      rcases rewind_ok none disk hSound hBound with
        ⟨told, hRewind, hTold, hSource, hPosition⟩
      dsimp only at hFraming
      rw [perform_bind_ok hRewind, perform_ofStep] at hFraming
      dsimp only at hFraming
      rcases hRead : Gzip.Framing.ofTape.perform told with
        ⟨outcome, read⟩
      rw [hRead] at hFraming
      cases hFraming
      rcases Gzip.Framing.ofTape_ok hRead with
        ⟨hLong, hSame, hStays⟩
      have hBoth := hSource.trans hSame
      rw [hSource.bytes, hPosition] at hLong
      rw [List.length_drop, ← hBoth.bytes]
      refine ⟨.stream disk (hStays hTold) ?_, ?_⟩
      · rwa [hBoth.medium]
      · rwa [hBoth.bytes]
  | copy tape start data disk =>
      dsimp only at hFraming
      rw [perform_mk] at hFraming
      unfold Gzip.Framing.ofBytes at hFraming
      split at hFraming
      · cases hFraming
      next hLong =>
        cases hFraming
        exact ⟨.copy tape start data disk, by omega⟩

end Source

end ArchiveRescue
