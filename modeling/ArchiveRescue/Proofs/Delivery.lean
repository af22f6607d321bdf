import Mathlib
import ArchiveRescue.Proofs.SourceReads

/-
  What an algorithm that succeeds has delivered, whatever
  faults it has met on the way.  Its output is all that the
  decoder has made of what was read, and nothing that was
  there before or that an earlier attempt has left.

  Key definitions include:
    * `Outlet.Shows`
    * `Outlet.Poised`
    * `Outlet.Finished`
    * `Decompression.Decodes`
    * `Decompression.Inflates`
    * `Decompression.Delivers`
    * `Decompression.Delivered`

  Main statements:
    * `Decompression.direct_delivers`
    * `Decompression.withoutCrc_delivers`
    * `Decompression.algorithm_delivers`
    * `Decompression.run_delivers`
-/

namespace ArchiveRescue

open Stage

------------------------------------------------------------
-- Outputs
------------------------------------------------------------

namespace Outlet

/-
  The output is exactly so many bytes: a file that holds
  them, or a tape on which they have been written from the
  start on.
-/
inductive Shows (bs : Bytes) : Outlet → Prop where
  | file
      {path : Path}
      {disk : Disk}
      (shows : disk.fileAt? path = some bs) :
      Shows bs (.file path, disk)
  | stream
      {tape : Tape}
      {start : Nat}
      (disk : Disk)
      (carries : tape.Carries start bs) :
      Shows bs (.stream tape start, disk)

/- A tape stands at the start of its output. -/
def Poised (o : Outlet) : Prop :=
  ∀ tape start, o.1 = .stream tape start →
    tape.position = start

/-
  The output is not empty and has been counted, so a tape
  still stands where it can be sought.
-/
structure Finished
    (n : Nat)
    (bs : Bytes)
    (o : Outlet) : Prop where
  shows : o.Shows bs
  length : n = bs.length
  some : bs ≠ []
  within :
    ∀ tape start, o.1 = .stream tape start →
      tape.position < tape.medium.bound

end Outlet

namespace Sink

variable {o p : Outlet} {xs : Bytes}

/- A file that has been created is empty. -/
theorem create_shows
    {path : Path}
    {disk : Disk}
    (hBegin :
      begin.perform (.file path, disk) = (.ok (), p)) :
    p.Shows [] := by
  rw [perform_begin_file] at hBegin
  rcases hCreate : disk.createFile path with ⟨reply, made⟩
  rw [hCreate] at hBegin
  cases reply with
  | error fault => cases hBegin
  | ok place =>
      cases hBegin
      rcases Disk.node?_of_createFile hCreate with
        ⟨hLeads, -, hPlain, hMade⟩
      have hStill :=
        (Disk.aims_of_createFile hCreate).1.locate hLeads
      exact
        .file (Disk.fileAt?_eq hStill
          ((hMade place).trans (if_pos rfl)) hPlain)

/- Beginning an output leaves nothing in it. -/
theorem begin_shows
    (hPoised : o.Poised)
    (hBegin : begin.perform o = (.ok (), p)) :
    p.Shows [] := by
  rcases o with ⟨sink, disk⟩
  cases sink with
  | file path => exact create_shows hBegin
  | stream tape start =>
      cases hBegin
      exact
        .stream disk ⟨tape, hPoised tape start rfl, .refl tape⟩

/- Resetting an output leaves nothing in it, too. -/
theorem reset_shows
    (hReset : reset.perform o = (.ok (), p)) :
    p.Shows [] ∧ p.Poised := by
  rcases o with ⟨sink, disk⟩
  cases sink with
  | file path =>
      refine ⟨create_shows hReset, ?_⟩
      rw [perform_reset_file, perform_begin_file] at hReset
      have hFile := congrArg (fun r => r.2.1) hReset
      rintro tape start hStream
      cases hFile.trans hStream
  | stream tape start =>
      rw [perform_reset_stream] at hReset
      rcases hSeek : tape.seek (.fromStart start) with
        ⟨reply, told⟩
      rw [hSeek] at hReset
      cases reply with
      | error fault => cases hReset
      | ok here =>
          cases hReset
          have hMoved := Tape.moved_seek hSeek
          refine
            ⟨.stream disk ⟨told, hMoved.position, .refl told⟩,
              ?_⟩
          rintro _ _ ⟨⟩
          exact hMoved.position

/- What is written comes behind. -/
theorem write_shows
    {origin : String}
    {bs : Bytes}
    (hShows : o.Shows xs)
    (hWrite :
      (write origin bs).perform o = (.ok (), p)) :
    p.Shows (xs ++ bs) := by
  cases hShows with
  | @file path disk hFile =>
      by_cases hNone : bs = []
      · subst hNone
        rw [List.append_nil]
        cases hWrite
        exact .file hFile
      · rcases Disk.fileAt?_cases hFile with
          ⟨place, modified, hLeads, hNode, hPlain⟩
        rw [perform_write_file path disk origin hNone hLeads]
          at hWrite
        have hStill :=
          (Disk.spares_perform_append hLeads bs).locate hLeads
        rcases hPerform : disk.perform (.append place bs) with
          ⟨reply, written⟩
        rw [hPerform] at hWrite hStill
        cases reply with
        | error fault => cases hWrite
        | ok _ =>
            cases hWrite
            have hGrown :=
              Disk.node?_of_append hNode hPerform
            exact .file (Disk.fileAt?_eq hStill hGrown hPlain)
  | @stream tape start disk hCarries =>
      rw [perform_write_stream] at hWrite
      rcases hAll : tape.writeAll bs with ⟨reply, told⟩
      rw [hAll] at hWrite
      cases reply with
      | error fault => cases hWrite
      | ok _ =>
          cases hWrite
          exact
            .stream disk (hCarries.wrote
              (Tape.writeAll_wrote hAll))

/- Waiting until all is safe changes nothing. -/
theorem flush_shows
    {origin : String}
    (hShows : o.Shows xs)
    (hFlush : (flush origin).perform o = (.ok (), p)) :
    p.Shows xs := by
  cases hShows with
  | file hFile =>
      cases hFlush
      exact .file hFile
  | @stream tape start disk hCarries =>
      rw [perform_flush_stream] at hFlush
      cases congrArg Prod.snd hFlush
      exact .stream disk (hCarries.nothing tape.wrote_flush)

/- The bytes of the output are counted. -/
theorem written_shows
    {n : Nat}
    (hShows : o.Shows xs)
    (hWritten : written.perform o = (.ok n, p)) :
    n = xs.length ∧
      p.Shows xs ∧
      ∀ tape start, p.1 = .stream tape start →
        tape.position < tape.medium.bound := by
  cases hShows with
  | @file path disk hFile =>
      unfold written at hWritten
      rw [perform_get_bind] at hWritten
      dsimp only at hWritten
      rw [perform_get_bind] at hWritten
      dsimp only at hWritten
      rcases Disk.fileAt?_cases hFile with
        ⟨place, modified, hLeads, hNode, hPlain⟩
      have hSize : disk.fileSize path = .ok xs.length := by
        unfold Disk.fileSize Disk.look
        rw [hLeads]
        dsimp only
        rw [hNode]
        dsimp only
        rw [hPlain, if_neg (by decide)]
      rw [hSize] at hWritten
      cases hWritten
      exact ⟨rfl, .file hFile, nofun⟩
  | @stream tape start disk hCarries =>
      rw [perform_written_stream] at hWritten
      have hWrote := tape.wrote_tell
      have hPosition := hCarries.position
      rcases hTell : tape.tell with ⟨reply, told⟩
      rw [hTell] at hWritten hWrote
      cases reply with
      | error fault => cases hWritten
      | ok here =>
          cases hWritten
          rcases Tape.tell_ok hTell with ⟨hHere, hBound⟩
          refine
            ⟨?_, .stream disk (hCarries.nothing hWrote), ?_⟩
          · dsimp only
            omega
          · rintro _ _ ⟨⟩
            rwa [hWrote.position, hWrote.follows.medium]

end Sink

namespace Decompression

open Bench

section Deliveries

variable {codec : Codec} {b c : Bench} {data : Bytes}

/-
  Both ways end with putting and counting.  If that succeeds,
  the decoder has ended without a fault, and all that it has
  delivered is the output.
-/
theorem finished_of_put
    {origin : String}
    {delivered : Bytes × Option Fault}
    {n : Nat}
    (hShows : Outlet.Shows [] (b.sink, b.disk))
    (hEnd :
      ((put codec origin delivered) >>= fun _ =>
        ensureNotEmpty origin).perform b = (.ok n, c)) :
    delivered.2 = none ∧
      Outlet.Finished n delivered.1 (c.sink, c.disk) := by
  rcases bind_ok_cases hEnd with ⟨_, between, hPut, hCount⟩
  have hBoth :
      delivered.2 = none ∧
        Outlet.Shows delivered.1
          (between.sink, between.disk) := by
    unfold put at hPut
    split at hPut
    next hNone =>
      rcases bind_ok_cases hPut with
        ⟨_, written, hWrite, hFlush⟩
      have hWritten :=
        Sink.write_shows hShows (onSink_eq hWrite).1
      rw [List.nil_append] at hWritten
      exact
        ⟨hNone,
          Sink.flush_shows hWritten (onSink_eq hFlush).1⟩
    · rcases bind_ok_cases hPut with ⟨first, _, -, hRest⟩
      rcases bind_ok_cases hRest with ⟨_, _, -, hThrow⟩
      cases hThrow
  rcases hBoth with ⟨hNone, hAll⟩
  unfold ensureNotEmpty at hCount
  rcases bind_ok_cases hCount with
    ⟨written, counted, hWritten, hRest⟩
  rcases Sink.written_shows hAll (onSink_eq hWritten).1 with
    ⟨hLength, hStill, hWithin⟩
  split at hRest
  · rcases bind_ok_cases hRest with ⟨_, _, -, hThrow⟩
    cases hThrow
  next hSome =>
    cases hRest
    refine
      ⟨hNone, hStill, hLength, fun hEmpty => hSome ?_, hWithin⟩
    rw [hLength, hEmpty]
    rfl

/- Only a decoder that comes to its end has no fault. -/
theorem complete_of_deliver
    {decode : Bytes → Gzip.Delivery}
    {fault? : Option Fault}
    (hNone : (codec.deliver decode data fault?).2 = none) :
    decode data =
      ⟨(codec.deliver decode data fault?).1, .complete⟩ := by
  unfold Codec.deliver at hNone ⊢
  rcases hDecode : decode data with ⟨bytes, verdict⟩
  rw [hDecode] at hNone
  dsimp only at hNone ⊢
  cases verdict with
  | complete => rfl
  | cut flaw => split at hNone <;> cases hNone
  | broken flaw => cases hNone

/-
  Some front of the input is a whole member, which decodes
  to the output.
-/
def Decodes
    (codec : Codec)
    (input output : Bytes) : Prop :=
  ∃ data,
    data <+: input ∧
      codec.gunzip data = ⟨output, .complete⟩

/- What is between header and footer inflates to it. -/
def Inflates
    (codec : Codec)
    (input output : Bytes) : Prop :=
  Gzip.framingLength ≤ input.length ∧
    codec.inflate (payload input) = ⟨output, .complete⟩

/- Counting what was read shows the same output. -/
theorem shows_ticks
    {bs : Bytes}
    {sink : Sink}
    {disk later : Disk}
    (hShows : Outlet.Shows bs (sink, disk))
    (hTicks : disk.Ticks later) :
    Outlet.Shows bs (sink, later) := by
  cases hShows with
  | file hFile => exact .file (hTicks.grows.fileAt?_eq hFile)
  | stream _ hCarries => exact .stream later hCarries

/- A file is left as it is or emptied. -/
theorem begin_spares
    {o p : Outlet}
    {place : Location}
    {modified : Int}
    (hNode : o.2.node? place = some (.file data modified))
    (hBegin : Sink.begin.perform o = (.ok (), p)) :
    ∃ shown modified',
      p.2.node? place = some (.file shown modified') ∧
        shown <+: data := by
  rcases o with ⟨sink, disk⟩
  cases sink with
  | stream tape start =>
      cases hBegin
      exact ⟨data, modified, hNode, List.prefix_refl data⟩
  | file out =>
      rw [Sink.perform_begin_file] at hBegin
      rcases hCreate : disk.createFile out with ⟨reply, made⟩
      rw [hCreate] at hBegin
      cases reply with
      | error fault => cases hBegin
      | ok there =>
          cases hBegin
          have hMade := (Disk.node?_of_createFile hCreate).2.2.2
          by_cases hPlace : place = there
          · exact
              ⟨[], 0, (hMade place).trans (if_pos hPlace),
                List.nil_prefix⟩
          · exact
              ⟨data, modified,
                ((hMade place).trans (if_neg hPlace)).trans
                  hNode, List.prefix_refl data⟩

/-
  What was fetched is the front of the input, and the output
  has been begun, if its tape stood at the start.
-/
theorem fetch_front
    {got : Bytes}
    {fault? : Option Fault}
    (hFeeds : b.source.Feeds b.disk data)
    (hFetch : fetch.perform b = (.ok (got, fault?), c)) :
    got <+: data ∧
      (Outlet.Poised (b.sink, b.disk) →
        Outlet.Shows [] (c.sink, c.disk)) := by
  unfold fetch at hFetch
  rcases bind_ok_cases hFetch with
    ⟨from', first, hOpened, hRest⟩
  rcases bind_ok_cases hRest with ⟨_, second, hBegin, hDrain⟩
  rcases onSource_eq hOpened with ⟨hOpened, hSink⟩
  rcases onSink_eq hBegin with ⟨hBegin, hSource⟩
  rcases onSource_eq hDrain with ⟨hDrain, hSame⟩
  have hTicks := Source.kept_opened (b.source, b.disk)
  rw [hOpened] at hTicks
  -- A file shows what it did, or is empty by now.
  have hShown :
      ∀ path place, b.source = .file path →
        b.disk.locate path = .ok place →
        ∃ shown modified,
          second.disk.node? place =
              some (.file shown modified) ∧
            shown <+: data := by
    intro path place hPath hLeads
    rw [hPath] at hFeeds
    cases hFeeds with
    | file hShows =>
        rcases Disk.fileAt?_cases hShows with
          ⟨there, modified, hThere, hNode, -⟩
        cases hLeads.symm.trans hThere
        exact
          begin_spares
            ((hTicks.disk.node?_eq place).trans hNode) hBegin
  rcases hFeeds.opened_ok hOpened second.disk hShown with
    ⟨front, other?, final, hFront, hPrefix⟩
  rw [← hSource, hDrain] at hFront
  cases hFront
  refine ⟨hPrefix, fun hPoised => ?_⟩
  have hDrained :=
    Source.kept_drain from' (second.source, second.disk)
  rw [hDrain] at hDrained
  rw [hSame]
  refine shows_ticks (Sink.begin_shows ?_ hBegin) hDrained.disk
  rw [hSink]
  exact hPoised

/- The direct way delivers what the member holds. -/
theorem direct_delivers
    {n : Nat}
    (hFeeds : b.source.Feeds b.disk data)
    (hPoised : Outlet.Poised (b.sink, b.disk))
    (hDirect : (direct codec).perform b = (.ok n, c)) :
    ∃ output,
      Decodes codec data output ∧
        Outlet.Finished n output (c.sink, c.disk) := by
  rw [direct_eq] at hDirect
  rcases logged_ok hDirect with ⟨tried, _, hTried, rfl⟩
  rcases bind_ok_cases hTried with
    ⟨⟨got, fault?⟩, fetched, hFetch, hEnd⟩
  rcases fetch_front hFeeds hFetch with ⟨hPrefix, hShows⟩
  rcases finished_of_put (hShows hPoised) hEnd with
    ⟨hNone, hOutput⟩
  exact
    ⟨_, ⟨got, hPrefix, complete_of_deliver hNone⟩, hOutput⟩

/- The other way delivers what the payload holds. -/
theorem withoutCrc_delivers
    {n : Nat}
    (hFeeds : b.source.Feeds b.disk data)
    (hWithout : (withoutCrc codec).perform b = (.ok n, c)) :
    ∃ output,
      Inflates codec data output ∧
        Outlet.Finished n output (c.sink, c.disk) := by
  rw [withoutCrc_eq] at hWithout
  rcases logged_ok hWithout with ⟨tried, _, hTried, rfl⟩
  rcases bind_ok_cases hTried with
    ⟨got, first, hRead, hRecover⟩
  have hWhole := hFeeds.readAll_ok (onSource_eq hRead).1
  subst hWhole
  have hLong : Gzip.framingLength ≤ got.length := by
    by_contra hShort
    unfold recover at hRecover
    rcases bind_ok_cases hRecover with ⟨_, _, hFraming, -⟩
    unfold Gzip.Framing.ofBytes at hFraming
    rw [perform_mk, if_pos (by omega)] at hFraming
    cases hFraming
  rcases recover_eq codec hLong first with ⟨change, hRefill⟩
  rw [hRefill] at hRecover
  unfold refill debug at hRecover
  rw [perform_modify_bind] at hRecover
  rcases bind_ok_cases hRecover with
    ⟨_, second, hReset, hRest⟩
  rcases bind_ok_cases hRest with ⟨_, third, hBegin, hEnd⟩
  rcases Sink.reset_shows (onSink_eq hReset).1 with
    ⟨-, hPoised⟩
  have hShows :=
    Sink.begin_shows hPoised (onSink_eq hBegin).1
  rcases finished_of_put hShows hEnd with ⟨hNone, hOutput⟩
  exact ⟨_, ⟨hLong, complete_of_deliver hNone⟩, hOutput⟩

------------------------------------------------------------
-- Retries
------------------------------------------------------------

/-
  When the output has been reset, the input is still there,
  or it is the output and empty.
-/
theorem feeds_of_reset
    (hMinds : b.source.Feeds b.disk data ∨ b.Mixes)
    (hReset : (onSink Sink.reset).perform b = (.ok (), c)) :
    c.source.Feeds c.disk data ∨ c.source.Feeds c.disk [] := by
  have hUpheld := minds_upheld.sink .reset b
  rw [hReset] at hUpheld
  have hMixes :
      c.source.Feeds c.disk data ∨ c.Mixes := by
    rcases hMinds with hFeeds | hMixes
    · exact hUpheld.feeds data hFeeds
    · exact .inr (hUpheld.mixes hMixes)
  rcases hMixes with
    hFeeds |
      ⟨path, out, place, hSource, hSink, hLeads, hOut, hPlain⟩
  · exact .inl hFeeds
  · right
    have hShows := (Sink.reset_shows (onSink_eq hReset).1).1
    rw [hSink] at hShows
    rw [hSource]
    cases hShows with
    | file hEmpty =>
        rcases Disk.fileAt?_cases hEmpty with
          ⟨there, modified, hThere, hNode, -⟩
        cases hOut.symm.trans hThere
        exact
          .file (Disk.fileAt?_eq hLeads hNode hPlain)

/-
  What the successful algorithm's decoder has delivered.  A
  retry delivers what its direct attempt does; only if that
  has failed, it delivers what the other way does.
-/
inductive Delivers
    (codec : Codec)
    (b : Bench)
    (input output : Bytes) : Algorithm → Prop where
  | direct
      (decodes : Decodes codec input output) :
      Delivers codec b input output .direct
  | withoutCrc
      (inflates : Inflates codec input output) :
      Delivers codec b input output .withoutCrc
  | first
      {kept tried : Bench}
      {n : Nat}
      (preserves :
        (onSource Source.preserve).perform b = (.ok (), kept))
      (succeeds :
        (Decompression.direct codec).perform kept =
          (.ok n, tried))
      (decodes : Decodes codec input output) :
      Delivers codec b input output .withRetry
  | second
      {kept failed : Bench}
      {failure : Failure}
      (preserves :
        (onSource Source.preserve).perform b = (.ok (), kept))
      (fails :
        (Decompression.direct codec).perform kept =
          (.error failure, failed))
      (inflates : Inflates codec input output) :
      Delivers codec b input output .withRetry

/-
  Every algorithm that succeeds has delivered its output, and
  nothing else is there.
-/
theorem algorithm_delivers
    {which : Algorithm}
    {n : Nat}
    (hFeeds : b.source.Feeds b.disk data)
    (hPoised : Outlet.Poised (b.sink, b.disk))
    (hTried :
      (algorithm codec which).perform b = (.ok n, c)) :
    ∃ output,
      Delivers codec b data output which ∧
        Outlet.Finished n output (c.sink, c.disk) := by
  cases which with
  | direct =>
      rcases direct_delivers hFeeds hPoised hTried with
        ⟨output, hDecodes, hRest⟩
      exact ⟨output, .direct hDecodes, hRest⟩
  | withoutCrc =>
      rcases withoutCrc_delivers hFeeds hTried with
        ⟨output, hInflates, hRest⟩
      exact ⟨output, .withoutCrc hInflates, hRest⟩
  | withRetry =>
      dsimp only [algorithm] at hTried
      rw [withRetry_eq] at hTried
      rcases bind_ok_cases hTried with
        ⟨_, kept, hPreserve, hRest⟩
      rcases onSource_eq hPreserve with ⟨hKept, hSink⟩
      have hStill := hFeeds.preserve_ok hKept
      have hTicks :=
        Source.ticks_preserve (b.source, b.disk)
      rw [hKept] at hTicks
      rcases hDirect : (direct codec).perform kept with
        ⟨outcome, failed⟩
      cases outcome with
      | ok m =>
          rw [perform_tryCatch_ok hDirect] at hRest
          cases hRest
          have hAlso :
              Outlet.Poised (kept.sink, kept.disk) := by
            rw [hSink]
            exact hPoised
          rcases direct_delivers hStill hAlso hDirect with
            ⟨output, hDecodes, hOutput⟩
          exact
            ⟨output, .first hPreserve hDirect hDecodes,
              hOutput⟩
      | error failure =>
          rw [perform_tryCatch_error hDirect] at hRest
          unfold fallback at hRest
          rw [perform_modify_bind] at hRest
          rcases bind_ok_cases hRest with
            ⟨_, reset, hReset, hPlain⟩
          have hMinds := keeps_direct minds_upheld codec kept
          rw [hDirect] at hMinds
          rw [perform_adapt] at hPlain
          rcases hWithout : (withoutCrc codec).perform reset
            with ⟨outcome, last⟩
          rw [hWithout] at hPlain
          cases outcome with
          | error later => cases hPlain
          | ok m =>
              cases hPlain
              rcases feeds_of_reset (b := failed.telling _)
                  (hMinds.feeds data hStill) hReset with
                hAgain | hEmpty
              · rcases withoutCrc_delivers hAgain hWithout with
                  ⟨output, hInflates, hOutput⟩
                exact
                  ⟨output, .second hPreserve hDirect hInflates,
                    hOutput⟩
              · -- An empty input has no framing.
                rcases withoutCrc_delivers hEmpty hWithout with
                  ⟨_, ⟨hLong, -⟩, -⟩
                exact absurd hLong (by decide)

end Deliveries

------------------------------------------------------------
-- Whole Runs
------------------------------------------------------------

section Runs

variable {codec : Codec} {options : DecompressionOptions}
variable {source : Source} {target : Target} {disk : Disk}

/- A source that was prepared stands for its input. -/
theorem preparation_feeds
    {b ready : Bench}
    (hBrought : b.source.IsBrought)
    (hReady : preparation.perform b = (.ok (), ready)) :
    ∃ data,
      b.source.Brings b.disk data ∧
        ready.source.Feeds ready.disk data := by
  rcases preparation_ok_cases hReady with
    ⟨verified, ticked, later, framing, hSource, hSink,
      hFraming, -⟩
  rcases hBrought.verify_ok hSource with
    ⟨data, hBrings, hFeeds⟩
  have hStays := Sink.stays_verify (b.sink, ticked)
  rw [hSink] at hStays
  have hKept := Source.kept_framing (verified, later)
  rw [hFraming] at hKept
  exact ⟨data, hBrings, (hFeeds.grown hStays.disk).kept hKept⟩

/- A tape that was prepared stands at its start. -/
theorem preparation_poised
    {ready : Bench}
    (hReady :
      preparation.perform
          (begun codec options source target disk) =
        (.ok (), ready)) :
    Outlet.Poised (ready.sink, ready.disk) := by
  intro told start hTold
  dsimp only at hTold
  cases target with
  | file path =>
      rcases prepared_file hReady with ⟨full, hFull⟩
      cases hFull.symm.trans hTold
  | tape tape =>
      rcases preparation_stream_ok rfl hReady with
        ⟨also, hAlso, hWrote, -⟩
      cases hAlso.symm.trans hTold
      exact hWrote.position

/-
  What the decoder of a decompression that succeeds has
  delivered from the input that the source stands for.
-/
def Delivered
    (codec : Codec)
    (options : DecompressionOptions)
    (source : Source)
    (target : Target)
    (disk : Disk)
    (output : Bytes) : Prop :=
  ∃ data ready,
    source.Brings disk data ∧
      preparation.perform
          (begun codec options source target disk) =
        (.ok (), ready) ∧
      Delivers codec ready data output options.algorithm

/- A run that succeeds has delivered its output. -/
theorem run_delivers
    (target : Target)
    (hBrought : source.IsBrought)
    {final : Bench}
    (hFinal :
      run codec options
          (operation codec.mode source target.name) source
          target.sink disk =
        final)
    (hVerdict : final.report.verdict = .succeeded) :
    ∃ n output,
      Delivered codec options source target disk output ∧
        Outlet.Finished n output (final.sink, final.disk) := by
  subst hFinal
  rcases run_ok_cases hVerdict with
    ⟨ready, n, tried, hReady, hTried⟩
  rcases run_of_ok hReady hTried with ⟨-, hDisk, hSink⟩
  rcases preparation_feeds
      (b := begun codec options source target disk) hBrought
      hReady with
    ⟨data, hBrings, hFeeds⟩
  rcases algorithm_delivers hFeeds
      (preparation_poised hReady) hTried with
    ⟨output, hDelivers, hFinished⟩
  rw [hDisk, hSink]
  exact
    ⟨n, output, ⟨data, ready, hBrings, hReady, hDelivers⟩,
      hFinished⟩

end Runs

end Decompression

end ArchiveRescue
