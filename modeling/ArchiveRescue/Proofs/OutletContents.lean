import Mathlib
import ArchiveRescue.Proofs.Fallback

/-
  What an output that is never refused holds after each step
  of an algorithm.  A tape that held something before keeps
  it around the bytes that are written, also if these are
  written over those of an attempt that has failed.

  Key definitions include:
    * `Outlet.Bears`
    * `Outlet.Fresh`
    * `Outlet.Left`
    * `Decompression.made`
    * `Decompression.produced`

  Main statements:
    * `Outlet.Bears.write`
    * `Outlet.Bears.reset`
    * `Outlet.Bears.output`
    * `Decompression.put_made`
    * `Decompression.direct_made`
    * `Decompression.withoutCrc_made`
    * `Decompression.algorithm_made`
-/

namespace ArchiveRescue

open Stage

------------------------------------------------------------
-- Outputs in the Course of a Run
------------------------------------------------------------

/-
  An output to which bytes have been written from its start
  on and which refuses nothing.  On a tape there is room for
  `size` bytes, and once so many are written from the start
  on, it holds what it would hold if they had been written
  over `below`.
-/
inductive Outlet.Bears
    (size : Nat)
    (below bs : Bytes) : Outlet → Prop where
  | file
      {path : Path}
      {place : Location}
      {disk : Disk}
      {modified : Int}
      (admits : disk.Admits path place)
      (permits : disk.trouble.Permits)
      (node : disk.node? place = some (.file bs modified)) :
      Outlet.Bears size below bs (.file path, disk)
  | stream
      {first tape : Tape}
      {start : Nat}
      (disk : Disk)
      (serves : tape.Serves)
      (position : first.position = start)
      (wrote : first.Wrote tape bs)
      (room : start + size < tape.medium.bound)
      (around :
        ∀ zs, zs.length = size →
          Bytes.overlay first.bytes start zs =
            Bytes.overlay below start zs) :
      Outlet.Bears size below bs (.stream tape start, disk)

/- An output that can be begun. -/
inductive Outlet.Fresh
    (size : Nat)
    (below : Bytes) : Outlet → Prop where
  | file
      {path : Path}
      {place : Location}
      {disk : Disk}
      (admits : disk.Admits path place)
      (permits : disk.trouble.Permits) :
      Outlet.Fresh size below (.file path, disk)
  | stream
      {tape : Tape}
      {start : Nat}
      {disk : Disk}
      (bears :
        Outlet.Bears size below [] (.stream tape start, disk)) :
      Outlet.Fresh size below (.stream tape start, disk)

namespace Outlet

variable {size : Nat} {below bs : Bytes} {o : Outlet}

/- A file that was created is there and empty. -/
theorem bears_created
    {path : Path}
    {place : Location}
    {disk : Disk}
    (size : Nat)
    (below : Bytes)
    (hAdmits : disk.Admits path place)
    (hPermits : disk.trouble.Permits) :
    ∃ made,
      Sink.begin.perform (.file path, disk) =
          (.ok (), (.file path, made)) ∧
        Outlet.Bears size below [] (.file path, made) := by
  have hPlace := Disk.ne_root_of_free hAdmits.free
  have hSame :=
    Disk.SameElsewhere.createFile hAdmits hPermits.steady
  rw [hAdmits.createFile_eq hPermits] at hSame
  have hMade :
      ({ disk with turns := disk.turns + 1 }.put place
        (.file [] 0)).node? place = some (.file [] 0) := by
    rw [Disk.node?_put _ hPlace, if_pos rfl]
  refine
    ⟨_, ?_, .file (hSame.admits hAdmits) hPermits hMade⟩
  rw [Sink.perform_begin_file, hAdmits.createFile_eq hPermits]
  rfl

namespace Bears

/- Bytes are written behind those written before. -/
theorem write
    (hBears : Bears size below bs o)
    (origin : String)
    (more : Bytes) :
    ∃ p,
      (Sink.write origin more).perform o = (.ok (), p) ∧
        Bears size below (bs ++ more) p := by
  cases hBears with
  | @file path place disk modified hAdmits hPermits hNode =>
      by_cases hNone : more = []
      · subst hNone
        rw [List.append_nil]
        exact ⟨_, rfl, .file hAdmits hPermits hNode⟩
      · have hPlace := Disk.ne_root_of_free hAdmits.free
        have hSame :=
          Disk.SameElsewhere.append hAdmits hPermits.steady
            more
        rw [Sink.perform_write_file path disk origin hNone
          hAdmits.leads, Disk.perform_eq hPermits]
        rw [Disk.perform_eq hPermits] at hSame
        have hMore :
            ({ disk with turns := disk.turns + 1 }.apply
                (.append place more)).node? place =
              some (.file (bs ++ more) modified) := by
          have hTicked :
              { disk with turns := disk.turns + 1 }.node?
                place = some (.file bs modified) :=
            hNode
          unfold Disk.apply
          dsimp only
          rw [hTicked]
          dsimp only
          rw [Disk.node?_put _ hPlace, if_pos rfl]
        refine
          ⟨_, rfl, .file (hSame.admits hAdmits) ?_ hMore⟩
        rw [hSame.settings.trouble]
        exact hPermits
  | stream disk hServes hPosition hWrote hRoom hAround =>
      rcases hServes.writeAll_ok more with
        ⟨told, hWrite, hMore⟩
      rw [Sink.perform_write_stream, hWrite]
      refine
        ⟨_, rfl, .stream disk (hServes.follows hMore.follows)
          hPosition (hWrote.trans hMore) ?_ hAround⟩
      rwa [hMore.follows.medium]

/- A tape of which nothing but the position was asked. -/
theorem nothing
    {tape told : Tape}
    {start : Nat}
    {disk : Disk}
    (hBears :
      Bears size below bs (.stream tape start, disk))
    (hWrote : tape.Wrote told []) :
    Bears size below bs (.stream told start, disk) := by
  cases hBears with
  | stream _ hServes hPosition hFirst hRoom hAround =>
      have hBoth := hFirst.trans hWrote
      rw [List.append_nil] at hBoth
      refine
        .stream disk (hServes.follows hWrote.follows)
          hPosition hBoth ?_ hAround
      rwa [hWrote.follows.medium]

theorem flush
    (hBears : Bears size below bs o)
    (origin : String) :
    ∃ p,
      (Sink.flush origin).perform o = (.ok (), p) ∧
        Bears size below bs p := by
  cases hBears with
  | file hAdmits hPermits hNode =>
      exact ⟨_, rfl, .file hAdmits hPermits hNode⟩
  | @stream first tape start disk hServes hPosition hWrote
      hRoom hAround =>
      rcases hServes.flush_ok with ⟨told, hFlush⟩
      have hNothing := tape.wrote_flush
      rw [hFlush] at hNothing
      rw [Sink.perform_flush_stream, hFlush]
      exact
        ⟨_, rfl,
          (Bears.stream disk hServes hPosition hWrote hRoom
            hAround).nothing hNothing⟩

/- A file that was written can be written again. -/
theorem fresh_file
    {path : Path}
    {disk : Disk}
    (hBears : Bears size below bs (.file path, disk)) :
    Fresh size below (.file path, disk) := by
  cases hBears with
  | file hAdmits hPermits hNode =>
      exact .file hAdmits hPermits

/- As many bytes are counted as have been written. -/
theorem written
    (hBears : Bears size below bs o)
    (hFits : bs.length ≤ size) :
    ∃ p,
      Sink.written.perform o = (.ok bs.length, p) ∧
        Bears size below bs p := by
  cases hBears with
  | @file path place disk modified hAdmits hPermits hNode =>
      refine ⟨(.file path, disk), ?_,
        .file hAdmits hPermits hNode⟩
      have hSize : disk.fileSize path = .ok bs.length := by
        unfold Disk.fileSize Disk.look
        rw [hAdmits.leads]
        dsimp only
        rw [hNode, hAdmits.plain]
        rfl
      unfold Sink.written
      rw [perform_get_bind]
      dsimp only
      rw [perform_get_bind]
      dsimp only
      rw [hSize]
      rfl
  | @stream first tape start disk hServes hPosition hWrote
      hRoom hAround =>
      rcases hServes.tell_eq with ⟨told, hTell, hNothing⟩
      have hHere := hWrote.position
      rw [hPosition] at hHere
      rw [if_pos (by omega)] at hTell
      rw [Sink.perform_written_stream, hTell, hHere]
      refine
        ⟨_, ?_,
          (Bears.stream disk hServes hPosition hWrote hRoom
            hAround).nothing hNothing⟩
      dsimp only [Outcome.ofFault, Except.mapError, Except.map]
      rw [Nat.add_sub_cancel_left]

/- Whatever has been written, it can be begun again. -/
theorem reset
    (hBears : Bears size below bs o)
    (hFits : bs.length ≤ size) :
    ∃ p,
      Sink.reset.perform o = (.ok (), p) ∧
        Fresh size below p := by
  cases hBears with
  | @file path place disk modified hAdmits hPermits hNode =>
      rcases bears_created size below hAdmits hPermits with
        ⟨made, hBegin, hMade⟩
      rw [Sink.perform_reset_file]
      exact ⟨_, hBegin, hMade.fresh_file⟩
  | @stream first tape start disk hServes hPosition hWrote
      hRoom hAround =>
      rcases hServes.seek_eq (.fromStart start) with
        ⟨told, hSeek, hFollows, hBytes, hTold⟩
      have hRange :
          0 ≤ tape.goalOf (.fromStart start) ∧
            tape.goalOf (.fromStart start) <
              tape.medium.bound := by
        dsimp only [Tape.goalOf]
        omega
      rw [if_pos hRange] at hSeek hTold
      rw [Sink.perform_reset_stream, hSeek]
      refine
        ⟨_, rfl, .stream (.stream disk
          (hServes.follows hFollows) hTold (.refl told) ?_
          ?_)⟩
      · rwa [hFollows.medium]
      · intro zs hLength
        rw [hBytes, ← hAround zs hLength]
        by_cases hNone : bs = []
        · rw [hWrote.nothing hNone]
        · rw [hWrote.something hNone, hPosition]
          exact Bytes.overlay_again _ _ (by omega)

/- What has been written is shown. -/
theorem output
    (hBears : Bears size below bs o)
    (hFits : bs.length ≤ size) :
    Outlet.output true o = some bs := by
  cases hBears with
  | file hAdmits hPermits hNode =>
      unfold Outlet.output Disk.fileAt? Disk.look
      dsimp only
      rw [hAdmits.leads]
      dsimp only
      rw [hNode, hAdmits.plain]
      rfl
  | @stream first tape start disk hServes hPosition hWrote
      hRoom hAround =>
      have hHere := hWrote.position
      rw [output_carries disk true hServes
        ⟨first, hPosition, hWrote⟩,
        if_pos ⟨rfl, by omega⟩]

/- A tape to which all was written holds the rest as before. -/
theorem bytes_eq
    {tape : Tape}
    {start : Nat}
    {disk : Disk}
    (hBears :
      Bears size below bs (.stream tape start, disk))
    (hSome : bs ≠ [])
    (hLength : bs.length = size) :
    tape.Serves ∧
      tape.position = start + size ∧
      start + size < tape.medium.bound ∧
      tape.bytes = Bytes.overlay below start bs := by
  cases hBears with
  | stream _ hServes hPosition hWrote hRoom hAround =>
      refine ⟨hServes, ?_, hRoom, ?_⟩
      · rw [hWrote.position, hPosition, hLength]
      · rw [hWrote.something hSome, hPosition]
        exact hAround bs hLength

end Bears

namespace Fresh

/- It is begun. -/
theorem begin (hFresh : Fresh size below o) :
    ∃ p,
      Sink.begin.perform o = (.ok (), p) ∧
        Bears size below [] p := by
  cases hFresh with
  | file hAdmits hPermits =>
      rcases bears_created size below hAdmits hPermits with
        ⟨made, hBegin, hBears⟩
      exact ⟨_, hBegin, hBears⟩
  | stream hBears => exact ⟨_, rfl, hBears⟩

/- Resetting it leaves it so. -/
theorem reset (hFresh : Fresh size below o) :
    ∃ p,
      Sink.reset.perform o = (.ok (), p) ∧
        Fresh size below p := by
  cases hFresh with
  | file hAdmits hPermits =>
      rcases bears_created size below hAdmits hPermits with
        ⟨made, hBegin, hBears⟩
      exact ⟨_, hBegin, hBears.fresh_file⟩
  | stream hBears => exact hBears.reset (Nat.zero_le _)

/- Reading elsewhere makes no difference. -/
theorem ticks
    {sink : Sink}
    {d e : Disk}
    (hFresh : Fresh size below (sink, d))
    (hTicks : d.Ticks e) :
    Fresh size below (sink, e) := by
  cases hFresh with
  | file hAdmits hPermits =>
      have hSame :=
        Disk.SameElsewhere.of_ticks hAdmits.free
          hPermits.steady hTicks
      exact
        .file (hSame.admits hAdmits)
          (hTicks.settings.trouble ▸ hPermits)
  | stream hBears =>
      cases hBears with
      | stream _ hServes hPosition hWrote hRoom hAround =>
          exact
            .stream (.stream e hServes hPosition hWrote hRoom
              hAround)

end Fresh

/-
  What a step leaves: its output, or something that can be
  reset.
-/
def Left
    (size : Nat)
    (below : Bytes)
    (outcome : Outcome Bytes)
    (o : Outlet) : Prop :=
  match outcome with
  | .ok output => Outlet.Bears size below output o
  | .error _ =>
      ∃ p,
        Sink.reset.perform o = (.ok (), p) ∧
          Outlet.Fresh size below p

/- An output that is given up can be reset. -/
theorem Bears.discard
    (hBears : Bears size below bs o)
    (hFits : bs.length ≤ size) :
    ∃ p,
      Sink.discard.perform o = (.ok (), p) ∧
        ∃ q,
          Sink.reset.perform p = (.ok (), q) ∧
            Fresh size below q := by
  cases hBears with
  | @file path place disk modified hAdmits hPermits hNode =>
      have hSame :=
        Disk.SameElsewhere.removeFile hAdmits hPermits.steady
      have hRemove :
          disk.removeFile path =
            (.ok (), (disk.removeFile path).2) := by
        unfold Disk.removeFile
        rw [hAdmits.leads]
        dsimp only
        rw [hNode]
        dsimp only
        rw [hAdmits.plain, if_neg (by decide),
          Disk.perform_eq hPermits]
      refine ⟨(.file path, (disk.removeFile path).2), ?_, ?_⟩
      · rw [Sink.perform_discard_file, hRemove]
        rfl
      · exact
          Fresh.reset (.file (hSame.admits hAdmits)
            (hSame.settings.trouble ▸ hPermits))
  | @stream first tape start disk hServes hPosition hWrote
      hRoom hAround =>
      rcases (Bears.stream disk hServes hPosition hWrote hRoom
          hAround).reset hFits with
        ⟨p, hReset, hFresh⟩
      rw [Sink.perform_discard_stream]
      exact ⟨p, hReset, hFresh.reset⟩

end Outlet

/- Opening a source that is a file is opening the file. -/
theorem Source.opened_file
    {path : Path}
    {disk opened : Disk}
    {tape : Tape}
    (hOpen : disk.openFile path = (.ok tape, opened)) :
    Source.opened.perform (.file path, disk) =
      (.ok (.file tape), (.file path, opened)) := by
  unfold Source.opened
  rw [perform_get_bind]
  dsimp only
  rw [perform_bind_ok (perform_openFile hOpen)]
  rfl

namespace Decompression

open Bench

section Steps

variable (codec : Codec) {b : Bench} {size : Nat}
variable {below bs data whole : Bytes}

------------------------------------------------------------
-- Putting
------------------------------------------------------------

/-
  What a step makes of what its decoder has delivered: the
  output, unless the decoder has ended with a flaw or there
  is no output.
-/
def made
    (codec : Codec)
    (origin : String)
    (delivery : Gzip.Delivery) : Outcome Bytes :=
  match codec.faultOf delivery.verdict with
  | some fault => .error (.faulted origin fault)
  | none =>
      if delivery.bytes = [] then
        .error (.outputEmpty (origin ++ " output"))
      else .ok delivery.bytes

/- What was delivered whole is written and counted. -/
theorem put_whole
    (origin : String)
    (hBears : Outlet.Bears size below [] (b.sink, b.disk))
    (hFits : bs.length ≤ size) :
    ∃ c,
      (put codec origin (bs, none)).perform b = (.ok (), c) ∧
        ∃ p,
          Sink.written.perform (c.sink, c.disk) =
              (.ok bs.length, p) ∧
            Outlet.Bears size below bs p := by
  rcases hBears.write origin bs with
    ⟨first, hWrite, hFirst⟩
  rcases hFirst.flush origin with ⟨second, hFlush, hSecond⟩
  rcases hSecond.written hFits with ⟨third, hCount, hThird⟩
  refine
    ⟨{ b with sink := second.1, disk := second.2 }, ?_, third,
      hCount, hThird⟩
  unfold put
  dsimp only
  rw [perform_bind_ok (perform_onSink hWrite)]
  exact perform_onSink hFlush

/- No more is settled than was delivered. -/
theorem settled_length
    (sink : Sink)
    (bs : Bytes) :
    (codec.settled sink bs).length ≤ bs.length := by
  unfold Codec.settled
  split
  · exact List.length_take_le' _ _
  · exact Nat.le_refl _

/- Before a fault it is written as far as it is settled. -/
theorem put_broken
    (origin : String)
    (bs : Bytes)
    (fault : Fault)
    (hBears : Outlet.Bears size below [] (b.sink, b.disk)) :
    ∃ c,
      (put codec origin (bs, some fault)).perform b =
          (.error (.faulted origin fault), c) ∧
        Outlet.Bears size below (codec.settled b.sink bs)
          (c.sink, c.disk) := by
  rcases hBears.write origin (codec.settled b.sink bs) with
    ⟨first, hWrite, hFirst⟩
  refine
    ⟨{ b with sink := first.1, disk := first.2 }, ?_, hFirst⟩
  unfold put
  dsimp only
  rw [perform_get_bind, perform_bind_ok
    (perform_onSink hWrite)]
  rfl

/-
  So putting what was delivered and counting it ends as it
  has to end.
-/
theorem put_made
    (origin : String)
    (delivery : Gzip.Delivery)
    (hBears : Outlet.Bears size below [] (b.sink, b.disk))
    (hFits : delivery.bytes.length ≤ size) :
    ∃ c,
      ((put codec origin
            (delivery.bytes,
              codec.faultOf delivery.verdict)) >>= fun _ =>
          ensureNotEmpty origin).perform b =
          ((made codec origin delivery).map List.length, c) ∧
        Outlet.Left size below (made codec origin delivery)
          (c.sink, c.disk) := by
  unfold made
  cases codec.faultOf delivery.verdict with
  | some fault =>
      rcases put_broken codec origin delivery.bytes fault
          hBears with
        ⟨c, hPut, hLeft⟩
      rw [perform_bind_error hPut]
      have hSettled :=
        settled_length codec b.sink delivery.bytes
      exact ⟨c, rfl, hLeft.reset (by omega)⟩
  | none =>
      rcases put_whole codec origin hBears hFits with
        ⟨c, hPut, counted, hCount, hLeft⟩
      rw [perform_bind_ok hPut]
      unfold ensureNotEmpty
      rw [perform_bind_ok (perform_onSink hCount)]
      dsimp only
      by_cases hNone : delivery.bytes = []
      · rw [if_pos hNone, if_pos (by rw [hNone]; rfl)]
        rcases hLeft.discard hFits with
          ⟨gone, hDiscard, hAgain⟩
        rw [perform_bind_ok
          (perform_onSink
            (b := { c with
              sink := counted.1, disk := counted.2 })
            hDiscard)]
        exact
          ⟨{ c with sink := gone.1, disk := gone.2 }, rfl,
            hAgain⟩
      · rw [if_neg hNone, if_neg (fun hZero =>
          hNone (List.eq_nil_of_length_eq_zero hZero))]
        exact
          ⟨{ c with sink := counted.1, disk := counted.2 },
            rfl, hLeft⟩

------------------------------------------------------------
-- Algorithms
------------------------------------------------------------

/- All that the source holds is read. -/
theorem fetch_bears
    (hReady : Ready whole b)
    (hFresh : Outlet.Fresh size below (b.sink, b.disk)) :
    ∃ c,
      fetch.perform b = (.ok (whole, none), c) ∧
        Outlet.Bears size below [] (c.sink, c.disk) := by
  rcases hReady.holds.preserve_ok with
    ⟨path, hFile, -⟩ | ⟨hStreams, -⟩
  · have hHolds := hReady.holds
    rw [hFile] at hHolds
    cases hHolds with
    | file hLeads hNode hPlain =>
        rcases Disk.openFile_eq
            (hReady.opens _ _ hFile hLeads) hLeads hNode
            hPlain with
          ⟨tape, opened, hOpen, hSound, hBytes, hPosition,
            hShows⟩
        have hTicks := b.disk.ticks_openFile path
        rw [hOpen] at hTicks
        have hOpened :
            (onSource Source.opened).perform b =
              (.ok (.file tape), { b with disk := opened }) := by
          have hStage := Source.opened_file hOpen
          rw [← hFile] at hStage
          exact perform_onSource hStage
        rcases (hFresh.ticks hTicks).begin with
          ⟨begun, hBegin, hBears⟩
        -- The input is still there when the output is begun.
        have hFirst :=
          runs_upheld.source .opened b
        have hSecond :=
          runs_upheld.sink .begin
            { b with disk := opened }
        rw [hOpened] at hFirst
        rw [perform_onSink (b := { b with disk := opened })
          hBegin] at hSecond
        have hStill :=
          ((hFirst.trans hSecond).keeps_input
            hReady.permits.steady hReady.apart hReady.begins
            hFile hLeads hNode).2
        rcases hSound.drain_eq with ⟨last, hDrain, -⟩
        unfold fetch
        rw [perform_bind_ok hOpened, perform_bind_ok
          (perform_onSink (b := { b with disk := opened })
            hBegin)]
        have hDrained :
            (Source.drain (.file tape)).perform
                (b.source, begun.2) =
              (.ok (whole, none), (b.source, begun.2)) := by
          unfold Source.drain
          rw [perform_ofStep]
          dsimp only
          rw [hShows begun.2 hStill, hDrain, hPosition,
            List.drop_zero, hBytes]
        exact
          ⟨{ b with sink := begun.1, disk := begun.2 },
            perform_onSource
              (b := { b with
                sink := begun.1, disk := begun.2 }) hDrained,
            hBears⟩
  · rcases hStreams.fetch_ok b.disk with
      ⟨from', first, hOpened, -, hDrain⟩
    rcases hFresh.begin with ⟨begun, hBegin, hBears⟩
    rcases hDrain begun.2 with ⟨last, hDrained, -⟩
    unfold fetch
    rw [perform_bind_ok (perform_onSource hOpened),
      perform_bind_ok
        (perform_onSink (b := { b with source := first })
          hBegin)]
    exact
      ⟨{ b with
          source := last
          sink := begun.1
          disk := begun.2 },
        perform_onSource
          (b := { b with
            source := first
            sink := begun.1
            disk := begun.2 }) hDrained, hBears⟩

/- A decoder that was not disturbed says how it ended. -/
theorem deliver_calm
    (codec : Codec)
    (decode : Bytes → Gzip.Delivery)
    (input : Bytes) :
    codec.deliver decode input none =
      ((decode input).bytes,
        codec.faultOf (decode input).verdict) := by
  unfold Codec.deliver
  dsimp only
  cases (decode input).verdict with
  | complete => rfl
  | cut flaw => rfl
  | broken flaw => rfl

/- The direct way makes what it can of the whole input. -/
theorem direct_made
    (hReady : Ready whole b)
    (hFresh : Outlet.Fresh size below (b.sink, b.disk))
    (hFits : (codec.gunzip whole).bytes.length ≤ size) :
    ∃ c,
      (direct codec).perform b =
          ((made codec directName (codec.gunzip whole)).map
            List.length, c) ∧
        Outlet.Left size below
          (made codec directName (codec.gunzip whole))
          (c.sink, c.disk) := by
  rcases fetch_bears hReady hFresh with
    ⟨first, hFetch, hFirst⟩
  rcases put_made codec directName (codec.gunzip whole) hFirst
      hFits with
    ⟨c, hPut, hLeft⟩
  rw [← deliver_calm] at hPut
  rw [← perform_bind_ok hFetch (fun got => do
    put codec directName
      (codec.deliver codec.gunzip got.1 got.2)
    ensureNotEmpty directName)] at hPut
  rcases logged_eq directName hPut with
    ⟨change, hLogged⟩
  rw [direct_eq, hLogged]
  exact ⟨_, rfl, hLeft⟩

/- A payload is written from the start on. -/
theorem refill_made
    (trimmed : Bytes)
    (hFresh : Outlet.Fresh size below (b.sink, b.disk))
    (hFits : (codec.inflate trimmed).bytes.length ≤ size) :
    ∃ c,
      (refill codec trimmed).perform b =
          ((made codec withoutCrcName
            (codec.inflate trimmed)).map List.length, c) ∧
        Outlet.Left size below
          (made codec withoutCrcName (codec.inflate trimmed))
          (c.sink, c.disk) := by
  rcases hFresh.reset with ⟨first, hReset, hFirst⟩
  rcases hFirst.begin with ⟨second, hBegin, hSecond⟩
  unfold refill debug
  rw [perform_modify_bind,
    perform_bind_ok (perform_onSink (b := b.telling _) hReset),
    perform_bind_ok
      (perform_onSink
        (b := { b.telling _ with
          sink := first.1, disk := first.2 }) hBegin),
    deliver_calm]
  exact
    put_made codec
      (b := { { b.telling _ with
          sink := first.1, disk := first.2 } with
        sink := second.1, disk := second.2 })
      withoutCrcName _ hSecond hFits

/- The way without checks makes what it can of the payload. -/
theorem withoutCrc_made
    (hHolds : b.source.Holds b.disk whole)
    (hOpens : b.source.Opens b.disk)
    (hLong : Gzip.framingLength ≤ whole.length)
    (hFresh : Outlet.Fresh size below (b.sink, b.disk))
    (hFits :
      (codec.inflate (payload whole)).bytes.length ≤ size) :
    ∃ c,
      (withoutCrc codec).perform b =
          ((made codec withoutCrcName
            (codec.inflate (payload whole))).map
              List.length, c) ∧
        Outlet.Left size below
          (made codec withoutCrcName
            (codec.inflate (payload whole)))
          (c.sink, c.disk) := by
  rcases readAll_mates hHolds hOpens with
    ⟨read, hRead, -⟩
  have hStill :
      Outlet.Fresh size below (read.sink, read.disk) := by
    have hKept := Source.kept_readAll (b.source, b.disk)
    rcases onSource_eq hRead with ⟨hStage, hSink⟩
    rw [hStage] at hKept
    rw [hSink]
    exact hFresh.ticks hKept.disk
  rcases recover_eq codec hLong read with ⟨change, hRecover⟩
  rcases refill_made codec (payload whole)
      (b := read.telling change) hStill hFits with
    ⟨c, hRefill, hLeft⟩
  rw [← hRecover, ← perform_bind_ok hRead (recover codec)]
    at hRefill
  rcases logged_eq withoutCrcName hRefill with
    ⟨note, hLogged⟩
  rw [withoutCrc_eq, hLogged]
  exact ⟨_, rfl, hLeft⟩

/-
  What an algorithm makes of the whole input.  A retry makes
  of it what the direct way does, and if that fails, what the
  other way does.
-/
def produced
    (codec : Codec)
    (whole : Bytes) : Algorithm → Outcome Bytes
| .direct => made codec directName (codec.gunzip whole)
| .withoutCrc =>
    made codec withoutCrcName (codec.inflate (payload whole))
| .withRetry =>
    match made codec directName (codec.gunzip whole) with
    | .ok output => .ok output
    | .error _ =>
        (made codec withoutCrcName
          (codec.inflate (payload whole))).mapError
            .fallbackFailed

/- The most bytes that are delivered of an input. -/
def most
    (codec : Codec)
    (whole : Bytes) : Nat :=
  max (codec.gunzip whole).bytes.length
    (codec.inflate (payload whole)).bytes.length

/-
  A retry makes of the input what it can, whatever the direct
  attempt has left.
-/
theorem withRetry_made
    (hReady : Ready whole b)
    (hFresh : Outlet.Fresh size below (b.sink, b.disk))
    (hFits : most codec whole ≤ size) :
    ∃ c,
      (withRetry codec).perform b =
          ((produced codec whole .withRetry).map
            List.length, c) ∧
        Outlet.Left size below
          (produced codec whole .withRetry)
          (c.sink, c.disk) := by
  have hFirst :
      (codec.gunzip whole).bytes.length ≤ size :=
    Nat.le_trans (Nat.le_max_left _ _) hFits
  have hSecond :
      (codec.inflate (payload whole)).bytes.length ≤ size :=
    Nat.le_trans (Nat.le_max_right _ _) hFits
  have hSame : Linked (· = ·) b b := ⟨rfl, rfl, rfl⟩
  rcases preserve_direct codec hSame hReady.holds with
    ⟨kept, hPreserve, hSink, hDisk, hHolds, hKept, hFile, -⟩
  have hReadyKept := hReady.kept hSink hDisk hHolds hFile
  rw [← hSink, ← hDisk] at hFresh
  rcases direct_made codec hReadyKept hFresh hFirst with
    ⟨failed, hDirect, hLeft⟩
  rw [withRetry_eq, perform_bind_ok hPreserve]
  unfold produced
  rcases hMade : made codec directName (codec.gunzip whole) with
    failure | output
  · rw [hMade] at hDirect hLeft
    rw [perform_tryCatch_error hDirect]
    have hRuns := keeps_direct runs_upheld codec kept
    rw [hDirect] at hRuns
    rcases hLeft with ⟨outlet, hReset, hAgain⟩
    rcases hReadyKept.resets hKept hRuns hReset with
      ⟨-, hStill, hOpens⟩
    rcases withoutCrc_made codec hStill hOpens hReady.long
        hAgain hSecond with
      ⟨c, hPlain, hDone⟩
    unfold fallback
    rw [perform_modify_bind,
      perform_bind_ok
        (perform_onSink (b := failed.telling _) hReset),
      perform_adapt, hPlain]
    refine ⟨c, ?_, ?_⟩
    · cases made codec withoutCrcName
          (codec.inflate (payload whole)) <;> rfl
    · cases hOther : made codec withoutCrcName
          (codec.inflate (payload whole)) with
      | ok output =>
          rw [hOther] at hDone
          exact hDone
      | error other =>
          rw [hOther] at hDone
          exact hDone
  · rw [hMade] at hDirect hLeft
    rw [perform_tryCatch_ok hDirect]
    exact ⟨failed, rfl, hLeft⟩

/- So does every algorithm. -/
theorem algorithm_made
    (which : Algorithm)
    (hReady : Ready whole b)
    (hFresh : Outlet.Fresh size below (b.sink, b.disk))
    (hFits : most codec whole ≤ size) :
    ∃ c,
      (algorithm codec which).perform b =
          ((produced codec whole which).map List.length, c) ∧
        Outlet.Left size below (produced codec whole which)
          (c.sink, c.disk) := by
  cases which with
  | direct =>
      exact
        direct_made codec hReady hFresh
          (Nat.le_trans (Nat.le_max_left _ _) hFits)
  | withoutCrc =>
      exact
        withoutCrc_made codec hReady.holds hReady.opens
          hReady.long hFresh
          (Nat.le_trans (Nat.le_max_right _ _) hFits)
  | withRetry => exact withRetry_made codec hReady hFresh hFits

end Steps

end Decompression

end ArchiveRescue
