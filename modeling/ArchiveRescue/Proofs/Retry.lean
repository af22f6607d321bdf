import Mathlib
import ArchiveRescue.Proofs.Holding
import ArchiveRescue.Proofs.Likeness
import ArchiveRescue.Proofs.StreamOutput

/-
  A retry, step by step.  Its direct attempt goes as the
  direct way would go alone, and if that fails, the other way
  goes as it would go alone, whatever the attempt has left.

  Key definitions include:
    * `Bench.Apart`
    * `Bench.Shares`
    * `Decompression.fetch`
    * `Decompression.fallback`

  Main statements:
    * `Decompression.withoutCrc_alike`
    * `Bench.Runs.holds`
    * `Decompression.respects_direct_shares`
    * `Decompression.fallback_alike`
    * `Decompression.withRetry_cases`
-/

namespace ArchiveRescue

open Stage

/-
  A sink and one that refuses nothing: the same file, or a
  tape that stands where the other stands.
-/
inductive Sink.Mended : Sink → Sink → Prop where
  | file (path : Path) : Sink.Mended (.file path) (.file path)
  | stream
      {t u : Tape}
      (start : Nat)
      (serves : u.Serves)
      (medium : u.medium = t.medium)
      (position : u.position = t.position) :
      Sink.Mended (.stream t start) (.stream u start)

namespace Bench

------------------------------------------------------------
-- Inputs That Stay
------------------------------------------------------------

/- Input and output are not the same file. -/
def Apart (b : Bench) : Prop :=
  ∀ path out place,
    b.source = .file path → b.sink = .file out →
    b.disk.locate path = .ok place →
    b.disk.locate out ≠ .ok place

/- An output file could be created. -/
def CanBegin (b : Bench) : Prop :=
  ∀ out, b.sink = .file out →
    ∃ place, b.disk.Admits out place

/-
  What an input file leads to stays there, whatever an
  algorithm has done.
-/
theorem Runs.keeps_input
    {b c : Bench}
    {path : Path}
    {place : Location}
    {node : Node}
    (hRuns : Runs b c)
    (hSteady : b.disk.trouble.Steady)
    (hApart : b.Apart)
    (hBegin : b.CanBegin)
    (hFile : b.source = .file path)
    (hLeads : b.disk.locate path = .ok place)
    (hNode : b.disk.node? place = some node) :
    c.disk.locate path = .ok place ∧
      c.disk.node? place = some node := by
  cases hSink : b.sink with
  | file out =>
      rcases hBegin out hSink with ⟨there, hAdmits⟩
      have hSame :=
        (hRuns.file out hSink).2 there hAdmits hSteady
      have hPlace : place ≠ there := by
        rintro rfl
        exact hApart path out place hFile hSink hLeads
          hAdmits.leads
      rw [hSame.node?_eq hPlace]
      exact ⟨hSame.locate hAdmits.free hLeads, hNode⟩
  | stream tape start =>
      have hGrows := (hRuns.stream tape start hSink).2.grows
      exact ⟨hGrows.locate hLeads, hGrows.nodes _ _ hNode⟩

/-
  A source that is a file or has been copied holds what it
  held, whatever an algorithm has done.
-/
theorem Runs.holds
    {b c : Bench}
    {data : Bytes}
    (hRuns : Runs b c)
    (hHolds : b.source.Holds b.disk data)
    (hKept :
      (∃ path, b.source = .file path) ∨
        ∃ tape start,
          b.source = .stream tape start (some data))
    (hSteady : b.disk.trouble.Steady)
    (hApart : b.Apart)
    (hBegin : b.CanBegin) :
    c.source.Holds c.disk data := by
  rcases hKept with ⟨path, hFile⟩ | ⟨tape, start, hCopy⟩
  · rw [hFile] at hHolds
    rw [hRuns.source.file path hFile]
    cases hHolds with
    | file hLeads hNode hPlain =>
        rcases hRuns.keeps_input hSteady hApart hBegin hFile
            hLeads hNode with
          ⟨hLater, hStill⟩
        exact .file hLater hStill hPlain
  · rcases hRuns.source.copy tape start data hCopy with
      ⟨told, begun, hTold⟩
    rw [hTold]
    exact .copy told begun data c.disk

/- The trouble of the disk stays the same. -/
theorem Runs.trouble
    {b c : Bench}
    (hRuns : Runs b c)
    (hSteady : b.disk.trouble.Steady)
    (hBegin : b.CanBegin) :
    c.disk.trouble = b.disk.trouble := by
  cases hSink : b.sink with
  | file out =>
      rcases hBegin out hSink with ⟨place, hAdmits⟩
      exact ((hRuns.file out hSink).2 place hAdmits
        hSteady).settings.trouble
  | stream tape start =>
      exact (hRuns.stream tape start hSink).2.settings.trouble

/- So such a source can be opened as before. -/
theorem Runs.opens
    {b c : Bench}
    {data : Bytes}
    (hRuns : Runs b c)
    (hHolds : b.source.Holds b.disk data)
    (hKept :
      (∃ path, b.source = .file path) ∨
        ∃ tape start,
          b.source = .stream tape start (some data))
    (hSteady : b.disk.trouble.Steady)
    (hApart : b.Apart)
    (hBegin : b.CanBegin)
    (hOpens : b.source.Opens b.disk) :
    c.source.Opens c.disk := by
  intro path there hSource hThere
  rcases hKept with ⟨input, hFile⟩ | ⟨tape, start, hCopy⟩
  · cases (hRuns.source.file input hFile).symm.trans hSource
    rw [hFile] at hHolds
    cases hHolds with
    | file hLeads hNode hPlain =>
        rcases hRuns.keeps_input hSteady hApart hBegin hFile
            hLeads hNode with
          ⟨hLater, -⟩
        cases hLater.symm.trans hThere
        rw [hRuns.trouble hSteady hBegin]
        exact hOpens path _ hFile hLeads
  · rcases hRuns.source.copy tape start data hCopy with
      ⟨told, begun, hTold⟩
    cases hTold.symm.trans hSource

end Bench

namespace Decompression

open Bench

------------------------------------------------------------
-- The Way Without Checks
------------------------------------------------------------

section Plain

variable {b c : Bench} {data : Bytes}

/- Reading does not touch what is written to. -/
theorem readAll_mates
    (hHolds : b.source.Holds b.disk data)
    (hOpens : b.source.Opens b.disk) :
    ∃ read,
      (onSource Source.readAll).perform b =
        (.ok data, read) ∧
      Runs b read := by
  rcases hHolds.readAll_ok hOpens with ⟨later, hRead⟩
  have hRuns := runs_upheld.source .readAll b
  rw [perform_onSource hRead] at hRuns ⊢
  exact ⟨_, rfl, hRuns⟩

/-
  From outlets that went astray the way without checks goes
  alike, as long as the input is the same.
-/
theorem withoutCrc_alike
    (codec : Codec)
    (hMates : Mates Outlet.Astray b c)
    (hLong : Gzip.framingLength ≤ data.length)
    (hHolds : b.source.Holds b.disk data)
    (hOpens : b.source.Opens b.disk)
    (hAlso : c.source.Holds c.disk data)
    (hOther : c.source.Opens c.disk) :
    ((withoutCrc codec).perform c).1 =
        ((withoutCrc codec).perform b).1 ∧
      Mates Outlet.Alike ((withoutCrc codec).perform b).2
        ((withoutCrc codec).perform c).2 := by
  rcases readAll_mates hHolds hOpens with
    ⟨b', hRead, hRuns⟩
  rcases readAll_mates hAlso hOther with
    ⟨c', hRead', hRuns'⟩
  have hStill : Mates Outlet.Astray b' c' := by
    have hFirst := Mates.astray_runs hMates.symm hRuns
    exact Mates.astray_runs hFirst.symm hRuns'
  have hRecover :
      ((recover codec data).perform c').1 =
          ((recover codec data).perform b').1 ∧
        Mates Outlet.Alike ((recover codec data).perform b').2
          ((recover codec data).perform c').2 := by
    rcases recover_eq codec hLong b' with ⟨change, hOne⟩
    rcases recover_eq codec hLong c' with ⟨other, hTwo⟩
    rw [hOne, hTwo]
    exact refill_alike codec _ (b := b'.telling change)
      (c := c'.telling other) hStill
  rw [withoutCrc_eq]
  unfold logged
  rw [perform_observed, perform_observed,
    perform_bind_ok hRead, perform_bind_ok hRead']
  refine ⟨hRecover.1, ?_⟩
  rw [hRecover.1]
  cases ((recover codec data).perform b').1 with
  | ok n => exact hRecover.2
  | error failure => exact hRecover.2

end Plain

------------------------------------------------------------
-- The Direct Way
------------------------------------------------------------

/- Open the input, begin with the output and read. -/
def fetch : Stage Bench (Bytes × Option Fault) := do
  let opened ← onSource Source.opened
  onSink Sink.begin
  onSource (Source.drain opened)

/- The direct way is to do so and to write what comes out. -/
theorem direct_eq (codec : Codec) :
    direct codec =
      logged directName (do
        let got ← fetch
        put codec directName
          (codec.deliver codec.gunzip got.1 got.2)
        ensureNotEmpty directName) := by
  unfold direct fetch
  simp only [bind_assoc]

end Decompression

namespace Bench

/-
  Benches with the same output whose inputs are streams of
  the same data, be they copied or not.
-/
structure Shares
    (data : Bytes)
    (b c : Bench) : Prop where
  outlet : Mates (· = ·) b c
  streams : b.source.Streams data
  streams' : c.source.Streams data

theorem Shares.congruent (data : Bytes) :
    Congruent (Shares data) where
  settled b c hShares codec bs :=
    Mates.congruent_same.settled b c hShares.outlet codec bs
  sink hUse := by
    intro b c hShares
    rcases Mates.congruent_same.sink hUse b c hShares.outlet
      with ⟨hSame, hLater⟩
    exact
      ⟨hSame, hLater, hShares.streams, hShares.streams'⟩
  telling _ _ hShares _ _ :=
    ⟨hShares.outlet, hShares.streams, hShares.streams'⟩

end Bench

namespace Decompression

open Bench

/- They fetch the same. -/
theorem respects_fetch (data : Bytes) :
    Respects (Shares data) fetch := by
  intro b c hShares
  rcases hShares.streams.fetch_ok b.disk with
    ⟨from', first, hOpened, hFirst, hDrain⟩
  rcases hShares.streams'.fetch_ok c.disk with
    ⟨other', first', hOpened', hFirst', hDrain'⟩
  have hBegin :=
    (Shares.congruent data).sink .begin
      { b with source := first } { c with source := first' }
      ⟨hShares.outlet, hFirst, hFirst'⟩
  unfold fetch
  rw [perform_bind_ok (perform_onSource hOpened),
    perform_bind_ok (perform_onSource hOpened')]
  rcases hOne :
      (onSink Sink.begin).perform
        { b with source := first } with
    ⟨outcome, begun⟩
  rcases hTwo :
      (onSink Sink.begin).perform
        { c with source := first' } with
    ⟨outcome', begun'⟩
  have hKept : begun.source = first :=
    (congrArg (fun r => r.2.source) hOne).symm
  have hKept' : begun'.source = first' :=
    (congrArg (fun r => r.2.source) hTwo).symm
  rw [hOne, hTwo] at hBegin
  rcases hBegin with ⟨rfl, hBegun⟩
  cases outcome' with
  | error failure =>
      rw [perform_bind_error hOne, perform_bind_error hTwo]
      exact ⟨rfl, hBegun⟩
  | ok _ =>
      rcases hDrain begun.disk with ⟨last, hDrained, hLast⟩
      rcases hDrain' begun'.disk with
        ⟨last', hDrained', hLast'⟩
      rw [← hKept] at hDrained
      rw [← hKept'] at hDrained'
      rw [perform_bind_ok hOne, perform_bind_ok hTwo,
        perform_onSource hDrained, perform_onSource hDrained']
      exact ⟨rfl, hBegun.outlet, hLast, hLast'⟩

/- So the direct way goes alike on them. -/
theorem respects_direct_shares
    (codec : Codec)
    (data : Bytes) :
    Respects (Shares data) (direct codec) := by
  rw [direct_eq]
  apply respects_logged (Shares.congruent data)
  refine (respects_fetch data).bind ?_
  intro got
  refine (respects_put (Shares.congruent data) _ _ _).bind ?_
  intro _
  exact respects_ensureNotEmpty (Shares.congruent data) _

/-
  With the input made ready to be read again, the direct way
  goes as it goes without that.
-/
theorem preserve_direct
    (codec : Codec)
    {b c : Bench}
    {data : Bytes}
    (hLinked : Linked (· = ·) b c)
    (hHolds : b.source.Holds b.disk data) :
    ∃ kept,
      (onSource Source.preserve).perform b = (.ok (), kept) ∧
      kept.sink = b.sink ∧
      kept.disk = b.disk ∧
      kept.source.Holds kept.disk data ∧
      ((∃ path, kept.source = .file path) ∨
        ∃ tape start,
          kept.source = .stream tape start (some data)) ∧
      (∀ path, kept.source = .file path →
        b.source = .file path) ∧
      ((direct codec).perform c).1 =
        ((direct codec).perform kept).1 ∧
      Mates (· = ·) ((direct codec).perform kept).2
        ((direct codec).perform c).2 := by
  rcases hHolds.preserve_ok with
    ⟨path, hFile, hPreserve⟩ |
      ⟨hStreams, told, start, hPreserve⟩
  · have hDirect := respects_direct codec b c hLinked
    exact
      ⟨b, perform_onSource hPreserve, rfl, rfl, hHolds,
        .inl ⟨path, hFile⟩, fun _ hSame => hSame, hDirect.1,
        Prod.ext hDirect.2.sink hDirect.2.disk.symm⟩
  · have hShares :
        Shares data
          { b with source := .stream told start (some data) }
          c := by
      refine ⟨Prod.ext hLinked.sink hLinked.disk.symm, ?_, ?_⟩
      · exact
          ⟨⟨told, start, some data, rfl⟩, fun disk =>
            .copy told start data disk⟩
      · rwa [hLinked.source]
    rcases respects_direct_shares codec data _ c hShares with
      ⟨hSame, hLater⟩
    exact
      ⟨_, perform_onSource hPreserve, rfl, rfl,
        .copy told start data b.disk,
        .inr ⟨told, start, rfl⟩, nofun, hSame, hLater.outlet⟩

------------------------------------------------------------
-- Retries
------------------------------------------------------------

/-
  What a retry starts from: an input that can be read again,
  an output that can be begun and is not the input, and a
  disk that refuses nothing.
-/
structure Ready
    (data : Bytes)
    (b : Bench) : Prop where
  holds : b.source.Holds b.disk data
  long : Gzip.framingLength ≤ data.length
  apart : b.Apart
  begins : b.CanBegin
  permits : b.disk.trouble.Permits
  opens : b.source.Opens b.disk
  bound :
    ∀ tape start, b.sink = .stream tape start →
      start < tape.medium.bound

/- It does not matter in what way the input is kept. -/
theorem Ready.kept
    {b kept : Bench}
    {data : Bytes}
    (hReady : Ready data b)
    (hSink : kept.sink = b.sink)
    (hDisk : kept.disk = b.disk)
    (hHolds : kept.source.Holds kept.disk data)
    (hFile :
      ∀ path, kept.source = .file path →
        b.source = .file path) :
    Ready data kept where
  holds := hHolds
  long := hReady.long
  apart := by
    intro path out place hSource hOut
    rw [hDisk]
    exact hReady.apart path out place (hFile path hSource)
      (hSink ▸ hOut)
  begins := by
    intro out hOut
    rw [hDisk]
    exact hReady.begins out (hSink ▸ hOut)
  permits := hDisk ▸ hReady.permits
  opens := by
    intro path place hSource
    rw [hDisk]
    exact hReady.opens path place (hFile path hSource)
  bound := by
    intro tape start hStream
    exact hReady.bound tape start (hSink ▸ hStream)

/-
  What a direct attempt has left went astray from an output
  that is as it was, but not more than that.
-/
theorem astray_of_runs
    {b c failed : Bench}
    {data : Bytes}
    (hReady : Ready data b)
    (hDisk : c.disk = b.disk)
    (hLink : Sink.Mended b.sink c.sink)
    (hRuns : Runs b failed)
    (hServes :
      ∀ told start, failed.sink = .stream told start →
        told.Serves) :
    Mates Outlet.Astray c failed := by
  rcases c with ⟨disk, source, sink, report⟩
  rcases failed with ⟨disk', source', sink', report'⟩
  cases hDisk
  unfold Mates
  generalize hSink : b.sink = given at hLink
  cases hLink with
  | file path =>
      rcases hReady.begins path hSink with ⟨place, hAdmits⟩
      rcases hRuns.file path hSink with ⟨hFile, hAlters⟩
      cases hFile
      exact
        .file hAdmits hReady.permits
          (hAlters place hAdmits hReady.permits.steady)
  | @stream t u start hOther hMedium hPosition =>
      rcases (hRuns.stream t start hSink).1 with
        ⟨told, hTold, hFollows⟩
      cases hTold
      have hBound := hReady.bound t start hSink
      refine
        .stream _ disk' hOther (hServes told start rfl) ?_ ?_
      · rw [hFollows.medium, hMedium]
      · rwa [hMedium]

/- What is done when the direct attempt has failed. -/
def fallback (codec : Codec) : Stage Bench Nat := do
  modify (fun b => b.telling (·.info
    "retrying without crc validation"))
  onSink Sink.reset
  ExceptT.adapt Failure.fallbackFailed (withoutCrc codec)

theorem withRetry_eq (codec : Codec) :
    withRetry codec = (do
      onSource Source.preserve
      tryCatch (direct codec) (fun _ => fallback codec)) :=
  rfl

/- When the output has been reset, all can be read again. -/
theorem Ready.resets
    {b failed : Bench}
    {data : Bytes}
    {outlet : Outlet}
    (hReady : Ready data b)
    (hKept :
      (∃ path, b.source = .file path) ∨
        ∃ tape start,
          b.source = .stream tape start (some data))
    (hRuns : Runs b failed)
    (hReset :
      Sink.reset.perform (failed.sink, failed.disk) =
        (.ok (), outlet)) :
    let c :=
      { failed.telling
          (·.info "retrying without crc validation") with
        sink := outlet.1, disk := outlet.2 }
    Runs failed c ∧
      c.source.Holds c.disk data ∧
      c.source.Opens c.disk := by
  -- The log and the reset are part of what was done to it.
  have hTold :=
    runs_upheld.telling failed
      (·.info "retrying without crc validation") rfl rfl
  have hMoved := runs_upheld.sink .reset
    (failed.telling
      (·.info "retrying without crc validation"))
  rw [perform_onSink (b := failed.telling _) hReset] at hMoved
  have hMore := hTold.trans hMoved
  have hBoth := hRuns.trans hMore
  have hSteady := hReady.permits.steady
  exact
    ⟨hMore,
      hBoth.holds hReady.holds hKept hSteady hReady.apart
        hReady.begins,
      hBoth.opens hReady.holds hKept hSteady hReady.apart
        hReady.begins hReady.opens⟩

/-
  After an attempt that has failed the fallback goes as the
  way without checks does on an output that nothing has
  happened to.
-/
theorem fallback_alike
    (codec : Codec)
    {b d failed : Bench}
    {data : Bytes}
    (hReady : Ready data b)
    (hKept :
      (∃ path, b.source = .file path) ∨
        ∃ tape start,
          b.source = .stream tape start (some data))
    (hRuns : Runs b failed)
    (hLeft : Mates Outlet.Astray d failed)
    (hHolds : d.source.Holds d.disk data)
    (hOpens : d.source.Opens d.disk) :
    ((fallback codec).perform failed).1 =
        ((withoutCrc codec).perform d).1.mapError
          .fallbackFailed ∧
      Mates Outlet.Alike ((withoutCrc codec).perform d).2
        ((fallback codec).perform failed).2 := by
  rcases Outlet.Astray.reset hLeft with
    ⟨-, outlet, -, hReset, -⟩
  rcases hReady.resets hKept hRuns hReset with
    ⟨hMore, hAgain, hStill⟩
  have hPlain :=
    withoutCrc_alike codec (Mates.astray_runs hLeft hMore)
      hReady.long hHolds hOpens hAgain hStill
  unfold fallback
  rw [perform_modify_bind,
    perform_bind_ok
      (perform_onSink (b := failed.telling _) hReset),
    perform_adapt]
  exact
    ⟨congrArg (Except.mapError Failure.fallbackFailed)
        hPlain.1,
      hPlain.2⟩

/-
  A retry ends as its direct attempt does, if that succeeds.
  Otherwise it ends as the way without checks does on an
  output that nothing has happened to, and the failure of
  that is wrapped.
-/
theorem withRetry_cases
    {codec : Codec}
    {b c d : Bench}
    {data : Bytes}
    (hReady : Ready data b)
    (hLinked : Linked (· = ·) b c)
    (hMended : Linked Sink.Mended b d)
    (hServes :
      ∀ failure failed told start,
        (direct codec).perform c = (.error failure, failed) →
        failed.sink = .stream told start →
        told.Serves) :
    (∃ n tried tried',
        (direct codec).perform c = (.ok n, tried) ∧
          (withRetry codec).perform b = (.ok n, tried') ∧
          Mates (· = ·) tried' tried) ∨
      (∃ failure failed,
        (direct codec).perform c = (.error failure, failed)) ∧
        ((withRetry codec).perform b).1 =
          ((withoutCrc codec).perform d).1.mapError
            .fallbackFailed ∧
        Mates Outlet.Alike ((withoutCrc codec).perform d).2
          ((withRetry codec).perform b).2 := by
  rcases preserve_direct codec hLinked hReady.holds with
    ⟨kept, hPreserve, hSink, hDisk, hHolds, hKept, hFile,
      hSame, hMates⟩
  have hReadyKept := hReady.kept hSink hDisk hHolds hFile
  rw [withRetry_eq, perform_bind_ok hPreserve]
  rcases hDirect : (direct codec).perform kept with
    ⟨outcome, failed⟩
  rcases hAlone : (direct codec).perform c with
    ⟨outcome', failed'⟩
  have hRuns := keeps_direct runs_upheld codec kept
  rw [hDirect] at hRuns
  rw [hDirect, hAlone] at hSame hMates
  cases hSame
  cases outcome with
  | ok n =>
      rw [perform_tryCatch_ok hDirect]
      exact .inl ⟨n, failed', failed, rfl, rfl, hMates⟩
  | error failure =>
      right
      refine ⟨⟨failure, failed', rfl⟩, ?_⟩
      rw [perform_tryCatch_error hDirect]
      have hLeft : Mates Outlet.Astray d failed := by
        apply astray_of_runs hReadyKept
          (hMended.disk.trans hDisk.symm)
          (hSink ▸ hMended.sink) hRuns
        intro told start hTold
        exact hServes failure failed' told start hAlone
          ((congrArg Prod.fst hMates).symm.trans hTold)
      exact
        fallback_alike codec hReadyKept hKept hRuns hLeft
          (hMended.source.symm ▸ hMended.disk.symm ▸
            hReady.holds)
          (hMended.source.symm ▸ hMended.disk.symm ▸
            hReady.opens)

end Decompression

end ArchiveRescue
