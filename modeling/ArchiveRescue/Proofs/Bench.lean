import Mathlib
import ArchiveRescue.Proofs.Preparation
import ArchiveRescue.Proofs.Sink

/-
  What the algorithms of decompression leave of the bench
  that they work on, and what they cannot tell about it: they
  never look at its report, and writing goes alike where the
  sinks behave alike.

  Key definitions include:
    * `Bench.Runs`
    * `Bench.Upheld`
    * `Bench.Congruent`
    * `Bench.Linked`
    * `Decompression.refill`
    * `Decompression.recover`

  Main statements:
    * `Decompression.keeps_algorithm`
    * `Decompression.runs_algorithm`
    * `Decompression.respects_put`
    * `Decompression.respects_ensureNotEmpty`
    * `Decompression.respects_direct`
    * `Decompression.lifts_preparation`
-/

namespace ArchiveRescue

open Stage

namespace Bench

------------------------------------------------------------
-- Uses of the Ends
------------------------------------------------------------

/- A use of the sink, told for the bench. -/
theorem perform_onSink
    {b : Bench}
    {α : Type}
    {stage : Stage Outlet α}
    {outcome : Outcome α}
    {outlet : Outlet}
    (hStage :
      stage.perform (b.sink, b.disk) = (outcome, outlet)) :
    (onSink stage).perform b =
      (outcome,
        { b with sink := outlet.1, disk := outlet.2 }) := by
  unfold onSink
  rw [perform_focus, hStage]

/- A use of the source. -/
theorem perform_onSource
    {b : Bench}
    {α : Type}
    {stage : Stage Inlet α}
    {outcome : Outcome α}
    {inlet : Inlet}
    (hStage :
      stage.perform (b.source, b.disk) = (outcome, inlet)) :
    (onSource stage).perform b =
      (outcome,
        { b with source := inlet.1, disk := inlet.2 }) := by
  unfold onSource
  rw [perform_focus, hStage]

------------------------------------------------------------
-- What Algorithms Leave
------------------------------------------------------------

/-
  Between the benches an algorithm has been at work: the
  source persists, a file is the same file and nothing else
  on the disk has been changed, a stream is written to by
  calls of its tape alone and nothing on the disk is changed
  then, and nothing has been decided.
-/
structure Runs (b c : Bench) : Prop where
  source : b.source.Persists c.source
  file :
    ∀ path, b.sink = .file path →
      c.sink = .file path ∧ b.disk.AltersOnly path c.disk
  stream :
    ∀ tape start, b.sink = .stream tape start →
      (∃ told,
        c.sink = .stream told start ∧ tape.Follows told) ∧
      b.disk.Ticks c.disk
  verdict : c.report.verdict = b.report.verdict
  outputPath :
    c.report.snapshot.outputPath =
      b.report.snapshot.outputPath

namespace Runs

theorem refl (b : Bench) : Runs b b where
  source := .refl b.source
  file path hFile := ⟨hFile, .refl path b.disk⟩
  stream tape _ hStream :=
    ⟨⟨tape, hStream, .refl tape⟩, .refl b.disk⟩
  verdict := rfl
  outputPath := rfl

theorem trans
    {a b c : Bench}
    (hFirst : Runs a b)
    (hSecond : Runs b c) :
    Runs a c where
  source := hFirst.source.trans hSecond.source
  file path hFile := by
    rcases hFirst.file path hFile with ⟨hAlso, hSame⟩
    rcases hSecond.file path hAlso with ⟨hLast, hMore⟩
    exact ⟨hLast, hSame.trans hMore⟩
  stream tape start hStream := by
    rcases hFirst.stream tape start hStream with
      ⟨⟨told, hTold, hFollows⟩, hTicks⟩
    rcases hSecond.stream told start hTold with
      ⟨⟨last, hLast, hMore⟩, hAgain⟩
    exact
      ⟨⟨last, hLast, hFollows.trans hMore⟩,
        hTicks.trans hAgain⟩
  verdict := hSecond.verdict.trans hFirst.verdict
  outputPath := hSecond.outputPath.trans hFirst.outputPath

end Runs

/-
  A relation between benches that every use of their ends
  keeps, whatever is written to their logs.
-/
structure Upheld
    (relation : Bench → Bench → Prop) : Prop where
  refl : ∀ b, relation b b
  trans :
    ∀ {a b c}, relation a b → relation b c → relation a c
  source :
    ∀ {α : Type} {stage : Stage Inlet α}, Source.Use stage →
      Keeps relation (onSource stage)
  sink :
    ∀ {α : Type} {stage : Stage Outlet α}, Sink.Use stage →
      Keeps relation (onSink stage)
  telling :
    ∀ (b : Bench) (change : Report → Report),
      (change b.report).verdict = b.report.verdict →
      (change b.report).snapshot = b.report.snapshot →
      relation b (b.telling change)

/- This can be said of what algorithms leave. -/
theorem runs_upheld : Upheld Runs where
  refl := .refl
  trans := .trans
  source hUse := by
    refine hUse.ticks.focus ?_
    intro b i hTicks
    exact
      { source := hTicks.source
        file := fun path hFile =>
          ⟨hFile, .of_ticks path hTicks.disk⟩
        stream := fun tape _ hStream =>
          ⟨⟨tape, hStream, .refl tape⟩, hTicks.disk⟩
        verdict := rfl
        outputPath := rfl }
  sink hUse := by
    refine (Sink.runs_use hUse).focus ?_
    intro b o hRuns
    refine ⟨.refl b.source, hRuns.file, ?_, rfl, rfl⟩
    intro tape start hStream
    rcases hRuns.stream tape start hStream with
      ⟨told, rfl, hFollows⟩
    exact ⟨⟨told, rfl, hFollows⟩, .refl b.disk⟩
  telling b _ hVerdict hSnapshot :=
    { Runs.refl b with
      verdict := hVerdict
      outputPath := congrArg Snapshot.outputPath hSnapshot }

end Bench

namespace Decompression

open Bench

section Upheld

variable {relation : Bench → Bench → Prop}

/- Every part of an algorithm keeps such a relation. -/
theorem keeps_debug
    (hRelation : Bench.Upheld relation)
    (message : String) :
    Keeps relation (debug message) :=
  fun b => hRelation.telling b (·.debug message) rfl rfl

theorem keeps_put
    (hRelation : Bench.Upheld relation)
    (codec : Codec)
    (origin : String)
    (delivered : Bytes × Option Fault) :
    Keeps relation (put codec origin delivered) := by
  unfold put
  split
  · refine Keeps.bind (hRelation.sink (.write _ _)) ?_
      hRelation.trans
    intro _
    exact hRelation.sink (.flush _)
  · intro b
    rw [perform_get_bind]
    refine Keeps.bind (hRelation.sink (.write _ _)) ?_
      hRelation.trans b
    intro _ c
    exact hRelation.refl c

theorem keeps_ensureNotEmpty
    (hRelation : Bench.Upheld relation)
    (origin : String) :
    Keeps relation (ensureNotEmpty origin) := by
  unfold ensureNotEmpty
  refine Keeps.bind (hRelation.sink .written) ?_
    hRelation.trans
  intro written
  split
  · refine Keeps.bind (hRelation.sink .discard) ?_
      hRelation.trans
    intro _ b
    exact hRelation.refl b
  · intro b
    exact hRelation.refl b

theorem keeps_logged
    (hRelation : Bench.Upheld relation)
    (origin : String)
    {stage : Stage Bench Nat}
    (hStage : Keeps relation stage) :
    Keeps relation (logged origin stage) := by
  unfold logged
  refine hStage.observed ?_ ?_ hRelation.trans
  · intro b n
    exact hRelation.telling b (·.debug _) rfl rfl
  · intro b failure
    exact hRelation.telling b (·.error _) rfl rfl

theorem keeps_direct
    (hRelation : Bench.Upheld relation)
    (codec : Codec) :
    Keeps relation (direct codec) := by
  unfold direct
  apply keeps_logged hRelation
  refine Keeps.bind (hRelation.source .opened) ?_
    hRelation.trans
  intro opened
  refine Keeps.bind (hRelation.sink .begin) ?_
    hRelation.trans
  intro _
  refine Keeps.bind (hRelation.source (.drain opened)) ?_
    hRelation.trans
  rintro ⟨data, fault?⟩
  refine Keeps.bind (keeps_put hRelation _ _ _) ?_
    hRelation.trans
  intro _
  exact keeps_ensureNotEmpty hRelation _

end Upheld

/- Write the output once more, from its start on. -/
def refill
    (codec : Codec)
    (trimmed : Bytes) : Stage Bench Nat := do
  debug ("raw-inflating " ++ toString trimmed.length ++
    " byte(s) of trimmed payload")
  onSink Sink.reset
  onSink Sink.begin
  put codec withoutCrcName
    (codec.deliver codec.inflate trimmed none)
  ensureNotEmpty withoutCrcName

/- Do so with the payload of data that has been read. -/
def recover
    (codec : Codec)
    (data : Bytes) : Stage Bench Nat := do
  let framing ← ExceptT.mk (pure (Gzip.Framing.ofBytes data))
  if framing.hasOptionalFields then
    debug ("header flags 0x" ++ Text.hexByte framing.flags ++
      " announce optional fields; they are not skipped")
  refill codec (payload data)

/- The way without checks is to read all and do so. -/
theorem withoutCrc_eq (codec : Codec) :
    withoutCrc codec =
      logged withoutCrcName
        (onSource Source.readAll >>= recover codec) :=
  rfl

/- Data that is long enough has a framing around a payload. -/
theorem recover_eq
    (codec : Codec)
    {data : Bytes}
    (hLong : Gzip.framingLength ≤ data.length)
    (b : Bench) :
    ∃ change : Report → Report,
      (recover codec data).perform b =
        (refill codec (payload data)).perform
          (b.telling change) := by
  have hFraming :
      perform
          (ExceptT.mk (pure (Gzip.Framing.ofBytes data)) :
            Stage Bench Gzip.Framing) b =
        (.ok
          { header := data.take Gzip.headerLength
            footer :=
              data.drop (data.length - Gzip.footerLength) },
          b) := by
    unfold Gzip.Framing.ofBytes
    rw [if_neg (by omega)]
    rfl
  unfold recover
  rw [perform_bind_ok hFraming]
  split
  · exact ⟨_, perform_modify_bind _ _ _⟩
  · exact ⟨id, rfl⟩

section Upheld

variable {relation : Bench → Bench → Prop}

theorem keeps_refill
    (hRelation : Bench.Upheld relation)
    (codec : Codec)
    (trimmed : Bytes) :
    Keeps relation (refill codec trimmed) := by
  unfold refill
  refine Keeps.bind (keeps_debug hRelation _) ?_
    hRelation.trans
  intro _
  refine Keeps.bind (hRelation.sink .reset) ?_
    hRelation.trans
  intro _
  refine Keeps.bind (hRelation.sink .begin) ?_
    hRelation.trans
  intro _
  refine Keeps.bind (keeps_put hRelation _ _ _) ?_
    hRelation.trans
  intro _
  exact keeps_ensureNotEmpty hRelation _

theorem keeps_recover
    (hRelation : Bench.Upheld relation)
    (codec : Codec)
    (data : Bytes) :
    Keeps relation (recover codec data) := by
  unfold recover
  refine Keeps.bind ?_ ?_ hRelation.trans
  · intro b
    exact hRelation.refl b
  intro framing
  split
  · refine Keeps.bind (keeps_debug hRelation _) ?_
      hRelation.trans
    intro _
    exact keeps_refill hRelation codec _
  · exact keeps_refill hRelation codec _

theorem keeps_withoutCrc
    (hRelation : Bench.Upheld relation)
    (codec : Codec) :
    Keeps relation (withoutCrc codec) := by
  rw [withoutCrc_eq]
  apply keeps_logged hRelation
  refine Keeps.bind (hRelation.source .readAll) ?_
    hRelation.trans
  intro data
  exact keeps_recover hRelation codec data

theorem keeps_withRetry
    (hRelation : Bench.Upheld relation)
    (codec : Codec) :
    Keeps relation (withRetry codec) := by
  unfold withRetry
  refine Keeps.bind (hRelation.source .preserve) ?_
    hRelation.trans
  intro _
  refine (keeps_direct hRelation codec).tryCatch ?_
    hRelation.trans
  intro _
  refine Keeps.bind ?_ ?_ hRelation.trans
  · intro b
    exact hRelation.telling b (·.info _) rfl rfl
  intro _
  refine Keeps.bind (hRelation.sink .reset) ?_
    hRelation.trans
  intro _ b
  rw [perform_adapt]
  exact keeps_withoutCrc hRelation codec b

/- So does every algorithm. -/
theorem keeps_algorithm
    (hRelation : Bench.Upheld relation)
    (codec : Codec)
    (which : Algorithm) :
    Keeps relation (algorithm codec which) := by
  cases which with
  | direct => exact keeps_direct hRelation codec
  | withoutCrc => exact keeps_withoutCrc hRelation codec
  | withRetry => exact keeps_withRetry hRelation codec

end Upheld

theorem runs_algorithm
    (codec : Codec)
    (which : Algorithm) :
    Keeps Bench.Runs (algorithm codec which) :=
  keeps_algorithm runs_upheld codec which

end Decompression

namespace Bench

------------------------------------------------------------
-- Benches That Work Alike
------------------------------------------------------------

/-
  A relation between benches that uses of their sinks keep
  and cannot see, whatever is written to their logs.
-/
structure Congruent
    (relation : Bench → Bench → Prop) : Prop where
  settled :
    ∀ b c, relation b c →
      ∀ (codec : Codec) (bs : Bytes),
        codec.settled c.sink bs = codec.settled b.sink bs
  sink :
    ∀ {α : Type} {stage : Stage Outlet α}, Sink.Use stage →
      Respects relation (onSink stage)
  telling :
    ∀ b c, relation b c →
      ∀ change other,
        relation (b.telling change) (c.telling other)

end Bench

namespace Decompression

open Bench

section Congruent

variable {relation : Bench → Bench → Prop}

/- What is delivered is written alike. -/
theorem respects_put
    (hRelation : Bench.Congruent relation)
    (codec : Codec)
    (origin : String)
    (delivered : Bytes × Option Fault) :
    Respects relation (put codec origin delivered) := by
  unfold put
  split
  · refine (hRelation.sink (.write _ _)).bind ?_
    intro _
    exact hRelation.sink (.flush _)
  next fault _ =>
    intro b c hRelated
    have hBoth :
        Respects relation (do
          onSink (Sink.write origin
            (codec.settled b.sink delivered.1))
          throw (.faulted origin fault) : Stage Bench Unit) := by
      refine (hRelation.sink (.write _ _)).bind ?_
      intro _ b' c' hLater
      exact ⟨rfl, hLater⟩
    rw [perform_get_bind, perform_get_bind,
      hRelation.settled b c hRelated]
    exact hBoth b c hRelated

/- An empty output is noticed alike. -/
theorem respects_ensureNotEmpty
    (hRelation : Bench.Congruent relation)
    (origin : String) :
    Respects relation (ensureNotEmpty origin) := by
  unfold ensureNotEmpty
  refine (hRelation.sink .written).bind ?_
  intro written
  split
  · refine (hRelation.sink .discard).bind ?_
    intro _ b c hRelated
    exact ⟨rfl, hRelated⟩
  · intro b c hRelated
    exact ⟨rfl, hRelated⟩

/- The log makes no difference. -/
theorem respects_logged
    (hRelation : Bench.Congruent relation)
    (origin : String)
    {stage : Stage Bench Nat}
    (hStage : Respects relation stage) :
    Respects relation (logged origin stage) := by
  unfold logged
  refine hStage.observed ?_ ?_
  · intro b c _ hRelated
    exact hRelation.telling b c hRelated _ _
  · intro b c _ hRelated
    exact hRelation.telling b c hRelated _ _

end Congruent

end Decompression

namespace Bench

------------------------------------------------------------
-- Benches With Linked Sinks
------------------------------------------------------------

/-
  Benches with the same source and disk.  Their sinks may
  differ to some degree and their reports in everything.
-/
structure Linked
    (link : Sink → Sink → Prop)
    (b c : Bench) : Prop where
  source : c.source = b.source
  disk : c.disk = b.disk
  sink : link b.sink c.sink

variable {link : Sink → Sink → Prop}

/- The source is used alike. -/
theorem Linked.respects_onSource
    {α : Type}
    (stage : Stage Inlet α) :
    Respects (Linked link) (onSource stage) := by
  refine (Respects.of_eq stage).focus ?_ ?_
  · intro b c hLinked
    rw [hLinked.source, hLinked.disk]
  · rintro b c i _ hLinked rfl
    exact ⟨rfl, rfl, hLinked.sink⟩

/- So is a sink that is the same. -/
theorem Linked.respects_onSink
    {α : Type}
    (stage : Stage Outlet α) :
    Respects (Linked (· = ·)) (onSink stage) := by
  refine (Respects.of_eq stage).focus ?_ ?_
  · intro b c hLinked
    rw [hLinked.sink, hLinked.disk]
  · rintro b c o _ hLinked rfl
    exact ⟨hLinked.source, rfl, rfl⟩

theorem Linked.congruent :
    Congruent (Linked (· = ·)) where
  settled b c hLinked codec bs := by
    rw [hLinked.sink]
  sink _ := respects_onSink _
  telling b c hLinked _ _ :=
    ⟨hLinked.source, hLinked.disk, hLinked.sink⟩

/- Changes of the report leave benches linked. -/
theorem Linked.respects_modify
    (change : Bench → Report → Report) :
    Respects (Linked link)
      (modify (fun b => b.telling (change b)) :
        Stage Bench PUnit) :=
  Respects.of_modify (fun _ _ hLinked =>
    ⟨hLinked.source, hLinked.disk, hLinked.sink⟩)

end Bench

namespace Decompression

open Bench

/- So the direct way goes alike whatever the report. -/
theorem respects_direct (codec : Codec) :
    Respects (Linked (· = ·)) (direct codec) := by
  unfold direct
  apply respects_logged Linked.congruent
  refine (Linked.respects_onSource _).bind ?_
  intro opened
  refine (Linked.respects_onSink _).bind ?_
  intro _
  refine (Linked.respects_onSource _).bind ?_
  rintro ⟨data, fault?⟩
  refine (respects_put Linked.congruent _ _ _).bind ?_
  intro _
  exact respects_ensureNotEmpty Linked.congruent _

/-
  A preparation that succeeds also succeeds with another sink
  if that can be verified as well.
-/
theorem lifts_preparation
    {link : Sink → Sink → Prop}
    (hVerify :
      Lifts (fun o p => link o.1 p.1 ∧ p.2 = o.2)
        Sink.verify) :
    Lifts (Linked link) preparation := by
  have hSink : Lifts (Linked link) (onSink Sink.verify) := by
    refine hVerify.focus ?_ ?_
    · exact fun b c hLinked => ⟨hLinked.sink, hLinked.disk⟩
    · exact fun b c o p hLinked hLater =>
        ⟨hLinked.source, hLater.2, hLater.1⟩
  have hDebug : ∀ message,
      Lifts (Linked link) (debug message) := fun message =>
    (Linked.respects_modify
      (fun _ r => r.debug message)).lifts
  unfold preparation
  refine Lifts.bind ?_ ?_
  · unfold verify
    refine (Linked.respects_onSource _).lifts.bind ?_
    intro _
    refine hSink.bind ?_
    intro _
    exact hDebug _
  intro _
  unfold inspect
  refine (Linked.respects_onSource _).lifts.bind ?_
  intro framing
  refine (Linked.respects_modify _).lifts.bind ?_
  intro _
  refine (hDebug _).bind ?_
  intro _
  refine (hDebug _).bind ?_
  intro _ b c _ _ hLinked hRest
  split at hRest
  · cases hRest
  next hSignature =>
    cases hRest
    refine ⟨c, ?_, hLinked⟩
    rw [if_neg hSignature]
    rfl

/- It goes alike with the same sink. -/
theorem lifts_preparation_same :
    Lifts (Linked (· = ·)) preparation := by
  refine lifts_preparation ?_
  rintro ⟨sink, disk⟩ ⟨other, disk'⟩ value later ⟨hSink, hDisk⟩
    hOne
  cases hSink
  cases hDisk
  exact ⟨later, hOne, rfl, rfl⟩

end Decompression

end ArchiveRescue
