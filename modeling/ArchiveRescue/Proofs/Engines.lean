import Mathlib
import ArchiveRescue.Proofs.Agreement
import ArchiveRescue.Proofs.Delivery
import ArchiveRescue.Proofs.Ordinary

/-
  Two engines that decompress the same input with decoders of
  their own.  Where these accept the same and agree on what
  they accept, so do the engines, also when an attempt that
  has failed has left different things at the output.

  Key definitions include:
    * `Failure.Akin`
    * `Bench.Echoes`
    * `Bench.IsCalm`
    * `Decompression.Ends`
    * `Decompression.Account.Agrees`

  Main statements:
    * `Decompression.echoes_preparation`
    * `Decompression.put_ends`
    * `Decompression.direct_ends`
    * `Decompression.fallback_ends`
    * `Decompression.algorithm_ends`
    * `Decompression.engines_agree`
-/

namespace ArchiveRescue

open Stage

------------------------------------------------------------
-- Failures of One Kind
------------------------------------------------------------

namespace Failure

/- The failures are of one kind, and so are those in them. -/
structure Akin (f g : Failure) : Prop where
  kind : g.kind = f.kind
  inner : g.inner?.map Failure.kind = f.inner?.map Failure.kind

namespace Akin

theorem refl (f : Failure) : Akin f f :=
  ⟨rfl, rfl⟩

/- Faults are told apart by their texts alone. -/
theorem faulted
    (origin : String)
    (fault other : Fault) :
    Akin (.faulted origin fault) (.faulted origin other) :=
  ⟨rfl, rfl⟩

/- Failures of one kind may be wrapped. -/
theorem wrapped
    {f g : Failure}
    (hAkin : Akin f g) :
    Akin (.fallbackFailed f) (.fallbackFailed g) :=
  ⟨rfl, congrArg some hAkin.kind⟩

end Akin

end Failure

/- Both have succeeded, or failed with failures of one kind. -/
inductive Verdict.Akin : Verdict → Verdict → Prop where
  | succeeded : Verdict.Akin .succeeded .succeeded
  | failed
      {f g : Failure}
      (akin : f.Akin g) :
      Verdict.Akin (.failed f) (.failed g)

/- Reports of them say alike whether all has succeeded. -/
theorem Verdict.Akin.success
    {r s : Report}
    (hAkin : r.verdict.Akin s.verdict) :
    s.success = r.success := by
  unfold Report.success
  generalize r.verdict = one at hAkin ⊢
  generalize s.verdict = two at hAkin ⊢
  cases hAkin with
  | succeeded => rfl
  | failed _ => rfl

------------------------------------------------------------
-- Benches That Differ in Their Logs
------------------------------------------------------------

namespace Bench

/- Nothing but the name and the log of the report differs. -/
structure Echoes (b c : Bench) : Prop where
  source : c.source = b.source
  sink : c.sink = b.sink
  disk : c.disk = b.disk
  snapshot : c.report.snapshot = b.report.snapshot

namespace Echoes

/- Uses of the ends cannot tell them apart. -/
theorem respects_onSource
    {α : Type}
    (stage : Stage Inlet α) :
    Respects Echoes (onSource stage) := by
  refine (Respects.of_eq stage).focus ?_ ?_
  · intro b c hEchoes
    rw [hEchoes.source, hEchoes.disk]
  · rintro b c i _ hEchoes rfl
    exact ⟨rfl, hEchoes.sink, rfl, hEchoes.snapshot⟩

theorem respects_onSink
    {α : Type}
    (stage : Stage Outlet α) :
    Respects Echoes (onSink stage) := by
  refine (Respects.of_eq stage).focus ?_ ?_
  · intro b c hEchoes
    rw [hEchoes.sink, hEchoes.disk]
  · rintro b c o _ hEchoes rfl
    exact ⟨hEchoes.source, rfl, rfl, hEchoes.snapshot⟩

/- What is noted of both is the same. -/
theorem respects_telling
    {change : Report → Report}
    (hChange :
      ∀ r s : Report, s.snapshot = r.snapshot →
        (change s).snapshot = (change r).snapshot) :
    Respects Echoes
      (modify (fun b => b.telling change) :
        Stage Bench PUnit) :=
  Respects.of_modify fun b c hEchoes =>
    ⟨hEchoes.source, hEchoes.sink, hEchoes.disk,
      hChange b.report c.report hEchoes.snapshot⟩

theorem respects_debug (message : String) :
    Respects Echoes (debug message) :=
  respects_telling fun _ _ hSnapshot => hSnapshot

end Echoes

end Bench

namespace Decompression

open Bench

/- So benches like that are prepared alike. -/
theorem echoes_preparation :
    Respects Echoes preparation := by
  unfold preparation
  refine Respects.bind ?_ fun _ => ?_
  · unfold verify
    refine (Echoes.respects_onSource _).bind fun _ => ?_
    refine (Echoes.respects_onSink _).bind fun _ => ?_
    exact Echoes.respects_debug _
  · unfold inspect
    refine (Echoes.respects_onSource _).bind fun framing => ?_
    refine (Echoes.respects_telling ?_).bind fun _ => ?_
    · intro r s hSnapshot
      unfold Report.note
      dsimp only
      rw [hSnapshot]
    refine (Echoes.respects_debug _).bind fun _ => ?_
    refine (Echoes.respects_debug _).bind fun _ => ?_
    intro b c hEchoes
    split
    · exact ⟨rfl, hEchoes⟩
    · exact ⟨rfl, hEchoes⟩

------------------------------------------------------------
-- Attempts That End Alike
------------------------------------------------------------

/-
  Both attempts have succeeded with the same count and left
  benches that are related, or they have failed with failures
  of one kind.
-/
inductive Ends
    (relation : Bench → Bench → Prop) :
    Outcome Nat × Bench → Outcome Nat × Bench → Prop where
  | ok
      {n : Nat}
      {b c : Bench}
      (related : relation b c) :
      Ends relation (.ok n, b) (.ok n, c)
  | error
      {f g : Failure}
      (akin : f.Akin g)
      (b c : Bench) :
      Ends relation (.error f, b) (.error g, c)

namespace Ends

variable {relation weaker : Bench → Bench → Prop}
variable {b c : Bench}

/- One stage that goes alike ends alike. -/
theorem of_respects
    {stage : Stage Bench Nat}
    (hStage : Respects relation stage)
    (hRelated : relation b c) :
    Ends relation (stage.perform b) (stage.perform c) := by
  have hLater := hStage b c hRelated
  rcases hOne : stage.perform b with ⟨outcome, b'⟩
  rcases hTwo : stage.perform c with ⟨outcome', c'⟩
  rw [hOne, hTwo] at hLater
  rcases hLater with ⟨rfl, hLater⟩
  cases outcome' with
  | ok n => exact .ok hLater
  | error failure => exact .error (.refl failure) b' c'

theorem mono
    {one two : Outcome Nat × Bench}
    (hWeaker : ∀ b c, relation b c → weaker b c)
    (hEnds : Ends relation one two) :
    Ends weaker one two := by
  cases hEnds with
  | ok hRelated => exact .ok (hWeaker _ _ hRelated)
  | error hAkin b c => exact .error hAkin b c

/- A step that goes alike may come before attempts. -/
theorem bind
    {α : Type}
    {stage : Stage Bench α}
    {rest rest' : α → Stage Bench Nat}
    (hStage : Respects relation stage)
    (hRelated : relation b c)
    (hRest :
      ∀ value b' c',
        stage.perform b = (.ok value, b') →
        relation b' c' →
        Ends relation ((rest value).perform b')
          ((rest' value).perform c')) :
    Ends relation ((stage >>= rest).perform b)
      ((stage >>= rest').perform c) := by
  have hLater := hStage b c hRelated
  rcases hOne : stage.perform b with ⟨outcome, b'⟩
  rcases hTwo : stage.perform c with ⟨outcome', c'⟩
  rw [hOne, hTwo] at hLater
  rcases hLater with ⟨rfl, hLater⟩
  cases outcome' with
  | ok value =>
      rw [perform_bind_ok hOne, perform_bind_ok hTwo]
      exact hRest value b' c' hOne hLater
  | error failure =>
      rw [perform_bind_error hOne, perform_bind_error hTwo]
      exact .error (.refl failure) b' c'

/- The log makes no difference. -/
theorem logged
    (hRelation : Bench.Congruent relation)
    (origin : String)
    {one two : Stage Bench Nat}
    (hEnds : Ends relation (one.perform b) (two.perform c)) :
    Ends relation
      ((Decompression.logged origin one).perform b)
      ((Decompression.logged origin two).perform c) := by
  rcases hOne : one.perform b with ⟨outcome, tried⟩
  rcases hTwo : two.perform c with ⟨outcome', tried'⟩
  rcases logged_eq origin hOne with ⟨change, hLogged⟩
  rcases logged_eq origin hTwo with ⟨change', hLogged'⟩
  rw [hOne, hTwo] at hEnds
  rw [hLogged, hLogged']
  cases hEnds with
  | ok hRelated =>
      exact
        .ok (hRelation.telling tried tried' hRelated change
          change')
  | error hAkin _ _ => exact .error hAkin _ _

/- Failures of one kind may be wrapped. -/
theorem wrapped
    {one two : Stage Bench Nat}
    (hEnds : Ends relation (one.perform b) (two.perform c)) :
    Ends relation
      (perform (ExceptT.adapt Failure.fallbackFailed one :
        Stage Bench Nat) b)
      (perform (ExceptT.adapt Failure.fallbackFailed two :
        Stage Bench Nat) c) := by
  rw [perform_adapt, perform_adapt]
  generalize one.perform b = tried at hEnds ⊢
  generalize two.perform c = tried' at hEnds ⊢
  cases hEnds with
  | ok hRelated => exact .ok hRelated
  | error hAkin b' c' => exact .error hAkin.wrapped b' c'

end Ends

------------------------------------------------------------
-- Putting What Was Decoded
------------------------------------------------------------

section Putting

variable {codec other : Codec}
variable {relation : Bench → Bench → Prop} {b c : Bench}

/-
  Decoders that agree deliver the same, or both end with a
  fault, whatever they have delivered before it.
-/
theorem deliver_cases
    (codec other : Codec)
    {decode decode' : Bytes → Gzip.Delivery}
    {got : Bytes}
    (hAgrees : (decode got).Agrees (decode' got))
    (fault? : Option Fault) :
    (∃ bs,
      codec.deliver decode got fault? = (bs, none) ∧
        other.deliver decode' got fault? = (bs, none)) ∨
      (∃ fault,
        (codec.deliver decode got fault?).2 = some fault) ∧
        ∃ fault,
          (other.deliver decode' got fault?).2 =
            some fault := by
  have hFaulty :
      ∀ (codec : Codec) {decode : Bytes → Gzip.Delivery},
        (decode got).verdict ≠ .complete →
        ∃ fault,
          (codec.deliver decode got fault?).2 =
            some fault := by
    intro codec decode hBroken
    rcases hNone : (codec.deliver decode got fault?).2 with
      _ | fault
    · rw [complete_of_deliver hNone] at hBroken
      exact absurd rfl hBroken
    · exact ⟨fault, rfl⟩
  by_cases hComplete : (decode got).verdict = .complete
  · have hBytes := hAgrees.bytes hComplete
    have hAlso := hAgrees.complete.mpr hComplete
    refine .inl ⟨(decode got).bytes, ?_, ?_⟩
    · unfold Codec.deliver
      dsimp only
      rw [hComplete]
      rfl
    · unfold Codec.deliver
      dsimp only
      rw [hAlso, hBytes]
      rfl
  · exact
      .inr ⟨hFaulty codec hComplete,
        hFaulty other (mt hAgrees.complete.mp hComplete)⟩

/- Writing fails with nothing but a fault of its own. -/
theorem write_outcome
    (origin : String)
    (bs : Bytes)
    (o : Outlet) :
    ((Sink.write origin bs).perform o).1 = .ok () ∨
      ∃ fault,
        ((Sink.write origin bs).perform o).1 =
          .error (.faulted origin fault) := by
  rcases o with ⟨sink, disk⟩
  have hCases :
      ∀ reply : Except Fault Unit,
        reply.mapError (Failure.faulted origin) = .ok () ∨
          ∃ fault,
            reply.mapError (Failure.faulted origin) =
              .error (.faulted origin fault) := by
    intro reply
    cases reply with
    | ok _ => exact .inl rfl
    | error fault => exact .inr ⟨fault, rfl⟩
  cases sink with
  | stream tape start =>
      rw [Sink.perform_write_stream]
      exact hCases _
  | file path =>
      by_cases hNone : bs = []
      · subst hNone
        exact .inl rfl
      · cases hLeads : disk.locate path with
        | error fault =>
            rw [Sink.perform_write_lost path disk origin
              hNone hLeads]
            exact .inr ⟨fault, rfl⟩
        | ok place =>
            rw [Sink.perform_write_file path disk origin
              hNone hLeads]
            exact hCases _

/- So what ends with a fault is put with such a failure. -/
theorem put_faulted
    {origin : String}
    {delivered : Bytes × Option Fault}
    {fault : Fault}
    (hFault : delivered.2 = some fault)
    (b : Bench) :
    ∃ later tried,
      (put codec origin delivered).perform b =
        (.error (.faulted origin later), tried) := by
  unfold put
  rw [hFault]
  dsimp only
  rw [perform_get_bind]
  have hOutcome :=
    write_outcome origin
      (codec.settled b.sink delivered.1) (b.sink, b.disk)
  rcases hWrite :
      (Sink.write origin
        (codec.settled b.sink delivered.1)).perform
          (b.sink, b.disk) with
    ⟨outcome, outlet⟩
  rw [hWrite] at hOutcome
  rcases hOutcome with rfl | ⟨later, rfl⟩
  · rw [perform_bind_ok (perform_onSink hWrite)]
    exact ⟨fault, _, rfl⟩
  · rw [perform_bind_error (perform_onSink hWrite)]
    exact ⟨later, _, rfl⟩

/- What decoders that agree deliver is put alike. -/
theorem put_ends
    (hRelation : Bench.Congruent relation)
    (hRelated : relation b c)
    {decode decode' : Bytes → Gzip.Delivery}
    {got : Bytes}
    (hAgrees : (decode got).Agrees (decode' got))
    (origin : String)
    (fault? : Option Fault) :
    Ends relation
      ((put codec origin
          (codec.deliver decode got fault?) >>= fun _ =>
        ensureNotEmpty origin).perform b)
      ((put other origin
          (other.deliver decode' got fault?) >>= fun _ =>
        ensureNotEmpty origin).perform c) := by
  rcases deliver_cases codec other hAgrees fault? with
    ⟨bs, hOne, hTwo⟩ | ⟨⟨_, hOne⟩, ⟨_, hTwo⟩⟩
  · rw [hOne, hTwo]
    refine
      Ends.bind (respects_put hRelation codec origin _)
        hRelated ?_
    intro _ b' c' _ hLater
    exact
      .of_respects (respects_ensureNotEmpty hRelation origin)
        hLater
  · rcases put_faulted hOne b with ⟨_, _, hPut⟩
    rcases put_faulted hTwo c with ⟨_, _, hPut'⟩
    rw [perform_bind_error hPut, perform_bind_error hPut']
    exact .error (.faulted origin _ _) _ _

end Putting

------------------------------------------------------------
-- Single Ways
------------------------------------------------------------

/- Benches that differ in their reports fetch alike. -/
theorem respects_fetch_linked :
    Respects (Linked (· = ·)) fetch := by
  unfold fetch
  refine (Linked.respects_onSource _).bind fun _ => ?_
  refine (Linked.respects_onSink _).bind fun _ => ?_
  exact Linked.respects_onSource _

/- What was fetched has begun with an output file. -/
theorem canBegin_of_fetch
    {b c : Bench}
    {got : Bytes × Option Fault}
    (hFetch : fetch.perform b = (.ok got, c)) :
    b.CanBegin := by
  intro out hOut
  unfold fetch at hFetch
  rcases bind_ok_cases hFetch with
    ⟨from', first, hOpened, hRest⟩
  rcases bind_ok_cases hRest with ⟨_, second, hBegin, -⟩
  rcases onSource_eq hOpened with ⟨hOpened, hSink⟩
  have hTicks := (Source.kept_opened (b.source, b.disk)).disk
  rw [hOpened] at hTicks
  have hBegun := (onSink_eq hBegin).1
  rw [hSink, hOut, Sink.perform_begin_file] at hBegun
  rcases hCreate : first.disk.createFile out with
    ⟨reply, made⟩
  rw [hCreate] at hBegun
  cases reply with
  | error fault => cases hBegun
  | ok place =>
      rcases Disk.admits_of_createFile hCreate with
        ⟨hLeads, hFree, hPlain⟩
      refine ⟨place, hTicks.symm.grows.locate hLeads, ?_, hPlain⟩
      unfold Disk.holdsDirectory at hFree ⊢
      rwa [hTicks.node?_eq] at hFree

section Ways

variable {codec other : Codec} {b c : Bench} {data : Bytes}

/-
  The direct ways fail in the same manner before anything is
  put, or an output can be begun and they end alike.
-/
theorem direct_cases
    (hLinked : Linked (· = ·) b c)
    (hFeeds : b.source.Feeds b.disk data)
    (hAgrees :
      ∀ front, front <+: data → codec.AgreesOn other front) :
    (∃ failure failed failed',
      (direct codec).perform b = (.error failure, failed) ∧
        (direct other).perform c =
          (.error failure, failed') ∧
        Linked (· = ·) failed failed') ∨
      b.CanBegin ∧
        Ends (Linked (· = ·)) ((direct codec).perform b)
          ((direct other).perform c) := by
  have hFetched := respects_fetch_linked b c hLinked
  rcases hOne : fetch.perform b with ⟨outcome, fetched⟩
  rcases hTwo : fetch.perform c with ⟨outcome', fetched'⟩
  rw [hOne, hTwo] at hFetched
  rcases hFetched with ⟨rfl, hFetched⟩
  rw [direct_eq, direct_eq]
  cases outcome' with
  | error failure =>
      rcases logged_eq directName
          (perform_bind_error hOne _) with
        ⟨change, hLogged⟩
      rcases logged_eq directName
          (perform_bind_error hTwo _) with
        ⟨change', hLogged'⟩
      exact
        .inl ⟨failure, _, _, hLogged, hLogged',
          Linked.congruent.telling _ _ hFetched change
            change'⟩
  | ok got =>
      refine .inr ⟨canBegin_of_fetch hOne, ?_⟩
      apply Ends.logged Linked.congruent
      rw [perform_bind_ok hOne, perform_bind_ok hTwo]
      exact
        put_ends Linked.congruent hFetched
          (hAgrees got.1 (fetch_front hFeeds hOne).1).gunzip
          directName got.2

/- So the direct ways end alike. -/
theorem direct_ends
    (hLinked : Linked (· = ·) b c)
    (hFeeds : b.source.Feeds b.disk data)
    (hAgrees :
      ∀ front, front <+: data → codec.AgreesOn other front) :
    Ends (Linked (· = ·)) ((direct codec).perform b)
      ((direct other).perform c) := by
  rcases direct_cases hLinked hFeeds hAgrees with
    ⟨failure, failed, failed', hOne, hTwo, -⟩ | ⟨-, hEnds⟩
  · rw [hOne, hTwo]
    exact .error (.refl failure) failed failed'
  · exact hEnds

/-
  The ways without checks end alike if the same was read for
  them.
-/
theorem withoutCrc_ends
    {relation : Bench → Bench → Prop}
    {outcome : Outcome Bytes}
    {read read' : Bench}
    (hRelation : Bench.Congruent relation)
    (hOne :
      (onSource Source.readAll).perform b = (outcome, read))
    (hTwo :
      (onSource Source.readAll).perform c = (outcome, read'))
    (hRelated : relation read read')
    (hAgrees :
      ∀ got, outcome = .ok got → codec.AgreesOn other got) :
    Ends relation ((withoutCrc codec).perform b)
      ((withoutCrc other).perform c) := by
  rw [withoutCrc_eq, withoutCrc_eq]
  apply Ends.logged hRelation
  cases outcome with
  | error failure =>
      rw [perform_bind_error hOne, perform_bind_error hTwo]
      exact .error (.refl failure) read read'
  | ok got =>
      rw [perform_bind_ok hOne, perform_bind_ok hTwo]
      have hDebug : ∀ message,
          Respects relation (debug message) :=
        fun message =>
          .of_modify fun b c hLater =>
            hRelation.telling b c hLater _ _
      have hRefill : ∀ b c, relation b c →
          Ends relation
            ((refill codec (payload got)).perform b)
            ((refill other (payload got)).perform c) := by
        intro b c hRelated
        refine Ends.bind (hDebug _) hRelated ?_
        intro _ b c _ hRelated
        refine Ends.bind (hRelation.sink .reset) hRelated ?_
        intro _ b c _ hRelated
        refine Ends.bind (hRelation.sink .begin) hRelated ?_
        intro _ b c _ hRelated
        exact
          put_ends hRelation hRelated
            (hAgrees got rfl).inflate withoutCrcName none
      unfold recover
      refine Ends.bind (fun _ _ hLater => ⟨rfl, hLater⟩)
        hRelated ?_
      intro framing b c _ hRelated
      split
      · refine Ends.bind (hDebug _) hRelated ?_
        intro _ b c _ hRelated
        exact hRefill b c hRelated
      · exact hRefill b c hRelated

/- In particular if the benches differ in their reports. -/
theorem withoutCrc_ends_linked
    (hLinked : Linked (· = ·) b c)
    (hAgrees :
      ∀ got later,
        (onSource Source.readAll).perform b =
            (.ok got, later) →
        codec.AgreesOn other got) :
    Ends (Linked (· = ·)) ((withoutCrc codec).perform b)
      ((withoutCrc other).perform c) := by
  have hRead :=
    Linked.respects_onSource Source.readAll b c hLinked
  rcases hOne : (onSource Source.readAll).perform b with
    ⟨outcome, read⟩
  rcases hTwo : (onSource Source.readAll).perform c with
    ⟨outcome', read'⟩
  rw [hOne, hTwo] at hRead
  rcases hRead with ⟨rfl, hRead⟩
  refine withoutCrc_ends Linked.congruent hOne hTwo hRead ?_
  rintro got rfl
  exact hAgrees got read hOne

end Ways

end Decompression

------------------------------------------------------------
-- What Failed Attempts Leave
------------------------------------------------------------

/- Reading files leaves outlets alike. -/
theorem Outlet.Alike.ticks
    {s t : Sink}
    {d e d' e' : Disk}
    (hAlike : Outlet.Alike (s, d) (t, e))
    (hSteady : d.trouble.Steady)
    (hOne : d.Ticks d')
    (hTwo : e.Ticks e') :
    Outlet.Alike (s, d') (t, e') := by
  cases hAlike with
  | file path hDisks =>
      have hOther : e.trouble.Steady :=
        hDisks.trouble ▸ hSteady
      exact
        .file path
          (((hOne.alike hSteady).symm.trans hDisks).trans
            (hTwo.alike hOther))
  | stream _ _ hServes hOther hMedium hCarries hAlso =>
      exact
        .stream d' e' hServes hOther hMedium hCarries hAlso

/- The same file, or copies of the same input. -/
inductive Source.Matches : Source → Source → Prop where
  | file
      (path : Path) :
      Source.Matches (.file path) (.file path)
  | copy
      (t u : Tape)
      (start begun : Nat)
      (data : Bytes) :
      Source.Matches (.stream t start (some data))
        (.stream u begun (some data))

namespace Source

/- An input that was made ready to be read again is one. -/
theorem preserve_matches
    {i later : Inlet}
    (hPreserve : preserve.perform i = (.ok (), later)) :
    later.1.Matches later.1 := by
  rcases i with ⟨source, disk⟩
  unfold preserve at hPreserve
  rw [perform_get_bind] at hPreserve
  cases source with
  | file path =>
      cases hPreserve
      exact .file path
  | stream tape start copy? =>
      cases copy? with
      | some data =>
          cases hPreserve
          exact .copy tape tape start start data
      | none =>
          dsimp only at hPreserve
          rcases bind_ok_cases hPreserve with
            ⟨got, ⟨source', read⟩, hRead, hEnd⟩
          have hKept :=
            kept_readAll (.stream tape start none, disk)
          rw [hRead] at hKept
          rcases hKept.stream tape start none rfl with
            ⟨told, rfl, -⟩
          cases hEnd
          exact .copy told told start start got

namespace Matches

variable {source s t : Source} {d e : Disk} {data : Bytes}

/- It stays the same in the hands of both engines. -/
theorem persists
    (hSource : source.Matches source)
    (hOne : source.Persists s)
    (hTwo : source.Persists t) :
    s.Matches t := by
  generalize hSame : source = other at hSource
  cases hSource with
  | file path =>
      rw [hOne.file path hSame, hTwo.file path hSame]
      exact .file path
  | copy tape _ start _ data =>
      rcases hOne.copy tape start data hSame with
        ⟨told, begun, rfl⟩
      rcases hTwo.copy tape start data hSame with
        ⟨told', begun', rfl⟩
      exact .copy told told' begun begun' data

/- On disks that are alike both hold the input. -/
theorem holds
    (hMatches : s.Matches t)
    (hAlike : d.Alike e)
    (hFeeds : s.Feeds d data) :
    s.Holds d data ∧ t.Holds e data := by
  cases hMatches with
  | file path =>
      cases hFeeds with
      | file hShows =>
          rcases Disk.fileAt?_cases hShows with
            ⟨place, modified, hLeads, hNode, hPlain⟩
          exact
            ⟨.file hLeads hNode hPlain,
              .file ((hAlike.locate_eq path).trans hLeads)
                ((hAlike.node?_eq place).trans hNode) hPlain⟩
  | copy t u start begun _ =>
      cases hFeeds
      exact ⟨.copy t start data d, .copy u begun data e⟩

end Matches

end Source

namespace Bench

/-
  Nothing is refused on the disk, nor by a tape that is
  written to, whose output starts in its range.
-/
structure IsCalm (b : Bench) : Prop where
  permits : b.disk.trouble.Permits
  opens : b.disk.trouble.Opens
  tape :
    ∀ tape start, b.sink = .stream tape start →
      tape.Serves ∧ start < tape.medium.bound

section Attempts

variable {b c r s : Bench}

/- Where an output can be begun, attempts may go astray. -/
theorem Linked.astray
    (hLinked : Linked (· = ·) b c)
    (hCalm : b.IsCalm)
    (hBegin : b.CanBegin) :
    Mates Outlet.Astray b c := by
  unfold Mates
  rw [hLinked.disk, ← hLinked.sink]
  cases hSink : b.sink with
  | file path =>
      rcases hBegin path hSink with ⟨place, hAdmits⟩
      exact .file hAdmits hCalm.permits (.refl hAdmits.free)
  | stream tape start =>
      rcases hCalm.tape tape start hSink with
        ⟨hServes, hBound⟩
      exact .stream _ _ hServes hServes rfl hBound

/- If their outlets are alike, so are their disks. -/
theorem Linked.disks_alike
    (hLinked : Linked (· = ·) b c)
    (hSteady : b.disk.trouble.Steady)
    (hOne : Runs b r)
    (hTwo : Runs c s)
    (hMates : Mates Outlet.Alike r s) :
    r.disk.Alike s.disk := by
  cases hSink : b.sink with
  | file path =>
      unfold Mates at hMates
      rw [(hOne.file path hSink).1,
        (hTwo.file path (hLinked.sink ▸ hSink)).1] at hMates
      cases hMates with
      | file _ hDisks => exact hDisks
  | stream tape start =>
      have hFirst := (hOne.stream tape start hSink).2
      have hSecond :=
        (hTwo.stream tape start
          (hLinked.sink ▸ hSink)).2
      rw [hLinked.disk] at hSecond
      exact
        (hFirst.alike hSteady).symm.trans
          (hSecond.alike hSteady)

/- Attempts that went astray are made alike by a reset. -/
theorem Linked.reset_alike
    (hLinked : Linked (· = ·) b c)
    (hCalm : b.IsCalm)
    (hBegin : b.CanBegin)
    (hOne : Runs b r)
    (hTwo : Runs c s) :
    ∃ r' s',
      (onSink Sink.reset).perform r = (.ok (), r') ∧
        (onSink Sink.reset).perform s = (.ok (), s') ∧
        Runs b r' ∧ Runs c s' ∧
        Mates Outlet.Alike r' s' := by
  have hFirst := hLinked.astray hCalm hBegin
  have hSecond := Mates.astray_runs hFirst hTwo
  have hAstray := Mates.astray_runs hSecond.symm hOne
  rcases hAstray.symm.reset with
    ⟨o, p, hReset, hReset', hAlike⟩
  have hMore := runs_upheld.sink .reset r
  have hMore' := runs_upheld.sink .reset s
  rw [perform_onSink hReset] at hMore
  rw [perform_onSink hReset'] at hMore'
  exact
    ⟨_, _, perform_onSink hReset, perform_onSink hReset',
      hOne.trans hMore, hTwo.trans hMore', hAlike⟩

end Attempts

end Bench

------------------------------------------------------------
-- Retries
------------------------------------------------------------

namespace Decompression

open Bench

section Retries

variable {codec other : Codec} {b c : Bench} {data : Bytes}

/- What is read after a reset is the input or nothing. -/
theorem agrees_of_reset
    {failed reset : Bench}
    (hFeeds : b.source.Feeds b.disk data)
    (hAgrees :
      ∀ front, front <+: data → codec.AgreesOn other front)
    (hMinds : Minds b failed)
    (hReset :
      (onSink Sink.reset).perform failed = (.ok (), reset)) :
    ∃ front,
      reset.source.Feeds reset.disk front ∧
        codec.AgreesOn other front := by
  rcases feeds_of_reset (hMinds.feeds data hFeeds) hReset with
    hStill | hEmpty
  · exact ⟨data, hStill, hAgrees data (List.prefix_refl data)⟩
  · exact ⟨[], hEmpty, hAgrees [] List.nil_prefix⟩

/-
  After attempts that have failed before anything was put,
  the fallbacks end alike.
-/
theorem fallback_ends_linked
    {failed failed' : Bench}
    (hFeeds : b.source.Feeds b.disk data)
    (hAgrees :
      ∀ front, front <+: data → codec.AgreesOn other front)
    (hMinds : Minds b failed)
    (hLinked : Linked (· = ·) failed failed') :
    Ends (Linked (· = ·)) ((fallback codec).perform failed)
      ((fallback other).perform failed') := by
  have hTold :=
    minds_upheld.telling failed
      (·.info "retrying without crc validation") rfl rfl
  have hMinded := hMinds.trans hTold
  unfold fallback
  rw [perform_modify_bind, perform_modify_bind]
  refine
    Ends.bind (Linked.respects_onSink Sink.reset)
      (Linked.congruent.telling _ _ hLinked _ _) ?_
  intro _ reset reset' hReset hLater
  apply Ends.wrapped
  refine withoutCrc_ends_linked hLater ?_
  intro got later hRead
  rcases agrees_of_reset hFeeds hAgrees hMinded hReset with
    ⟨front, hFront, hAgreed⟩
  rw [hFront.readAll_ok (onSource_eq hRead).1]
  exact hAgreed

/-
  After attempts that have put different things the fallbacks
  end alike, for they start from outputs that were reset.
-/
theorem fallback_ends
    {failed failed' : Bench}
    (hLinked : Linked (· = ·) b c)
    (hCalm : b.IsCalm)
    (hBegin : b.CanBegin)
    (hSource : b.source.Matches b.source)
    (hFeeds : b.source.Feeds b.disk data)
    (hAgrees :
      ∀ front, front <+: data → codec.AgreesOn other front)
    (hMinds : Minds b failed)
    (hOne : Runs b failed)
    (hTwo : Runs c failed') :
    Ends (Mates Outlet.Alike)
      ((fallback codec).perform failed)
      ((fallback other).perform failed') := by
  have hSteady := hCalm.permits.steady
  have hTold :=
    minds_upheld.telling failed
      (·.info "retrying without crc validation") rfl rfl
  have hFirst :=
    runs_upheld.telling failed
      (·.info "retrying without crc validation") rfl rfl
  have hSecond :=
    runs_upheld.telling failed'
      (·.info "retrying without crc validation") rfl rfl
  rcases hLinked.reset_alike hCalm hBegin
      (hOne.trans hFirst) (hTwo.trans hSecond) with
    ⟨r, s, hReset, hReset', hRuns, hRuns', hMates⟩
  -- Both sources hold the input, or nothing if it was emptied.
  rcases agrees_of_reset hFeeds hAgrees (hMinds.trans hTold)
      hReset with
    ⟨front, hFront, hAgreed⟩
  have hDisks :=
    hLinked.disks_alike hSteady hRuns hRuns' hMates
  have hSources :=
    hSource.persists hRuns.source
      (hLinked.source ▸ hRuns'.source)
  rcases hSources.holds hDisks hFront with ⟨hHolds, hHolds'⟩
  have hTrouble : r.disk.trouble = b.disk.trouble :=
    hRuns.trouble hSteady hBegin
  have hOpens : r.disk.trouble.Opens := hTrouble ▸ hCalm.opens
  have hOpens' : s.disk.trouble.Opens :=
    hDisks.trouble ▸ hOpens
  rcases hHolds.readAll_ok
      (Source.opens_of_trouble _ hOpens) with
    ⟨read, hRead⟩
  rcases hHolds'.readAll_ok
      (Source.opens_of_trouble _ hOpens') with
    ⟨read', hRead'⟩
  have hTicks := (Source.kept_readAll (r.source, r.disk)).disk
  have hTicks' := (Source.kept_readAll (s.source, s.disk)).disk
  rw [hRead] at hTicks
  rw [hRead'] at hTicks'
  have hStill :
      Outlet.Alike (r.sink, read.2) (s.sink, read'.2) :=
    Outlet.Alike.ticks hMates
      (hTrouble ▸ hSteady) hTicks hTicks'
  unfold fallback
  rw [perform_modify_bind, perform_modify_bind,
    perform_bind_ok hReset, perform_bind_ok hReset']
  apply Ends.wrapped
  refine
    withoutCrc_ends Mates.congruent_alike
      (perform_onSource hRead) (perform_onSource hRead')
      hStill ?_
  rintro got ⟨⟩
  exact hAgreed

end Retries

end Decompression

------------------------------------------------------------
-- Algorithms
------------------------------------------------------------

/- The outlets show the same, which is counted alike. -/
structure Outlet.Level (o p : Outlet) : Prop where
  output : ∀ counts, p.output counts = o.output counts
  counted : p.counted = o.counted

namespace Outlet.Level

variable {o p : Outlet}

theorem of_alike (hAlike : Outlet.Alike o p) :
    Outlet.Level o p where
  output := hAlike.output_eq
  counted := by
    unfold Outlet.counted
    rw [(Sink.respects_alike .written o p hAlike).1]

end Outlet.Level

/- So do those of benches that differ in their reports. -/
theorem Bench.Linked.level
    {b c : Bench}
    (hLinked : Linked (· = ·) b c) :
    Mates Outlet.Level b c := by
  unfold Mates
  rw [hLinked.disk, ← hLinked.sink]
  exact ⟨fun _ => rfl, rfl⟩

namespace Decompression

open Bench

section Algorithms

variable {codec other : Codec} {b c : Bench} {data : Bytes}

/- A retry ends alike, whatever its direct attempt has left. -/
theorem withRetry_ends
    (hLinked : Linked (· = ·) b c)
    (hCalm : b.IsCalm)
    (hFeeds : b.source.Feeds b.disk data)
    (hAgrees :
      ∀ front, front <+: data → codec.AgreesOn other front) :
    Ends (Mates Outlet.Level) ((withRetry codec).perform b)
      ((withRetry other).perform c) := by
  have hPreserved :=
    Linked.respects_onSource Source.preserve b c hLinked
  rw [withRetry_eq, withRetry_eq]
  rcases hOne : (onSource Source.preserve).perform b with
    ⟨outcome, kept⟩
  rcases hTwo : (onSource Source.preserve).perform c with
    ⟨outcome', kept'⟩
  rw [hOne, hTwo] at hPreserved
  rcases hPreserved with ⟨rfl, hKept⟩
  cases outcome' with
  | error failure =>
      rw [perform_bind_error hOne, perform_bind_error hTwo]
      exact .error (.refl failure) kept kept'
  | ok _ =>
      rw [perform_bind_ok hOne, perform_bind_ok hTwo]
      rcases onSource_eq hOne with ⟨hPreserve, hSink⟩
      have hTicks :=
        (Source.ticks_preserve (b.source, b.disk)).disk
      rw [hPreserve] at hTicks
      have hStill : kept.source.Feeds kept.disk data :=
        hFeeds.preserve_ok hPreserve
      have hSource : kept.source.Matches kept.source :=
        Source.preserve_matches hPreserve
      have hCalmKept : kept.IsCalm :=
        { permits := hTicks.settings.trouble ▸ hCalm.permits
          opens := hTicks.settings.trouble ▸ hCalm.opens
          tape := hSink ▸ hCalm.tape }
      have hMinds := keeps_direct minds_upheld codec kept
      have hRuns := keeps_direct runs_upheld codec kept
      have hRuns' := keeps_direct runs_upheld other kept'
      have hCases := direct_cases hKept hStill hAgrees
      rcases hDirect : (direct codec).perform kept with
        ⟨first, failed⟩
      rcases hDirect' : (direct other).perform kept' with
        ⟨first', failed'⟩
      rw [hDirect] at hMinds hRuns
      rw [hDirect'] at hRuns'
      rw [hDirect, hDirect'] at hCases
      rcases hCases with
        ⟨failure, _, _, hFails, hFails', hSame⟩ |
          ⟨hBegin, hEnds⟩
      · cases hFails
        cases hFails'
        rw [perform_tryCatch_error hDirect,
          perform_tryCatch_error hDirect']
        exact
          (fallback_ends_linked hStill hAgrees hMinds
            hSame).mono fun _ _ => Linked.level
      · cases hEnds with
        | ok hSame =>
            rw [perform_tryCatch_ok hDirect,
              perform_tryCatch_ok hDirect']
            exact .ok hSame.level
        | error hAkin _ _ =>
            rw [perform_tryCatch_error hDirect,
              perform_tryCatch_error hDirect']
            exact
              (fallback_ends hKept hCalmKept hBegin hSource
                hStill hAgrees hMinds hRuns hRuns').mono
                fun _ _ => Outlet.Level.of_alike

/- So every algorithm ends alike. -/
theorem algorithm_ends
    (which : Algorithm)
    (hLinked : Linked (· = ·) b c)
    (hCalm : b.IsCalm)
    (hFeeds : b.source.Feeds b.disk data)
    (hAgrees :
      ∀ front, front <+: data → codec.AgreesOn other front) :
    Ends (Mates Outlet.Level)
      ((algorithm codec which).perform b)
      ((algorithm other which).perform c) := by
  have hLevel :
      ∀ b c : Bench, Linked (· = ·) b c →
        Mates Outlet.Level b c :=
    fun _ _ => Linked.level
  cases which with
  | direct =>
      exact (direct_ends hLinked hFeeds hAgrees).mono hLevel
  | withoutCrc =>
      refine (withoutCrc_ends_linked hLinked ?_).mono hLevel
      intro got later hRead
      rw [hFeeds.readAll_ok (onSource_eq hRead).1]
      exact hAgrees data (List.prefix_refl data)
  | withRetry =>
      exact withRetry_ends hLinked hCalm hFeeds hAgrees

end Algorithms

------------------------------------------------------------
-- Whole Decompressions
------------------------------------------------------------

/-
  Both have succeeded or failed with failures of one kind,
  with the same framing and the same output of a success.
-/
structure Account.Agrees (a b : Account) : Prop where
  verdict : a.verdict.Akin b.verdict
  header : b.header = a.header
  footer : b.footer = a.footer
  output : b.output = a.output

section Counts

variable {codec : Codec} {options : DecompressionOptions}
variable {source : Source} {tape : Tape} {disk : Disk}

/- After a failure no bytes are said to have been written. -/
theorem bytesWritten_of_failure
    {failure : Failure}
    (hFails :
      (account codec options source (.tape tape)
        disk).verdict = .failed failure) :
    (toTape codec options source tape disk).bytesWritten =
      0 := by
  rcases run_stream codec options
      (operation codec.mode source "stream") source tape 0
      disk with
    ⟨-, told, start, hSink, -⟩
  unfold account reportOn at hFails
  dsimp only at hFails
  rw [toTape_eq hSink] at hFails ⊢
  refine if_neg fun hSuccess => ?_
  cases (Report.success_iff.mp hSuccess).symm.trans hFails

/- After a success they are counted. -/
theorem bytesWritten_of_tried
    {ready tried : Bench}
    {n : Nat}
    (hReady :
      preparation.perform
          (begun codec options source (.tape tape) disk) =
        (.ok (), ready))
    (hTried :
      (algorithm codec options.algorithm).perform ready =
        (.ok n, tried)) :
    (toTape codec options source tape disk).bytesWritten =
      Outlet.counted (tried.sink, tried.disk) := by
  rcases run_stream codec options
      (operation codec.mode source "stream") source tape 0
      disk with
    ⟨-, told, start, hStream, -⟩
  rcases run_of_ok hReady hTried with
    ⟨hVerdict, hDisk, hSink⟩
  dsimp only [Target.sink, Target.name]
    at hVerdict hDisk hSink
  have hTold : .stream told start = tried.sink :=
    hStream.symm.trans hSink
  rw [toTape_eq hStream, ← hTold, ← hDisk]
  exact if_pos (Report.success_iff.mpr hVerdict)

end Counts

section Engines

variable {source : Source} {target : Target} {disk : Disk}

/- Where nothing is refused, nothing is after a preparation. -/
theorem calm_of_prepared
    {codec : Codec}
    {options : DecompressionOptions}
    {ready : Bench}
    (hPermits : disk.trouble.Permits)
    (hOpens : disk.trouble.Opens)
    (hServes :
      ∀ tape, target = .tape tape → tape.Serves)
    (hReady :
      preparation.perform
          (begun codec options source target disk) =
        (.ok (), ready)) :
    ready.IsCalm := by
  have hPrepares :=
    prepares_preparation
      (begun codec options source target disk)
  rw [hReady] at hPrepares
  have hTrouble : ready.disk.trouble = disk.trouble :=
    hPrepares.outlet.disk.settings.trouble
  refine ⟨hTrouble ▸ hPermits, hTrouble ▸ hOpens, ?_⟩
  intro tape start hStream
  cases target with
  | file path =>
      rcases prepared_file hReady with ⟨full, hFull⟩
      cases hFull.symm.trans hStream
  | tape given =>
      rcases preparation_stream_ok rfl hReady with
        ⟨told, hTold, hWrote, -, hBound⟩
      cases hTold.symm.trans hStream
      rw [hWrote.follows.medium]
      exact ⟨(hServes given rfl).follows hWrote.follows, hBound⟩

/- After failures of both the same number is counted. -/
theorem counts_of_failures
    {codec other : Codec}
    {options : DecompressionOptions}
    {f g : Failure}
    (hLeft :
      (account codec options source target disk).verdict =
        .failed f)
    (hRight :
      (account other options source target disk).verdict =
        .failed g) :
    ∀ tape, target = .tape tape →
      (toTape other options source tape disk).bytesWritten =
        (toTape codec options source tape
          disk).bytesWritten := by
  rintro tape rfl
  rw [bytesWritten_of_failure hLeft,
    bytesWritten_of_failure hRight]

/- What ends alike is told of alike. -/
theorem agrees_of_ends
    {codec other : Codec}
    {options : DecompressionOptions}
    {ready ready' : Bench}
    (hOne :
      preparation.perform
          (begun codec options source target disk) =
        (.ok (), ready))
    (hTwo :
      preparation.perform
          (begun other options source target disk) =
        (.ok (), ready'))
    (hReady : Echoes ready ready')
    (hEnds :
      Ends (Mates Outlet.Level)
        ((algorithm codec options.algorithm).perform ready)
        ((algorithm other options.algorithm).perform
          ready')) :
    Account.Agrees
        (account codec options source target disk)
        (account other options source target disk) ∧
      ∀ tape, target = .tape tape →
        (toTape other options source tape
            disk).bytesWritten =
          (toTape codec options source tape
            disk).bytesWritten := by
  have hHeader := congrArg Snapshot.header hReady.snapshot
  have hFooter := congrArg Snapshot.footer hReady.snapshot
  rcases hTried :
      (algorithm codec options.algorithm).perform ready with
    ⟨outcome, tried⟩
  rcases hTried' :
      (algorithm other options.algorithm).perform
        ready' with
    ⟨outcome', tried'⟩
  rw [hTried, hTried'] at hEnds
  have hLeft := account_tried hOne hTried
  have hRight := account_tried hTwo hTried'
  cases hEnds with
  | ok hLevel =>
      refine ⟨?_, ?_⟩
      · rw [hLeft, hRight]
        exact
          ⟨.succeeded, hHeader, hFooter,
            hLevel.output true⟩
      · rintro tape rfl
        rw [bytesWritten_of_tried hOne hTried,
          bytesWritten_of_tried hTwo hTried']
        exact hLevel.counted
  | error hAkin _ _ =>
      refine
        ⟨?_,
          counts_of_failures
            (congrArg Account.verdict hLeft)
            (congrArg Account.verdict hRight)⟩
      rw [hLeft, hRight]
      exact ⟨.failed hAkin, hHeader, hFooter, rfl⟩

end Engines

end Decompression

end ArchiveRescue
