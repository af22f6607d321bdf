import Mathlib
import ArchiveRescue.Proofs.Bench

/-
  Outlets that differ in nothing an algorithm can tell and
  nobody looks for: files on disks that are alike, and tapes
  that carry the same output, whatever stands around it.
  Writing goes alike on them.

  Key definitions include:
    * `Outlet.Alike`
    * `Outlet.Astray`
    * `Bench.Mates`

  Main statements:
    * `Sink.respects_alike`
    * `Outlet.Astray.reset`
    * `Bench.Mates.congruent_alike`
    * `Decompression.refill_alike`
-/

namespace ArchiveRescue

open Stage

------------------------------------------------------------
-- Outlets That Are Alike
------------------------------------------------------------

/-
  The same file on disks that are alike, or two tapes that
  refuse nothing and carry the same output from the start on.
  Of the disks nothing is asked in that case.
-/
inductive Outlet.Alike : Outlet → Outlet → Prop where
  | file
      (path : Path)
      {d e : Disk}
      (disks : d.Alike e) :
      Outlet.Alike (.file path, d) (.file path, e)
  | stream
      {t u : Tape}
      {start : Nat}
      {output : Bytes}
      (d e : Disk)
      (serves : t.Serves)
      (serves' : u.Serves)
      (medium : u.medium = t.medium)
      (carries : t.Carries start output)
      (carries' : u.Carries start output) :
      Outlet.Alike (.stream t start, d) (.stream u start, e)

namespace Sink

/- Every use of files that are alike goes alike. -/
theorem respects_file
    {α : Type}
    {stage : Stage Outlet α}
    (hUse : Use stage)
    (path : Path)
    {d e : Disk}
    (hAlike : d.Alike e) :
    (stage.perform (.file path, e)).1 =
        (stage.perform (.file path, d)).1 ∧
      Outlet.Alike (stage.perform (.file path, d)).2
        (stage.perform (.file path, e)).2 := by
  have hCreate := hAlike.createFile path
  have hBegin :
      (begin.perform (.file path, e)).1 =
          (begin.perform (.file path, d)).1 ∧
        Outlet.Alike (begin.perform (.file path, d)).2
          (begin.perform (.file path, e)).2 := by
    rw [perform_begin_file, perform_begin_file, hCreate.1]
    exact ⟨rfl, .file path hCreate.2⟩
  cases hUse with
  | begin => exact hBegin
  | reset =>
      rw [perform_reset_file, perform_reset_file]
      exact hBegin
  | write origin bs =>
      by_cases hNone : bs = []
      · subst hNone
        exact ⟨rfl, .file path hAlike⟩
      · have hLocate := hAlike.locate_eq path
        cases hLeads : d.locate path with
        | error fault =>
            rw [hLeads] at hLocate
            rw [perform_write_lost path d origin hNone hLeads,
              perform_write_lost path e origin hNone hLocate]
            exact ⟨rfl, .file path hAlike⟩
        | ok place =>
            rw [hLeads] at hLocate
            rw [perform_write_file path d origin hNone hLeads,
              perform_write_file path e origin hNone hLocate]
            have hAppend :=
              hAlike.perform (.append place bs)
            rw [hAppend.1]
            exact ⟨rfl, .file path hAppend.2⟩
  | flush origin => exact ⟨rfl, .file path hAlike⟩
  | written =>
      have hSize := hAlike.fileSize_eq path
      unfold written
      rw [perform_get_bind, perform_get_bind]
      dsimp only
      rw [perform_get_bind, perform_get_bind]
      dsimp only
      rw [hSize]
      split
      · exact ⟨rfl, .file path hAlike⟩
      · exact ⟨rfl, .file path hAlike⟩
      · exact ⟨rfl, .file path hAlike⟩
  | discard =>
      have hRemove := hAlike.removeFile path
      rw [perform_discard_file, perform_discard_file,
        hRemove.1]
      exact ⟨rfl, .file path hRemove.2⟩

section Streams

variable {t u : Tape} {start : Nat} {output : Bytes}

/- Moving to the start goes alike. -/
theorem respects_reset_stream
    (d e : Disk)
    (hServes : t.Serves)
    (hOther : u.Serves)
    (hMedium : u.medium = t.medium)
    (hCarries : t.Carries start output)
    (hAlso : u.Carries start output) :
    (reset.perform (.stream u start, e)).1 =
        (reset.perform (.stream t start, d)).1 ∧
      Outlet.Alike (reset.perform (.stream t start, d)).2
        (reset.perform (.stream u start, e)).2 := by
  rw [perform_reset_stream, perform_reset_stream]
  rcases hServes.seek_eq (.fromStart start) with
    ⟨t', hSeek, hFollows, hBytes, hPosition⟩
  rcases hOther.seek_eq (.fromStart start) with
    ⟨u', hSeek', hFollows', hBytes', hPosition'⟩
  have hGoal :
      u.goalOf (.fromStart start) =
        t.goalOf (.fromStart start) :=
    rfl
  rw [hGoal, hMedium] at hSeek' hPosition'
  rw [hSeek, hSeek']
  have hLater : u'.medium = t'.medium := by
    rw [hFollows'.medium, hFollows.medium, hMedium]
  refine ⟨rfl, ?_⟩
  by_cases hRange :
      0 ≤ t.goalOf (.fromStart start) ∧
        t.goalOf (.fromStart start) < t.medium.bound
  · rw [if_pos hRange] at hPosition hPosition'
    exact
      .stream d e (hServes.follows hFollows)
        (hOther.follows hFollows') hLater
        ⟨t', hPosition, .refl t'⟩ ⟨u', hPosition', .refl u'⟩
  · rw [if_neg hRange] at hPosition hPosition'
    exact
      .stream d e (hServes.follows hFollows)
        (hOther.follows hFollows') hLater
        (hCarries.nothing
          (.ofNothing hFollows hBytes hPosition))
        (hAlso.nothing
          (.ofNothing hFollows' hBytes' hPosition'))

/- So does every other use. -/
theorem respects_stream
    {α : Type}
    {stage : Stage Outlet α}
    (hUse : Use stage)
    (d e : Disk)
    (hServes : t.Serves)
    (hOther : u.Serves)
    (hMedium : u.medium = t.medium)
    (hCarries : t.Carries start output)
    (hAlso : u.Carries start output) :
    (stage.perform (.stream u start, e)).1 =
        (stage.perform (.stream t start, d)).1 ∧
      Outlet.Alike (stage.perform (.stream t start, d)).2
        (stage.perform (.stream u start, e)).2 := by
  -- Every use ends on tapes that wrote the same bytes more.
  have hLater : ∀ {t' u' : Tape} {more : Bytes},
      t.Wrote t' more → u.Wrote u' more →
      Outlet.Alike (.stream t' start, d)
        (.stream u' start, e) := by
    intro t' u' more hWrote hWrote'
    refine
      .stream d e (hServes.follows hWrote.follows)
        (hOther.follows hWrote'.follows) ?_
        (hCarries.wrote hWrote) (hAlso.wrote hWrote')
    rw [hWrote'.follows.medium, hWrote.follows.medium,
      hMedium]
  cases hUse with
  | begin => exact ⟨rfl, hLater (.refl t) (.refl u)⟩
  | reset =>
      exact respects_reset_stream d e hServes hOther hMedium
        hCarries hAlso
  | discard =>
      rw [perform_discard_stream, perform_discard_stream]
      exact respects_reset_stream d e hServes hOther hMedium
        hCarries hAlso
  | write origin bs =>
      rcases hServes.writeAll_ok bs with
        ⟨t', hWrite, hWrote⟩
      rcases hOther.writeAll_ok bs with
        ⟨u', hWrite', hWrote'⟩
      rw [perform_write_stream, perform_write_stream, hWrite,
        hWrite']
      exact ⟨rfl, hLater hWrote hWrote'⟩
  | flush origin =>
      rcases hServes.flush_ok with ⟨t', hFlush⟩
      rcases hOther.flush_ok with ⟨u', hFlush'⟩
      have hWrote := t.wrote_flush
      have hWrote' := u.wrote_flush
      rw [perform_flush_stream, perform_flush_stream]
      rw [hFlush] at hWrote ⊢
      rw [hFlush'] at hWrote' ⊢
      exact ⟨rfl, hLater hWrote hWrote'⟩
  | written =>
      rcases hServes.tell_eq with ⟨t', hTell, hWrote⟩
      rcases hOther.tell_eq with ⟨u', hTell', hWrote'⟩
      have hPosition : u.position = t.position := by
        rw [hAlso.position, hCarries.position]
      rw [perform_written_stream, perform_written_stream,
        hTell, hTell', hPosition, hMedium]
      exact ⟨rfl, hLater hWrote hWrote'⟩

end Streams

/- So no use can tell outlets apart that are alike. -/
theorem respects_alike
    {α : Type}
    {stage : Stage Outlet α}
    (hUse : Use stage) :
    Respects Outlet.Alike stage := by
  intro o p hAlike
  cases hAlike with
  | file path hDisks => exact respects_file hUse path hDisks
  | stream d e hServes hOther hMedium hCarries hAlso =>
      exact respects_stream hUse d e hServes hOther hMedium
        hCarries hAlso

end Sink

------------------------------------------------------------
-- Outlets That Went Astray
------------------------------------------------------------

/-
  Outlets that become alike when they are reset: the same
  file on disks that differ in that file only, or two tapes
  that may hold anything and stand anywhere.
-/
inductive Outlet.Astray : Outlet → Outlet → Prop where
  | file
      {path : Path}
      {place : Location}
      {d e : Disk}
      (admits : d.Admits path place)
      (permits : d.trouble.Permits)
      (same : d.SameElsewhere place e) :
      Outlet.Astray (.file path, d) (.file path, e)
  | stream
      {t u : Tape}
      {start : Nat}
      (d e : Disk)
      (serves : t.Serves)
      (serves' : u.Serves)
      (medium : u.medium = t.medium)
      (bound : start < t.medium.bound) :
      Outlet.Astray (.stream t start, d) (.stream u start, e)

/- A tape that refuses nothing goes to its start. -/
theorem Sink.reset_serves
    {t : Tape}
    {start : Nat}
    (d : Disk)
    (hServes : t.Serves)
    (hBound : start < t.medium.bound) :
    ∃ told,
      reset.perform (.stream t start, d) =
        (.ok (), (.stream told start, d)) ∧
      t.Follows told ∧
      told.Carries start [] := by
  rcases hServes.seek_eq (.fromStart start) with
    ⟨told, hSeek, hFollows, -, hPosition⟩
  have hRange :
      0 ≤ t.goalOf (.fromStart start) ∧
        t.goalOf (.fromStart start) < t.medium.bound :=
    ⟨Int.natCast_nonneg start, Int.ofNat_lt.mpr hBound⟩
  rw [if_pos hRange] at hSeek hPosition
  refine ⟨told, ?_, hFollows, told, hPosition, .refl told⟩
  rw [perform_reset_stream, hSeek]
  rfl

namespace Outlet.Astray

variable {o p : Outlet}

/- Resetting makes them alike. -/
theorem reset (hAstray : Outlet.Astray o p) :
    ∃ o' p',
      Sink.reset.perform o = (.ok (), o') ∧
        Sink.reset.perform p = (.ok (), p') ∧
        Outlet.Alike o' p' := by
  cases hAstray with
  | @file path place d e hAdmits hPermits hSame =>
      rcases hSame.alike_createFile hAdmits hPermits with
        ⟨made, made', hCreate, hCreate', hAlike⟩
      refine
        ⟨(.file path, made), (.file path, made'), ?_, ?_,
          .file path hAlike⟩
      · rw [Sink.perform_reset_file, Sink.perform_begin_file,
          hCreate]
        rfl
      · rw [Sink.perform_reset_file, Sink.perform_begin_file,
          hCreate']
        rfl
  | @stream t u start d e hServes hOther hMedium hBound =>
      rcases Sink.reset_serves d hServes hBound with
        ⟨t', hReset, hFollows, hCarries⟩
      rcases Sink.reset_serves e hOther (hMedium ▸ hBound) with
        ⟨u', hReset', hFollows', hCarries'⟩
      refine ⟨_, _, hReset, hReset', .stream d e
        (hServes.follows hFollows) (hOther.follows hFollows')
        ?_ hCarries hCarries'⟩
      rw [hFollows'.medium, hFollows.medium, hMedium]

/- This goes both ways. -/
theorem symm (hAstray : Outlet.Astray o p) :
    Outlet.Astray p o := by
  cases hAstray with
  | file hAdmits hPermits hSame =>
      exact
        .file (hSame.admits hAdmits)
          (hSame.settings.trouble ▸ hPermits)
          (hSame.symm hAdmits.free)
  | stream d e hServes hOther hMedium hBound =>
      exact
        .stream e d hOther hServes hMedium.symm
          (hMedium ▸ hBound)

end Outlet.Astray

------------------------------------------------------------
-- Benches
------------------------------------------------------------

namespace Bench

/- Benches are related by what they write to. -/
def Mates
    (link : Outlet → Outlet → Prop)
    (b c : Bench) : Prop :=
  link (b.sink, b.disk) (c.sink, c.disk)

namespace Mates

variable {link : Outlet → Outlet → Prop}

theorem respects_onSink
    {α : Type}
    {stage : Stage Outlet α}
    (hStage : Respects link stage) :
    Respects (Mates link) (onSink stage) :=
  hStage.focus (fun _ _ hMates => hMates)
    (fun _ _ _ _ _ hLater => hLater)

/- On the same outlet writing goes alike. -/
theorem congruent_same :
    Congruent (Mates (· = ·)) where
  settled b c hMates codec bs := by
    have hSink : b.sink = c.sink := congrArg Prod.fst hMates
    rw [hSink]
  sink _ := respects_onSink (.of_eq _)
  telling _ _ hMates _ _ := hMates

/- So it does on outlets that are alike. -/
theorem congruent_alike :
    Congruent (Mates Outlet.Alike) where
  settled := by
    rintro ⟨disk, source, sink, report⟩
      ⟨disk', source', sink', report'⟩ hMates codec bs
    unfold Mates at hMates
    cases hMates with
    | file path hDisks => rfl
    | stream d e hServes hOther hMedium hCarries hAlso =>
        unfold Codec.settled
        cases codec.mode <;> rfl
  sink hUse := respects_onSink (Sink.respects_alike hUse)
  telling _ _ hMates _ _ := hMates

/- Work on a bench does not mend or harm this. -/
theorem astray_runs
    {b c d : Bench}
    (hMates : Mates Outlet.Astray b c)
    (hRuns : Runs c d) :
    Mates Outlet.Astray b d := by
  rcases c with ⟨disk, source, sink, report⟩
  rcases d with ⟨disk', source', sink', report'⟩
  unfold Mates at hMates ⊢
  generalize hOutlet : (b.sink, b.disk) = outlet at hMates ⊢
  cases hMates with
  | @file path place _ _ hAdmits hPermits hSame =>
      rcases hRuns.file path rfl with ⟨hFile, hAlters⟩
      have hSteady : disk.trouble.Steady :=
        hSame.settings.trouble ▸ hPermits.steady
      cases hFile
      exact
        .file hAdmits hPermits
          (hSame.trans
            (hAlters place (hSame.admits hAdmits) hSteady))
  | @stream t u start _ _ hServes hOther hMedium hBound =>
      rcases (hRuns.stream u start rfl).1 with
        ⟨told, hTold, hFollows⟩
      cases hTold
      exact
        .stream _ disk' hServes (hOther.follows hFollows)
          (hFollows.medium.trans hMedium) hBound

end Mates

end Bench

namespace Decompression

open Bench

/-
  What stood on the outlets makes no difference to what is
  written from the start on.
-/
theorem refill_alike
    (codec : Codec)
    (trimmed : Bytes)
    {b c : Bench}
    (hMates : Mates Outlet.Astray b c) :
    ((refill codec trimmed).perform c).1 =
        ((refill codec trimmed).perform b).1 ∧
      Mates Outlet.Alike ((refill codec trimmed).perform b).2
        ((refill codec trimmed).perform c).2 := by
  rcases Outlet.Astray.reset hMates with
    ⟨o, p, hReset, hReset', hAlike⟩
  have hRest :
      Respects (Mates Outlet.Alike)
        ((do
          onSink Sink.begin
          put codec withoutCrcName
            (codec.deliver codec.inflate trimmed none)
          ensureNotEmpty withoutCrcName) :
            Stage Bench Nat) := by
    refine (Mates.congruent_alike.sink .begin).bind ?_
    intro _
    refine (respects_put Mates.congruent_alike _ _ _).bind ?_
    intro _
    exact respects_ensureNotEmpty Mates.congruent_alike _
  unfold refill debug
  rw [perform_modify_bind, perform_modify_bind,
    perform_bind_ok (perform_onSink (b := b.telling _) hReset),
    perform_bind_ok
      (perform_onSink (b := c.telling _) hReset')]
  exact hRest _ _ hAlike

end Decompression

end ArchiveRescue
