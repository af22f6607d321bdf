import Mathlib
import ArchiveRescue.Proofs.Bytes
import ArchiveRescue.Proofs.Tape

/-
  What writing does to a tape.  Bytes that are written in
  pieces are written as a whole.  A tape may refuse to write
  for a while; how it behaves later is decided by its script
  from the calls that it has heard.

  Key definitions include:
    * `Tape.Follows`
    * `Tape.Wrote`
    * `Tape.Carries`
    * `Tape.Moved`
    * `Tape.Undisturbed`
    * `Tape.Serves`

  Main statements:
    * `Bytes.overlay_overlay`
    * `Bytes.overlay_again`
    * `Bytes.slice_overlay`
    * `Tape.writeAll_wrote`
    * `Tape.Serves.writeAll_ok`
    * `Tape.Serves.seek_eq`
-/

namespace ArchiveRescue

------------------------------------------------------------
-- Overlays
------------------------------------------------------------

namespace Bytes

/- What stands in front of and on the bytes written. -/
theorem take_overlay
    (xs : Bytes)
    (start : Nat)
    (ys : Bytes) :
    (overlay xs start ys).take (start + ys.length) =
      fit start xs ++ ys := by
  have hLength :
      start + ys.length = (fit start xs ++ ys).length := by
    rw [List.length_append, length_fit]
  unfold overlay
  rw [hLength, List.take_left]

/- What stands behind them. -/
theorem drop_overlay
    (xs : Bytes)
    (start : Nat)
    (ys : Bytes) :
    (overlay xs start ys).drop (start + ys.length) =
      xs.drop (start + ys.length) := by
  have hLength :
      start + ys.length = (fit start xs ++ ys).length := by
    rw [List.length_append, length_fit]
  unfold overlay
  conv =>
    left
    rw [hLength, List.drop_left, ← hLength]

/- Bytes written one after another are written at once. -/
theorem overlay_overlay
    (xs : Bytes)
    (start : Nat)
    (ys zs : Bytes) :
    overlay (overlay xs start ys) (start + ys.length) zs =
      overlay xs start (ys ++ zs) := by
  have hFront :
      fit (start + ys.length) (overlay xs start ys) =
        fit start xs ++ ys := by
    have hLength : start + ys.length ≤
        (overlay xs start ys).length := by
      unfold overlay
      simp only [List.length_append, length_fit]
      omega
    conv =>
      left
      unfold fit
      rw [take_overlay, Nat.sub_eq_zero_of_le hLength]
    exact List.append_nil _
  have hBack :
      (overlay xs start ys).drop
          (start + ys.length + zs.length) =
        xs.drop (start + (ys ++ zs).length) := by
    rw [← List.drop_drop, drop_overlay, List.drop_drop,
      List.length_append, Nat.add_assoc]
  conv =>
    left
    unfold overlay
  change
    fit (start + ys.length) (overlay xs start ys) ++ zs ++
        (overlay xs start ys).drop
          (start + ys.length + zs.length) =
      fit start xs ++ (ys ++ zs) ++
        xs.drop (start + (ys ++ zs).length)
  rw [hFront, hBack, List.append_assoc (fit start xs)]

/- In front of what was written nothing has changed. -/
theorem fit_overlay
    (xs : Bytes)
    (start : Nat)
    (ys : Bytes) :
    fit start (overlay xs start ys) = fit start xs := by
  have hFront :
      (overlay xs start ys).take start = fit start xs := by
    unfold overlay
    rw [List.append_assoc]
    exact List.take_left' (length_fit start xs)
  have hLength : start ≤ (overlay xs start ys).length := by
    unfold overlay
    simp only [List.length_append, length_fit]
    omega
  conv =>
    left
    unfold fit
    rw [hFront, Nat.sub_eq_zero_of_le hLength]
  exact List.append_nil _

/- Bytes are written over others that were not more. -/
theorem overlay_again
    (xs : Bytes)
    (start : Nat)
    {ys zs : Bytes}
    (hFewer : ys.length ≤ zs.length) :
    overlay (overlay xs start ys) start zs =
      overlay xs start zs := by
  have hBehind :
      (overlay xs start ys).drop (start + zs.length) =
        xs.drop (start + zs.length) := by
    have hSplit :
        start + zs.length =
          start + ys.length + (zs.length - ys.length) := by
      omega
    rw [hSplit, ← List.drop_drop, drop_overlay,
      List.drop_drop]
  conv =>
    left
    unfold overlay
  change
    fit start (overlay xs start ys) ++ zs ++
        (overlay xs start ys).drop (start + zs.length) =
      fit start xs ++ zs ++ xs.drop (start + zs.length)
  rw [fit_overlay, hBehind]

/- What was written is read. -/
theorem slice_overlay
    (xs : Bytes)
    (start : Nat)
    (ys : Bytes) :
    slice (overlay xs start ys) start ys.length = ys :=
  slice_of_append (fit start xs)
    (xs.drop (start + ys.length))
    (List.append_assoc _ _ _) (length_fit start xs) rfl

/- Written from the start on, with old bytes left behind. -/
theorem overlay_zero (xs ys : Bytes) :
    overlay xs 0 ys = ys ++ xs.drop ys.length := by
  unfold overlay fit
  rw [Nat.zero_add, List.take_zero, Nat.zero_sub]
  rfl

end Bytes

namespace Tape

------------------------------------------------------------
-- What a Tape Has Heard
------------------------------------------------------------

/- The second tape is the first one after some more calls. -/
structure Follows (t u : Tape) : Prop where
  script : u.script = t.script
  medium : u.medium = t.medium
  history : ∃ calls, u.history = calls ++ t.history

namespace Follows

variable {t u v : Tape}

theorem refl (t : Tape) : Follows t t :=
  ⟨rfl, rfl, [], rfl⟩

theorem trans
    (hFirst : Follows t u)
    (hSecond : Follows u v) :
    Follows t v := by
  rcases hFirst.history with ⟨calls, hCalls⟩
  rcases hSecond.history with ⟨more, hMore⟩
  refine
    ⟨hSecond.script.trans hFirst.script,
      hSecond.medium.trans hFirst.medium, more ++ calls, ?_⟩
  rw [hMore, hCalls, List.append_assoc]

end Follows

/- A call is heard, whatever the reply. -/
theorem follows_ask
    (t : Tape)
    (call : Call) :
    Follows t (t.ask call).2 ∧
      (t.ask call).2.history = call :: t.history := by
  unfold ask
  dsimp only
  split
  · split
    · exact ⟨⟨rfl, rfl, [call], rfl⟩, rfl⟩
    · exact ⟨⟨rfl, rfl, [call], rfl⟩, rfl⟩
  · exact ⟨⟨rfl, rfl, [call], rfl⟩, rfl⟩

theorem follows_write
    (t : Tape)
    (bs : Bytes) :
    Follows t (t.write bs).2 := by
  have hAsk :=
    (t.follows_ask (.write t.position bs.length)).1
  unfold write
  split
  next hRefused => rwa [hRefused] at hAsk
  next hTold =>
    rw [hTold] at hAsk
    exact ⟨hAsk.script, hAsk.medium, hAsk.history⟩

theorem follows_flush (t : Tape) : Follows t t.flush.2 := by
  have hAsk := (t.follows_ask (.flush t.position)).1
  unfold flush
  split
  next hRefused => rwa [hRefused] at hAsk
  next hTold => rwa [hTold] at hAsk

theorem follows_seek
    (t : Tape)
    (goal : Seek) :
    Follows t (t.seek goal).2 := by
  have hAsk := (t.follows_ask (.seek t.position goal)).1
  unfold seek
  split
  next hRefused => rwa [hRefused] at hAsk
  next hTold =>
    rw [hTold] at hAsk
    dsimp only
    split
    · exact ⟨hAsk.script, hAsk.medium, hAsk.history⟩
    · exact hAsk

theorem follows_writeAllUpTo
    (fuel : Nat)
    (t : Tape)
    (bs : Bytes) :
    Follows t (writeAllUpTo fuel t bs).2 := by
  induction fuel generalizing t bs with
  | zero => exact .refl t
  | succ fuel ih =>
      have hWrite := t.follows_write bs
      unfold writeAllUpTo
      split
      · exact .refl t
      · split
        next told hInterrupted =>
          rw [hInterrupted] at hWrite
          exact hWrite.trans (ih told bs)
        next hRefused => rwa [hRefused] at hWrite
        next n told hWritten =>
          rw [hWritten] at hWrite
          exact hWrite.trans (ih told (bs.drop n))

theorem follows_writeAll
    (t : Tape)
    (bs : Bytes) :
    Follows t (t.writeAll bs).2 :=
  follows_writeAllUpTo _ t bs

------------------------------------------------------------
-- What a Tape Has Taken
------------------------------------------------------------

/-
  The second tape is the first one with bytes written over
  what stood at its position and behind.
-/
structure Wrote (t u : Tape) (bs : Bytes) : Prop where
  follows : Follows t u
  position : u.position = t.position + bs.length
  nothing : bs = [] → u.bytes = t.bytes
  something :
    bs ≠ [] → u.bytes = Bytes.overlay t.bytes t.position bs

namespace Wrote

variable {t u v : Tape} {bs : Bytes}

/- Nothing is written where neither bytes nor position move. -/
theorem ofNothing
    (hFollows : Follows t u)
    (hBytes : u.bytes = t.bytes)
    (hPosition : u.position = t.position) :
    Wrote t u [] where
  follows := hFollows
  position := hPosition
  nothing _ := hBytes
  something hSome := absurd rfl hSome

theorem refl (t : Tape) : Wrote t t [] :=
  .ofNothing (.refl t) rfl rfl

/- Bytes are written one after another. -/
theorem trans
    {more : Bytes}
    (hFirst : Wrote t u bs)
    (hSecond : Wrote u v more) :
    Wrote t v (bs ++ more) where
  follows := hFirst.follows.trans hSecond.follows
  position := by
    rw [hSecond.position, hFirst.position,
      List.length_append, Nat.add_assoc]
  nothing hNone := by
    rcases List.append_eq_nil_iff.mp hNone with ⟨hBs, hMore⟩
    rw [hSecond.nothing hMore, hFirst.nothing hBs]
  something hSome := by
    by_cases hMore : more = []
    · have hBs : bs ≠ [] := by
        rintro rfl
        exact hSome hMore
      rw [hSecond.nothing hMore, hFirst.something hBs, hMore,
        List.append_nil]
    · rw [hSecond.something hMore, hFirst.position]
      by_cases hBs : bs = []
      · rw [hFirst.nothing hBs, hBs]
        rfl
      · rw [hFirst.something hBs, Bytes.overlay_overlay]

/- What was written stands where it was written. -/
theorem slice_eq (hWrote : Wrote t u bs) :
    Bytes.slice u.bytes t.position bs.length = bs := by
  by_cases hNone : bs = []
  · rw [hNone]
    exact List.take_zero
  · rw [hWrote.something hNone, Bytes.slice_overlay]

end Wrote

/-
  Some bytes have been written to a tape from the start on,
  and it stands behind them.
-/
def Carries
    (t : Tape)
    (start : Nat)
    (bs : Bytes) : Prop :=
  ∃ first : Tape, first.position = start ∧ first.Wrote t bs

namespace Carries

variable {t u : Tape} {start : Nat} {bs : Bytes}

/- More bytes come behind. -/
theorem wrote
    {more : Bytes}
    (hCarries : t.Carries start bs)
    (hWrote : t.Wrote u more) :
    u.Carries start (bs ++ more) := by
  rcases hCarries with ⟨first, hStart, hFirst⟩
  exact ⟨first, hStart, hFirst.trans hWrote⟩

theorem nothing
    (hCarries : t.Carries start bs)
    (hWrote : t.Wrote u []) :
    u.Carries start bs := by
  have hBoth := hCarries.wrote hWrote
  rwa [List.append_nil] at hBoth

theorem position (hCarries : t.Carries start bs) :
    t.position = start + bs.length := by
  rcases hCarries with ⟨first, rfl, hWrote⟩
  exact hWrote.position

/- The bytes are found there. -/
theorem slice_eq (hCarries : t.Carries start bs) :
    Bytes.slice t.bytes start bs.length = bs := by
  rcases hCarries with ⟨first, rfl, hWrote⟩
  exact hWrote.slice_eq

end Carries

/-
  The second tape is the first one moved to a position.
-/
structure Moved (t u : Tape) (position : Nat) : Prop where
  follows : Follows t u
  bytes : u.bytes = t.bytes
  position : u.position = position

/- Only the last of two moves is seen. -/
theorem Moved.trans
    {t u v : Tape}
    {first second : Nat}
    (hFirst : Moved t u first)
    (hSecond : Moved u v second) :
    Moved t v second where
  follows := hFirst.follows.trans hSecond.follows
  bytes := hSecond.bytes.trans hFirst.bytes
  position := hSecond.position

/- A seek to a position that succeeds moves there. -/
theorem moved_seek
    {t u : Tape}
    {start here : Nat}
    (hSeek : t.seek (.fromStart start) = (.ok here, u)) :
    Moved t u start := by
  have hFollows := t.follows_seek (.fromStart start)
  rcases seek_ok hSeek with ⟨hSource, hPosition, hGoal, -⟩
  rw [hSeek] at hFollows
  exact
    ⟨hFollows, hSource.bytes,
      hPosition.trans (Int.ofNat_inj.mp hGoal)⟩

/-
  What a single write does: it is refused and nothing is
  written, or some of the bytes are.  Only so many writes can
  be interrupted.
-/
theorem write_cases
    (t : Tape)
    {bs : Bytes}
    (hSome : bs ≠ []) :
    (∃ fault u,
        t.write bs = (.error fault, u) ∧
          Wrote t u [] ∧
          (fault = .interrupted →
            u.patience < t.patience)) ∨
      ∃ n u,
        t.write bs = (.ok n, u) ∧
          Wrote t u (bs.take n) ∧
          u.patience = t.patience ∧
          0 < n := by
  have hTold :=
    t.ask_told (.write t.position bs.length)
  have hFollows :=
    (t.follows_ask (.write t.position bs.length)).1
  have hPatience :
      ((t.ask (.write t.position bs.length)).1 =
          .refuse .interrupted →
        (t.ask (.write t.position bs.length)).2.patience <
          t.patience) ∧
        (∀ most,
          (t.ask (.write t.position bs.length)).1 =
              .proceed most →
            (t.ask (.write t.position
              bs.length)).2.patience = t.patience) := by
    unfold ask patience
    dsimp only
    split
    · split
      · dsimp only
        exact ⟨fun _ => by omega, nofun⟩
      · exact ⟨nofun, fun _ _ => rfl⟩
    next hOther =>
      exact ⟨fun hRefused => absurd hRefused hOther,
        fun _ _ => rfl⟩
  have hLength := List.length_pos_iff.mpr hSome
  unfold write
  rcases hAsk : t.ask (.write t.position bs.length) with
    ⟨reply, told⟩
  rw [hAsk] at hTold hFollows hPatience
  rcases hTold with ⟨hSource, hPosition, -⟩
  cases reply with
  | refuse fault =>
      left
      refine
        ⟨fault, told, rfl,
          .ofNothing hFollows hSource.bytes hPosition, ?_⟩
      rintro rfl
      exact hPatience.1 rfl
  | proceed most =>
      right
      have hTaken :
          bs.take (bs.take (max most 1)).length =
            bs.take (max most 1) := by
        rw [List.length_take, ← List.take_take,
          List.take_length]
      refine ⟨_, _, rfl, ?_, hPatience.2 most rfl, ?_⟩
      · rw [hTaken]
        refine
          ⟨⟨hFollows.script, hFollows.medium,
            hFollows.history⟩, rfl, ?_, fun _ => rfl⟩
        intro hNone
        rcases List.take_eq_nil_iff.mp hNone with
          hZero | hEmpty
        · omega
        · exact absurd hEmpty hSome
      · rw [List.length_take]
        omega

/- Writes that go on until all is written write all. -/
theorem writeAllUpTo_wrote
    {fuel : Nat}
    {t u : Tape}
    {bs : Bytes}
    (hFuel : bs.length + t.patience ≤ fuel)
    (hWrite : writeAllUpTo fuel t bs = (.ok (), u)) :
    Wrote t u bs := by
  induction fuel generalizing t bs with
  | zero =>
      have hNone : bs = [] :=
        List.eq_nil_of_length_eq_zero (by omega)
      subst hNone
      cases hWrite
      exact .refl _
  | succ fuel ih =>
      unfold writeAllUpTo at hWrite
      by_cases hNone : bs = []
      · subst hNone
        rw [if_pos List.isEmpty_nil] at hWrite
        cases hWrite
        exact .refl _
      · rw [if_neg (by simpa using hNone)] at hWrite
        rcases t.write_cases hNone with
          ⟨fault, told, hRefused, hNothing, hLess⟩ |
            ⟨n, told, hWritten, hSome, hSame, hMoved⟩
        · rw [hRefused] at hWrite
          by_cases hFault : fault = .interrupted
          · have hFewer := hLess hFault
            subst hFault
            exact hNothing.trans (ih (by omega) hWrite)
          · split at hWrite
            next hOther =>
              cases hOther
              exact absurd rfl hFault
            next hOther =>
              cases hOther
              cases hWrite
            next hOther => cases hOther
        · rw [hWritten] at hWrite
          have hLength := List.length_pos_iff.mpr hNone
          have hLater :=
            hSome.trans (ih (by
              rw [List.length_drop, hSame]
              omega) hWrite)
          rwa [List.take_append_drop] at hLater

/- So a tape that took all bytes has them. -/
theorem writeAll_wrote
    {t u : Tape}
    {bs : Bytes}
    (hWrite : t.writeAll bs = (.ok (), u)) :
    Wrote t u bs :=
  writeAllUpTo_wrote (Nat.le_refl _) hWrite

/- Waiting until all is safe changes nothing. -/
theorem wrote_flush (t : Tape) : Wrote t t.flush.2 [] := by
  have hTold := t.ask_told (.flush t.position)
  refine .ofNothing t.follows_flush ?_ ?_
  · unfold flush
    split
    next hRefused =>
      rw [hRefused] at hTold
      exact hTold.1.bytes
    next hProceeds =>
      rw [hProceeds] at hTold
      exact hTold.1.bytes
  · unfold flush
    split
    next hRefused =>
      rw [hRefused] at hTold
      exact hTold.2.1
    next hProceeds =>
      rw [hProceeds] at hTold
      exact hTold.2.1

/- Neither does asking for the position. -/
theorem wrote_tell (t : Tape) : Wrote t t.tell.2 [] := by
  have hTold := t.ask_told (.seek t.position (.fromHere 0))
  have hFollows := t.follows_seek (.fromHere 0)
  unfold tell
  unfold seek at hFollows ⊢
  rcases hAsk : t.ask (.seek t.position (.fromHere 0)) with
    ⟨reply, told⟩
  rw [hAsk] at hTold hFollows
  rcases hTold with ⟨hSource, hPosition, -⟩
  cases reply with
  | refuse fault =>
      exact .ofNothing hFollows hSource.bytes hPosition
  | proceed most =>
      dsimp only at hFollows ⊢
      split at hFollows
      next hRange =>
        rw [if_pos hRange]
        refine .ofNothing hFollows hSource.bytes ?_
        simp [goalOf]
      next hRange =>
        rw [if_neg hRange]
        exact .ofNothing hFollows hSource.bytes hPosition

/- The position that is told is the position, in range. -/
theorem tell_ok
    {t u : Tape}
    {here : Nat}
    (hTell : t.tell = (.ok here, u)) :
    here = t.position ∧ t.position < t.medium.bound := by
  have hGoal : (here : Int) = t.position + 0 :=
    (seek_ok hTell).2.2.1
  refine ⟨by omega, ?_⟩
  unfold tell seek at hTell
  rcases hAsk : t.ask (.seek t.position (.fromHere 0)) with
    ⟨reply, told⟩
  rw [hAsk] at hTell
  cases reply with
  | refuse fault => cases hTell
  | proceed most =>
      dsimp only [goalOf] at hTell
      split at hTell
      next hRange => omega
      next => cases hTell

------------------------------------------------------------
-- Tapes That Were Not Disturbed
------------------------------------------------------------

/-
  A call that is no write or flush, or that is not refused
  for good.  A write that is interrupted is made again.
-/
def Passes
    (script : Script)
    (history : List Call)
    (call : Call) : Prop :=
  ∀ fault, script.reply history call = .refuse fault →
    match call with
    | .write .. => fault = .interrupted
    | .flush _ => fault = .interrupted
    | _ => True

/-
  The second tape is the first one after calls that all
  passed.
-/
structure Undisturbed (t u : Tape) : Prop where
  follows : Follows t u
  passes :
    ∀ later call earlier,
      u.history = later ++ call :: (earlier ++ t.history) →
      Passes t.script (earlier ++ t.history) call

namespace Undisturbed

variable {t u v : Tape}

theorem refl (t : Tape) : Undisturbed t t where
  follows := .refl t
  passes later call earlier hHistory := by
    have hLength := congrArg List.length hHistory
    simp only [List.length_append, List.length_cons]
      at hLength
    omega

theorem trans
    (hFirst : Undisturbed t u)
    (hSecond : Undisturbed u v) :
    Undisturbed t v where
  follows := hFirst.follows.trans hSecond.follows
  passes later call earlier hHistory := by
    rcases hFirst.follows.history with ⟨sooner, hSooner⟩
    rcases hSecond.follows.history with ⟨more, hMore⟩
    have hCalls :
        more ++ sooner = later ++ call :: earlier := by
      rw [hMore, hSooner, ← List.append_assoc,
        ← List.cons_append, ← List.append_assoc] at hHistory
      exact List.append_cancel_right hHistory
    -- The call was heard by one of the two tapes first.
    rcases List.append_eq_append_iff.mp hCalls with
      ⟨rest, rfl, hRest⟩ | ⟨rest, rfl, hRest⟩
    · apply hFirst.passes rest call earlier
      rw [hSooner, hRest, List.append_assoc,
        List.cons_append]
    · cases rest with
      | nil =>
          apply hFirst.passes [] call earlier
          rw [hSooner, ← List.nil_append sooner, ← hRest]
          rfl
      | cons other rest =>
          rw [List.cons_append] at hRest
          cases hRest
          rw [List.append_assoc, ← hSooner,
            ← hFirst.follows.script]
          apply hSecond.passes later call rest
          rw [hMore, List.append_assoc, List.cons_append]

end Undisturbed

/- A single call that passes does not disturb. -/
theorem undisturbed_of_passes
    {t u : Tape}
    {call : Call}
    (hFollows : Follows t u)
    (hHistory : u.history = call :: t.history)
    (hPasses : Passes t.script t.history call) :
    Undisturbed t u where
  follows := hFollows
  passes later other earlier hHeard := by
    rw [hHistory] at hHeard
    have hLength := congrArg List.length hHeard
    simp only [List.length_append, List.length_cons]
      at hLength
    have hLater : later = [] :=
      List.eq_nil_of_length_eq_zero (by omega)
    have hEarlier : earlier = [] :=
      List.eq_nil_of_length_eq_zero (by omega)
    subst hLater hEarlier
    cases hHeard
    exact hPasses

/- A call that proceeds or is interrupted passes. -/
theorem passes_of_ask
    {t : Tape}
    {call : Call}
    (hAsk :
      (∃ most, (t.ask call).1 = .proceed most) ∨
        (t.ask call).1 = .refuse .interrupted) :
    Passes t.script t.history call := by
  intro fault hRefused
  have hFault : fault = .interrupted := by
    unfold ask at hAsk
    rw [hRefused] at hAsk
    dsimp only at hAsk
    split at hAsk
    next hInterrupted =>
      cases hInterrupted
      rfl
    next =>
      rcases hAsk with ⟨most, hProceeds⟩ | hInterrupted
      · cases hProceeds
      · cases hInterrupted
        rfl
  cases call with
  | write position length => exact hFault
  | flush position => exact hFault
  | read position wanted => exact trivial
  | seek position goal => exact trivial

/- Asking for the position does not disturb. -/
theorem undisturbed_tell (t : Tape) :
    Undisturbed t t.tell.2 := by
  have hFollows := t.follows_seek (.fromHere 0)
  have hPasses :
      Passes t.script t.history
        (.seek t.position (.fromHere 0)) :=
    fun _ _ => trivial
  refine undisturbed_of_passes hFollows ?_ hPasses
  have hHeard :=
    (t.follows_ask (.seek t.position (.fromHere 0))).2
  unfold tell seek
  split
  next hRefused => rwa [hRefused] at hHeard
  next hTold =>
    rw [hTold] at hHeard
    dsimp only
    split <;> exact hHeard

/- Nor does a flush that succeeds. -/
theorem undisturbed_flush
    {t u : Tape}
    (hFlush : t.flush = (.ok (), u)) :
    Undisturbed t u := by
  have hFollows := t.follows_flush
  rw [hFlush] at hFollows
  have hHeard := (t.follows_ask (.flush t.position)).2
  unfold flush at hFlush
  rcases hAsk : t.ask (.flush t.position) with ⟨reply, told⟩
  rw [hAsk] at hFlush hHeard
  cases reply with
  | refuse fault => cases hFlush
  | proceed most =>
      cases hFlush
      exact
        undisturbed_of_passes hFollows hHeard
          (passes_of_ask (.inl ⟨most, by rw [hAsk]⟩))

/- Nor does a write that succeeds or is interrupted. -/
theorem undisturbed_write
    {t u : Tape}
    {bs : Bytes}
    {reply : Except Fault Nat}
    (hWrite : t.write bs = (reply, u))
    (hReply :
      (∃ n, reply = .ok n) ∨ reply = .error .interrupted) :
    Undisturbed t u := by
  have hFollows := t.follows_write bs
  rw [hWrite] at hFollows
  have hHeard :=
    (t.follows_ask (.write t.position bs.length)).2
  unfold write at hWrite
  rcases hAsk : t.ask (.write t.position bs.length) with
    ⟨answer, told⟩
  rw [hAsk] at hWrite hHeard
  cases answer with
  | refuse fault =>
      cases hWrite
      rcases hReply with ⟨n, hOk⟩ | hInterrupted
      · cases hOk
      · cases hInterrupted
        exact
          undisturbed_of_passes hFollows hHeard
            (passes_of_ask (.inr (by rw [hAsk])))
  | proceed most =>
      cases hWrite
      exact
        undisturbed_of_passes hFollows hHeard
          (passes_of_ask (.inl ⟨most, by rw [hAsk]⟩))

/- So all bytes were written without a disturbance. -/
theorem undisturbed_writeAllUpTo
    {fuel : Nat}
    {t u : Tape}
    {bs : Bytes}
    (hWrite : writeAllUpTo fuel t bs = (.ok (), u)) :
    Undisturbed t u := by
  induction fuel generalizing t bs with
  | zero =>
      cases hWrite
      exact .refl _
  | succ fuel ih =>
      unfold writeAllUpTo at hWrite
      split at hWrite
      · cases hWrite
        exact .refl _
      · rcases hFirst : t.write bs with ⟨reply, told⟩
        rw [hFirst] at hWrite
        split at hWrite
        next hInterrupted =>
          cases hInterrupted
          exact (undisturbed_write hFirst (.inr rfl)).trans
            (ih hWrite)
        next => cases hWrite
        next hTaken =>
          cases hTaken
          exact (undisturbed_write hFirst
            (.inl ⟨_, rfl⟩)).trans (ih hWrite)

------------------------------------------------------------
-- Tapes That Take Everything
------------------------------------------------------------

/-
  A tape that from now on refuses no call for good; reads may
  be interrupted.
-/
def Serves (t : Tape) : Prop :=
  ∀ calls call fault,
    t.script.reply (calls ++ t.history) call =
        .refuse fault →
      fault = .interrupted ∧
        ∃ position wanted, call = .read position wanted

/- A calm script serves at any time. -/
theorem serves_of_isCalm
    {t : Tape}
    (hCalm : t.script.IsCalm) :
    t.Serves :=
  fun _ call fault hRefused => hCalm _ call fault hRefused

namespace Serves

variable {t u : Tape}

/- Later calls find the same behaviour. -/
theorem follows
    (hServes : t.Serves)
    (hFollows : Follows t u) :
    u.Serves := by
  rcases hFollows.history with ⟨calls, hCalls⟩
  intro more call fault hRefused
  rw [hFollows.script, hCalls, ← List.append_assoc]
    at hRefused
  exact hServes (more ++ calls) call fault hRefused

/- Every call but a read proceeds. -/
theorem ask_proceeds
    (hServes : t.Serves)
    (call : Call)
    (hCall : ∀ position wanted, call ≠ .read position wanted) :
    ∃ most, (t.ask call).1 = .proceed most := by
  cases hReply : t.script.reply t.history call with
  | refuse fault =>
      rcases hServes [] call fault hReply with
        ⟨-, position, wanted, hRead⟩
      exact absurd hRead (hCall position wanted)
  | proceed most =>
      refine ⟨most, ?_⟩
      unfold ask
      rw [hReply]

theorem flush_ok (hServes : t.Serves) :
    ∃ u, t.flush = (.ok (), u) := by
  rcases hServes.ask_proceeds (.flush t.position)
      nofun with
    ⟨most, hAsk⟩
  rcases hTold : t.ask (.flush t.position) with ⟨reply, told⟩
  rw [hTold] at hAsk
  cases hAsk
  unfold flush
  rw [hTold]
  exact ⟨told, rfl⟩

/- Every byte is taken, however many at a time. -/
theorem writeAllUpTo_ok
    (fuel : Nat)
    (hServes : t.Serves)
    (bs : Bytes) :
    ∃ u, writeAllUpTo fuel t bs = (.ok (), u) := by
  induction fuel generalizing t bs with
  | zero => exact ⟨t, rfl⟩
  | succ fuel ih =>
      unfold writeAllUpTo
      by_cases hNone : bs = []
      · exact ⟨t, if_pos (by simpa using hNone)⟩
      · rw [if_neg (by simpa using hNone)]
        rcases hServes.ask_proceeds
            (.write t.position bs.length) nofun with
          ⟨most, hAsk⟩
        have hFollows := t.follows_write bs
        have hTold :
            ∃ n u, t.write bs = (.ok n, u) := by
          unfold write
          rcases hTold :
              t.ask (.write t.position bs.length) with
            ⟨reply, told⟩
          rw [hTold] at hAsk
          cases hAsk
          exact ⟨_, _, rfl⟩
        rcases hTold with ⟨n, told, hWritten⟩
        rw [hWritten] at hFollows ⊢
        exact ih (hServes.follows hFollows) (bs.drop n)

theorem writeAll_ok
    (hServes : t.Serves)
    (bs : Bytes) :
    ∃ u, t.writeAll bs = (.ok (), u) ∧ Wrote t u bs := by
  rcases hServes.writeAllUpTo_ok (bs.length + t.patience)
      bs with
    ⟨u, hWrite⟩
  exact ⟨u, hWrite, writeAll_wrote hWrite⟩

/- Moving succeeds wherever it can. -/
theorem seek_eq
    (hServes : t.Serves)
    (goal : Seek) :
    ∃ u, t.seek goal =
        (if 0 ≤ t.goalOf goal ∧
            t.goalOf goal < t.medium.bound then
          .ok (t.goalOf goal).toNat
        else .error t.medium.outOfRange, u) ∧
      Follows t u ∧
      u.bytes = t.bytes ∧
      u.position =
        if 0 ≤ t.goalOf goal ∧
            t.goalOf goal < t.medium.bound then
          (t.goalOf goal).toNat
        else t.position := by
  have hTold := t.ask_told (.seek t.position goal)
  have hFollows := t.follows_seek goal
  rcases hServes.ask_proceeds (.seek t.position goal)
      nofun with
    ⟨most, hAsk⟩
  unfold seek at hFollows ⊢
  rcases hReply : t.ask (.seek t.position goal) with
    ⟨reply, told⟩
  rw [hReply] at hTold hFollows hAsk
  rcases hTold with ⟨hSource, hPosition, -⟩
  cases hAsk
  dsimp only at hFollows ⊢
  rw [hSource.medium] at hFollows ⊢
  by_cases hRange :
      0 ≤ t.goalOf goal ∧ t.goalOf goal < t.medium.bound
  · rw [if_pos hRange] at hFollows
    rw [if_pos hRange, if_pos hRange, if_pos hRange]
    exact ⟨_, rfl, hFollows, hSource.bytes, rfl⟩
  · rw [if_neg hRange] at hFollows
    rw [if_neg hRange, if_neg hRange, if_neg hRange]
    exact ⟨_, rfl, hFollows, hSource.bytes, hPosition⟩

/- So does asking for the position. -/
theorem tell_eq (hServes : t.Serves) :
    ∃ u, t.tell =
        (if t.position < t.medium.bound then .ok t.position
        else .error t.medium.outOfRange, u) ∧
      Wrote t u [] := by
  rcases hServes.seek_eq (.fromHere 0) with ⟨u, hSeek, -⟩
  have hGoal : t.goalOf (.fromHere 0) = t.position :=
    Int.add_zero _
  have hRange :
      (0 ≤ t.goalOf (.fromHere 0) ∧
          t.goalOf (.fromHere 0) < t.medium.bound) ↔
        t.position < t.medium.bound := by
    rw [hGoal]
    omega
  have hWrote := t.wrote_tell
  unfold tell at hWrote ⊢
  rw [hSeek] at hWrote ⊢
  refine ⟨u, ?_, hWrote⟩
  simp only [hRange]
  rw [hGoal, Int.toNat_natCast]

end Serves

end Tape

end ArchiveRescue
