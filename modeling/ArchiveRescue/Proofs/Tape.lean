import Mathlib
import ArchiveRescue.Tape.Rehearsal

/-
  What the calls of a tape do to its position, and what they
  hand out on a tape that refuses nothing for good.

  Key definitions include:
    * `Script.IsCalm`
    * `Tape.SameSource`
    * `Tape.InStep`
    * `Tape.Took`
    * `Tape.Kept`
    * `Tape.Sound`
    * `Tape.Reliable`
    * `Tape.Prompt`

  Main statements:
    * `Tape.took_readPatiently`
    * `Tape.drain_whole`
    * `Tape.Sound.readPatiently_ok`
    * `Tape.Sound.readUpTo_eq`
    * `Tape.Sound.drain_eq`
    * `Tape.seek_ok`
    * `Tape.Sound.seek_within`
-/

namespace ArchiveRescue

------------------------------------------------------------
-- Calm Scripts
------------------------------------------------------------

/-
  A script that interrupts reads at most and refuses no call
  for good.  Reads may still be cut short.
-/
def Script.IsCalm (s : Script) : Prop :=
  ∀ history call fault,
    s.reply history call = .refuse fault →
      fault = .interrupted ∧
        ∃ position wanted, call = .read position wanted

/- The plain script is calm. -/
theorem Script.plain_isCalm : Script.plain.IsCalm := by
  intro history call fault hReply
  simp [Script.plain] at hReply

/- A rehearsal in which nothing fails for good is calm. -/
theorem Rehearsal.isCalm
    {r : Rehearsal}
    (hReads : r.failReadAt? = none)
    (hWrites : r.failWriteAt? = none)
    (hFlush : r.failFlush = false)
    (hSeeks : r.failSeek = []) :
    r.script.IsCalm := by
  intro history call fault hReply
  unfold script at hReply
  cases call with
  | read position wanted =>
      refine ⟨?_, position, wanted, rfl⟩
      simp only [readReply, hReads] at hReply
      split at hReply
      next hFails => cases hFails
      next =>
        split at hReply
        · cases hReply
          rfl
        · cases hReply
  | write position length => simp [writeReply, hWrites] at hReply
  | flush position => simp [hFlush] at hReply
  | seek position goal => simp [hSeeks] at hReply

/- Every medium can be sought below 2 ^ 63. -/
theorem Medium.le_bound (medium : Medium) :
    2 ^ 63 ≤ medium.bound := by
  cases medium <;> simp [Medium.bound]

namespace Tape

------------------------------------------------------------
-- What a Read Takes
------------------------------------------------------------

/- Two tapes with the same bytes on the same medium. -/
structure SameSource (t u : Tape) : Prop where
  bytes : u.bytes = t.bytes
  medium : u.medium = t.medium
  script : u.script = t.script

namespace SameSource

/- Every tape has its own source. -/
theorem refl (t : Tape) : SameSource t t :=
  ⟨rfl, rfl, rfl⟩

/- Calls one after another leave the source alone. -/
theorem trans
    {t u v : Tape}
    (hFirst : SameSource t u)
    (hSecond : SameSource u v) :
    SameSource t v :=
  ⟨hSecond.bytes.trans hFirst.bytes,
    hSecond.medium.trans hFirst.medium,
    hSecond.script.trans hFirst.script⟩

end SameSource

/- The bytes fetched ahead are those behind the position. -/
def InStep (t : Tape) : Prop :=
  t.ahead <+: t.bytes.drop t.position

/-
  A tape in memory that hands out as many bytes as are asked
  for, as long as they are there.
-/
structure Prompt (t : Tape) : Prop where
  script : ∀ history call,
    t.script.reply history call =
      .proceed (Script.amount call)
  medium : t.medium = .memory
  ahead : t.ahead = []

/- A prompt tape stays prompt while nothing is fetched. -/
theorem Prompt.of_source
    {t u : Tape}
    (hTape : t.Prompt)
    (hSource : SameSource t u)
    (hAhead : u.ahead = []) :
    u.Prompt where
  script := hSource.script ▸ hTape.script
  medium := hSource.medium.trans hTape.medium
  ahead := hAhead

/-
  `u` is what is left of `t` when `got` has been handed out.
  A tape that was in step hands out what stands on it.
-/
structure Took (t u : Tape) (got : Bytes) : Prop where
  source : SameSource t u
  position : u.position = t.position + got.length
  handed : t.InStep → got <+: t.bytes.drop t.position
  inStep : t.InStep → u.InStep
  prompt : t.Prompt → u.Prompt

/- What the reply to a read hands out. -/
def taken : Except Fault Bytes → Bytes
| .ok got => got
| .error _ => []

/- A tape that only heard a call hands out nothing. -/
theorem Took.nothing
    {t u : Tape}
    (hSource : SameSource t u)
    (hPosition : u.position = t.position)
    (hAhead : u.ahead = t.ahead) :
    Took t u [] where
  source := hSource
  position := by simp [hPosition]
  handed _ := List.nil_prefix
  inStep hStep := by
    unfold InStep at *
    rw [hAhead, hSource.bytes, hPosition]
    exact hStep
  prompt hTape :=
    hTape.of_source hSource (hAhead.trans hTape.ahead)

/- Two reads hand out their bytes one after the other. -/
theorem Took.trans
    {t u v : Tape}
    {first second : Bytes}
    (hFirst : Took t u first)
    (hSecond : Took u v second) :
    Took t v (first ++ second) where
  source := hFirst.source.trans hSecond.source
  position := by
    rw [hSecond.position, hFirst.position,
      List.length_append]
    omega
  handed hStep := by
    rcases hFirst.handed hStep with ⟨rest, hRest⟩
    have hLater := hSecond.handed (hFirst.inStep hStep)
    rw [hFirst.source.bytes, hFirst.position,
      ← List.drop_drop, ← hRest, List.drop_left] at hLater
    rw [← hRest]
    exact (List.prefix_append_right_inj first).mpr hLater
  inStep hStep := hSecond.inStep (hFirst.inStep hStep)
  prompt hTape := hSecond.prompt (hFirst.prompt hTape)

/- Putting a call to the script leaves the tape in place. -/
theorem ask_told
    (t : Tape)
    (call : Call) :
    SameSource t (t.ask call).2 ∧
      (t.ask call).2.position = t.position ∧
      (t.ask call).2.ahead = t.ahead := by
  unfold ask
  dsimp only
  split
  · split
    · exact ⟨⟨rfl, rfl, rfl⟩, rfl, rfl⟩
    · exact ⟨⟨rfl, rfl, rfl⟩, rfl, rfl⟩
  · exact ⟨⟨rfl, rfl, rfl⟩, rfl, rfl⟩

/- Handing out fetched bytes moves behind them. -/
theorem took_handOut
    (t : Tape)
    (fetched : Bytes)
    (n : Nat)
    (hFetched :
      t.InStep → fetched <+: t.bytes.drop t.position)
    (hAll : t.Prompt → fetched.length ≤ n) :
    Took t (t.handOut fetched n).2
      (t.handOut fetched n).1 where
  source := ⟨rfl, rfl, rfl⟩
  position := rfl
  handed hStep :=
    (List.take_prefix n fetched).trans (hFetched hStep)
  inStep hStep := by
    rcases hFetched hStep with ⟨rest, hRest⟩
    have hSplit :
        fetched.take n ++ (fetched.drop n ++ rest) =
          t.bytes.drop t.position := by
      rw [← List.append_assoc, List.take_append_drop, hRest]
    refine ⟨rest, ?_⟩
    simp only [handOut]
    rw [← List.drop_drop, ← hSplit, List.drop_left]
  prompt hTape :=
    hTape.of_source ⟨rfl, rfl, rfl⟩
      (List.drop_eq_nil_of_le (hAll hTape))

/- A read hands out at most as many bytes as asked for. -/
theorem took_read
    (t : Tape)
    (n : Nat) :
    Took t (t.read n).2 (taken (t.read n).1) ∧
      (taken (t.read n).1).length ≤ n := by
  unfold read
  by_cases hAhead : t.ahead.isEmpty
  · rw [if_pos hAhead]
    unfold fetch
    have hTold :=
      t.ask_told (.read t.position (max n t.medium.window))
    rcases hAsk :
        t.ask (.read t.position (max n t.medium.window)) with
      ⟨reply, told⟩
    rw [hAsk] at hTold
    rcases hTold with ⟨hSource, hPosition, hSame⟩
    have hNothing : Took t told [] :=
      Took.nothing hSource hPosition hSame
    cases reply with
    | refuse fault => exact ⟨hNothing, Nat.zero_le n⟩
    | proceed most =>
        refine ⟨?_, List.length_take_le n _⟩
        refine hNothing.trans (took_handOut told _ n ?_ ?_)
        · intro _
          rw [hSource.bytes, hPosition]
          exact List.take_prefix _ _
        · intro hTold
          rw [← hSource.medium, hTold.medium]
          have hMost := List.length_take_le
            (min (max n Medium.memory.window) (max most 1))
            (t.bytes.drop t.position)
          have hWindow : Medium.memory.window = 0 := rfl
          simp only [Bytes.slice]
          omega
  · rw [if_neg hAhead]
    refine ⟨t.took_handOut t.ahead n id ?_,
      List.length_take_le n t.ahead⟩
    intro hTape
    simp [hTape.ahead]

/- So does a read that is repeated when interrupted. -/
theorem took_readTrying
    (tries : Nat)
    (t : Tape)
    (n : Nat) :
    Took t (readTrying tries t n).2
        (taken (readTrying tries t n).1) ∧
      (taken (readTrying tries t n).1).length ≤ n := by
  induction tries generalizing t with
  | zero => exact t.took_read n
  | succ tries ih =>
      have hRead := t.took_read n
      unfold readTrying
      split
      next told hFault =>
        rw [hFault] at hRead
        have hLater := ih told
        exact ⟨hRead.1.trans hLater.1, hLater.2⟩
      next => exact hRead

theorem took_readPatiently
    (t : Tape)
    (n : Nat) :
    Took t (t.readPatiently n).2
        (taken (t.readPatiently n).1) ∧
      (taken (t.readPatiently n).1).length ≤ n :=
  took_readTrying t.patience t n

/- Reads that succeed together hand out at most `n` bytes. -/
theorem took_gather
    (fuel : Nat)
    {t u : Tape}
    {n : Nat}
    {got : Bytes}
    (hGather : gather fuel t n = (.ok got, u)) :
    Took t u got ∧ got.length ≤ n := by
  induction fuel generalizing t u n got with
  | zero =>
      cases hGather
      exact ⟨Took.nothing (.refl t) rfl rfl, Nat.zero_le n⟩
  | succ fuel ih =>
      unfold gather at hGather
      by_cases hNone : n = 0
      · rw [if_pos hNone] at hGather
        cases hGather
        exact ⟨Took.nothing (.refl t) rfl rfl,
          Nat.zero_le n⟩
      · rw [if_neg hNone] at hGather
        have hRead := t.took_readPatiently n
        rcases hFirst : t.readPatiently n with
          ⟨reply, told⟩
        rw [hFirst] at hGather hRead
        cases reply with
        | error fault => cases hGather
        | ok first =>
            simp only [taken] at hGather hRead
            by_cases hEnd : first.isEmpty
            · rw [if_pos hEnd] at hGather
              cases hGather
              rw [List.isEmpty_iff.mp hEnd] at hRead
              exact ⟨hRead.1, Nat.zero_le n⟩
            · rw [if_neg hEnd] at hGather
              rcases hRest :
                  gather fuel told (n - first.length) with
                ⟨others, later⟩
              rw [hRest] at hGather
              cases others with
              | error fault => cases hGather
              | ok more =>
                  cases hGather
                  have hMore := ih hRest
                  refine ⟨hRead.1.trans hMore.1, ?_⟩
                  rw [List.length_append]
                  have hFits := hRead.2
                  have hMoreFits := hMore.2
                  omega

------------------------------------------------------------
-- Tapes That Are Read
------------------------------------------------------------

/- The second tape is the first one, read and moved. -/
structure Kept (t u : Tape) : Prop where
  source : SameSource t u
  inStep : t.InStep → u.InStep

namespace Kept

variable {t u v : Tape}

theorem refl (t : Tape) : Kept t t :=
  ⟨.refl t, id⟩

theorem trans
    (hFirst : Kept t u)
    (hSecond : Kept u v) :
    Kept t v :=
  ⟨hFirst.source.trans hSecond.source,
    fun hStep => hSecond.inStep (hFirst.inStep hStep)⟩

end Kept

/- Reading is no more than that. -/
theorem Took.kept
    {t u : Tape}
    {got : Bytes}
    (hTook : Took t u got) :
    Kept t u :=
  ⟨hTook.source, hTook.inStep⟩

/- Neither is moving, whether it succeeds or not. -/
theorem kept_seek
    (t : Tape)
    (goal : Seek) :
    Kept t (t.seek goal).2 := by
  have hTold := t.ask_told (.seek t.position goal)
  unfold seek
  rcases hAsk : t.ask (.seek t.position goal) with
    ⟨reply, told⟩
  rw [hAsk] at hTold
  rcases hTold with ⟨hSource, hPosition, hAhead⟩
  have hNothing := Took.nothing hSource hPosition hAhead
  cases reply with
  | refuse fault => exact hNothing.kept
  | proceed most =>
      dsimp only
      split
      · exact
          ⟨⟨hSource.bytes, hSource.medium, hSource.script⟩,
            fun _ => List.nil_prefix⟩
      · exact hNothing.kept

theorem kept_gather
    (fuel : Nat)
    (t : Tape)
    (n : Nat) :
    Kept t (gather fuel t n).2 := by
  induction fuel generalizing t n with
  | zero => exact .refl t
  | succ fuel ih =>
      have hRead := (t.took_readPatiently n).1.kept
      unfold gather
      split
      · exact .refl t
      · rcases hFirst : t.readPatiently n with ⟨reply, told⟩
        rw [hFirst] at hRead
        cases reply with
        | error fault => exact hRead
        | ok got =>
            dsimp only
            split
            · exact hRead
            · have hRest := ih told (n - got.length)
              rcases hMore :
                  gather fuel told (n - got.length) with
                ⟨others, later⟩
              rw [hMore] at hRest
              cases others with
              | error fault => exact hRead.trans hRest
              | ok more => exact hRead.trans hRest

theorem kept_readExactly
    (t : Tape)
    (n : Nat) :
    Kept t (t.readExactly n).2 := by
  have hRead := kept_gather n t n
  unfold readExactly readUpTo
  rcases hGather : gather n t n with ⟨reply, told⟩
  rw [hGather] at hRead
  cases reply with
  | error fault => exact hRead
  | ok got =>
      dsimp only
      split <;> exact hRead

/-
  Reading to the end takes what it hands out, also when it
  meets a fault.
-/
theorem took_drainUpTo
    (fuel : Nat)
    (t : Tape) :
    Took t (drainUpTo fuel t).2.2 (drainUpTo fuel t).1 := by
  induction fuel generalizing t with
  | zero => exact .nothing (.refl t) rfl rfl
  | succ fuel ih =>
      have hRead := (t.took_readPatiently 8192).1
      unfold drainUpTo
      rcases hFirst : t.readPatiently 8192 with ⟨reply, told⟩
      rw [hFirst] at hRead
      cases reply with
      | error fault => exact hRead
      | ok got =>
          dsimp only [taken] at hRead ⊢
          split
          next hEnd =>
            rwa [List.isEmpty_iff.mp hEnd] at hRead
          next => exact hRead.trans (ih told)

theorem took_drain (t : Tape) :
    Took t t.drain.2.2 t.drain.1 :=
  took_drainUpTo _ t

/-
  A read that succeeds hands out something as long as
  anything is left.
-/
theorem read_some
    {t u : Tape}
    {n : Nat}
    {got : Bytes}
    (hRead : t.read n = (.ok got, u))
    (hWanted : 0 < n)
    (hLeft : t.position < t.bytes.length) :
    got ≠ [] := by
  unfold read at hRead
  split at hRead
  · unfold fetch at hRead
    rcases hAsk :
        t.ask (.read t.position (max n t.medium.window)) with
      ⟨reply, told⟩
    rw [hAsk] at hRead
    cases reply with
    | refuse fault => cases hRead
    | proceed most =>
        cases hRead
        intro hNone
        have hLength := congrArg List.length hNone
        simp only [Bytes.slice, List.length_take,
          List.length_drop, List.length_nil] at hLength
        omega
  next hAhead =>
    cases hRead
    intro hNone
    rcases List.take_eq_nil_iff.mp hNone with hZero | hEmpty
    · omega
    · exact hAhead (List.isEmpty_iff.mpr hEmpty)

theorem readTrying_some
    {tries : Nat}
    {t u : Tape}
    {n : Nat}
    {got : Bytes}
    (hRead : readTrying tries t n = (.ok got, u))
    (hWanted : 0 < n)
    (hLeft : t.position < t.bytes.length) :
    got ≠ [] := by
  induction tries generalizing t with
  | zero => exact read_some hRead hWanted hLeft
  | succ tries ih =>
      have hTook := (t.took_read n).1
      unfold readTrying at hRead
      split at hRead
      next told hFault =>
        rw [hFault] at hTook
        refine ih hRead ?_
        rw [hTook.position, hTook.source.bytes]
        exact hLeft
      next => exact read_some hRead hWanted hLeft

/- What was read without a fault is all that was left. -/
theorem drainUpTo_whole
    {fuel : Nat}
    {t u : Tape}
    {data : Bytes}
    (hStep : t.InStep)
    (hFuel : t.bytes.length - t.position < fuel)
    (hDrain : drainUpTo fuel t = (data, none, u)) :
    data = t.bytes.drop t.position := by
  induction fuel generalizing t data with
  | zero => omega
  | succ fuel ih =>
      have hTook := (t.took_readPatiently 8192).1
      unfold drainUpTo at hDrain
      rcases hRead : t.readPatiently 8192 with ⟨reply, told⟩
      rw [hRead] at hDrain hTook
      cases reply with
      | error fault => cases hDrain
      | ok got =>
          dsimp only [taken] at hDrain hTook
          by_cases hEnd : got = []
          · rw [if_pos (List.isEmpty_iff.mpr hEnd)] at hDrain
            cases hDrain
            symm
            apply List.drop_eq_nil_of_le
            by_contra hMore
            exact readTrying_some hRead (by decide)
              (by omega) hEnd
          · rw [if_neg (by simpa using hEnd)] at hDrain
            rcases hTook.handed hStep with ⟨rest, hRest⟩
            have hLess := List.length_pos_iff.mpr hEnd
            have hWithin : got.length ≤
                t.bytes.length - t.position := by
              have hLength := congrArg List.length hRest
              rw [List.length_append, List.length_drop]
                at hLength
              omega
            rcases hLater : drainUpTo fuel told with
              ⟨more, fault?, last⟩
            rw [hLater] at hDrain
            cases hDrain
            rw [ih (hTook.inStep hStep) (by
                rw [hTook.source.bytes, hTook.position]
                omega) hLater,
              hTook.source.bytes, hTook.position,
              ← List.drop_drop, ← hRest, List.drop_left]

theorem drain_whole
    {t u : Tape}
    {data : Bytes}
    (hStep : t.InStep)
    (hDrain : t.drain = (data, none, u)) :
    data = t.bytes.drop t.position :=
  drainUpTo_whole hStep (by omega) hDrain

------------------------------------------------------------
-- Sound Tapes
------------------------------------------------------------

/-
  A tape that refuses nothing for good and is in step with
  itself.
-/
structure Sound (t : Tape) : Prop where
  calm : t.script.IsCalm
  inStep : t.InStep

namespace Sound

/- Reading keeps a tape sound. -/
theorem of_took
    {t u : Tape}
    {got : Bytes}
    (hTape : t.Sound)
    (hTook : Took t u got) :
    u.Sound where
  calm := hTook.source.script ▸ hTape.calm
  inStep := hTook.inStep hTape.inStep

/- A calm script lets a call proceed or interrupts a read. -/
theorem ask_cases
    {t : Tape}
    (hTape : t.Sound)
    (call : Call) :
    (∃ most, (t.ask call).1 = .proceed most) ∨
      ((t.ask call).1 = .refuse .interrupted ∧
        (t.ask call).2.patience < t.patience ∧
        ∃ position wanted, call = .read position wanted) := by
  unfold ask
  dsimp only
  cases hReply : t.script.reply t.history call with
  | proceed most => exact .inl ⟨most, rfl⟩
  | refuse fault =>
      rcases hTape.calm _ _ _ hReply with ⟨rfl, hRead⟩
      by_cases hPatience : t.interrupts < t.script.patience
      · rw [if_pos hPatience]
        refine .inr ⟨rfl, ?_, hRead⟩
        unfold patience
        dsimp only
        omega
      · rw [if_neg hPatience]
        exact .inl ⟨_, rfl⟩

/-
  A read goes through, with nothing only where nothing is
  left, or it is interrupted and uses up some patience.
-/
theorem read_cases
    {t : Tape}
    (hTape : t.Sound)
    (n : Nat) :
    (∃ got u, t.read n = (.ok got, u) ∧
        (0 < n → t.position < t.bytes.length → got ≠ [])) ∨
      ∃ u, t.read n = (.error .interrupted, u) ∧
        u.patience < t.patience := by
  have hRead :
      (∃ got u, t.read n = (.ok got, u)) ∨
        ∃ u, t.read n = (.error .interrupted, u) ∧
          u.patience < t.patience := by
    unfold read
    split
    · unfold fetch
      have hCases := hTape.ask_cases
        (.read t.position (max n t.medium.window))
      rcases hAsk :
          t.ask (.read t.position (max n t.medium.window))
        with ⟨reply, told⟩
      rw [hAsk] at hCases
      rcases hCases with
        ⟨most, hMost⟩ | ⟨hRefused, hLess, -⟩
      · cases hMost
        exact .inl ⟨_, _, rfl⟩
      · cases hRefused
        exact .inr ⟨told, rfl, hLess⟩
    · exact .inl ⟨_, _, rfl⟩
  rcases hRead with ⟨got, u, hRead⟩ | hInterrupted
  · exact .inl ⟨got, u, hRead, read_some hRead⟩
  · exact .inr hInterrupted

/- A read that is repeated with enough patience succeeds. -/
theorem readTrying_ok
    {tries : Nat}
    {t : Tape}
    (hTape : t.Sound)
    (hTries : t.patience ≤ tries)
    (n : Nat) :
    ∃ got u, readTrying tries t n = (.ok got, u) ∧
      (0 < n → t.position < t.bytes.length → got ≠ []) := by
  induction tries generalizing t with
  | zero =>
      rcases hTape.read_cases n with hOk | ⟨u, -, hLess⟩
      · exact hOk
      · omega
  | succ tries ih =>
      unfold readTrying
      have hTook := (t.took_read n).1
      rcases hTape.read_cases n with
        ⟨got, u, hRead, hGot⟩ | ⟨u, hRead, hLess⟩
      · rw [hRead]
        exact ⟨got, u, rfl, hGot⟩
      · rw [hRead] at hTook ⊢
        have hEnough : u.patience ≤ tries := by omega
        rcases ih (hTape.of_took hTook) hEnough with
          ⟨got, v, hLater, hGot⟩
        refine ⟨got, v, hLater, ?_⟩
        intro hWanted hLeft
        apply hGot hWanted
        rw [hTook.position, hTook.source.bytes]
        exact hLeft

/-
  A patient read succeeds and hands out what stands on the
  tape, and something as long as anything is left.
-/
theorem readPatiently_ok
    {t : Tape}
    (hTape : t.Sound)
    (n : Nat) :
    ∃ got u, t.readPatiently n = (.ok got, u) ∧
      Took t u got ∧ got.length ≤ n ∧
      (0 < n → t.position < t.bytes.length → got ≠ []) := by
  have hTook := t.took_readPatiently n
  rcases hTape.readTrying_ok (Nat.le_refl _) n with
    ⟨got, u, hRead, hGot⟩
  change t.readPatiently n = (.ok got, u) at hRead
  rw [hRead] at hTook
  exact ⟨got, u, hRead, hTook.1, hTook.2, hGot⟩

/- Reads that go on until `n` bytes are there all succeed. -/
theorem gather_ok
    {fuel : Nat}
    {t : Tape}
    {n : Nat}
    (hTape : t.Sound)
    (hFuel : n ≤ fuel) :
    ∃ u, gather fuel t n =
      (.ok ((t.bytes.drop t.position).take n), u) := by
  induction fuel generalizing t n with
  | zero =>
      have hNone : n = 0 := by omega
      subst hNone
      exact ⟨t, rfl⟩
  | succ fuel ih =>
      unfold gather
      by_cases hNone : n = 0
      · subst hNone
        exact ⟨t, by simp⟩
      · rw [if_neg hNone]
        rcases hTape.readPatiently_ok n with
          ⟨got, u, hRead, hTook, hFits, hGot⟩
        rcases hTook.handed hTape.inStep with ⟨rest, hRest⟩
        rw [hRead]
        dsimp only
        by_cases hEnd : got = []
        · have hLeft : t.bytes.length ≤ t.position := by
            by_contra hMore
            exact hGot (by omega) (by omega) hEnd
          refine ⟨u, ?_⟩
          rw [hEnd, List.drop_eq_nil_of_le hLeft,
            List.take_nil, if_pos List.isEmpty_nil]
        · rw [if_neg (by simpa using hEnd)]
          have hLess : 0 < got.length :=
            List.length_pos_iff.mpr hEnd
          rcases ih (hTape.of_took hTook)
              (n := n - got.length) (by omega) with
            ⟨v, hLater⟩
          refine ⟨v, ?_⟩
          rw [hLater]
          dsimp only
          rw [hTook.source.bytes, hTook.position,
            ← List.drop_drop, ← hRest, List.drop_left,
            List.take_append, List.take_of_length_le hFits]

/- Reading up to `n` bytes hands out those that are there. -/
theorem readUpTo_eq
    {t : Tape}
    (hTape : t.Sound)
    (n : Nat) :
    ∃ u, t.readUpTo n =
        (.ok ((t.bytes.drop t.position).take n), u) ∧
      Took t u ((t.bytes.drop t.position).take n) := by
  rcases hTape.gather_ok (Nat.le_refl n) with ⟨u, hGather⟩
  exact ⟨u, hGather, (took_gather n hGather).1⟩

/- Reads that go on to the end hand out all that is left. -/
theorem drainUpTo_eq
    {fuel : Nat}
    {t : Tape}
    (hTape : t.Sound)
    (hFuel : t.bytes.length - t.position < fuel) :
    ∃ u, drainUpTo fuel t =
        (t.bytes.drop t.position, none, u) ∧
      Took t u (t.bytes.drop t.position) := by
  induction fuel generalizing t with
  | zero => omega
  | succ fuel ih =>
      unfold drainUpTo
      rcases hTape.readPatiently_ok 8192 with
        ⟨got, u, hRead, hTook, -, hGot⟩
      rcases hTook.handed hTape.inStep with ⟨rest, hRest⟩
      rw [hRead]
      dsimp only
      by_cases hEnd : got = []
      · have hLeft : t.bytes.length ≤ t.position := by
          by_contra hMore
          exact hGot (by omega) (by omega) hEnd
        rw [hEnd] at hTook
        rw [hEnd, List.drop_eq_nil_of_le hLeft,
          if_pos List.isEmpty_nil]
        exact ⟨u, rfl, hTook⟩
      · rw [if_neg (by simpa using hEnd)]
        have hLess : 0 < got.length :=
          List.length_pos_iff.mpr hEnd
        have hWithin : got.length ≤
            t.bytes.length - t.position := by
          have hLength := congrArg List.length hRest
          rw [List.length_append, List.length_drop] at hLength
          omega
        rcases ih (hTape.of_took hTook) (by
            rw [hTook.source.bytes, hTook.position]
            omega) with
          ⟨v, hLater, hMore⟩
        have hRemains :
            u.bytes.drop u.position = rest := by
          rw [hTook.source.bytes, hTook.position,
            ← List.drop_drop, ← hRest, List.drop_left]
        rw [hRemains] at hLater hMore
        rw [hLater, ← hRest]
        exact ⟨v, rfl, hTook.trans hMore⟩

theorem drain_eq
    {t : Tape}
    (hTape : t.Sound) :
    ∃ u, t.drain = (t.bytes.drop t.position, none, u) ∧
      Took t u (t.bytes.drop t.position) :=
  hTape.drainUpTo_eq (by omega)

end Sound

------------------------------------------------------------
-- Reliable Tapes
------------------------------------------------------------

/-
  A tape that refuses nothing for good, that no change of a
  disk can reach, and that is in step with itself.
-/
structure Reliable (t : Tape) : Prop where
  calm : t.script.IsCalm
  detached : ∀ place, t.medium ≠ .file (some place)
  inStep : t.InStep

namespace Reliable

/- Bytes in memory under a calm script are reliable. -/
theorem ofMemory
    {t : Tape}
    (hCalm : t.script.IsCalm)
    (hMemory : t.medium = .memory)
    (hAhead : t.ahead = []) :
    t.Reliable where
  calm := hCalm
  detached place := by simp [hMemory]
  inStep := by
    unfold InStep
    rw [hAhead]
    exact List.nil_prefix

/- A reliable tape is sound. -/
theorem sound
    {t : Tape}
    (hTape : t.Reliable) :
    t.Sound :=
  ⟨hTape.calm, hTape.inStep⟩

/- Reading keeps a tape reliable. -/
theorem of_took
    {t u : Tape}
    {got : Bytes}
    (hTape : t.Reliable)
    (hTook : Took t u got) :
    u.Reliable where
  calm := hTook.source.script ▸ hTape.calm
  detached := hTook.source.medium ▸ hTape.detached
  inStep := hTook.inStep hTape.inStep

/-
  A patient read succeeds and hands out what stands on the
  tape, and something as long as anything is left.
-/
theorem readPatiently_ok
    {t : Tape}
    (hTape : t.Reliable)
    (n : Nat) :
    ∃ got u, t.readPatiently n = (.ok got, u) ∧
      Took t u got ∧ got.length ≤ n ∧
      (0 < n → t.position < t.bytes.length → got ≠ []) :=
  hTape.sound.readPatiently_ok n

/- Reading up to `n` bytes hands out those that are there. -/
theorem readUpTo_eq
    {t : Tape}
    (hTape : t.Reliable)
    (n : Nat) :
    ∃ u, t.readUpTo n =
        (.ok ((t.bytes.drop t.position).take n), u) ∧
      Took t u ((t.bytes.drop t.position).take n) :=
  hTape.sound.readUpTo_eq n

end Reliable

------------------------------------------------------------
-- Prompt Tapes
------------------------------------------------------------

namespace Prompt

/- A prompt tape is reliable. -/
theorem reliable
    {t : Tape}
    (hTape : t.Prompt) :
    t.Reliable := by
  refine .ofMemory ?_ hTape.medium hTape.ahead
  intro history call fault hReply
  rw [hTape.script] at hReply
  cases hReply

/- A read of a prompt tape hands out all that is asked for. -/
theorem readPatiently_eq
    {t : Tape}
    (hTape : t.Prompt)
    (n : Nat) :
    ∃ u, t.readPatiently n =
      (.ok (Bytes.slice t.bytes t.position n), u) := by
  have hRead : ∃ u, t.read n =
      (.ok (Bytes.slice t.bytes t.position n), u) := by
    unfold read fetch ask
    rw [hTape.ahead, hTape.medium, hTape.script]
    refine ⟨_, Prod.ext ?_ rfl⟩
    have hMost :
        min (max n Medium.memory.window)
            (max (Script.amount
              (.read t.position
                (max n Medium.memory.window))) 1) = n := by
      simp only [Medium.window, Script.amount]
      omega
    simp only [List.isEmpty_nil, if_pos, hMost, handOut,
      Bytes.slice, List.take_take, Nat.min_self]
  rcases hRead with ⟨u, hRead⟩
  unfold readPatiently
  cases t.patience with
  | zero => exact ⟨u, hRead⟩
  | succ tries =>
      unfold readTrying
      rw [hRead]
      exact ⟨u, rfl⟩

end Prompt

------------------------------------------------------------
-- Seeks
------------------------------------------------------------

/- A seek that succeeds arrives where it was to go. -/
theorem seek_ok
    {t u : Tape}
    {goal : Seek}
    {position : Nat}
    (hSeek : t.seek goal = (.ok position, u)) :
    SameSource t u ∧ u.position = position ∧
      (position : Int) = t.goalOf goal ∧ u.ahead = [] := by
  unfold seek at hSeek
  have hTold := t.ask_told (.seek t.position goal)
  rcases hAsk : t.ask (.seek t.position goal) with
    ⟨reply, told⟩
  rw [hAsk] at hSeek hTold
  cases reply with
  | refuse fault => cases hSeek
  | proceed most =>
      dsimp only at hSeek
      split at hSeek
      next hRange =>
        cases hSeek
        exact
          ⟨⟨hTold.1.bytes, hTold.1.medium, hTold.1.script⟩,
            rfl, Int.toNat_of_nonneg hRange.1, rfl⟩
      next => cases hSeek

/- A sound tape goes where it can and stays otherwise. -/
theorem Sound.seek_within
    {t : Tape}
    (hTape : t.Sound)
    (goal : Seek) :
    (0 ≤ t.goalOf goal ∧
        t.goalOf goal < t.medium.bound ∧
        ∃ u, t.seek goal =
          (.ok (t.goalOf goal).toNat, u)) ∨
      (¬ (0 ≤ t.goalOf goal ∧
          t.goalOf goal < t.medium.bound) ∧
        ∃ u, t.seek goal =
          (.error t.medium.outOfRange, u)) := by
  unfold seek
  have hTold := t.ask_told (.seek t.position goal)
  have hCases := hTape.ask_cases (.seek t.position goal)
  rcases hAsk : t.ask (.seek t.position goal) with
    ⟨reply, told⟩
  rw [hAsk] at hTold hCases
  rcases hTold with ⟨hSource, -, -⟩
  rcases hCases with ⟨most, hMost⟩ | ⟨-, -, _, _, hRead⟩
  · simp only at hMost
    subst hMost
    dsimp only
    by_cases hRange :
        0 ≤ t.goalOf goal ∧ t.goalOf goal < t.medium.bound
    · exact .inl ⟨hRange.1, hRange.2, _, by
        rw [hSource.medium, if_pos hRange]⟩
    · exact .inr ⟨hRange, _, by
        rw [hSource.medium, if_neg hRange]⟩
  · cases hRead

theorem Reliable.seek_within
    {t : Tape}
    (hTape : t.Reliable)
    (goal : Seek) :
    (0 ≤ t.goalOf goal ∧
        t.goalOf goal < t.medium.bound ∧
        ∃ u, t.seek goal =
          (.ok (t.goalOf goal).toNat, u)) ∨
      (¬ (0 ≤ t.goalOf goal ∧
          t.goalOf goal < t.medium.bound) ∧
        ∃ u, t.seek goal =
          (.error t.medium.outOfRange, u)) :=
  hTape.sound.seek_within goal

/- Arriving somewhere else keeps a tape sound. -/
theorem Sound.of_seek
    {t u : Tape}
    {goal : Seek}
    {position : Nat}
    (hTape : t.Sound)
    (hSeek : t.seek goal = (.ok position, u)) :
    u.Sound := by
  rcases seek_ok hSeek with ⟨hSource, -, -, hAhead⟩
  exact
    { calm := hSource.script ▸ hTape.calm
      inStep := by
        unfold InStep
        rw [hAhead]
        exact List.nil_prefix }

/- A place within reach is arrived at. -/
theorem Sound.goes
    {t : Tape}
    (hTape : t.Sound)
    {goal : Seek}
    {position : Nat}
    (hGoal : t.goalOf goal = position)
    (hBound : position < t.medium.bound) :
    ∃ u,
      t.seek goal = (.ok position, u) ∧
        u.Sound ∧ SameSource t u ∧ u.position = position := by
  rcases hTape.seek_within goal with
    ⟨-, -, u, hSeek⟩ | ⟨hRange, -⟩
  · rw [hGoal, Int.toNat_natCast] at hSeek
    rcases seek_ok hSeek with ⟨hSource, hPosition, -⟩
    exact
      ⟨u, hSeek, hTape.of_seek hSeek, hSource, hPosition⟩
  · rw [hGoal] at hRange
    exact absurd
      ⟨Int.natCast_nonneg position, Int.ofNat_lt.mpr hBound⟩
      hRange

/- As many bytes are read as are there. -/
theorem Sound.readExactly_eq
    {t : Tape}
    (hTape : t.Sound)
    {n : Nat}
    (hThere : t.position + n ≤ t.bytes.length) :
    ∃ u,
      t.readExactly n =
          (.ok (Bytes.slice t.bytes t.position n), u) ∧
        u.Sound ∧ SameSource t u := by
  rcases hTape.readUpTo_eq n with ⟨u, hRead, hTook⟩
  have hLength :
      ((t.bytes.drop t.position).take n).length = n := by
    rw [List.length_take, List.length_drop]
    omega
  refine ⟨u, ?_, hTape.of_took hTook, hTook.source⟩
  unfold readExactly
  rw [hRead]
  dsimp only
  rw [if_pos hLength]
  rfl

/- And so it does for a reliable one. -/
theorem Reliable.of_seek
    {t u : Tape}
    {goal : Seek}
    {position : Nat}
    (hTape : t.Reliable)
    (hSeek : t.seek goal = (.ok position, u)) :
    u.Reliable := by
  rcases seek_ok hSeek with ⟨hSource, -, -, -⟩
  exact
    { calm := hSource.script ▸ hTape.calm
      detached := hSource.medium ▸ hTape.detached
      inStep := (hTape.sound.of_seek hSeek).inStep }

end Tape

end ArchiveRescue
