import Mathlib
import ArchiveRescue.Proofs.Realignment

/-
  Whether a walk makes progress and ends.  A round leaves the
  tape further on than it was, unless the header that it has
  found declares so much data that the distance to the next
  header turns negative as a signed number of 64 bits.  Then
  the tape is rewound, and what follows may be walked again
  and again.

  Key definitions include:
    * `Walk.reach?`
    * `Walk.Rewinds`
    * `Walk.headers`
    * `Walk.after?`

  Main statements:
    * `Walk.round_position`
    * `Walk.run?_isSome_iff`
    * `Walk.ends_of_advancing`
    * `Walk.advances_and_ends_iff`
-/

namespace ArchiveRescue

open Ustar

namespace Walk

------------------------------------------------------------
-- Rounds
------------------------------------------------------------

/-
  How far behind the header at the position the next header
  is looked for, when a header stands there.  This is a
  number without bound.
-/
def reach? (w : Walk) : Option Nat :=
  match w.readBlock with
  | (.ok (some block), read) =>
      if sight w.options block = .header then
        some (blockSize + roundUp block.header.size.toNat +
          (read.refusedChunk block).length)
      else none
  | _ => none

/-
  The next header is looked for at the position or in front
  of it.  The position and the reach together do not fit 64
  bits, and the reach alone does.
-/
def Rewinds (w : Walk) : Prop :=
  ∃ reach, w.reach? = some reach ∧
    2 ^ 64 ≤ w.tape.position + reach ∧ reach ≤ 2 ^ 64

/-
  Where a reliable tape stands when a round goes on: at most
  a block further on when no header was found, and as far as
  the header reaches otherwise, modulo 2 ^ 64.
-/
theorem round_position
    {w next : Walk}
    (hTape : w.tape.Reliable)
    (hLength : w.tape.bytes.length < 2 ^ 63)
    (hRound : w.round = (next, true)) :
    next.tape.Reliable ∧
      w.tape.SameSource next.tape ∧
      w.tape.position + blockSize ≤ w.tape.bytes.length ∧
      ((w.reach? = none ∧
          w.tape.position < next.tape.position ∧
          next.tape.position ≤
            w.tape.position + blockSize) ∨
        ∃ reach, w.reach? = some reach ∧
          blockSize ≤ reach ∧
          w.tape.position + reach < 2 ^ 65 ∧
          next.tape.position =
            (w.tape.position + reach) % 2 ^ 64) := by
  have hBlock : blockSize = 512 := rfl
  unfold round at hRound
  unfold reach?
  rcases hRead : w.readBlock with ⟨reply, read⟩
  rw [hRead] at hRound
  cases reply with
  | error fault => cases hRound
  | ok found =>
    cases found with
    | none => cases hRound
    | some block =>
      dsimp only at hRound ⊢
      have hPassed := passed_readBlock hRead
      have hBehind := hPassed.position
      have hReliable := hPassed.reliable hTape
      have hSource := hPassed.source hTape
      have hWithin : w.tape.position + blockSize ≤
          w.tape.bytes.length := by
        have hNear := hPassed.within hTape
        omega
      cases hSight : sight w.options block with
      | blank =>
          rw [hSight] at hRound
          cases hRound
          refine
            ⟨hReliable, hSource, hWithin, .inl ⟨rfl, ?_, ?_⟩⟩
          · dsimp only [telling]
            omega
          · exact Nat.le_of_eq hBehind
      | other =>
          rw [hSight] at hRound
          cases hRound
          rcases realign_lands hReliable block (by omega)
              (by omega) with ⟨hLater, hAgain, hLanded, -, -⟩
          have hJunk : 0 < block.junkOffset?.getD blockSize ∧
              block.junkOffset?.getD blockSize ≤
                blockSize := by
            cases hFound : block.junkOffset? with
            | none => simp [blockSize]
            | some junk =>
                have hInside := Block.junkOffset?_bounds hFound
                simp only [Option.getD_some]
                omega
          refine
            ⟨hLater, hSource.trans hAgain, hWithin,
              .inl ⟨rfl, ?_, ?_⟩⟩
          · omega
          · omega
      | header =>
          rw [hSight] at hRound
          rcases entry_lands hRound with
            ⟨v, n, hFits, hEntry, hLands, -, hKept, -⟩
          rcases hKept (hEntry.reliable hReliable) with
            ⟨hLater, hAgain⟩
          refine
            ⟨hLater,
              (hSource.trans (hEntry.source hReliable)).trans
                hAgain,
              hWithin, .inr ⟨_, if_pos rfl, ?_, ?_, ?_⟩⟩
          · omega
          · have hUp := roundUp_lt block.header.size.toNat
            have hSize := block.header.size.toNat_lt
            have hChunk := read.refusedChunk_length_le block
            omega
          · have hGone := hEntry.position
            have hNear := hEntry.within hReliable
            have hDown := le_roundUp block.header.size.toNat
            have hUp := roundUp_lt block.header.size.toNat
            have hWhole := roundUp_mod block.header.size.toNat
            have hSize := block.header.size.toNat_lt
            have hChunk := read.refusedChunk_length_le block
            rw [hBlock] at hWhole
            rw [hSource.bytes] at hNear
            -- The seek leads forwards or backwards by the
            -- sign that the distance has in 64 bits.
            by_cases hShort :
                roundUp block.header.size.toNat - n < 2 ^ 63
            · rw [offsetOf_of_lt hShort] at hLands
              omega
            · rw [offsetOf_of_le (by omega) (by omega)]
                at hLands
              omega

/- So the tape advances unless it is rewound. -/
theorem lt_position_iff
    {w next : Walk}
    (hTape : w.tape.Reliable)
    (hLength : w.tape.bytes.length < 2 ^ 63)
    (hRound : w.round = (next, true)) :
    w.tape.position < next.tape.position ↔ ¬ w.Rewinds := by
  have hBlock : blockSize = 512 := rfl
  unfold Rewinds
  rcases round_position hTape hLength hRound with
    ⟨-, -, hWithin, ⟨hNone, hMore, -⟩ |
      ⟨reach, hSome, hLeast, hMost, hPosition⟩⟩
  · simp [hNone, hMore]
  · rw [hSome, hPosition]
    simp only [Option.some.injEq, exists_eq_left']
    omega

------------------------------------------------------------
-- Whole Runs
------------------------------------------------------------

/- The accepted header that a round finds. -/
def header? (w : Walk) : Option Block :=
  match w.readBlock with
  | (.ok (some block), _) =>
      if sight w.options block = .header then some block
      else none
  | _ => none

/- The accepted headers that so many rounds find. -/
def headers : Nat → Walk → List Block
| 0, _ => []
| fuel + 1, w =>
    w.header?.toList ++
      match w.round with
      | (next, true) => headers fuel next
      | _ => []

/- The walk after so many rounds, if it has gone on in all. -/
def after? : Nat → Walk → Option Walk
| 0, w => some w
| rounds + 1, w =>
    match w.round with
    | (next, true) => after? rounds next
    | (_, false) => none

/- Rounds one after another. -/
theorem after?_add
    (first second : Nat)
    (w : Walk) :
    w.after? (first + second) =
      (w.after? first).bind (after? second) := by
  induction first generalizing w with
  | zero => simp [after?]
  | succ first ih =>
      rw [Nat.succ_add]
      simp only [after?]
      split
      next next _ => exact ih next
      next => rfl

/- A run ends as soon as some round does not go on. -/
theorem run?_isSome_iff
    (fuel : Nat)
    (w : Walk) :
    (w.run? fuel).isSome ↔ w.after? fuel = none := by
  induction fuel generalizing w with
  | zero => simp [run?, after?]
  | succ fuel ih =>
      unfold run? after?
      rcases hRound : w.round with ⟨next, goesOn⟩
      cases goesOn with
      | true => exact ih next
      | false => simp

/- A walk that has ended has done so in its last round. -/
theorem exists_last_round
    {fuel : Nat}
    {w last : Walk}
    (hRun : w.run? fuel = some last) :
    ∃ rounds v,
      w.after? rounds = some v ∧ v.round.1 = last := by
  induction fuel generalizing w with
  | zero => cases hRun
  | succ fuel ih =>
      unfold run? at hRun
      split at hRun
      next next hNext =>
        rcases ih hRun with ⟨rounds, v, hAfter, hLast⟩
        refine ⟨rounds + 1, v, ?_, hLast⟩
        unfold after?
        rw [hNext]
        exact hAfter
      next hEnds =>
        cases hRun
        exact ⟨0, w, rfl, congrArg Prod.fst hEnds⟩

/- Rounds leave a reliable tape on the same archive. -/
theorem after?_reliable
    {rounds : Nat}
    {w v : Walk}
    (hTape : w.tape.Reliable)
    (hLength : w.tape.bytes.length < 2 ^ 63)
    (hAfter : w.after? rounds = some v) :
    v.tape.Reliable ∧ w.tape.SameSource v.tape := by
  induction rounds generalizing w with
  | zero =>
      cases hAfter
      exact ⟨hTape, .refl _⟩
  | succ rounds ih =>
      unfold after? at hAfter
      split at hAfter
      next next hRound =>
        rcases round_position hTape hLength hRound with
          ⟨hLater, hSource, -, -⟩
        rw [← hSource.bytes] at hLength
        rcases ih hLater hLength hAfter with ⟨hLast, hAgain⟩
        exact ⟨hLast, hSource.trans hAgain⟩
      next => cases hAfter

/-
  A walk that is never rewound ends.  Each round brings the
  end of the tape at least a byte nearer.
-/
theorem ends_of_advancing
    {w : Walk}
    (hTape : w.tape.Reliable)
    (hLength : w.tape.bytes.length < 2 ^ 63)
    (hAdvancing :
      ∀ rounds v, w.after? rounds = some v → ¬ v.Rewinds)
    {fuel : Nat}
    (hFuel :
      w.tape.bytes.length - w.tape.position < fuel) :
    w.after? fuel = none := by
  induction fuel generalizing w with
  | zero => omega
  | succ fuel ih =>
      unfold after?
      split
      next next hRound =>
        rcases round_position hTape hLength hRound with
          ⟨hLater, hSource, hWithin, -⟩
        have hMore : w.tape.position < next.tape.position :=
          (lt_position_iff hTape hLength hRound).mpr
            (hAdvancing 0 w rfl)
        have hBlock : blockSize = 512 := rfl
        refine ih hLater ?_ ?_ ?_
        · rw [hSource.bytes]
          exact hLength
        · intro rounds v hAfter
          apply hAdvancing (rounds + 1) v
          unfold after?
          rw [hRound]
          exact hAfter
        · rw [hSource.bytes]
          omega
      next => rfl

/-
  What a walk through an archive of less than 2 ^ 63 bytes
  does on a reliable tape.  A round that goes on advances
  exactly when it does not rewind, and the whole walk ends
  exactly when it rewinds only finitely often; without
  rewinding it ends within a round for each byte.
-/
theorem advances_and_ends_iff
    {w : Walk}
    (hTape : w.tape.Reliable)
    (hLength : w.tape.bytes.length < 2 ^ 63) :
    (∀ rounds v next,
        w.after? rounds = some v →
        v.round = (next, true) →
        (v.tape.position < next.tape.position ↔
          ¬ v.Rewinds)) ∧
      ((∃ fuel, (w.run? fuel).isSome) ↔
        ∃ start, ∀ rounds v,
          start ≤ rounds → w.after? rounds = some v →
            ¬ v.Rewinds) ∧
      ((∀ rounds v,
          w.after? rounds = some v → ¬ v.Rewinds) →
        (w.run? (w.tape.bytes.length + 1)).isSome) := by
  refine ⟨?_, ⟨?_, ?_⟩, ?_⟩
  · intro rounds v next hAfter hRound
    rcases after?_reliable hTape hLength hAfter with
      ⟨hLater, hSource⟩
    rw [← hSource.bytes] at hLength
    exact lt_position_iff hLater hLength hRound
  · rintro ⟨fuel, hEnds⟩
    refine ⟨fuel, ?_⟩
    intro rounds v hLate hAfter
    rw [← Nat.add_sub_cancel' hLate, after?_add,
      (run?_isSome_iff fuel w).mp hEnds] at hAfter
    cases hAfter
  · rintro ⟨start, hAdvancing⟩
    cases hStart : w.after? start with
    | none => exact ⟨start, (run?_isSome_iff _ _).mpr hStart⟩
    | some v =>
        rcases after?_reliable hTape hLength hStart with
          ⟨hLater, hSource⟩
        rw [← hSource.bytes] at hLength
        have hLeft :
            v.tape.bytes.length - v.tape.position <
              v.tape.bytes.length + 1 := by
          omega
        have hEnd :
            v.after? (v.tape.bytes.length + 1) = none := by
          apply ends_of_advancing hLater hLength ?_ hLeft
          intro rounds u hAfter
          apply hAdvancing (start + rounds) u (by omega)
          rw [after?_add, hStart]
          exact hAfter
        refine ⟨start + (v.tape.bytes.length + 1), ?_⟩
        rw [run?_isSome_iff, after?_add, hStart]
        exact hEnd
  · intro hAdvancing
    rw [run?_isSome_iff]
    exact ends_of_advancing hTape hLength hAdvancing
      (by omega)

/-
  A walk whose archive is the header of a link that declares
  2 ^ 64 - 512 bytes.
-/
def rewound : Walk where
  disk := {}
  tape :=
    { bytes :=
        (Header.toBlock
          { name := "link"
            mode := 0o777
            size := 0xFFFFFFFFFFFFFE00
            typeflag := 0x32 }).bytes }
  directory := ⟨"/out"⟩
  options := {}
  report := { operation := "extract" }

set_option maxRecDepth 100000 in
/- It goes on in front of the header that it has read. -/
theorem rewound_stays :
    rewound.Rewinds ∧ rewound.round.2 = true ∧
      ¬ 0 < rewound.round.1.tape.position := by
  have hTape : rewound.tape.Reliable :=
    .ofMemory Script.plain_isCalm rfl rfl
  have hLength : rewound.tape.bytes.length < 2 ^ 63 := by
    unfold rewound
    rw [Block.length_bytes]
    decide
  have hRewinds : rewound.Rewinds :=
    ⟨2 ^ 64, by decide +kernel, by decide, by decide⟩
  have hGoesOn : rewound.round.2 = true := by
    decide +kernel
  have hStays :=
    (advances_and_ends_iff hTape hLength).1 0 rewound
      rewound.round.1 rfl (Prod.ext rfl hGoesOn)
  exact
    ⟨hRewinds, hGoesOn,
      fun hMore => hStays.mp hMore hRewinds⟩

end Walk

end ArchiveRescue
