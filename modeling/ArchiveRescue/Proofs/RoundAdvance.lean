import Mathlib
import ArchiveRescue.Proofs.Header
import ArchiveRescue.Proofs.Progress

/-
  Walks that stand in front of known bytes: what one round
  does there.  Blocks without a magic word are passed over, a
  header that does not begin where it is expected is found
  again, and behind an entry the walk stands in front of what
  follows its last block.

  Key definitions include:
    * `Walk.Stands`
    * `Walk.Advanced`
    * `Walk.Onward`
    * `Walk.Ends`
    * `Walk.attempted`

  Main statements:
    * `Walk.stands_behind_idle`
    * `Walk.stands_behind_junk`
    * `Walk.ends_in_tail`
    * `Walk.entry_reaches`
    * `Walk.Stands.round_header`
-/

namespace ArchiveRescue

open Ustar

namespace Walk

------------------------------------------------------------
-- Standing
------------------------------------------------------------

/- The walk stands in front of `rest`, on a reliable tape. -/
structure Stands (w : Walk) (rest : Bytes) : Prop where
  reliable : w.tape.Reliable
  length : w.tape.bytes.length < 2 ^ 63
  within : w.tape.position ≤ w.tape.bytes.length
  rest : w.tape.bytes.drop w.tape.position = rest

/- The tape of `v` is the one of `w`, `n` bytes further on. -/
structure Advanced (w v : Walk) (n : Nat) : Prop where
  reliable : v.tape.Reliable
  source : w.tape.SameSource v.tape
  position : v.tape.position = w.tape.position + n
  prompt : w.tape.Prompt → v.tape.Prompt

/- The tape goes on step by step. -/
theorem Advanced.trans
    {u v w : Walk}
    {m n : Nat}
    (hFirst : Advanced u v m)
    (hSecond : Advanced v w n) :
    Advanced u w (m + n) where
  reliable := hSecond.reliable
  source := hFirst.source.trans hSecond.source
  position := by
    rw [hSecond.position, hFirst.position, Nat.add_assoc]
  prompt hTape := hSecond.prompt (hFirst.prompt hTape)

/-
  `v` has come from `w` by nothing but reading and seeking,
  and stands in front of `rest`.
-/
structure Onward (w v : Walk) (rest : Bytes) : Prop where
  stands : v.Stands rest
  alike : w.Alike v
  prompt : w.tape.Prompt → v.tape.Prompt

namespace Stands

variable {w v : Walk} {rest passed : Bytes}

/- How much is left behind the position. -/
theorem length_rest (hStands : w.Stands rest) :
    w.tape.position + rest.length =
      w.tape.bytes.length := by
  have hWithin := hStands.within
  rw [← hStands.rest, List.length_drop]
  omega

/- Moving on within the same bytes. -/
theorem move
    (hStands : w.Stands (passed ++ rest))
    (hMoved : w.Advanced v passed.length) :
    v.Stands rest where
  reliable := hMoved.reliable
  length := by
    rw [hMoved.source.bytes]
    exact hStands.length
  within := by
    have hLength := hStands.length_rest
    have hPosition := hMoved.position
    rw [List.length_append] at hLength
    rw [hMoved.source.bytes]
    omega
  rest := by
    rw [hMoved.source.bytes, hMoved.position,
      ← List.drop_drop, hStands.rest, List.drop_left]

end Stands

/- Nothing has to happen. -/
theorem Onward.refl
    {w : Walk}
    {rest : Bytes}
    (hStands : w.Stands rest) :
    Onward w w rest :=
  ⟨hStands, .refl w, id⟩

/- One way on after another. -/
theorem Onward.trans
    {u v w : Walk}
    {near far : Bytes}
    (hFirst : Onward u v near)
    (hSecond : Onward v w far) :
    Onward u w far where
  stands := hSecond.stands
  alike := hFirst.alike.trans hSecond.alike
  prompt hTape := hSecond.prompt (hFirst.prompt hTape)

------------------------------------------------------------
-- Reading Blocks
------------------------------------------------------------

/- A block is the block made of its bytes. -/
theorem ofBytes_bytes (block : Block) :
    Block.ofBytes block.bytes = block := by
  unfold Block.ofBytes
  congr 1
  exact Bytes.fit_of_eq block.length_bytes

/- The block in front of the walk is read. -/
theorem Stands.readBlock
    {w : Walk}
    {block : Block}
    {rest : Bytes}
    (hStands : w.Stands (block.bytes ++ rest)) :
    ∃ read,
      w.readBlock = (.ok (some block), read) ∧
        w.Advanced read blockSize ∧
        Onward w read rest := by
  rcases hStands.reliable.readUpTo_eq blockSize with
    ⟨tape, hRead, hTook⟩
  have hGot :
      (w.tape.bytes.drop w.tape.position).take blockSize =
        block.bytes := by
    rw [hStands.rest]
    exact List.take_left' block.length_bytes
  rw [hGot] at hRead hTook
  have hMoved :
      w.Advanced { w with tape := tape } blockSize := by
    constructor
    · exact hStands.reliable.of_took hTook
    · exact hTook.source
    · rw [← block.length_bytes]
      exact hTook.position
    · exact hTook.prompt
  have hThere : Walk.Stands { w with tape := tape } rest := by
    apply hStands.move
    rw [block.length_bytes]
    exact hMoved
  refine ⟨{ w with tape := tape }, ?_, hMoved, hThere, ?_, ?_⟩
  · unfold Walk.readBlock
    rw [hRead]
    dsimp only
    rw [if_pos block.length_bytes, ofBytes_bytes]
  · exact .onTape w tape
  · exact hTook.prompt

/- Where less than a block is left, none is read. -/
theorem readBlock_short
    {w : Walk}
    (hTape : w.tape.Reliable)
    (hShort :
      w.tape.bytes.length < w.tape.position + blockSize) :
    ∃ tape,
      w.readBlock = (.ok none, { w with tape := tape }) := by
  rcases hTape.readUpTo_eq blockSize with ⟨tape, hRead, -⟩
  have hLess :
      ((w.tape.bytes.drop w.tape.position).take
          blockSize).length ≠ blockSize := by
    have hBlock : 0 < blockSize := by decide
    rw [List.length_take, List.length_drop]
    omega
  refine ⟨tape, ?_⟩
  unfold Walk.readBlock
  rw [hRead]
  dsimp only
  rw [if_neg hLess]

------------------------------------------------------------
-- Whole Runs
------------------------------------------------------------

/- The walk ends as `last`, with any fuel that is enough. -/
def Ends (w last : Walk) : Prop :=
  ∃ rounds, ∀ fuel, rounds ≤ fuel →
    w.run? fuel = some last

/- A walk ends in whatever way it ends after some rounds. -/
theorem ends_of_after
    {w v last : Walk}
    {rounds : Nat}
    (hAfter : w.after? rounds = some v)
    (hEnds : v.Ends last) :
    w.Ends last := by
  induction rounds generalizing w with
  | zero =>
      cases hAfter
      exact hEnds
  | succ rounds ih =>
      unfold after? at hAfter
      split at hAfter
      next next hRound =>
        rcases ih hAfter with ⟨least, hLeast⟩
        refine ⟨least + 1, ?_⟩
        intro fuel hFuel
        cases fuel with
        | zero => omega
        | succ fuel =>
            unfold run?
            rw [hRound]
            exact hLeast fuel (by omega)
      next => cases hAfter

/- A walk that goes on to another ends as that one does. -/
theorem ends_of_round
    {w next last : Walk}
    (hRound : w.round = (next, true))
    (hEnds : next.Ends last) :
    w.Ends last := by
  have hAfter : w.after? 1 = some next := by
    simp only [after?, hRound]
  exact ends_of_after hAfter hEnds

------------------------------------------------------------
-- Blocks Without a Header
------------------------------------------------------------

/- A magic word is not all zeros. -/
theorem isZero_eq_false
    {block : Block}
    {i : Nat}
    (hMagic : magic <+: block.bytes.drop i) :
    block.isZero = false := by
  have hMem : (0x75 : UInt8) ∈ block.bytes :=
    List.mem_of_mem_drop (hMagic.subset List.mem_cons_self)
  unfold Block.isZero
  rw [List.all_eq_false]
  exact ⟨0x75, hMem, by decide⟩

/- Nothing that lacks the magic word is taken for a header. -/
theorem sight_ne_header
    (options : ExtractionOptions)
    {block : Block}
    (hNone : ¬ magic <+: block.bytes.drop magicStart) :
    sight options block ≠ .header := by
  have hMagic : block.hasMagic = false := by
    rw [Bool.eq_false_iff, ne_eq, Block.hasMagic_iff]
    exact hNone
  unfold sight Block.accepted
  rw [hMagic]
  split
  · exact Sighting.noConfusion
  · exact Sighting.noConfusion

/-
  A round in front of a block without a header in its place
  goes on behind the junk, or behind the block if there is no
  header in it.
-/
theorem Stands.round_astray
    {w : Walk}
    {block : Block}
    {rest : Bytes}
    (hStands : w.Stands (block.bytes ++ rest))
    (hSight : sight w.options block = .other) :
    ∃ next, w.round = (next, true) ∧
      w.Alike next ∧
      w.Advanced next
        (block.junkOffset?.getD blockSize) := by
  rcases hStands.readBlock with
    ⟨read, hRead, hMoved, hOnward⟩
  have hBehind := hMoved.position
  have hWithin := hOnward.stands.within
  have hLength := hOnward.stands.length
  rcases realign_lands hOnward.stands.reliable block
      (by omega) (by omega) with
    ⟨hTape, hSource, hPosition, hPrompt, hAlike⟩
  refine
    ⟨read.realign block, ?_, hOnward.alike.trans hAlike,
      hTape, hMoved.source.trans hSource, ?_,
      fun hTape => hPrompt (hMoved.prompt hTape)⟩
  · unfold round
    rw [hRead]
    dsimp only
    rw [hSight]
  · omega

/-
  A block that is not taken for a header, and in which none
  begins further on, is passed over.
-/
theorem Stands.round_barren
    {w : Walk}
    {block : Block}
    {rest : Bytes}
    (hStands : w.Stands (block.bytes ++ rest))
    (hSight : sight w.options block ≠ .header)
    (hNone : block.junkOffset? = none) :
    ∃ next, w.round = (next, true) ∧
      Onward w next rest := by
  cases hCase : sight w.options block with
  | header => exact (hSight hCase).elim
  | blank =>
      rcases hStands.readBlock with
        ⟨read, hRead, -, hOnward⟩
      refine
        ⟨read.telling (·.debug "skipping zero block"), ?_,
          hOnward.trans ⟨?_, ?_, id⟩⟩
      · unfold round
        rw [hRead]
        dsimp only
        rw [hCase]
      · exact { hOnward.stands with }
      · exact { Alike.refl read with }
  | other =>
      rcases hStands.round_astray hCase with
        ⟨next, hRound, hAlike, hMoved⟩
      rw [hNone] at hMoved
      refine ⟨next, hRound, ?_, hAlike, hMoved.prompt⟩
      apply hStands.move
      rw [block.length_bytes]
      exact hMoved

/- A block without a magic word is passed over. -/
theorem Stands.round_idle
    {w : Walk}
    {block : Block}
    {rest : Bytes}
    (hStands : w.Stands (block.bytes ++ rest))
    (hNone : ∀ i, ¬ magic <+: block.bytes.drop i) :
    ∃ next, w.round = (next, true) ∧
      Onward w next rest :=
  hStands.round_barren
    (sight_ne_header w.options (hNone magicStart))
    (Block.junkOffset?_eq_none hNone)

/- A header that begins inside the block is moved to. -/
theorem Stands.round_shifted
    {w : Walk}
    {junk rest : Bytes}
    {block : Block}
    (hStands : w.Stands (junk ++ (block.bytes ++ rest)))
    (hJunk : 0 < junk.length)
    (hShort : junk.length ≤ 250)
    (hMagic : magic <+: block.bytes.drop magicStart)
    (hFirst :
      ∀ i < junk.length + magicStart,
        ¬ magic <+: (junk ++ block.bytes).drop i) :
    ∃ next, w.round = (next, true) ∧
      Onward w next (block.bytes ++ rest) := by
  have hLength := block.length_bytes
  have hBlock : blockSize = 512 := rfl
  have hStart : magicStart = 257 := rfl
  have hWord : magic.length = 5 := rfl
  let there : Block :=
    ⟨(junk ++ block.bytes).take blockSize, by
      rw [List.length_take, List.length_append]
      omega⟩
  have hThere :
      there.bytes = (junk ++ block.bytes).take blockSize :=
    rfl
  have hBytes :
      junk ++ (block.bytes ++ rest) =
        there.bytes ++
          ((junk ++ block.bytes).drop blockSize ++ rest) := by
    rw [hThere, ← List.append_assoc, ← List.append_assoc,
      List.take_append_drop]
  have hFound :
      magic <+: there.bytes.drop
        (junk.length + magicStart) := by
    rw [hThere, List.drop_take, List.prefix_take_iff,
      ← List.drop_drop, List.drop_left]
    exact ⟨hMagic, by omega⟩
  have hNone :
      ∀ i < junk.length + magicStart,
        ¬ magic <+: there.bytes.drop i := by
    intro i hi hHere
    rw [hThere, List.drop_take, List.prefix_take_iff] at hHere
    exact hFirst i hi hHere.1
  have hSight : sight w.options there = .other := by
    have hHeader :=
      sight_ne_header w.options (hNone magicStart (by omega))
    unfold sight at hHeader ⊢
    rw [isZero_eq_false hFound] at hHeader ⊢
    simp only [Bool.false_eq_true, if_false] at hHeader ⊢
    split at hHeader
    · exact (hHeader rfl).elim
    next hOther => rw [if_neg hOther]
  have hAgain := hStands
  rw [hBytes] at hAgain
  rcases hAgain.round_astray hSight with
    ⟨next, hRound, hAlike, hMoved⟩
  rw [Block.junkOffset?_eq_some hJunk hFound hNone] at hMoved
  exact
    ⟨next, hRound, hStands.move hMoved, hAlike,
      hMoved.prompt⟩

------------------------------------------------------------
-- Junk and Tails
------------------------------------------------------------

/- The first block of bytes, if there are enough. -/
theorem exists_block
    {bytes : Bytes}
    (hLength : blockSize ≤ bytes.length) :
    ∃ block : Block, ∃ rest,
      bytes = block.bytes ++ rest ∧
        rest.length + blockSize = bytes.length := by
  refine
    ⟨⟨bytes.take blockSize, List.length_take_of_le hLength⟩,
      bytes.drop blockSize, ?_, ?_⟩
  · exact (List.take_append_drop blockSize bytes).symm
  · rw [List.length_drop]
    omega

/- A word in front is a word in the whole. -/
theorem prefix_drop_append
    {word front : Bytes}
    (rest : Bytes)
    {i : Nat}
    (hWord : word <+: front.drop i)
    (hSome : word ≠ []) :
    word <+: (front ++ rest).drop i := by
  have hInside : i ≤ front.length := by
    by_contra hBeyond
    rw [List.drop_eq_nil_of_le (by omega)] at hWord
    exact hSome (List.prefix_nil.mp hWord)
  rw [List.drop_append_of_le_length hInside]
  exact hWord.trans (List.prefix_append _ _)

/-
  Whole blocks without a magic word are passed over.  The
  induction is on how many bytes there are.
-/
theorem stands_behind_idle
    {w : Walk}
    {idle rest : Bytes}
    (hStands : w.Stands (idle ++ rest))
    (hWhole : blockSize ∣ idle.length)
    (hNone : ∀ i, ¬ magic <+: idle.drop i) :
    ∃ rounds v, w.after? rounds = some v ∧
      Onward w v rest := by
  induction hLength : idle.length using
      Nat.strong_induction_on generalizing w idle with
  | _ length ih =>
    by_cases hNil : idle = []
    · subst hNil
      exact ⟨0, w, rfl, .refl hStands⟩
    have hSome := List.length_pos_iff.mpr hNil
    have hBlock : blockSize = 512 := rfl
    rcases exists_block (Nat.le_of_dvd hSome hWhole) with
      ⟨first, later, rfl, hLater⟩
    rw [List.append_assoc] at hStands
    have hIdle : ∀ i, ¬ magic <+: first.bytes.drop i := by
      intro i hHere
      exact
        hNone i (prefix_drop_append later hHere (by decide))
    have hRest : ∀ i, ¬ magic <+: later.drop i := by
      intro i hHere
      refine hNone (blockSize + i) ?_
      rw [← List.drop_drop,
        List.drop_left' first.length_bytes]
      exact hHere
    have hLeft : blockSize ∣ later.length := by
      rw [← hLater] at hWhole
      exact (Nat.dvd_add_left (Nat.dvd_refl _)).mp hWhole
    rcases hStands.round_idle hIdle with
      ⟨next, hRound, hOnward⟩
    rcases ih later.length (by omega) hOnward.stands hLeft
        hRest rfl with ⟨rounds, v, hAfter, hOn⟩
    refine ⟨rounds + 1, v, ?_, hOnward.trans hOn⟩
    unfold after?
    rw [hRound]
    exact hAfter

/- Bytes are whole blocks and less than another block. -/
theorem exists_whole (bytes : Bytes) :
    ∃ whole left, bytes = whole ++ left ∧
      blockSize ∣ whole.length ∧
      left.length = bytes.length % blockSize := by
  refine
    ⟨bytes.take (bytes.length / blockSize * blockSize),
      bytes.drop (bytes.length / blockSize * blockSize),
      (List.take_append_drop _ bytes).symm, ?_, ?_⟩
  · rw [List.length_take_of_le (Nat.div_mul_le_self _ _)]
    exact Nat.dvd_mul_left _ _
  · rw [List.length_drop]
    have hDivMod := Nat.div_add_mod' bytes.length blockSize
    omega

/-
  Junk in front of a header is passed over.  Whole blocks of
  it hold no magic word, and what is left in the end is too
  short to push the word of the header out of the block that
  is read.
-/
theorem stands_behind_junk
    {w : Walk}
    {junk rest : Bytes}
    {block : Block}
    (hStands : w.Stands (junk ++ (block.bytes ++ rest)))
    (hMagic : magic <+: block.bytes.drop magicStart)
    (hShort : junk.length % blockSize ≤ 250)
    (hFirst :
      junk ≠ [] → ∀ i < junk.length + magicStart,
        ¬ magic <+: (junk ++ block.bytes).drop i) :
    ∃ rounds v, w.after? rounds = some v ∧
      Onward w v (block.bytes ++ rest) := by
  rcases exists_whole junk with
    ⟨whole, left, rfl, hWhole, hLeft⟩
  rw [← hLeft] at hShort
  rw [List.append_assoc] at hStands
  have hBefore :
      whole ++ left ≠ [] →
        ∀ i < whole.length + (left.length + magicStart),
          ¬ magic <+: (whole ++ (left ++ block.bytes)).drop i := by
    intro hSome i hi
    rw [← List.append_assoc]
    apply hFirst hSome
    rw [List.length_append]
    omega
  have hIdle : ∀ i, ¬ magic <+: whole.drop i := by
    intro i hHere
    have hPlace : i < whole.length := by
      by_contra hBeyond
      rw [List.drop_eq_nil_of_le (by omega)] at hHere
      exact absurd (List.prefix_nil.mp hHere) (by decide)
    have hSome : whole ++ left ≠ [] := by
      rintro hNil
      rw [(List.append_eq_nil_iff.mp hNil).1] at hPlace
      exact Nat.not_lt_zero _ hPlace
    exact
      hBefore hSome i (by omega)
        (prefix_drop_append _ hHere (by decide))
  rcases stands_behind_idle hStands hWhole hIdle with
    ⟨rounds, v, hAfter, hOnward⟩
  by_cases hNil : left = []
  · subst hNil
    exact ⟨rounds, v, hAfter, hOnward⟩
  have hNear :
      ∀ i < left.length + magicStart,
        ¬ magic <+: (left ++ block.bytes).drop i := by
    intro i hi hHere
    have hSome : whole ++ left ≠ [] :=
      List.append_ne_nil_of_right_ne_nil whole hNil
    refine hBefore hSome (whole.length + i) (by omega) ?_
    rw [← List.drop_drop, List.drop_left]
    exact hHere
  rcases hOnward.stands.round_shifted
      (List.length_pos_iff.mpr hNil) hShort hMagic hNear with
    ⟨next, hRound, hOn⟩
  refine ⟨rounds + 1, next, ?_, hOnward.trans hOn⟩
  rw [after?_add, hAfter]
  simp only [Option.bind_some, after?, hRound]

/- A walk ends where less than a block is left. -/
theorem ends_in_short
    {w : Walk}
    (hTape : w.tape.Reliable)
    (hShort :
      w.tape.bytes.length < w.tape.position + blockSize) :
    ∃ last, w.Ends last ∧ w.Alike last := by
  rcases readBlock_short hTape hShort with ⟨tape, hRead⟩
  let last : Walk :=
    { w with tape := tape }.telling (·.debug "end of input")
  refine ⟨last, ⟨1, ?_⟩, { Alike.refl w with }⟩
  intro fuel hFuel
  cases fuel with
  | zero => omega
  | succ fuel =>
      unfold run? round
      rw [hRead]

/- A walk ends in a tail without a magic word. -/
theorem ends_in_tail
    {w : Walk}
    {rest : Bytes}
    (hStands : w.Stands rest)
    (hNone : ∀ i, ¬ magic <+: rest.drop i) :
    ∃ last, w.Ends last ∧ w.Alike last := by
  rcases exists_whole rest with
    ⟨whole, left, rfl, hWhole, hLeft⟩
  have hIdle : ∀ i, ¬ magic <+: whole.drop i := by
    intro i hHere
    exact hNone i (prefix_drop_append left hHere (by decide))
  rcases stands_behind_idle hStands hWhole hIdle with
    ⟨rounds, v, hAfter, hOnward⟩
  have hRest := hOnward.stands.length_rest
  have hShort : left.length < blockSize := by
    rw [hLeft]
    exact Nat.mod_lt _ (by decide)
  rcases ends_in_short hOnward.stands.reliable (by omega) with
    ⟨last, hEnds, hAlike⟩
  exact
    ⟨last, ends_of_after hAfter hEnds,
      hOnward.alike.trans hAlike⟩

------------------------------------------------------------
-- Entries
------------------------------------------------------------

/- Record the failure of an entry, if it has failed. -/
def noted
    (name : String) :
    Outcome Unit × Walk → Walk
| (.ok (), done) => done
| (.error source, done) => done.entryFailed name source

/-
  What has become of the walk when an entry was extracted or
  its failure recorded, before the seek to the next header.
-/
def attempted
    (w : Walk)
    (block : Block) : Walk :=
  let start : Cursor :=
    { directory := w.directory, header? := some block }
  noted block.header.path (w.content start block.header).2

/-
  An entry is left by a seek from behind the bytes that went
  by.  None of them was refused where files can be written.
-/
theorem entry_eq
    (w : Walk)
    (block : Block)
    (hDisk : w.disk.trouble.KeepsWriting) :
    ∃ (c : Cursor),
      c.header? = some block ∧
      c.consumed ≤ block.header.size.toNat ∧
      Passed w (w.attempted block) c.consumed ∧
      w.entry block =
        (w.attempted block).skipped
          ((w.attempted block).tape.seek
            (.fromHere c.skip)) := by
  rcases w.passed_content block with
    ⟨c, outcome, v, n, hContent, hHeader, rfl, hFits,
      hPassed⟩
  rw [w.refusedChunk_eq_nil hDisk] at hPassed
  refine ⟨c, hHeader, hFits, ?_⟩
  unfold entry attempted
  dsimp only
  rw [hContent]
  cases outcome with
  | ok _ => exact ⟨hPassed, rfl⟩
  | error source =>
      exact ⟨hPassed.still (v.passed_entryFailed _ _), rfl⟩

/-
  Behind an entry the walk comes to where the last block of
  the entry ends, even if the archive ends before that, as
  long as its tape can be sought so far.
-/
theorem entry_reaches
    {w : Walk}
    {block : Block}
    (hTape : w.tape.Reliable)
    (hShort : roundUp block.header.size.toNat < 2 ^ 63)
    (hBelow :
      w.tape.position + roundUp block.header.size.toNat <
        w.tape.medium.bound)
    (hDisk : w.disk.trouble.KeepsWriting) :
    ∃ tape,
      w.entry block =
          ({ w.attempted block with tape := tape }, true) ∧
        w.Advanced { w.attempted block with tape := tape }
          (roundUp block.header.size.toNat) := by
  rcases w.entry_eq block hDisk with
    ⟨c, hHeader, hFits, hPassed, hEntry⟩
  have hPosition := hPassed.position
  have hBehind := hPassed.reliable hTape
  have hSource := hPassed.source hTape
  have hRound := le_roundUp block.header.size.toNat
  have hGoal :
      (w.attempted block).tape.goalOf (.fromHere c.skip) =
        ((w.tape.position +
          roundUp block.header.size.toNat : Nat) : Int) := by
    simp only [Tape.goalOf]
    rw [Cursor.skip_eq hHeader hFits,
      offsetOf_of_lt (by omega)]
    omega
  rcases hBehind.seek_within (.fromHere c.skip) with
    ⟨-, -, tape, hSeek⟩ | ⟨hOutside, -⟩
  · rcases Tape.seek_ok hSeek with
      ⟨hSame, hArrived, -, hAhead⟩
    rw [hGoal, Int.toNat_natCast] at hArrived
    refine
      ⟨tape, ?_, hBehind.of_seek hSeek, hSource.trans hSame,
        hArrived, ?_⟩
    · rw [hEntry, hSeek]
      rfl
    · intro hPrompt
      exact (hPassed.prompt hPrompt).of_source hSame hAhead
  · rw [hGoal, hSource.medium] at hOutside
    exact
      (hOutside ⟨Int.natCast_nonneg _,
        Int.ofNat_lt.mpr hBelow⟩).elim

theorem entry_moves
    {w : Walk}
    {block : Block}
    (hTape : w.tape.Reliable)
    (hBelow :
      w.tape.position + roundUp block.header.size.toNat <
        2 ^ 63)
    (hDisk : w.disk.trouble.KeepsWriting) :
    ∃ next, w.entry block = (next, true) ∧
      (w.attempted block).Alike next ∧
      w.Advanced next (roundUp block.header.size.toNat) := by
  rcases entry_reaches hTape (by omega)
      (hBelow.trans_le w.tape.medium.le_bound) hDisk with
    ⟨tape, hEntry, hMoved⟩
  exact ⟨_, hEntry, .onTape _ tape, hMoved⟩

/-
  So a round in front of a header goes on behind its entry,
  whatever follows the header.
-/
theorem Stands.round_header
    {w : Walk}
    {block : Block}
    {rest : Bytes}
    (hStands : w.Stands (block.bytes ++ rest))
    (hAccepted :
      block.accepted w.options.verifyChecksum = true)
    (hBelow :
      w.tape.position +
          (blockSize + roundUp block.header.size.toNat) <
        2 ^ 63)
    (hDisk : w.disk.trouble.KeepsWriting) :
    ∃ read next,
      Onward w read rest ∧
      w.round = (next, true) ∧
      (read.attempted block).Alike next ∧
      w.Advanced next
        (blockSize + roundUp block.header.size.toNat) := by
  rcases hStands.readBlock with
    ⟨read, hRead, hMoved, hOnward⟩
  have hMagic : magic <+: block.bytes.drop magicStart := by
    rw [← Block.hasMagic_iff]
    unfold Block.accepted at hAccepted
    rw [Bool.and_eq_true] at hAccepted
    exact hAccepted.1
  have hSight : sight w.options block = .header := by
    unfold sight
    rw [isZero_eq_false hMagic, hAccepted]
    rfl
  have hPosition := hMoved.position
  have hBehindBelow :
      read.tape.position + roundUp block.header.size.toNat <
        2 ^ 63 := by
    omega
  rcases entry_moves hMoved.reliable hBehindBelow
      (hOnward.alike.disk.trouble ▸ hDisk) with
    ⟨next, hEntry, hAlike, hBehind⟩
  refine
    ⟨read, next, hOnward, ?_, hAlike, hMoved.trans hBehind⟩
  rw [round_of_header hRead hSight]
  exact hEntry

/-
  Where the data and its padding are all there, the walk then
  stands in front of what follows.
-/
theorem Stands.round_entry
    {w : Walk}
    {block : Block}
    {data rest : Bytes}
    (hStands :
      w.Stands
        (block.bytes ++
          (data ++
            (Bytes.zeros (padding data.length) ++ rest))))
    (hAccepted :
      block.accepted w.options.verifyChecksum = true)
    (hSize : block.header.size.toNat = data.length)
    (hDisk : w.disk.trouble.KeepsWriting) :
    ∃ read next,
      Onward w read
        (data ++
          (Bytes.zeros (padding data.length) ++ rest)) ∧
      w.round = (next, true) ∧
      next.Stands rest ∧
      (read.attempted block).Alike next ∧
      (w.tape.Prompt → next.tape.Prompt) := by
  have hLeft := hStands.length_rest
  have hLength := hStands.length
  have hPadding := add_padding data.length
  simp only [List.length_append, Bytes.length_zeros,
    block.length_bytes] at hLeft
  rcases hStands.round_header hAccepted
      (by rw [hSize]; omega) hDisk with
    ⟨read, next, hOnward, hRound, hAlike, hMoved⟩
  refine
    ⟨read, next, hOnward, hRound, ?_, hAlike, hMoved.prompt⟩
  rw [← List.append_assoc data, ← List.append_assoc]
    at hStands
  apply hStands.move
  rw [hSize, ← hPadding] at hMoved
  simpa only [List.length_append, Bytes.length_zeros,
    block.length_bytes] using hMoved

end Walk

end ArchiveRescue
