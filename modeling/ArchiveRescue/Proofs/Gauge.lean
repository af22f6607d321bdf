import Mathlib
import ArchiveRescue.Extraction.Round
import ArchiveRescue.Proofs.Distance
import ArchiveRescue.Proofs.Tape

/-
  What a cursor counts while the data of an entry is read,
  and that words of 64 bits are enough to count it.  A gauge
  counts in such words and has no result where one does not
  fit; the cursor counts without bound.  Both show the same
  during any reads that the cursor allows, as long as the
  whole blocks of the entry fit a word.

  Key definitions include:
    * `Ustar.sum?`
    * `Ustar.difference?`
    * `Ustar.Gauge`
    * `Ustar.Gauge.Shows`
    * `Ustar.Cursor.after`
    * `Ustar.Cursor.Allows`
    * `Ustar.Cursor.Accounts`

  Main statements:
    * `Ustar.Gauge.distanceToNextHeader?_eq_some_iff`
    * `Ustar.Gauge.Tracks.after?`
    * `Ustar.Cursor.Allows.accounts`
    * `Walk.copyUpTo_allowed`
    * `Walk.copyUpTo_eq_of_lt`
    * `Ustar.Cursor.counts_without_overflow`
-/

namespace ArchiveRescue

namespace Ustar

------------------------------------------------------------
-- Words
------------------------------------------------------------

/- The sum of two words, unless it is too large for a word. -/
def sum? (a b : UInt64) : Option UInt64 :=
  if a.toNat + b.toNat < 2 ^ 64 then some (a + b) else none

/- The difference of two words, unless it is negative. -/
def difference? (a b : UInt64) : Option UInt64 :=
  if b.toNat ≤ a.toNat then some (a - b) else none

section Words

variable {a b n : UInt64}

/- There is a sum exactly if the numbers have one. -/
theorem sum?_eq_some_iff :
    sum? a b = some n ↔ n.toNat = a.toNat + b.toNat := by
  have hWord := n.toNat_lt
  unfold sum?
  split
  next hFits =>
    rw [Option.some.injEq, ← UInt64.toNat_inj,
      UInt64.toNat_add, Nat.mod_eq_of_lt hFits]
    exact eq_comm
  next hLarge =>
    simp only [reduceCtorEq, false_iff]
    omega

/- So it is with differences. -/
theorem difference?_eq_some_iff :
    difference? a b = some n ↔
      n.toNat + b.toNat = a.toNat := by
  unfold difference?
  split
  next hFits =>
    rw [Option.some.injEq, ← UInt64.toNat_inj,
      UInt64.toNat_sub_of_le _ _
        (UInt64.le_iff_toNat_le.mpr hFits)]
    omega
  next hNegative =>
    simp only [reduceCtorEq, false_iff]
    omega

/- A number below 2 ^ 64 is the number of some word. -/
theorem exists_word
    {number : Nat}
    (hFits : number < 2 ^ 64) :
    ∃ word : UInt64, word.toNat = number :=
  ⟨.ofNat number, by
    rw [UInt64.toNat_ofNat', Nat.mod_eq_of_lt hFits]⟩

/-
  So it is found by whatever finds each word that there is of
  that number.
-/
theorem map_toNat_eq_some
    {found? : Option UInt64}
    {number : Nat}
    (hFits : number < 2 ^ 64)
    (hFound :
      ∀ word : UInt64,
        word.toNat = number → found? = some word) :
    found?.map UInt64.toNat = some number := by
  rcases exists_word hFits with ⟨word, rfl⟩
  rw [hFound word rfl, Option.map_some]

end Words

------------------------------------------------------------
-- Gauges
------------------------------------------------------------

/-
  The counts of a cursor in words.  No operation wraps: where
  a sum or a difference is no word there is no result.
-/
structure Gauge where
  declared : UInt64
  consumed : UInt64 := 0

namespace Gauge

/- The size of a block. -/
def block : UInt64 :=
  .ofNat blockSize

/- Count bytes that have been read. -/
def advance?
    (g : Gauge)
    (n : UInt64) : Option Gauge :=
  (sum? g.consumed n).map ({ g with consumed := · })

/- How many bytes of data have not been read. -/
def remaining? (g : Gauge) : Option UInt64 :=
  difference? g.declared g.consumed

/- How many bytes to read next, at most a block. -/
def nextChunk? (g : Gauge) : Option UInt64 :=
  g.remaining?.map (min · block)

/- How much padding follows the bytes read so far. -/
def tillBlockEnd? (g : Gauge) : Option UInt64 :=
  (difference? block (g.consumed % block)).map (· % block)

/- The unread data and the padding behind it. -/
def distanceToNextHeader? (g : Gauge) : Option UInt64 := do
  let rest ← g.remaining?
  let behind ← g.advance? rest
  let fill ← behind.tillBlockEnd?
  sum? rest fill

/- Count reads one after another. -/
def after?
    (g : Gauge)
    (reads : List Nat) : Option Gauge :=
  reads.foldlM (fun now n => now.advance? (.ofNat n)) g

variable {g : Gauge}

theorem advance?_eq_some_iff
    {n : UInt64}
    {next : Gauge} :
    g.advance? n = some next ↔
      next.declared = g.declared ∧
        next.consumed.toNat = g.consumed.toNat + n.toNat := by
  rcases next with ⟨declared, consumed⟩
  simp only [advance?, Option.map_eq_some_iff,
    sum?_eq_some_iff, Gauge.mk.injEq]
  constructor
  · rintro ⟨sum, hSum, rfl, rfl⟩
    exact ⟨rfl, hSum⟩
  · rintro ⟨rfl, hSum⟩
    exact ⟨consumed, hSum, rfl, rfl⟩

/- Padding is always found. -/
theorem tillBlockEnd?_eq_some_iff
    {n : UInt64} :
    g.tillBlockEnd? = some n ↔
      n.toNat = padding g.consumed.toNat := by
  have hBlock : block.toNat = blockSize := rfl
  have hPast :
      (g.consumed % block).toNat =
        g.consumed.toNat % blockSize := by
    rw [UInt64.toNat_mod, hBlock]
  have hLess : g.consumed.toNat % blockSize < blockSize :=
    Nat.mod_lt _ (by decide)
  simp only [tillBlockEnd?, Option.map_eq_some_iff,
    difference?_eq_some_iff, hPast, hBlock, padding]
  constructor
  · rintro ⟨left, hLeft, rfl⟩
    rw [UInt64.toNat_mod, hBlock]
    congr 1
    omega
  · intro hPadding
    rcases exists_word
        (show blockSize - g.consumed.toNat % blockSize <
          2 ^ 64 by
            simp only [blockSize] at *
            omega) with
      ⟨left, hLeft⟩
    refine ⟨left, by omega, ?_⟩
    rw [← UInt64.toNat_inj, UInt64.toNat_mod, hBlock, hLeft,
      hPadding]

/-
  The distance is found exactly if it is a word, and leads to
  the end of the whole blocks that hold the data.
-/
theorem distanceToNextHeader?_eq_some_iff
    {n : UInt64}
    (hFits : g.consumed.toNat ≤ g.declared.toNat) :
    g.distanceToNextHeader? = some n ↔
      g.consumed.toNat + n.toNat =
        roundUp g.declared.toNat := by
  have hWord := g.declared.toNat_lt
  rcases exists_word
      (show g.declared.toNat - g.consumed.toNat < 2 ^ 64 by
        omega) with
    ⟨rest, hRest⟩
  have hRemaining : g.remaining? = some rest :=
    difference?_eq_some_iff.mpr (by omega)
  -- With the rest, all that was declared has been read.
  have hBehind : g.advance? rest =
      some ⟨g.declared, g.declared⟩ :=
    advance?_eq_some_iff.mpr ⟨rfl, by dsimp only; omega⟩
  have hPadding := padding_lt g.declared.toNat
  rw [blockSize] at hPadding
  rcases exists_word
      (show padding g.declared.toNat < 2 ^ 64 by omega) with
    ⟨fill, hFill⟩
  have hEnd :
      (Gauge.mk g.declared g.declared).tillBlockEnd? =
        some fill :=
    tillBlockEnd?_eq_some_iff.mpr hFill
  simp only [distanceToNextHeader?, hRemaining, hBehind, hEnd,
    Option.bind_eq_bind, Option.bind_some, sum?_eq_some_iff]
  rw [← add_padding]
  omega

/- Behind 700 of 1000 bytes there are 324 up to 1024. -/
example :
    (Gauge.mk 1000 700).distanceToNextHeader? = some 324 := by
  decide

end Gauge

------------------------------------------------------------
-- Reads
------------------------------------------------------------

namespace Cursor

/- A cursor after reads of so many bytes each. -/
def after
    (c : Cursor)
    (reads : List Nat) : Cursor :=
  reads.foldl advance c

/-
  Each of the reads brings a byte at least, and no more than
  the cursor asks for when it is made.
-/
def Allows : Cursor → List Nat → Prop
| _, [] => True
| c, n :: reads =>
    0 < n ∧ n ≤ c.nextChunk ∧ (c.advance n).Allows reads

/-
  The cursor accounts for `size` bytes of data: they are read
  or remain, it asks for more until all are read, and its
  distance to the next header ends the blocks that hold them.
-/
structure Accounts
    (c : Cursor)
    (size : Nat) : Prop where
  within : c.consumed ≤ size
  whole : c.consumed + c.remaining = size
  ended_iff : c.nextChunk = 0 ↔ c.consumed = size
  ends_blocks :
    IsLeast {n | blockSize ∣ n ∧ size ≤ n}
      (c.consumed + c.distanceToNextHeader)

variable {c : Cursor} {reads : List Nat}

/- A cursor that has read no more than was declared does. -/
theorem accounts_of_le
    (hFits : c.consumed ≤ c.declared) :
    c.Accounts c.declared where
  within := hFits
  whole := Nat.add_sub_cancel' hFits
  ended_iff := by
    unfold nextChunk remaining blockSize
    omega
  ends_blocks := by
    rw [consumed_add_distanceToNextHeader hFits]
    exact isLeast_roundUp _

/- A read that is asked for does not reach too far. -/
theorem consumed_advance_le
    {n : Nat}
    (hFits : c.consumed ≤ c.declared)
    (hChunk : n ≤ c.nextChunk) :
    (c.advance n).consumed ≤ (c.advance n).declared := by
  have hRest : n ≤ c.remaining :=
    hChunk.trans (Nat.min_le_left _ _)
  unfold remaining at hRest
  change c.consumed + n ≤ c.declared
  omega

/- What it brings remains no longer. -/
theorem remaining_advance_add
    {n : Nat}
    (hChunk : n ≤ c.nextChunk) :
    (c.advance n).remaining + n = c.remaining := by
  rw [remaining_advance]
  exact
    Nat.sub_add_cancel (hChunk.trans (Nat.min_le_left _ _))

/- Reads do not change what the header has declared. -/
theorem declared_after
    (c : Cursor)
    (reads : List Nat) :
    (c.after reads).declared = c.declared := by
  induction reads generalizing c with
  | nil => rfl
  | cons n reads ih => exact ih (c.advance n)

/- What is allowed can be stopped after any read. -/
theorem Allows.take
    {sofar : List Nat}
    (hReads : c.Allows reads)
    (hFirst : sofar <+: reads) :
    c.Allows sofar := by
  induction sofar generalizing c reads with
  | nil => trivial
  | cons n sofar ih =>
      rcases hFirst with ⟨later, rfl⟩
      rcases hReads with ⟨hSome, hChunk, hMore⟩
      exact ⟨hSome, hChunk, ih hMore ⟨later, rfl⟩⟩

/- After reads that it allows a cursor still accounts. -/
theorem Allows.accounts
    (hReads : c.Allows reads)
    (hFits : c.consumed ≤ c.declared) :
    (c.after reads).Accounts c.declared := by
  induction reads generalizing c with
  | nil => exact accounts_of_le hFits
  | cons n reads ih =>
      rcases hReads with ⟨-, hChunk, hMore⟩
      exact ih hMore (consumed_advance_le hFits hChunk)

/- There are at most as many reads as bytes. -/
theorem Allows.length_le
    (hReads : c.Allows reads) :
    reads.length ≤ c.remaining := by
  induction reads generalizing c with
  | nil => exact Nat.zero_le _
  | cons n reads ih =>
      rcases hReads with ⟨hSome, hChunk, hMore⟩
      have hLater := ih hMore
      have hRest := remaining_advance_add hChunk
      rw [List.length_cons]
      omega

end Cursor

------------------------------------------------------------
-- Gauges and Cursors
------------------------------------------------------------

namespace Gauge

/- The gauge has the counts of the cursor. -/
structure Tracks
    (g : Gauge)
    (c : Cursor) : Prop where
  declared : g.declared.toNat = c.declared
  consumed : g.consumed.toNat = c.consumed

/-
  Every number that the cursor computes is found on the gauge
  as well.
-/
structure Shows
    (g : Gauge)
    (c : Cursor) : Prop extends g.Tracks c where
  remaining :
    g.remaining?.map UInt64.toNat = some c.remaining
  nextChunk :
    g.nextChunk?.map UInt64.toNat = some c.nextChunk
  tillBlockEnd :
    g.tillBlockEnd?.map UInt64.toNat = some c.tillBlockEnd
  distanceToNextHeader :
    g.distanceToNextHeader?.map UInt64.toNat =
      some c.distanceToNextHeader

variable {g : Gauge} {c : Cursor}

/- A read that fits what was declared can be counted. -/
theorem Tracks.advance?
    {n : Nat}
    (hTracks : g.Tracks c)
    (hFits : c.consumed + n ≤ c.declared) :
    ∃ next, g.advance? (.ofNat n) = some next ∧
      next.Tracks (c.advance n) := by
  have hWord := g.declared.toNat_lt
  rw [hTracks.declared] at hWord
  have hRead : (UInt64.ofNat n).toNat = n := by
    rw [UInt64.toNat_ofNat', Nat.mod_eq_of_lt (by omega)]
  rcases exists_word
      (show c.consumed + n < 2 ^ 64 by omega) with
    ⟨consumed, hConsumed⟩
  refine
    ⟨⟨g.declared, consumed⟩,
      advance?_eq_some_iff.mpr ⟨rfl, ?_⟩,
      ⟨hTracks.declared, hConsumed⟩⟩
  rw [hConsumed, hTracks.consumed, hRead]

/-
  So can any reads that the cursor allows: none of them leads
  beyond what was declared, and that is a word.
-/
theorem Tracks.after?
    {reads : List Nat}
    (hTracks : g.Tracks c)
    (hFits : c.consumed ≤ c.declared)
    (hReads : c.Allows reads) :
    ∃ now, g.after? reads = some now ∧
      now.Tracks (c.after reads) := by
  induction reads generalizing g c with
  | nil => exact ⟨g, rfl, hTracks⟩
  | cons n reads ih =>
      rcases hReads with ⟨-, hChunk, hMore⟩
      have hLater :=
        Cursor.consumed_advance_le hFits hChunk
      rcases hTracks.advance? hLater with
        ⟨next, hNext, hSame⟩
      rcases ih hSame hLater hMore with ⟨now, hNow, hEnd⟩
      refine ⟨now, ?_, hEnd⟩
      unfold Gauge.after? at hNow ⊢
      rw [List.foldlM_cons, hNext]
      exact hNow

/-
  A gauge with the counts of a cursor shows all the rest, if
  the whole blocks of the data fit a word.
-/
theorem Tracks.shows
    (hTracks : g.Tracks c)
    (hFits : c.consumed ≤ c.declared)
    (hBlocks : roundUp c.declared < 2 ^ 64) :
    g.Shows c := by
  have hDeclared := hTracks.declared
  have hConsumed := hTracks.consumed
  have hUp := le_roundUp c.declared
  have hDistance :=
    Cursor.consumed_add_distanceToNextHeader hFits
  have hRemaining :
      g.remaining?.map UInt64.toNat = some c.remaining := by
    have hAll : c.remaining + c.consumed = c.declared :=
      Nat.sub_add_cancel hFits
    apply map_toNat_eq_some (by omega)
    intro rest hRest
    apply difference?_eq_some_iff.mpr
    rw [hRest, hConsumed, hDeclared, hAll]
  refine ⟨hTracks, hRemaining, ?_, ?_, ?_⟩
  · rcases Option.map_eq_some_iff.mp hRemaining with
      ⟨rest, hFound, hRest⟩
    rw [Gauge.nextChunk?, hFound, Option.map_some,
      Option.map_some, UInt64.toNat_min, hRest]
    rfl
  · have hPadding := padding_lt c.consumed
    rw [blockSize] at hPadding
    apply map_toNat_eq_some
    · change padding c.consumed < 2 ^ 64
      omega
    · intro fill hFill
      rw [tillBlockEnd?_eq_some_iff, hConsumed]
      exact hFill
  · apply map_toNat_eq_some (by omega)
    intro distance hFound
    rw [distanceToNextHeader?_eq_some_iff (by omega),
      hConsumed, hDeclared, hFound, hDistance]

/-
  So it does after any reads that the cursor allows.  Reads
  leave what was declared as it is, and with it the blocks
  that have to fit.
-/
theorem Tracks.shows_after
    {reads : List Nat}
    (hTracks : g.Tracks c)
    (hFits : c.consumed ≤ c.declared)
    (hBlocks : roundUp c.declared < 2 ^ 64)
    (hReads : c.Allows reads) :
    ∃ now, g.after? reads = some now ∧
      now.Shows (c.after reads) := by
  rcases hTracks.after? hFits hReads with
    ⟨now, hNow, hSame⟩
  refine ⟨now, hNow, hSame.shows ?_ ?_⟩
  · rw [Cursor.declared_after]
    exact (hReads.accounts hFits).within
  · rwa [Cursor.declared_after]

end Gauge

end Ustar

open Ustar

------------------------------------------------------------
-- Copies
------------------------------------------------------------

namespace Walk

/-
  A pass of the copy ends it, or makes a read that the cursor
  allows and leaves the rest to the passes to come.
-/
theorem copyUpTo_pass
    (place : Location)
    (w : Walk)
    (c : Cursor)
    (pending : Bytes) :
    (∃ result, ∀ fuel,
      copyUpTo place (fuel + 1) w c pending =
        (c, result)) ∨
    ∃ n stored held,
      0 < n ∧ n ≤ c.nextChunk ∧
        ∀ fuel,
          copyUpTo place (fuel + 1) w c pending =
            copyUpTo place fuel stored (c.advance n)
              held := by
  -- The passes to come matter only behind the last case.
  simp only [copyUpTo]
  by_cases hDone : c.nextChunk = 0
  · simp only [if_pos hDone]
    exact .inl ⟨_, fun _ => rfl⟩
  · simp only [if_neg hDone]
    have hRead := (w.tape.took_readPatiently c.nextChunk).2
    rcases hReply : w.tape.readPatiently c.nextChunk with
      ⟨reply, tape⟩
    rw [hReply] at hRead
    cases reply with
    | error fault => exact .inl ⟨_, fun _ => rfl⟩
    | ok got =>
        dsimp only
        by_cases hEnd : got.isEmpty
        · simp only [if_pos hEnd]
          exact .inl ⟨_, fun _ => rfl⟩
        · simp only [if_neg hEnd]
          rcases hStored :
              { w with tape := tape }.store place pending
                got with ⟨result, stored⟩
          simp only [hStored]
          cases result with
          | error failure => exact .inl ⟨_, fun _ => rfl⟩
          | ok held =>
              have hSome : 0 < got.length := by
                simpa [List.length_pos_iff] using hEnd
              exact
                .inr
                  ⟨got.length, stored, held, hSome, hRead,
                    fun _ => rfl⟩

/- What a copy reads is allowed by the cursor. -/
theorem copyUpTo_allowed
    (place : Location)
    (fuel : Nat)
    (w : Walk)
    (c : Cursor)
    (pending : Bytes) :
    ∃ reads, c.Allows reads ∧
      (copyUpTo place fuel w c pending).1 =
        c.after reads := by
  induction fuel generalizing w c pending with
  | zero => exact ⟨[], trivial, rfl⟩
  | succ fuel ih =>
      rcases copyUpTo_pass place w c pending with
        ⟨result, hEnds⟩ |
          ⟨n, stored, held, hSome, hChunk, hGoesOn⟩
      · exact ⟨[], trivial, congrArg Prod.fst (hEnds fuel)⟩
      · rcases ih stored (c.advance n) held with
          ⟨reads, hReads, hLast⟩
        rw [hGoesOn fuel]
        exact ⟨n :: reads, ⟨hSome, hChunk, hReads⟩, hLast⟩

/-
  A copy with more passes than bytes remain comes to its end:
  further passes change nothing.  The induction is on the
  passes of one copy while those of the other are left open,
  and each read leaves fewer bytes to both.
-/
theorem copyUpTo_eq_of_lt
    (place : Location)
    {fuel more : Nat}
    (w : Walk)
    {c : Cursor}
    (pending : Bytes)
    (hFuel : c.remaining < fuel)
    (hMore : c.remaining < more) :
    copyUpTo place fuel w c pending =
      copyUpTo place more w c pending := by
  induction fuel generalizing more w c pending with
  | zero => omega
  | succ fuel ih =>
      rcases Nat.exists_eq_add_one_of_ne_zero
          (Nat.ne_zero_of_lt hMore) with ⟨more, rfl⟩
      rcases copyUpTo_pass place w c pending with
        ⟨result, hEnds⟩ |
          ⟨n, stored, held, hSome, hChunk, hGoesOn⟩
      · rw [hEnds, hEnds]
      · have hRest := Cursor.remaining_advance_add hChunk
        rw [hGoesOn, hGoesOn]
        exact ih stored held (by omega) (by omega)

end Walk

------------------------------------------------------------
-- Entries
------------------------------------------------------------

namespace Ustar

/-
  From a header on, a cursor counts in words without a wrap
  whatever is read, as long as it allows the reads: each
  operation has a result after any of them, and the results
  are those of unbounded numbers.  It accounts for the data
  all the time, and there are no more reads than bytes.  So it
  is when a file is copied: as many passes and one that finds
  nothing left to read are always enough.
-/
theorem Cursor.counts_without_overflow
    {block : Block}
    (hSize :
      block.header.size.toNat ≤ 2 ^ 64 - blockSize)
    (c : Cursor) :
    (∀ reads,
      (c.withHeader block).Allows reads →
        reads.length ≤ block.header.size.toNat ∧
        ∀ sofar, sofar <+: reads →
          ((c.withHeader block).after sofar).Accounts
              block.header.size.toNat ∧
          ∃ gauge,
            Gauge.after? { declared := block.header.size }
                sofar = some gauge ∧
              gauge.Shows
                ((c.withHeader block).after sofar)) ∧
    ∀ (place : Location) (fuel : Nat) (w : Walk)
        (target : Path) (pending : Bytes),
      (Walk.copyUpTo place fuel w
            ((c.withHeader block).withTarget target)
            pending).1.Accounts block.header.size.toNat ∧
      (block.header.size.toNat < fuel →
        Walk.copyUpTo place fuel w
            ((c.withHeader block).withTarget target)
            pending =
          Walk.copyUpTo place
            (block.header.size.toNat + 1) w
            ((c.withHeader block).withTarget target)
            pending) := by
  constructor
  · intro reads hReads
    refine ⟨hReads.length_le, ?_⟩
    intro sofar hFirst
    have hStart :
        Gauge.Tracks { declared := block.header.size }
          (c.withHeader block) := ⟨rfl, rfl⟩
    have hSofar := hReads.take hFirst
    exact
      ⟨hSofar.accounts (Nat.zero_le _),
        hStart.shows_after (Nat.zero_le _)
          (roundUp_lt_word_iff.mpr hSize) hSofar⟩
  · intro place fuel w target pending
    constructor
    · rcases Walk.copyUpTo_allowed place fuel w
          ((c.withHeader block).withTarget target) pending
        with ⟨reads, hReads, hLast⟩
      rw [hLast]
      exact hReads.accounts (Nat.zero_le _)
    · intro hFuel
      exact
        Walk.copyUpTo_eq_of_lt place w pending hFuel
          (Nat.lt_succ_self _)

/- A header that declares as many bytes as can be counted. -/
def largest : Block :=
  Header.toBlock
    { name := "a"
      mode := 0o644
      size := 0xFFFFFFFFFFFFFE00 }

/- The cursor right behind it. -/
def behindLargest : Cursor :=
  Cursor.withHeader { directory := ⟨"/out"⟩ } largest

set_option maxRecDepth 100000 in
/- Reads from there that do not keep to the blocks. -/
theorem behindLargest_counted :
    largest.header.size.toNat = 2 ^ 64 - 512 ∧
      behindLargest.Allows [512, 1, 511] ∧
      (behindLargest.after [512, 1]).Accounts
        (2 ^ 64 - 512) ∧
      ∃ gauge,
        Gauge.after? { declared := largest.header.size }
            [512, 1] = some gauge ∧
          gauge.Shows (behindLargest.after [512, 1]) := by
  have hSize : largest.header.size.toNat = 2 ^ 64 - 512 := by
    decide +kernel
  have hAllowed : behindLargest.Allows [512, 1, 511] := by
    simp only [behindLargest, Cursor.Allows,
      Cursor.nextChunk, Cursor.remaining, Cursor.declared,
      Cursor.withHeader, Cursor.advance, hSize, blockSize]
    decide
  have hCounted :=
    ((Cursor.counts_without_overflow hSize.le
      { directory := ⟨"/out"⟩ }).1 _ hAllowed).2 [512, 1]
      ⟨[511], rfl⟩
  rw [hSize] at hCounted
  exact ⟨hSize, hAllowed, hCounted⟩

end Ustar

end ArchiveRescue
