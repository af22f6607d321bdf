import Mathlib
import ArchiveRescue.Proofs.RoundTrip

/-
  What becomes of an archive when one byte of a header is
  replaced and checksums are verified.  Outside the checksum
  field the sum tells the difference, and within it nothing
  is said about the entry.  So the header is taken for what
  it was, or else the walk passes over it and its data to the
  header that follows.

  Key definitions include:
    * `Ustar.Block.replace`
    * `Ustar.closing`

  Main statements:
    * `Ustar.Block.replace_of_checksumMatches`
    * `Ustar.Item.isAnnounced_replace`
    * `Ustar.Item.junkOffset?_replace`
    * `Walk.Awaits.gains_damaged`
    * `Extraction.confines_damage`
-/

namespace ArchiveRescue

------------------------------------------------------------
-- Replaced Bytes
------------------------------------------------------------

namespace Bytes

/- A replaced byte leaves the sum, and another comes in. -/
theorem total_set
    (xs : Bytes)
    {i : Nat}
    (b : UInt8)
    (hInside : i < xs.length) :
    total (xs.set i b) + (xs.getD i 0).toNat =
      total xs + b.toNat := by
  induction xs generalizing i with
  | nil => exact absurd hInside (Nat.not_lt_zero i)
  | cons first rest ih =>
      cases i with
      | zero =>
          simp only [List.set_cons_zero, List.getD_cons_zero,
            total]
          omega
      | succ i =>
          have hRest := ih (Nat.lt_of_succ_lt_succ hInside)
          simp only [List.set_cons_succ, List.getD_cons_succ,
            total]
          omega

end Bytes

namespace Ustar

namespace Block

variable {block : Block} {i : Nat} {b : UInt8}

/- The block with another byte at one position. -/
def replace
    (block : Block)
    (i : Nat)
    (b : UInt8) : Block :=
  ⟨block.bytes.set i b, by
    rw [List.length_set, block.length_bytes]⟩

/- Nothing changes if the byte stood there before. -/
theorem replace_getD (i : Nat) :
    block.replace i (block.bytes.getD i 0) = block := by
  have hBytes :
      block.bytes.set i (block.bytes.getD i 0) =
        block.bytes := by
    apply List.ext_getElem?
    intro j
    rw [List.getElem?_set]
    split
    next hSame =>
      subst hSame
      split
      next hInside =>
        rw [List.getD_eq_getElem _ _ hInside,
          List.getElem?_eq_getElem hInside]
      next hOutside =>
        exact (List.getElem?_eq_none (by omega)).symm
    next => rfl
  unfold replace
  congr 1

/- A field that the position is not in stays the same. -/
theorem field_replace
    (b : UInt8)
    {start width : Nat}
    (hOutside : i < start ∨ start + width ≤ i) :
    (block.replace i b).field start width =
      block.field start width := by
  unfold field Bytes.slice replace
  dsimp only
  rw [List.drop_set]
  split
  next => rfl
  next hBehind => rw [List.take_set_of_le (by omega)]

/-
  Outside the checksum field, the sum changes as the byte
  does.
-/
theorem checksum_replace
    (block : Block)
    (b : UInt8)
    (hInside : i < blockSize)
    (hOutside : i < 148 ∨ 156 ≤ i) :
    (block.replace i b).checksum +
        (block.bytes.getD i 0).toNat =
      block.checksum + b.toNat := by
  have hLength : block.bytes.length = 512 :=
    block.length_bytes
  have hBlock : blockSize = 512 := rfl
  unfold checksum replace
  dsimp only
  rcases hOutside with hFront | hBehind
  · have hSum :=
      Bytes.total_set (block.bytes.take 148) b
        (i := i) (by rw [List.length_take]; omega)
    have hByte :
        (block.bytes.take 148).getD i 0 =
          block.bytes.getD i 0 := by
      rw [List.getD_eq_getElem?_getD,
        List.getD_eq_getElem?_getD, List.getElem?_take,
        if_pos hFront]
    rw [hByte] at hSum
    rw [List.take_set, List.drop_set, if_pos (by omega)]
    omega
  · have hSum :=
      Bytes.total_set (block.bytes.drop 156) b
        (i := i - 156) (by rw [List.length_drop]; omega)
    have hByte :
        (block.bytes.drop 156).getD (i - 156) 0 =
          block.bytes.getD i 0 := by
      rw [List.getD_eq_getElem?_getD,
        List.getD_eq_getElem?_getD, List.getElem?_drop,
        Nat.add_sub_cancel' hBehind]
    rw [hByte] at hSum
    rw [List.take_set_of_le (by omega), List.drop_set,
      if_neg (by omega)]
    omega

/-
  Outside the checksum field, a matching checksum shows that
  no byte has changed.
-/
theorem replace_of_checksumMatches
    (hWritten : block.checksumMatches = true)
    (hMatches : (block.replace i b).checksumMatches = true)
    (hInside : i < blockSize)
    (hOutside : i < 148 ∨ 156 ≤ i) :
    block.replace i b = block := by
  have hField :
      (block.replace i b).field 148 8 = block.field 148 8 :=
    field_replace b (by omega)
  unfold checksumMatches header Header.ofBlock
    at hWritten hMatches
  rw [beq_iff_eq] at hWritten hMatches
  dsimp only at hWritten hMatches
  rw [hField, hWritten] at hMatches
  have hSum := checksum_replace block b hInside hOutside
  have hSame : b = block.bytes.getD i 0 := by
    apply UInt8.toNat_inj.mp
    omega
  rw [hSame]
  exact replace_getD i

/-
  Within the checksum field, a header says the same about its
  entry as before.
-/
theorem header_replace
    (block : Block)
    (b : UInt8)
    (hWithin : 148 ≤ i ∧ i < 156) :
    (block.replace i b).header =
      { block.header with
        checksum := (block.replace i b).header.checksum } := by
  have hFlag :
      (block.replace i b).bytes.getD 156 0 =
        block.bytes.getD 156 0 := by
    unfold replace
    dsimp only
    rw [List.getD_eq_getElem?_getD,
      List.getD_eq_getElem?_getD,
      List.getElem?_set_ne (by omega)]
  unfold header Header.ofBlock
  simp (disch := omega) only [field_replace, hFlag]

end Block

/- The checksum is no part of a path or a kind. -/
theorem Header.path_checksum
    (h : Header)
    (sum : UInt32) :
    { h with checksum := sum }.path = h.path :=
  rfl

theorem Header.kind_checksum
    (h : Header)
    (sum : UInt32) :
    { h with checksum := sum }.kind = h.kind :=
  rfl

------------------------------------------------------------
-- Headers Behind Their Magic Word
------------------------------------------------------------

/- What is written from the magic word on. -/
theorem Header.drop_toBlock (h : Header) :
    h.toBlock.bytes.drop magicStart =
      Field.ofText 6 h.magic ++ Field.ofText 2 h.version ++
        Field.ofText 32 h.uname ++
        Field.ofText 32 h.gname ++
        Header.short 8 h.devmajor ++
        Header.short 8 h.devminor ++
        Field.ofText 155 h.place.1 ++ Bytes.zeros 12 := by
  have hSplit :
      h.toBlock.bytes =
        (h.front ++ h.checksumField ++ [h.typeflag] ++
            Field.ofText 100 h.linkname) ++
          (Field.ofText 6 h.magic ++
            Field.ofText 2 h.version ++
            Field.ofText 32 h.uname ++
            Field.ofText 32 h.gname ++
            Header.short 8 h.devmajor ++
            Header.short 8 h.devminor ++
            Field.ofText 155 h.place.1 ++
            Bytes.zeros 12) := by
    rw [Header.toBlock_bytes]
    unfold Header.back
    simp only [List.append_assoc]
  rw [hSplit]
  exact List.drop_left' (by simp [magicStart])

/-
  How the header of a file or a directory ends, from the
  magic word on.  It names no owner and no device.
-/
def closing : Bytes :=
  Field.ofText 6 "ustar" ++ Field.ofText 2 "00" ++
    Field.ofText 32 "" ++ Field.ofText 32 "" ++
    Header.short 8 0 ++ Header.short 8 0 ++
    Field.ofText 155 "" ++ Bytes.zeros 12

namespace Item

variable {item : Item} {i : Nat} {b : UInt8}

/- A header that is written ends so. -/
theorem drop_toBlock
    (hSound : item.IsSound)
    (hProper : item.IsProper) :
    item.entry.header.toBlock.bytes.drop magicStart =
      closing := by
  rw [Header.drop_toBlock]
  cases item with
  | file name data =>
      have hPlace :=
        (Entry.file name data).header.place_of_short rfl
          hSound.1.short
      unfold entry
      rw [hPlace]
      rfl
  | directory name =>
      have hPlace :=
        (Entry.directory name).header.place_of_short rfl
          hSound.short
      unfold entry
      rw [hPlace]
      rfl
  | other header data => exact hProper.elim

/-
  The first two characters of the magic word stand nowhere
  else, so one byte cannot complete another magic word.
-/
theorem magic_notIn_replaced
    {bytes : Bytes}
    (hFirst : 0x75 ∉ bytes)
    (hSecond : 0x73 ∉ bytes.drop 1)
    (k : Nat) :
    ¬ magic <+: (bytes.set i b).drop k := by
  rintro ⟨rest, hRest⟩
  have hHere : (bytes.set i b)[k]? = some 0x75 := by
    rw [← Nat.add_zero k, ← List.getElem?_drop, ← hRest]
    rfl
  have hNext : (bytes.set i b)[k + 1]? = some 0x73 := by
    rw [← List.getElem?_drop, ← hRest]
    rfl
  by_cases hSame : i = k
  · rw [List.getElem?_set_ne (by omega), Nat.add_comm,
      ← List.getElem?_drop] at hNext
    exact hSecond (List.mem_of_getElem? hNext)
  · rw [List.getElem?_set_ne hSame] at hHere
    exact hFirst (List.mem_of_getElem? hHere)

/- So no header seems to begin further on. -/
theorem junkOffset?_replace
    (hSound : item.IsSound)
    (hProper : item.IsProper) :
    (item.entry.header.toBlock.replace i b).junkOffset? =
      none := by
  unfold Block.junkOffset?
  split
  next => rfl
  next =>
    rw [Option.map_eq_none_iff,
      Bytes.indexOf?_eq_none_iff (by decide)]
    intro k
    have hBehind :
        item.entry.header.toBlock.bytes.drop
            (magicStart + 1) =
          closing.drop 1 := by
      rw [← List.drop_drop, drop_toBlock hSound hProper]
    unfold Block.replace
    dsimp only
    rw [List.drop_set, hBehind]
    have hFirst : 0x75 ∉ closing.drop 1 := by decide +kernel
    have hSecond : 0x73 ∉ (closing.drop 1).drop 1 := by
      decide +kernel
    split
    next =>
      intro hHere
      exact
        hFirst
          (List.mem_of_mem_drop
            (hHere.subset List.mem_cons_self))
    next => exact magic_notIn_replaced hFirst hSecond k

/-
  If the block is still taken for a header while checksums
  are verified, it still announces the item.
-/
theorem isAnnounced_replace
    (hInside : i < blockSize)
    (hAccepted :
      (item.entry.header.toBlock.replace i b).accepted
        true = true) :
    item.IsAnnounced
      (item.entry.header.toBlock.replace i b) := by
  have hMatches :
      (item.entry.header.toBlock.replace i
        b).checksumMatches = true := by
    unfold Block.accepted at hAccepted
    simp only [Bool.not_true, Bool.false_or,
      Bool.and_eq_true] at hAccepted
    exact hAccepted.2
  by_cases hWithin : 148 ≤ i ∧ i < 156
  · have hHeader :=
      Block.header_replace item.entry.header.toBlock b hWithin
    constructor
    · rw [hHeader, Header.path_checksum]
    · rw [hHeader, Header.kind_checksum]
    · rw [hHeader]
  · rw [Block.replace_of_checksumMatches
      (Header.checksumMatches_toBlock _) hMatches hInside
      (by omega)]
    exact item.isAnnounced_toBlock

end Item

end Ustar

open Ustar

namespace Walk

------------------------------------------------------------
-- Walks Past Damage
------------------------------------------------------------

/- Zeros behind bytes complete no magic word. -/
theorem magic_notIn_padded
    {bytes : Bytes}
    (hNone : ∀ i, ¬ magic <+: bytes.drop i)
    (n i : Nat) :
    ¬ magic <+: (bytes ++ Bytes.zeros n).drop i := by
  intro hHere
  have hLast : (bytes ++ Bytes.zeros n)[i + 4]? = some 0x72 := by
    rcases hHere with ⟨rest, hRest⟩
    rw [← List.getElem?_drop, ← hRest]
    rfl
  have hInside : i + 4 < bytes.length := by
    by_contra hBeyond
    rw [List.getElem?_append_right (by omega)] at hLast
    have hZero :=
      List.eq_of_mem_replicate (List.mem_of_getElem? hLast)
    exact absurd hZero (by decide)
  rw [List.drop_append_of_le_length (by omega)] at hHere
  have hWord : magic.length ≤ (bytes.drop i).length := by
    rw [List.length_drop]
    change 5 ≤ _
    omega
  exact
    hNone i
      (List.prefix_of_prefix_length_le hHere
        (List.prefix_append _ _) hWord)

/-
  A walk in front of a block that is passed over stands
  behind the data of its item, if no magic word is in it.
-/
theorem stands_behind_barren
    {w : Walk}
    {item : Item}
    {block : Block}
    {rest : Bytes}
    (hStands : w.Stands (item.behind block ++ rest))
    (hSight : sight w.options block ≠ .header)
    (hNone : block.junkOffset? = none)
    (hData : ∀ i, ¬ magic <+: item.entry.data.drop i) :
    ∃ rounds v, w.after? rounds = some v ∧
      Onward w v rest := by
  unfold Item.behind at hStands
  rw [List.append_assoc] at hStands
  rcases hStands.round_barren hSight hNone with
    ⟨next, hRound, hOnward⟩
  have hWhole :
      blockSize ∣
        (item.entry.data ++
          Bytes.zeros (padding item.entry.data.length)).length := by
    rw [List.length_append, Bytes.length_zeros, add_padding]
    exact Nat.dvd_of_mod_eq_zero (roundUp_mod _)
  rcases stands_behind_idle hOnward.stands hWhole
      (magic_notIn_padded hData _) with
    ⟨rounds, v, hAfter, hOn⟩
  refine ⟨rounds + 1, v, ?_, hOnward.trans hOn⟩
  unfold after?
  rw [hRound]
  exact hAfter

section Damaged

variable {start w : Walk} {base : Location}
variable {before after : List Item} {item : Item}
variable {i : Nat} {b : UInt8} {tail : Bytes}

/-
  A walk that stands in front of an item whose header is
  damaged ends with all items but that one, or with all.
-/
theorem Awaits.gains_damaged
    (hAwaits : start.Awaits base (before ++ item :: after))
    (hVerify : start.options.verifyChecksum = true)
    (hProper : item.IsProper)
    (hData : ∀ k, ¬ magic <+: item.entry.data.drop k)
    (hInside : i < blockSize)
    (hGains : start.Gains w base before)
    (hStands :
      w.Stands
        (item.behind (item.entry.header.toBlock.replace i b) ++
          ((after.map Item.entry).flatMap Entry.toBytes ++
            tail)))
    (hTail : ∀ k, ¬ magic <+: tail.drop k) :
    ∃ last, w.Ends last ∧
      (start.Gains last base (before ++ item :: after) ∨
        start.Gains last base (before ++ after)) := by
  have hReady := hAwaits.ready hGains
  rw [← hGains.options] at hVerify
  by_cases hAccepted :
      (item.entry.header.toBlock.replace i b).accepted
        w.options.verifyChecksum = true
  · have hAnnounced :=
      Item.isAnnounced_replace hInside (hVerify ▸ hAccepted)
    rcases hAwaits.round_whole hGains hStands hAccepted
        hAnnounced with ⟨next, hRound, -, hNext, hMore⟩
    rw [List.append_cons] at hAwaits ⊢
    rcases hAwaits.gains_run hMore hNext hTail with
      ⟨last, hEnds, hLast⟩
    exact ⟨last, ends_of_round hRound hEnds, .inl hLast⟩
  · have hSight :
        sight w.options
            (item.entry.header.toBlock.replace i b) ≠
          .header := by
      unfold sight
      rw [if_neg hAccepted]
      split
      · exact Sighting.noConfusion
      · exact Sighting.noConfusion
    rcases stands_behind_barren hStands hSight
        (Item.junkOffset?_replace hReady.sound hProper)
        hData with ⟨rounds, v, hAfter, hOnward⟩
    have hFewer :
        (before ++ after).Sublist (before ++ item :: after) :=
      (List.sublist_cons_self item after).append_left before
    rcases (hAwaits.fewer hFewer).gains_run
        (hGains.alike hOnward.alike) hOnward.stands hTail with
      ⟨last, hEnds, hLast⟩
    exact ⟨last, ends_of_after hAfter hEnds, .inr hLast⟩

end Damaged

end Walk

namespace Extraction

------------------------------------------------------------
-- Whole Extractions
------------------------------------------------------------

/- Replacing a byte of a header damages its block alone. -/
theorem set_archive
    (before : List Item)
    (item : Item)
    (after : List Item)
    {i : Nat}
    (b : UInt8)
    (hInside : i < blockSize) :
    (archive
        ((before ++ item :: after).map Item.entry)).set
        (Item.extent before + i) b =
      (before.map Item.entry).flatMap Entry.toBytes ++
        (item.behind (item.entry.header.toBlock.replace i b) ++
          ((after.map Item.entry).flatMap Entry.toBytes ++
            Bytes.zeros (2 * blockSize))) := by
  have hBlock := item.entry.header.toBlock.length_bytes
  unfold archive Item.extent Item.behind Block.replace
    Entry.toBytes
  rw [List.map_append, List.map_cons, List.flatMap_append,
    List.flatMap_cons]
  simp only [List.append_assoc]
  rw [List.set_append_right _ _ (Nat.le_add_right _ _),
    Nat.add_sub_cancel_left,
    List.set_append_left _ _ (by omega)]

/-
  The archive of sound items that are apart, with one byte of
  one header replaced.  The item of that header is a file
  with data or a directory, and no magic word is in its data.
  While checksums are verified, the extraction comes to what
  all items stand for, or to what all but that one do.
-/
theorem confines_damage
    (options : ExtractionOptions)
    (i : Nat)
    (b : UInt8)
    {before after : List Item}
    {item : Item}
    {tape : Tape}
    {disk ready : Disk}
    {directory full : Path}
    {created : Bool}
    {base : Location}
    (hVerify : options.verifyChecksum = true)
    (hTaken :
      ∀ other ∈ before ++ item :: after,
        other.IsTaken options.sanitize)
    (hSound : ∀ other ∈ before ++ item :: after, other.IsSound)
    (hApart : (before ++ item :: after).Pairwise Item.Apart)
    (hProper : item.IsProper)
    (hData : ∀ k, ¬ magic <+: item.entry.data.drop k)
    (hInside : i < blockSize)
    (hTape :
      tape.Holds
        ((archive
          ((before ++ item :: after).map Item.entry)).set
          (Item.extent before + i) b))
    (hFresh :
      IsFresh disk directory full created ready base) :
    ∃ x,
      Yields
        (fun fuel =>
          ofTape? .blocking fuel options tape directory disk)
        x ∧
      (Restores x (before ++ item :: after) full created
          ready base ∨
        Restores x (before ++ after) full created ready
          base) := by
  let start : Walk := outset options tape full ready
  have hAwaits :
      start.Awaits base (before ++ item :: after) :=
    hFresh.awaits hTaken hSound hApart
  have hFewer :
      (before ++ after).Sublist (before ++ item :: after) :=
    (List.sublist_cons_self item after).append_left before
  rw [set_archive before item after b hInside] at hTape
  have hNothing : start.Gains start base [] :=
    (Walk.Alike.refl start).gains base
  rcases Walk.Awaits.gains_until hAwaits hNothing
      (Tape.Holds.stands hTape) with
    ⟨rounds, v, hAfter, hThere, hBefore⟩
  rcases hAwaits.gains_damaged hVerify hProper hData hInside
      hBefore hThere (magic_notIn_zeros _) with
    ⟨last, hEnds, hLast⟩
  refine
    ⟨finish last full created,
      hFresh.yields (Walk.ends_of_after hAfter hEnds),
      hLast.imp ?_ ?_⟩
  · exact restores_of_gains created hAwaits rfl rfl rfl rfl
  · exact
      restores_of_gains created (hAwaits.fewer hFewer) rfl
        rfl rfl rfl

/- Three files, the second of which has a damaged size. -/
def damagedArchive : Bytes :=
  (archive
    (([Item.file "a" [0x41]] ++
        Item.file "b" [0x42] :: [Item.file "c" [0x43]]).map
      Item.entry)).set
    (Item.extent [.file "a" [0x41]] + 134) 0x39

set_option maxRecDepth 100000 in
/- The other two are extracted, and the second at most. -/
theorem damagedArchive_confined :
    ∃ x,
      Yields
        (fun fuel =>
          ofTape? .blocking fuel { verifyChecksum := true }
            (taped damagedArchive) ⟨"out"⟩ {})
        x ∧
      (Restores x
          ([.file "a" [0x41]] ++
            .file "b" [0x42] :: [.file "c" [0x43]])
          ⟨"/out"⟩ true (prepare {} ⟨"out"⟩).2 ["out"] ∨
        Restores x
          ([.file "a" [0x41]] ++ [.file "c" [0x43]])
          ⟨"/out"⟩ true (prepare {} ⟨"out"⟩).2 ["out"]) := by
  have hData :
      ∀ k, ¬ magic <+: (Item.file "b" [0x42]).entry.data.drop
        k := by
    intro k hHere
    have hWord : (0x75 : UInt8) ∈ ([0x42] : Bytes) :=
      List.mem_of_mem_drop (hHere.subset List.mem_cons_self)
    exact absurd hWord (by decide)
  have hHolds :
      (taped damagedArchive).Holds damagedArchive :=
    ⟨.ofMemory Script.plain_isCalm rfl rfl, rfl, rfl,
      by decide +kernel⟩
  exact
    confines_damage { verifyChecksum := true } 134 0x39 rfl
      (fun item _ => item.isTaken_of_sanitize rfl)
      (by decide +kernel) (by decide +kernel)
      (by decide +kernel) hData (by decide) hHolds
      isFresh_out

end Extraction

end ArchiveRescue
