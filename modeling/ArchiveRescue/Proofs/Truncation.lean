import Mathlib
import ArchiveRescue.Proofs.RoundTrip

/-
  What is saved of an archive that was cut at some byte.  The
  items whose header and data are all there come back, and
  padding that is missing does not matter.  A file whose data
  was cut fails, with the number of bytes that are left, and
  nothing stays at its place.

  Key definitions include:
    * `Ustar.Remnant`
    * `Ustar.Item.spared`
    * `Ustar.Item.remnant?`
    * `Walk.Saves`
    * `Extraction.Salvages`

  Main statements:
    * `Walk.fails_severed`
    * `Walk.Awaits.saves_run`
    * `Extraction.Salvages.extracts`
    * `Extraction.Salvages.mem_failures_iff`
    * `Extraction.salvages_cut_archive`
-/

namespace ArchiveRescue

namespace Ustar

------------------------------------------------------------
-- What a Cut Leaves
------------------------------------------------------------

/-
  A file whose header is there with a part of its data: its
  name, how much data it declares and how much is left.
-/
structure Remnant where
  name : String
  declared : Nat
  left : Nat

namespace Remnant

/- The failure that is recorded. -/
def failure (r : Remnant) : Failure :=
  .entryFailed r.name (.entryTruncated r.declared r.left)

/- It leaves no more on the disk than a file without data. -/
def trace (r : Remnant) : Item :=
  .file r.name []

end Remnant

namespace Item

/- The items whose header and data lie in the first bytes. -/
def spared : Nat → List Item → List Item
| _, [] => []
| n, item :: later =>
    if blockSize + item.entry.data.length ≤ n then
      item :: spared (n - item.entry.toBytes.length) later
    else []

/- The file that the first bytes end in the data of. -/
def remnant? : Nat → List Item → Option Remnant
| _, [] => none
| n, item :: later =>
    if blockSize + item.entry.data.length ≤ n then
      remnant? (n - item.entry.toBytes.length) later
    else if blockSize ≤ n then
      some
        { name := item.entry.header.name
          declared := item.entry.data.length
          left := n - blockSize }
    else none

/- Everything that leaves something on the disk. -/
def traces
    (kept : List Item)
    (remnant? : Option Remnant) : List Item :=
  kept ++ remnant?.toList.map Remnant.trace

section Sparing

variable {n : Nat} {item : Item} {later : List Item}

/- No bytes hold no items. -/
theorem spared_zero (items : List Item) :
    spared 0 items = [] ∧ remnant? 0 items = none := by
  cases items with
  | nil => exact ⟨rfl, rfl⟩
  | cons item later =>
      constructor
      · exact if_neg (by simp [blockSize])
      · unfold remnant?
        rw [if_neg (by simp [blockSize]),
          if_neg (by simp [blockSize])]

/- An item is spared, and those behind it may be. -/
theorem spared_of_le
    (later : List Item)
    (hFits : blockSize + item.entry.data.length ≤ n) :
    spared n (item :: later) =
        item ::
          spared (n - item.entry.toBytes.length) later ∧
      remnant? n (item :: later) =
        remnant? (n - item.entry.toBytes.length) later :=
  ⟨if_pos hFits, if_pos hFits⟩

/- An item is cut in its data. -/
theorem spared_of_within
    (later : List Item)
    (hHeader : blockSize ≤ n)
    (hCut : n < blockSize + item.entry.data.length) :
    spared n (item :: later) = [] ∧
      remnant? n (item :: later) =
        some
          { name := item.entry.header.name
            declared := item.entry.data.length
            left := n - blockSize } := by
  constructor
  · exact if_neg (Nat.not_le.mpr hCut)
  · unfold remnant?
    rw [if_neg (Nat.not_le.mpr hCut), if_pos hHeader]

/- An item is cut in its header. -/
theorem spared_of_lt
    (item : Item)
    (later : List Item)
    (hCut : n < blockSize) :
    spared n (item :: later) = [] ∧
      remnant? n (item :: later) = none := by
  constructor
  · exact if_neg (by omega)
  · unfold remnant?
    rw [if_neg (by omega), if_neg (by omega)]

/- What is spared comes first. -/
theorem spared_prefix
    (n : Nat)
    (items : List Item) :
    spared n items <+: items := by
  induction items generalizing n with
  | nil => exact List.prefix_refl []
  | cons item later ih =>
      unfold spared
      split
      · exact (List.prefix_cons_inj item).mpr (ih _)
      · exact List.nil_prefix

/-
  An item is spared just if its header and its data end
  within the first bytes.
-/
theorem prefix_spared_iff
    (before : List Item)
    (item : Item)
    (after : List Item) :
    before ++ [item] <+: spared n (before ++ item :: after) ↔
      extent before + blockSize + item.entry.data.length ≤
        n := by
  induction before generalizing n with
  | nil =>
      change [item] <+: spared n (item :: after) ↔ _
      rw [extent_nil, Nat.zero_add]
      unfold spared
      split
      next hFits => simp [hFits]
      next hCut => simp [hCut]
  | cons first more ih =>
      have hFirst := first.le_length_toBytes
      have hBlock : 0 < blockSize := by decide
      change
        first :: (more ++ [item]) <+:
            spared n (first :: (more ++ item :: after)) ↔ _
      rw [extent_cons]
      unfold spared
      split
      next hFits =>
        rw [List.prefix_cons_inj, ih]
        omega
      next hCut =>
        rw [List.prefix_nil]
        constructor
        · exact nofun
        · omega

/-
  There is a remnant just if the first bytes end behind the
  header of an item but before the end of its data.
-/
theorem remnant?_eq_some_iff
    {items : List Item}
    {r : Remnant} :
    remnant? n items = some r ↔
      ∃ before item after,
        items = before ++ item :: after ∧
          extent before + blockSize ≤ n ∧
          n <
            extent before + blockSize +
              item.entry.data.length ∧
          { name := item.entry.header.name
            declared := item.entry.data.length
            left := n - (extent before + blockSize) } = r := by
  induction items generalizing n with
  | nil => simp [remnant?]
  | cons first later ih =>
      have hFirst := first.le_length_toBytes
      have hBlock : 0 < blockSize := by decide
      unfold remnant?
      constructor
      · intro hSome
        split at hSome
        next hFits =>
          rcases ih.mp hSome with
            ⟨before, item, after, rfl, hHeader, hCut, rfl⟩
          refine ⟨first :: before, item, after, rfl, ?_⟩
          rw [extent_cons, Nat.sub_sub, ← Nat.add_assoc]
          exact ⟨by omega, by omega, rfl⟩
        next hCut =>
          split at hSome
          next hHeader =>
            refine ⟨[], first, later, rfl, ?_⟩
            rw [extent_nil, Nat.zero_add]
            exact ⟨hHeader, by omega, Option.some.inj hSome⟩
          next => cases hSome
      · rintro ⟨before, item, after, hItems, hHeader, hCut,
          rfl⟩
        cases before with
        | nil =>
            cases hItems
            rw [extent_nil, Nat.zero_add] at hHeader hCut
            rw [if_neg (by omega), if_pos hHeader, extent_nil,
              Nat.zero_add]
        | cons other before =>
            cases hItems
            rw [extent_cons] at hHeader hCut
            rw [if_pos (by omega)]
            apply ih.mpr
            refine ⟨before, item, after, rfl, ?_⟩
            rw [extent_cons, Nat.sub_sub, ← Nat.add_assoc]
            exact ⟨by omega, by omega, rfl⟩

/- Only the data of a file can be cut. -/
theorem IsProper.file_of_data
    (hProper : item.IsProper)
    (hData : 0 < item.entry.data.length) :
    ∃ name data, item = .file name data := by
  cases item with
  | file name data => exact ⟨name, data, rfl⟩
  | directory name => exact absurd hData (Nat.lt_irrefl 0)
  | other header data => exact hProper.elim

end Sparing

end Item

end Ustar

open Ustar

namespace Walk

------------------------------------------------------------
-- Walks Through a Cut Archive
------------------------------------------------------------

/-
  What the walk has saved: the items that are kept, and the
  failure of the file that was cut, of which nothing but its
  directories stays.
-/
structure Saves
    (start last : Walk)
    (base : Location)
    (kept : List Item)
    (remnant? : Option Remnant) : Prop where
  directory : last.directory = start.directory
  verdict : last.report.verdict = start.report.verdict
  expected :
    last.expected =
      start.expected +
        (Item.traces kept remnant?).countP Item.isFile
  extracted :
    last.extracted =
      start.extracted ++
        kept.filterMap (Item.extracted? start.directory)
  failures :
    last.failures =
      start.failures ++
        (kept.filterMap (Item.failure? start.directory) ++
          remnant?.toList.map Remnant.failure)
  disk :
    start.disk.Adds last.disk base
      (Item.PutBy (Item.traces kept remnant?))
  gone :
    ∀ r ∈ remnant?,
      Path.pieces ⟨r.name⟩ ≠ [] ∧
        last.disk.node? (base ++ Path.pieces ⟨r.name⟩) = none

section Saving

variable {start w last : Walk} {base : Location}
variable {done items later : List Item} {item : Item}
variable {rest : Bytes} {n : Nat}

/- What was gained without a cut is saved. -/
theorem Gains.saves
    (hGains : start.Gains last base items) :
    start.Saves last base items none := by
  have hTraces : Item.traces items none = items :=
    List.append_nil items
  constructor
  · exact hGains.directory
  · exact hGains.verdict
  · rw [hTraces]
    exact hGains.expected
  · exact hGains.extracted
  · rw [hGains.failures]
    exact
      congrArg (start.failures ++ ·) (List.append_nil _).symm
  · rw [hTraces]
    exact hGains.disk
  · rintro r ⟨⟩

/- A file that fails behind what was gained is its remnant. -/
theorem Gains.saves_failed
    {r : Remnant}
    (hGains : start.Gains w base items)
    (hFails :
      w.Fails last base r.name
        (.entryTruncated r.declared r.left))
    (hNone :
      w.disk.node? (base ++ Path.pieces ⟨r.name⟩) = none)
    (hSome : Path.pieces ⟨r.name⟩ ≠ []) :
    start.Saves last base items (some r) := by
  constructor
  · exact hFails.directory.trans hGains.directory
  · exact hFails.verdict.trans hGains.verdict
  · have hTraces :
        (Item.traces items (some r)).countP Item.isFile =
          items.countP Item.isFile + 1 :=
      List.countP_append
    rw [hFails.expected, hGains.expected, hTraces,
      Nat.add_assoc]
  · exact hFails.extracted.trans hGains.extracted
  · rw [hFails.failures, hGains.failures, List.append_assoc]
    rfl
  · apply (hGains.disk.trans hFails.disk).widen
    · intro rel node hPut
      exact (Item.putBy_append items [r.trace]).mpr hPut
    · intro rel _ node hPut
      exact
        .inr ((Item.putBy_append items [r.trace]).mp hPut)
  · rintro r' ⟨⟩
    refine ⟨hSome, ?_⟩
    rw [← Option.not_isSome_iff_eq_none,
      Option.isSome_iff_exists]
    rintro ⟨node, hNode⟩
    rcases (hFails.disk.below _ hSome node).mp hNode with
      hOld | hPut
    · rw [hNone] at hOld
      cases hOld
    · rcases (Item.putBy_singleton _).mp hPut with
        ⟨-, ⟨-, hOther, -⟩ | ⟨-, hNever, -⟩⟩
      · exact hOther rfl
      · exact hNever rfl

/-
  A file fails if the tape ends within its data, with as many
  bytes as there were.
-/
theorem IsReady.fails_severed
    {block : Block}
    {name : String}
    {data part : Bytes}
    (hReady : w.IsReady base (.file name data))
    (hSafe : isSafe ⟨name⟩ = true)
    (hPath : block.header.path = name)
    (hKind : block.header.kind = .file)
    (hStands : w.Stands part)
    (hLess : part.length < block.header.size.toNat) :
    w.Fails (w.attempted block) base name
      (.entryTruncated block.header.size.toNat
        part.length) := by
  have hPlain :=
    Path.isPlain_pieces hSafe hReady.sound.1.short
      hReady.sound.1.clear
  have hFits : (Item.file name part).Fits w.disk base :=
    hReady.fits
  rcases attempted_file hReady.hosts hReady.taken
      hStands.reliable (.inr ⟨hStands.rest, hLess⟩) hPlain
      hSafe hFits hPath hKind with
    ⟨held, hHeld, hAttempted⟩
  have hCut :
      complete (w.cursorBehind block name part.length) =
        .error
          (.entryTruncated block.header.size.toNat
            part.length) := by
    have hLeft :
        0 <
          (w.cursorBehind block name
            part.length).remaining := by
      unfold Cursor.remaining Cursor.declared cursorBehind
      dsimp only
      omega
    unfold complete
    rw [if_pos hLeft]
    rfl
  rw [hAttempted]
  apply fails_copied hReady.hosts hPlain hSafe hHeld
  rw [hCut]
  rfl

/-
  The walk ends behind a header whose data is cut, and has
  saved what it gained before and the remnant.
-/
theorem Awaits.saves_severed
    {name : String}
    {data part : Bytes}
    (hAwaits :
      start.Awaits base (done ++ .file name data :: later))
    (hSafe : isSafe ⟨name⟩ = true)
    (hGains : start.Gains w base done)
    (hStands :
      w.Stands
        ((Entry.file name data).header.toBlock.bytes ++ part))
    (hLess : part.length < data.length)
    (hRoom :
      w.tape.position + (blockSize + roundUp data.length) <
        2 ^ 63) :
    ∃ last, w.Ends last ∧
      start.Saves last base done
        (some
          { name := name
            declared := data.length
            left := part.length }) := by
  have hReady := hAwaits.ready hGains
  have hRound := le_roundUp data.length
  have hSize :
      (Entry.file name data).header.toBlock.header.size.toNat =
        data.length := by
    apply
      (Item.file name data).isAnnounced_toBlock.size_eq
        hReady.sound
    change data.length < 2 ^ 63
    omega
  rcases hStands.round_header
      (Header.accepted_toBlock _ hReady.sound.marked _)
      (by rwa [hSize]) hReady.hosts.permits.keepsWriting with
    ⟨read, next, hOnward, hNext, hAlike, hMoved⟩
  have hRead := hGains.alike hOnward.alike
  have hThere := hAwaits.ready hRead
  rcases header_file data hThere.sound.1 hThere.sound.2 with
    ⟨hPath, hKind⟩
  have hFails :=
    hThere.fails_severed hSafe hPath hKind hOnward.stands
      (by rwa [hSize])
  rw [hSize] at hFails hMoved
  have hLength := hStands.length_rest
  have hBytes := hMoved.source.bytes
  have hPosition := hMoved.position
  rw [List.length_append, Block.length_bytes] at hLength
  rcases ends_in_short hMoved.reliable
      (by rw [hBytes]; omega) with ⟨last, hEnds, hLast⟩
  have hPlain :=
    Path.isPlain_pieces hSafe hThere.sound.1.short
      hThere.sound.1.clear
  have hPlace := hThere.fits _ (if_pos hSafe)
  refine ⟨last, ends_of_round hNext hEnds, ?_⟩
  exact
    hRead.saves_failed
      (r := ⟨name, data.length, part.length⟩)
      (hFails.alike (hAlike.trans hLast)) (hPlace.2 rfl)
      hPlain.nonempty

/-
  The walk ends behind an item whose data is there but whose
  padding is cut, and has gained the item.
-/
theorem Awaits.gains_unpadded
    (hAwaits : start.Awaits base (done ++ item :: later))
    (hGains : start.Gains w base done)
    (hStands :
      w.Stands (item.entry.header.toBlock.bytes ++ rest))
    (hData : item.entry.data <+: rest)
    (hCut :
      blockSize + rest.length < item.entry.toBytes.length)
    (hRoom :
      w.tape.position + item.entry.toBytes.length <
        2 ^ 63) :
    ∃ last, w.Ends last ∧
      start.Gains last base (done ++ [item]) := by
  have hReady := hAwaits.ready hGains
  rw [← item.behind_toBlock] at hRoom hCut
  rcases hAwaits.round_announced hGains hStands
      (Header.accepted_toBlock _ hReady.sound.marked _)
      item.isAnnounced_toBlock hData hRoom with
    ⟨next, hRound, hMoved, hNext⟩
  have hLength := hStands.length_rest
  have hBytes := hMoved.source.bytes
  have hPosition := hMoved.position
  rw [List.length_append, Block.length_bytes] at hLength
  rcases ends_in_short hMoved.reliable
      (by rw [hBytes]; omega) with ⟨last, hEnds, hAlike⟩
  exact
    ⟨last, ends_of_round hRound hEnds, hNext.alike hAlike⟩

/-
  The walk ends within or behind the item that the cut goes
  through.  It is the header that is cut, or the padding, or
  the data.
-/
theorem Awaits.saves_cut
    (hAwaits : start.Awaits base (done ++ item :: later))
    (hProper : item.IsProper)
    (hGains : start.Gains w base done)
    (hStands : w.Stands (item.entry.toBytes.take n))
    (hCut : n < item.entry.toBytes.length)
    (hRoom :
      w.tape.position + item.entry.toBytes.length <
        2 ^ 63) :
    ∃ last, w.Ends last ∧
      start.Saves last base
        (done ++ Item.spared n (item :: later))
        (Item.remnant? n (item :: later)) := by
  have hLength := item.length_toBytes
  have hRound := le_roundUp item.entry.data.length
  by_cases hHeader : n < blockSize
  · have hLeft := hStands.length_rest
    rw [List.length_take] at hLeft
    rcases ends_in_short hStands.reliable (by omega) with
      ⟨last, hEnds, hAlike⟩
    rcases Item.spared_of_lt item later hHeader with
      ⟨hSpared, hRemnant⟩
    refine ⟨last, hEnds, ?_⟩
    rw [hSpared, hRemnant, List.append_nil]
    exact (hGains.alike hAlike).saves
  have hBlock := item.entry.header.toBlock.length_bytes
  unfold Entry.toBytes at hStands
  rw [List.append_assoc, List.take_append, hBlock,
    List.take_of_length_le (by omega)] at hStands
  by_cases hData : blockSize + item.entry.data.length ≤ n
  · rcases Item.spared_of_le later hData with
      ⟨hSpared, hRemnant⟩
    rw [Nat.sub_eq_zero_of_le hCut.le] at hSpared hRemnant
    rw [(Item.spared_zero later).1] at hSpared
    rw [(Item.spared_zero later).2] at hRemnant
    have hThere :
        item.entry.data <+:
          (item.entry.data ++
              Bytes.zeros (padding item.entry.data.length)).take
            (n - blockSize) :=
      List.prefix_take_iff.mpr
        ⟨List.prefix_append _ _, by omega⟩
    rcases hAwaits.gains_unpadded hGains hStands hThere
        (by rw [List.length_take]; omega) hRoom with
      ⟨last, hEnds, hMore⟩
    refine ⟨last, hEnds, ?_⟩
    rw [hSpared, hRemnant]
    exact hMore.saves
  · have hLess : n - blockSize < item.entry.data.length := by
      omega
    have hPart :
        (item.entry.data.take (n - blockSize)).length =
          n - blockSize :=
      List.length_take_of_le hLess.le
    rw [List.take_append_of_le_length hLess.le] at hStands
    rw [hLength] at hRoom
    rcases hProper.file_of_data (by omega) with
      ⟨name, data, rfl⟩
    rcases Item.spared_of_within later
        (Nat.not_lt.mp hHeader) (Nat.not_le.mp hData) with
      ⟨hSpared, hRemnant⟩
    rcases hAwaits.saves_severed hProper.1 hGains hStands
        (hPart.trans_lt hLess) hRoom with
      ⟨last, hEnds, hSaves⟩
    refine ⟨last, hEnds, ?_⟩
    rw [hSpared, hRemnant, List.append_nil]
    rw [hPart] at hSaves
    exact hSaves

/-
  A walk through the first bytes of an archive saves the
  items that are spared and records the one that is cut in
  its data.  The induction is on the items that are still to
  come.
-/
theorem Awaits.saves_run
    {tail : Bytes}
    (hAwaits : start.Awaits base (done ++ items))
    (hProper : ∀ item ∈ items, item.IsProper)
    (hGains : start.Gains w base done)
    (hStands :
      w.Stands
        (((items.map Item.entry).flatMap Entry.toBytes ++
          tail).take n))
    (hTail : ∀ i, ¬ magic <+: tail.drop i)
    (hRoom :
      w.tape.position +
          ((items.map Item.entry).flatMap
            Entry.toBytes).length <
        2 ^ 63) :
    ∃ last, w.Ends last ∧
      start.Saves last base (done ++ Item.spared n items)
        (Item.remnant? n items) := by
  induction items generalizing w done n with
  | nil =>
      have hNone : ∀ i, ¬ magic <+: (tail.take n).drop i := by
        intro i hHere
        rw [List.drop_take] at hHere
        exact hTail i (hHere.trans (List.take_prefix _ _))
      rcases ends_in_tail hStands hNone with
        ⟨last, hEnds, hAlike⟩
      refine ⟨last, hEnds, ?_⟩
      rw [Item.spared, List.append_nil]
      exact (hGains.alike hAlike).saves
  | cons item later ih =>
      have hItem := hProper item List.mem_cons_self
      rw [List.map_cons, List.flatMap_cons,
        List.length_append] at hRoom
      rw [List.map_cons, List.flatMap_cons,
        List.append_assoc] at hStands
      by_cases hCut : n < item.entry.toBytes.length
      · rw [List.take_append_of_le_length hCut.le] at hStands
        exact
          hAwaits.saves_cut hItem hGains hStands hCut
            (by omega)
      rw [Nat.not_lt] at hCut
      rw [List.take_append, List.take_of_length_le hCut,
        ← item.behind_toBlock] at hStands
      rcases hAwaits.round_whole hGains hStands
          (Header.accepted_toBlock _
            (hAwaits.ready hGains).sound.marked _)
          item.isAnnounced_toBlock with
        ⟨next, hNext, hMoved, hThere, hMore⟩
      have hPosition := hMoved.position
      rw [item.behind_toBlock] at hPosition hThere
      rw [List.append_cons] at hAwaits
      rcases ih hAwaits
          (fun other hOther =>
            hProper other (List.mem_cons_of_mem _ hOther))
          hMore hThere (by omega) with
        ⟨last, hEnds, hSaves⟩
      rcases Item.spared_of_le later
          (item.le_length_toBytes.trans hCut) with
        ⟨hSpared, hRemnant⟩
      refine ⟨last, ends_of_round hNext hEnds, ?_⟩
      rw [hSpared, hRemnant, List.append_cons]
      exact hSaves

end Saving

end Walk

namespace Extraction

------------------------------------------------------------
-- Whole Extractions
------------------------------------------------------------

/-
  What the extraction of the first `n` bytes of an archive
  has come to.  Just the files that are spared are extracted.
  The one failure is that of the file that is cut in its
  data, if there is one, and nothing stands at its place.
  What is spared stands below the output directory, with the
  directories on the way to the file that is cut.
-/
structure Salvages
    (x : Extracted)
    (n : Nat)
    (items : List Item)
    (full : Path)
    (created : Bool)
    (ready : Disk)
    (base : Location) : Prop extends
    Leaves x
      (Item.traces (Item.spared n items)
        (Item.remnant? n items))
      created ready base where
  directory : x.result.directory = full
  extracted :
    x.result.extracted =
      (Item.spared n items).filterMap (Item.extracted? full)
  expected :
    x.result.expected =
      (Item.traces (Item.spared n items)
        (Item.remnant? n items)).countP Item.isFile
  failures :
    x.result.failures =
      (Item.remnant? n items).toList.map Remnant.failure
  success :
    x.result.success = true ↔ x.result.extracted ≠ []
  gone :
    ∀ r ∈ Item.remnant? n items,
      x.disk.node? (base ++ Path.pieces ⟨r.name⟩) = none

section Salvaging

variable {x : Extracted} {n : Nat} {items : List Item}
variable {full : Path} {created : Bool} {ready : Disk}
variable {base : Location}

/-
  The file of an item is extracted if the item's header and
  data come before the cut.
-/
theorem Salvages.extracts
    {before after : List Item}
    {item : Item}
    {target : Path}
    (hSalvages :
      Salvages x n (before ++ item :: after) full created
        ready base)
    (hThere :
      Item.extent before + blockSize +
          item.entry.data.length ≤
        n)
    (hTarget : item.extracted? full = some target) :
    target ∈ x.result.extracted := by
  have hSpared :=
    (Item.prefix_spared_iff before item after).mpr hThere
  rw [hSalvages.extracted, List.mem_filterMap]
  exact ⟨item, hSpared.subset (by simp), hTarget⟩

/-
  A failure is recorded just for the file whose header comes
  before the cut and whose data does not.  It tells how much
  of the data does.
-/
theorem Salvages.mem_failures_iff
    {failure : Failure}
    (hSalvages :
      Salvages x n items full created ready base) :
    failure ∈ x.result.failures ↔
      ∃ before item after,
        items = before ++ item :: after ∧
          Item.extent before + blockSize ≤ n ∧
          n <
            Item.extent before + blockSize +
              item.entry.data.length ∧
          failure =
            .entryFailed item.entry.header.name
              (.entryTruncated item.entry.data.length
                (n - (Item.extent before + blockSize))) := by
  rw [hSalvages.failures, List.mem_map]
  simp only [Option.mem_toList, Item.remnant?_eq_some_iff]
  constructor
  · rintro ⟨r, ⟨before, item, after, hItems, hHeader, hCut,
      rfl⟩, rfl⟩
    exact ⟨before, item, after, hItems, hHeader, hCut, rfl⟩
  · rintro ⟨before, item, after, hItems, hHeader, hCut, rfl⟩
    exact
      ⟨_, ⟨before, item, after, hItems, hHeader, hCut, rfl⟩,
        rfl⟩

end Salvaging

/-
  A walk that has saved some items in a fresh directory ends
  with what is salvaged.
-/
theorem salvages_of_saves
    {start last : Walk}
    {n : Nat}
    {items : List Item}
    {base : Location}
    (created : Bool)
    (hAwaits : start.Awaits base items)
    (hProper : ∀ item ∈ items, item.IsProper)
    (hExpected : start.expected = 0)
    (hExtracted : start.extracted = [])
    (hFailures : start.failures = [])
    (hVerdict : start.report.verdict = .undecided)
    (hSaves :
      start.Saves last base (Item.spared n items)
        (Item.remnant? n items)) :
    Salvages (finish last start.directory created) n items
      start.directory created start.disk base := by
  have hLast : last.disk.Hosts start.directory base :=
    hSaves.disk.hosts hAwaits.hosts
  have hDone := concluded created hLast
    (hSaves.verdict.trans hVerdict)
  have hFiles :
      last.extracted =
        (Item.spared n items).filterMap
          (Item.extracted? start.directory) := by
    rw [hSaves.extracted, hExtracted, List.nil_append]
  have hNoFailure :
      (Item.spared n items).filterMap
          (Item.failure? start.directory) = [] := by
    rw [List.filterMap_eq_nil_iff]
    intro item hItem
    exact
      (hProper item
        ((Item.spared_prefix n items).subset
          hItem)).failure?_eq _
  constructor
  · apply
      leaves_of_adds hLast hAwaits.empty hDone hSaves.disk
    rintro hNone
    refine hFiles.trans (Item.extracted_of_puts _ ?_)
    rintro ⟨item, hItem, hPut⟩
    exact
      hNone ⟨item, List.mem_append_left _ hItem, hPut⟩
  · rfl
  · exact hDone.extracted.trans hFiles
  · refine hDone.expected.trans ?_
    rw [hSaves.expected, hExpected, Nat.zero_add]
  · refine hDone.failures.trans ?_
    rw [hSaves.failures, hFailures, hNoFailure,
      List.nil_append, List.nil_append]
  · refine hDone.success.trans ?_
    rw [← hDone.extracted]
    rfl
  · intro r hRemnant
    rcases hSaves.gone r hRemnant with ⟨hSome, hNone⟩
    exact
      (hDone.beside _ (by simpa using hSome)).trans hNone

/-
  The first bytes of the archive of files with data and of
  directories, all with names that are accepted and apart:
  however many there are, they come to what is spared.
-/
theorem salvages_cut_archive
    (options : ExtractionOptions)
    (n : Nat)
    {items : List Item}
    {tape : Tape}
    {disk ready : Disk}
    {directory full : Path}
    {created : Bool}
    {base : Location}
    (hTaken : ∀ item ∈ items, item.IsTaken options.sanitize)
    (hSound : ∀ item ∈ items, item.IsSound)
    (hProper : ∀ item ∈ items, item.IsProper)
    (hApart : items.Pairwise Item.Apart)
    (hLength :
      (archive (items.map Item.entry)).length < 2 ^ 63)
    (hTape :
      tape.Holds ((archive (items.map Item.entry)).take n))
    (hFresh :
      IsFresh disk directory full created ready base) :
    ∃ x,
      Yields
        (fun fuel =>
          ofTape? .blocking fuel options tape directory disk)
        x ∧
      Salvages x n items full created ready base := by
  let start : Walk := outset options tape full ready
  have hAwaits : start.Awaits base items :=
    hFresh.awaits hTaken hSound hApart
  have hStands :
      start.Stands
        (((items.map Item.entry).flatMap Entry.toBytes ++
          Bytes.zeros (2 * blockSize)).take n) :=
    Tape.Holds.stands hTape
  have hRoom :
      start.tape.position +
          ((items.map Item.entry).flatMap
            Entry.toBytes).length <
        2 ^ 63 := by
    have hStart : start.tape.position = 0 := hTape.start
    unfold archive at hLength
    rw [List.length_append] at hLength
    omega
  have hNothing : start.Gains start base [] :=
    (Walk.Alike.refl start).gains base
  rcases Walk.Awaits.saves_run hAwaits hProper hNothing
      hStands (magic_notIn_zeros _) hRoom with
    ⟨last, hEnds, hSaves⟩
  rw [List.nil_append] at hSaves
  exact
    ⟨finish last full created, hFresh.yields hEnds,
      salvages_of_saves created hAwaits hProper rfl rfl rfl
        rfl hSaves⟩

/- A directory, a file in it and a file of three bytes. -/
def cutItems : List Item :=
  [.directory "d", .file "d/f" [0x41],
    .file "g" [0x42, 0x43, 0x44]]

/- Two of the three bytes come before the cut. -/
example :
    Item.spared 2050 cutItems =
        [.directory "d", .file "d/f" [0x41]] ∧
      (Item.remnant? 2050 cutItems).map Remnant.failure =
        some (.entryFailed "g" (.entryTruncated 3 2)) := by
  decide +kernel

set_option maxRecDepth 100000 in
/- So the first two items are salvaged. -/
theorem cutItems_salvaged :
    ∃ x,
      Yields
        (fun fuel =>
          ofTape? .blocking fuel {}
            (taped
              ((archive (cutItems.map Item.entry)).take 2050))
            ⟨"out"⟩ {})
        x ∧
      Salvages x 2050 cutItems ⟨"/out"⟩ true
        (prepare {} ⟨"out"⟩).2 ["out"] := by
  have hHolds :
      (taped
          ((archive (cutItems.map Item.entry)).take
            2050)).Holds
        ((archive (cutItems.map Item.entry)).take 2050) :=
    ⟨.ofMemory Script.plain_isCalm rfl rfl, rfl, rfl,
      by decide +kernel⟩
  exact
    salvages_cut_archive {} 2050
      (fun item _ => item.isTaken_of_sanitize rfl)
      (by decide +kernel) (by decide +kernel)
      (by decide +kernel) (by decide +kernel) hHolds
      isFresh_out

end Extraction

end ArchiveRescue
