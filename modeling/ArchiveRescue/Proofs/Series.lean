import Mathlib
import ArchiveRescue.Proofs.ExtractedItems

/-
  Walks through a series of items, one round for each.  What
  was gained before leaves room for an item as long as the
  two are apart, so the walk gains all of them.

  Key definitions include:
    * `Ustar.Item.series`
    * `Ustar.Item.IsHeadedBy`
    * `Ustar.Item.IsSeries`
    * `Ustar.Item.archived`
    * `Ustar.Item.extent`
    * `Walk.Awaits`

  Main statements:
    * `Walk.Awaits.round_announced`
    * `Walk.Awaits.round_whole`
    * `Walk.Awaits.gains_series`
    * `Walk.Awaits.ends_behind_series`
-/

namespace ArchiveRescue

open Ustar

namespace Ustar.Item

/-
  There is room for an item below a directory that held
  nothing before items apart from this one were put there.
-/
theorem fits_of_apart
    {item : Item}
    {done : List Item}
    {d e : Disk}
    {full : Path}
    {base : Location}
    (hHosts : e.Hosts full base)
    (hEmpty :
      ∀ rel, rel ≠ [] → d.node? (base ++ rel) = none)
    (hAdds : d.Adds e base (PutBy done))
    (hApart : ∀ other ∈ done, other.Apart item) :
    item.Fits e base := by
  intro place hPlace
  constructor
  · intro front hFront data modified hFile
    by_cases hRoot : front = []
    · rw [hRoot, List.append_nil, hHosts.directory] at hFile
      cases hFile
    · rcases (hAdds.below_empty hEmpty hRoot _).mp hFile with
        ⟨other, hOther, hPuts⟩
      rcases hPuts.on_way with
        ⟨there, hThere, -, hNode | ⟨hIsFile, hHere⟩⟩
      · cases hNode
      · have hBeside :=
          hApart other hOther there hThere place hPlace
        rw [← hHere] at hBeside
        exact hBeside.1 hIsFile hFront
  · intro hIsFile
    by_contra hSome
    rcases Option.ne_none_iff_exists'.mp hSome with
      ⟨node, hNode⟩
    rcases (hAdds.below_empty hEmpty (place_ne_nil hPlace)
        node).mp hNode with ⟨other, hOther, hPuts⟩
    rcases hPuts.on_way with ⟨there, hThere, hWay, -⟩
    exact
      (hApart other hOther there hThere place hPlace).2
        hIsFile hWay

/- The bytes of an item behind some header block. -/
def behind
    (item : Item)
    (block : Block) : Bytes :=
  block.bytes ++
    (item.entry.data ++
      Bytes.zeros (padding item.entry.data.length))

/- An entry is its data behind the header that is written. -/
theorem behind_toBlock (item : Item) :
    item.behind item.entry.header.toBlock =
      item.entry.toBytes := by
  unfold behind Entry.toBytes
  rw [List.append_assoc]

/- Behind any header block it fills whole blocks. -/
theorem length_behind
    (item : Item)
    (block : Block) :
    (item.behind block).length =
      blockSize + roundUp item.entry.data.length := by
  unfold behind
  simp only [List.length_append, Bytes.length_zeros,
    block.length_bytes, add_padding]

/- So the bytes of an entry do. -/
theorem length_toBytes (item : Item) :
    item.entry.toBytes.length =
      blockSize + roundUp item.entry.data.length := by
  rw [← item.behind_toBlock, item.length_behind]

/- They hold a header and the data. -/
theorem le_length_toBytes (item : Item) :
    blockSize + item.entry.data.length ≤
      item.entry.toBytes.length := by
  rw [item.length_toBytes]
  exact Nat.add_le_add_left (le_roundUp _) _

/-
  The bytes of some items, each behind a header block of its
  own.
-/
def series (headed : List (Item × Block)) : Bytes :=
  headed.flatMap (fun pair => pair.1.behind pair.2)

/-
  A block that is taken for a header whether checksums are
  verified or not, and announces the item.
-/
structure IsHeadedBy
    (item : Item)
    (block : Block) : Prop where
  accepted : ∀ verify, block.accepted verify = true
  announced : item.IsAnnounced block

/- A sound item with the header that is written. -/
theorem IsSound.isHeadedBy_toBlock
    {item : Item}
    (hSound : item.IsSound) :
    item.IsHeadedBy item.entry.header.toBlock where
  accepted := Header.accepted_toBlock _ hSound.marked
  announced := item.isAnnounced_toBlock

/- Items with the headers that are written. -/
def written (items : List Item) : List (Item × Block) :=
  items.map (fun item => (item, item.entry.header.toBlock))

theorem fst_written (items : List Item) :
    (written items).map Prod.fst = items := by
  unfold written
  rw [List.map_map]
  exact List.map_id items

theorem series_written (items : List Item) :
    series (written items) =
      (items.map entry).flatMap Entry.toBytes := by
  unfold series written
  rw [List.flatMap_map, List.flatMap_map]
  exact List.flatMap_congr (fun item _ => item.behind_toBlock)

/- Sound items are headed as they are written. -/
theorem headed_written
    {items : List Item}
    (hSound : ∀ item ∈ items, item.IsSound) :
    ∀ pair ∈ written items, pair.1.IsHeadedBy pair.2 := by
  intro pair hPair
  rcases List.mem_map.mp hPair with ⟨item, hItem, rfl⟩
  exact (hSound item hItem).isHeadedBy_toBlock

/-
  Sound items that are apart, each behind a block that
  announces it.
-/
structure IsSeries (pairs : List (Item × Block)) : Prop where
  headed : ∀ pair ∈ pairs, pair.1.IsHeadedBy pair.2
  sound : ∀ item ∈ pairs.map Prod.fst, item.IsSound
  apart : (pairs.map Prod.fst).Pairwise Apart

/- A series with the zeros that end an archive. -/
def archived (headed : List (Item × Block)) : Bytes :=
  series headed ++ Bytes.zeros (2 * blockSize)

/- How many bytes of an archive some items fill. -/
def extent (items : List Item) : Nat :=
  ((items.map entry).flatMap Entry.toBytes).length

theorem extent_nil : extent [] = 0 :=
  rfl

theorem extent_cons
    (first : Item)
    (more : List Item) :
    extent (first :: more) =
      first.entry.toBytes.length + extent more := by
  unfold extent
  rw [List.map_cons, List.flatMap_cons, List.length_append]

/- Items fill as many bytes with other headers. -/
theorem length_series (headed : List (Item × Block)) :
    (series headed).length =
      extent (headed.map Prod.fst) := by
  induction headed with
  | nil => rfl
  | cons pair later ih =>
      unfold series at ih ⊢
      rw [List.flatMap_cons, List.length_append, ih,
        List.map_cons, extent_cons, length_behind,
        length_toBytes]

/- So an archive is as long as its items tell. -/
theorem length_archived (headed : List (Item × Block)) :
    (archived headed).length =
      extent (headed.map Prod.fst) + 2 * blockSize := by
  unfold archived
  rw [List.length_append, length_series, Bytes.length_zeros]

end Ustar.Item

namespace Walk

/-
  A walk that is about to extract sound items that are apart,
  all of whose names are taken, to a directory in which
  nothing stands.
-/
structure Awaits
    (start : Walk)
    (base : Location)
    (items : List Item) : Prop where
  hosts : start.disk.Hosts start.directory base
  empty :
    ∀ rel, rel ≠ [] → start.disk.node? (base ++ rel) = none
  taken :
    ∀ item ∈ items, item.IsTaken start.options.sanitize
  sound : ∀ item ∈ items, item.IsSound
  apart : items.Pairwise Item.Apart

/- It may await fewer items. -/
theorem Awaits.fewer
    {start : Walk}
    {base : Location}
    {items fewer : List Item}
    (hAwaits : start.Awaits base items)
    (hFewer : fewer.Sublist items) :
    start.Awaits base fewer where
  hosts := hAwaits.hosts
  empty := hAwaits.empty
  taken item hItem :=
    hAwaits.taken item (hFewer.subset hItem)
  sound item hItem :=
    hAwaits.sound item (hFewer.subset hItem)
  apart := hAwaits.apart.sublist hFewer

section Awaiting

variable {start w : Walk} {base : Location}
variable {item : Item} {done items later : List Item}
variable {block : Block} {rest : Bytes}

/- What was gained before leaves room for the next item. -/
theorem Awaits.ready
    (hAwaits : start.Awaits base (done ++ item :: later))
    (hGains : start.Gains w base done) :
    w.IsReady base item := by
  have hMember : item ∈ done ++ item :: later := by simp
  have hHosts : w.disk.Hosts start.directory base :=
    hGains.disk.hosts hAwaits.hosts
  constructor
  · rw [hGains.directory]
    exact hHosts
  · rw [hGains.options]
    exact hAwaits.taken item hMember
  · apply
      Item.fits_of_apart hHosts hAwaits.empty hGains.disk
    intro other hOther
    exact
      (List.pairwise_append.mp hAwaits.apart).2.2 other
        hOther item List.mem_cons_self
  · exact hAwaits.sound item hMember

/-
  A round in front of a block that announces the next item,
  with its data behind, gains what the item stands for.
-/
theorem Awaits.round_announced
    (hAwaits : start.Awaits base (done ++ item :: later))
    (hGains : start.Gains w base done)
    (hStands : w.Stands (block.bytes ++ rest))
    (hAccepted :
      block.accepted w.options.verifyChecksum = true)
    (hAnnounced : item.IsAnnounced block)
    (hData : item.entry.data <+: rest)
    (hRoom :
      w.tape.position + (item.behind block).length <
        2 ^ 63) :
    ∃ next, w.round = (next, true) ∧
      w.Advanced next (item.behind block).length ∧
      start.Gains next base (done ++ [item]) := by
  have hReady := hAwaits.ready hGains
  have hRound := le_roundUp item.entry.data.length
  rw [item.length_behind] at hRoom ⊢
  have hLength : item.entry.data.length < 2 ^ 63 := by omega
  have hSize := hAnnounced.size_eq hReady.sound hLength
  rcases hStands.round_header hAccepted (by rwa [hSize])
      hReady.hosts.permits.keepsWriting with
    ⟨read, next, hOnward, hNext, hAlike, hMoved⟩
  rw [hSize] at hMoved
  have hRead := hGains.alike hOnward.alike
  have hItem : read.Gains (read.attempted block) base [item] :=
    (hAwaits.ready hRead).gains hAnnounced
      hOnward.stands.reliable (hOnward.stands.rest ▸ hData)
      hLength
  exact
    ⟨next, hNext, hMoved, (hRead.trans hItem).alike hAlike⟩

/-
  If its padding is there too, the walk then stands in front
  of what follows.
-/
theorem Awaits.round_whole
    (hAwaits : start.Awaits base (done ++ item :: later))
    (hGains : start.Gains w base done)
    (hStands : w.Stands (item.behind block ++ rest))
    (hAccepted :
      block.accepted w.options.verifyChecksum = true)
    (hAnnounced : item.IsAnnounced block) :
    ∃ next, w.round = (next, true) ∧
      w.Advanced next (item.behind block).length ∧
      next.Stands rest ∧
      start.Gains next base (done ++ [item]) := by
  have hLeft := hStands.length_rest
  have hLimit := hStands.length
  rw [List.length_append] at hLeft
  have hHeader := hStands
  unfold Item.behind at hHeader
  rw [List.append_assoc] at hHeader
  have hData :
      item.entry.data <+:
        item.entry.data ++
          Bytes.zeros (padding item.entry.data.length) ++
            rest := by
    rw [List.append_assoc]
    exact List.prefix_append _ _
  rcases hAwaits.round_announced hGains hHeader hAccepted
      hAnnounced hData (by omega) with
    ⟨next, hRound, hMoved, hNext⟩
  exact ⟨next, hRound, hMoved, hStands.move hMoved, hNext⟩

/-
  A walk in front of headed items goes on behind them, and
  gains what they stand for.  The induction is on the items
  that are still to come.
-/
theorem Awaits.gains_series
    {headed : List (Item × Block)}
    (hAwaits :
      start.Awaits base
        (done ++ (headed.map Prod.fst ++ later)))
    (hGains : start.Gains w base done)
    (hHeaded : ∀ pair ∈ headed, pair.1.IsHeadedBy pair.2)
    (hStands : w.Stands (Item.series headed ++ rest)) :
    ∃ rounds v, w.after? rounds = some v ∧
      v.Stands rest ∧
      start.Gains v base (done ++ headed.map Prod.fst) := by
  induction headed generalizing w done with
  | nil =>
      refine ⟨0, w, rfl, hStands, ?_⟩
      rwa [List.map_nil, List.append_nil]
  | cons pair more ih =>
      unfold Item.series at hStands
      rw [List.flatMap_cons, List.append_assoc] at hStands
      have hHere := hHeaded pair List.mem_cons_self
      rcases hAwaits.round_whole hGains hStands
          (hHere.accepted _) hHere.announced with
        ⟨next, hRound, -, hNext, hMore⟩
      have hSplit : ∀ tail : List Item,
          done ++ pair.1 :: tail =
            done ++ [pair.1] ++ tail := by
        intro tail
        rw [List.append_assoc, List.singleton_append]
      rw [List.map_cons, List.cons_append, hSplit] at hAwaits
      rcases ih hAwaits hMore
          (fun other hOther =>
            hHeaded other (List.mem_cons_of_mem pair hOther))
          hNext with
        ⟨rounds, v, hAfter, hThere, hAll⟩
      refine ⟨rounds + 1, v, ?_, hThere, ?_⟩
      · unfold after?
        rw [hRound]
        exact hAfter
      · rwa [List.map_cons, hSplit]

/- In front of a tail that holds no header, it ends there. -/
theorem Awaits.ends_behind_series
    {headed : List (Item × Block)}
    (hAwaits :
      start.Awaits base (done ++ headed.map Prod.fst))
    (hGains : start.Gains w base done)
    (hHeaded : ∀ pair ∈ headed, pair.1.IsHeadedBy pair.2)
    (hStands : w.Stands (Item.series headed ++ rest))
    (hTail : ∀ i, ¬ magic <+: rest.drop i) :
    ∃ last, w.Ends last ∧
      start.Gains last base (done ++ headed.map Prod.fst) := by
  rw [← List.append_nil (headed.map Prod.fst)] at hAwaits
  rcases hAwaits.gains_series hGains hHeaded hStands with
    ⟨rounds, v, hAfter, hThere, hAll⟩
  rcases ends_in_tail hThere hTail with
    ⟨last, hEnds, hAlike⟩
  exact
    ⟨last, ends_of_after hAfter hEnds, hAll.alike hAlike⟩

/- A walk goes on behind items that were written. -/
theorem Awaits.gains_until
    (hAwaits : start.Awaits base (done ++ (items ++ later)))
    (hGains : start.Gains w base done)
    (hStands :
      w.Stands
        ((items.map Item.entry).flatMap Entry.toBytes ++
          rest)) :
    ∃ rounds v, w.after? rounds = some v ∧
      v.Stands rest ∧
      start.Gains v base (done ++ items) := by
  have hSound : ∀ item ∈ items, item.IsSound :=
    fun item hItem => hAwaits.sound item (by simp [hItem])
  have hHeaded := Item.headed_written hSound
  rw [← Item.series_written] at hStands
  rw [← Item.fst_written items] at hAwaits ⊢
  exact hAwaits.gains_series hGains hHeaded hStands

/- And it ends in a tail behind them. -/
theorem Awaits.gains_run
    (hAwaits : start.Awaits base (done ++ items))
    (hGains : start.Gains w base done)
    (hStands :
      w.Stands
        ((items.map Item.entry).flatMap Entry.toBytes ++
          rest))
    (hTail : ∀ i, ¬ magic <+: rest.drop i) :
    ∃ last, w.Ends last ∧
      start.Gains last base (done ++ items) := by
  have hSound : ∀ item ∈ items, item.IsSound :=
    fun item hItem => hAwaits.sound item (by simp [hItem])
  have hHeaded := Item.headed_written hSound
  rw [← Item.series_written] at hStands
  rw [← Item.fst_written items] at hAwaits ⊢
  exact
    hAwaits.ends_behind_series hGains hHeaded hStands hTail

end Awaiting

end Walk

end ArchiveRescue
