import Mathlib
import ArchiveRescue.Proofs.ArchiveOnDisk
import ArchiveRescue.Proofs.Member
import ArchiveRescue.Proofs.Packing
import ArchiveRescue.Proofs.Unpacking

/-
  Packing files and unpacking the archive into a fresh
  directory gives back the files that could be read: under
  just their last names and with just their bytes, as long as
  an archive keeps these names.

  Key definitions include:
    * `Bundle.IsPortable`
    * `Bundle.Restored`
    * `Bundle.Yields`
    * `Bundle.Restores`

  Main statements:
    * `Ustar.Item.puts_file_iff`
    * `Bundle.IsPortable.exists_series`
    * `Bundle.IsPortable.restored`
    * `Bundle.unpacks_archived`
    * `Bundle.pack_unpack_restores`
-/

namespace ArchiveRescue

open Ustar

------------------------------------------------------------
-- Last Names
------------------------------------------------------------

namespace Path

variable {p : Path} {name : String}

theorem text_ofPieces_singleton (name : String) :
    (ofPieces [name]).text = name := by
  unfold ofPieces
  dsimp only
  rw [String.intercalate_singleton]

/- A last name that is not too long fits the name field. -/
theorem isPlain_fileName
    (hName : p.fileName? = some name)
    (hClear : '\x00' ∉ p.text.toList)
    (hShort : (Text.encode name).length ≤ 100) :
    IsPlain [name] := by
  have hLast :
      name ∈ p.pieces ∧ name ≠ ".." := by
    unfold fileName? at hName
    split at hName
    next => cases hName
    next hDown =>
      refine ⟨List.mem_of_getLast? hName, ?_⟩
      rintro rfl
      exact hDown hName
  have hSub : name.toList.Sublist p.text.toList := by
    have hStep := (List.mem_filter.mp hLast.1).1
    have hSub :=
      intercalate_sublist (List.singleton_sublist.mpr hStep)
    rwa [String.intercalate_singleton, ← p.text_eq] at hSub
  constructor
  · exact List.cons_ne_nil name []
  · intro piece hPiece
    rw [List.mem_singleton.mp hPiece]
    exact (List.mem_filter.mp hLast.1).2
  · intro piece hPiece
    rw [List.mem_singleton.mp hPiece]
    exact slash_notMem_pieces hLast.1
  · intro piece hPiece
    rw [List.mem_singleton.mp hPiece]
    exact hLast.2
  · rw [text_ofPieces_singleton]
    exact fun hMem => hClear (hSub.subset hMem)
  · rw [text_ofPieces_singleton]
    exact hShort

end Path

namespace Ustar.Item

section OneName

variable {name other : String} {data more : Bytes}

/- A plain name is accepted, and leads down by one step. -/
theorem place_file
    (data : Bytes)
    (hPlain : Path.IsPlain [name]) :
    (file name data).place? = some [name] := by
  have hPlace := place_of_isPlain data hPlain
  rwa [Path.text_ofPieces_singleton] at hPlace

theorem isSafe_file
    (hPlain : Path.IsPlain [name]) :
    isSafe ⟨name⟩ = true ∧ Path.pieces ⟨name⟩ = [name] := by
  have hPlace := place_file [] hPlain
  unfold place? at hPlace
  dsimp only at hPlace
  split at hPlace
  next hSafe => exact ⟨hSafe, Option.some.inj hPlace⟩
  next => cases hPlace

/- A header keeps it unless a blank begins or ends it. -/
theorem isSound_file
    (data : Bytes)
    (hPlain : Path.IsPlain [name])
    (hTrimmed : Text.trimChars name.toList = name.toList) :
    (file name data).IsSound := by
  have hClear := hPlain.clear
  have hShort := hPlain.short
  rw [Path.text_ofPieces_singleton] at hClear hShort
  refine ⟨⟨hShort, hClear, hTrimmed⟩, fun hSlash => ?_⟩
  exact
    hPlain.whole name List.mem_cons_self
      (List.mem_of_getLast? hSlash)

/- Files with two such names are apart. -/
theorem apart_files
    (hFirst : Path.IsPlain [name])
    (hSecond : Path.IsPlain [other])
    (hNames : name ≠ other) :
    (file name data).Apart (file other more) := by
  intro p hp q hq
  rw [place_file data hFirst] at hp
  rw [place_file more hSecond] at hq
  cases hp
  cases hq
  constructor
  · intro _ hWay
    exact hNames (List.cons_prefix_cons.mp hWay).1
  · intro _ hWay
    exact hNames (List.cons_prefix_cons.mp hWay).1.symm

/- Such a file with data is put right below. -/
theorem puts_file_iff
    {rel : Location}
    (node : Node)
    (hPlain : Path.IsPlain [name])
    (hSome : data ≠ [])
    (hRel : rel ≠ []) :
    (file name data).Puts rel node ↔
      rel = [name] ∧ node = .file data 0 := by
  rcases isSafe_file hPlain with ⟨hSafe, hPieces⟩
  unfold Puts
  dsimp only
  rw [hSafe, hPieces]
  constructor
  · rintro ⟨-, ⟨hWay, hOther, -⟩ | ⟨hHere, -, hNode⟩⟩
    · rcases List.prefix_cons_iff.mp hWay with
        hNone | ⟨rest, rfl, hRest⟩
      · exact (hRel hNone).elim
      · rw [List.prefix_nil.mp hRest] at hOther
        exact (hOther rfl).elim
    · exact ⟨hHere, hNode⟩
  · rintro ⟨hHere, hNode⟩
    exact ⟨rfl, .inr ⟨hHere, hSome, hNode⟩⟩

/- It is extracted and does not fail. -/
theorem extracted?_file
    (full : Path)
    (hPlain : Path.IsPlain [name])
    (hSome : data ≠ []) :
    (file name data).extracted? full =
      some (landing full name) := by
  unfold extracted?
  dsimp only
  rw [(isSafe_file hPlain).1, if_pos (by simpa using hSome)]

theorem failure?_file
    (full : Path)
    (hPlain : Path.IsPlain [name])
    (hSome : data ≠ []) :
    (file name data).failure? full = none := by
  unfold failure?
  dsimp only
  rw [(isSafe_file hPlain).1]
  simp [hSome]

end OneName

end Ustar.Item

namespace Bundle

open Decompression

------------------------------------------------------------
-- Files That Come Back
------------------------------------------------------------

/-
  Files that an archive keeps apart and as they are: none is
  empty, and their last names differ, are not too long and
  neither begin nor end with a blank.
-/
structure IsPortable
    (inputs : List (Path × Bytes)) : Prop where
  filled : ∀ input ∈ inputs, input.2 ≠ []
  named :
    ∀ input ∈ inputs, ∃ name,
      input.1.fileName? = some name ∧
        (Text.encode name).length ≤ 100 ∧
        Text.trimChars name.toList = name.toList
  distinct :
    (inputs.map (fun input => input.1.fileName?)).Nodup

/-
  Some files have been unpacked.  Unless there are none it is
  a success; each of them is extracted and nothing fails.
  What stands below the output directory are the files, under
  their last names and with their bytes.
-/
structure Restored
    (inputs : List (Path × Bytes))
    (full : Path)
    (base : Location)
    (u : Unpacked) : Prop where
  success : u.result.success = true ↔ inputs ≠ []
  expected : u.result.expected = inputs.length
  extracted :
    u.result.extracted =
      inputs.map (fun input =>
        landing full (input.1.fileName?.getD ""))
  failures : u.result.failures = []
  below :
    ∀ rel, rel ≠ [] → ∀ node,
      u.disk.node? (base ++ rel) = some node ↔
        ∃ input ∈ inputs, ∃ name,
          input.1.fileName? = some name ∧
            rel = [name] ∧ node = .file input.2 0

section Portable

variable {disk : Disk} {inputs : List (Path × Bytes)}
variable (hPortable : IsPortable inputs)
variable
  (hShows :
    ∀ input ∈ inputs, disk.fileAt? input.1 = some input.2)
include hPortable hShows

/- Each file is an item with a plain name. -/
theorem IsPortable.item_eq
    {input : Path × Bytes}
    (hInput : input ∈ inputs) :
    ∃ name,
      input.1.fileName? = some name ∧
        item input = .file name input.2 ∧
        Path.IsPlain [name] ∧
        Text.trimChars name.toList = name.toList := by
  rcases hPortable.named input hInput with
    ⟨name, hName, hShort, hTrimmed⟩
  rcases Disk.fileAt?_cases (hShows input hInput) with
    ⟨place, -, hLeads, -⟩
  have hClear := (Disk.text_of_locate hLeads).1
  refine
    ⟨name, hName, ?_, Path.isPlain_fileName hName hClear hShort,
      hTrimmed⟩
  unfold item
  rw [hName]
  rfl

/- So they can be entered. -/
theorem IsPortable.sound :
    ∀ made ∈ inputs.map item, made.IsSound := by
  intro made hMade
  rcases List.mem_map.mp hMade with ⟨input, hInput, rfl⟩
  rcases hPortable.item_eq hShows hInput with
    ⟨name, -, hFile, hPlain, hTrimmed⟩
  rw [hFile]
  exact Item.isSound_file input.2 hPlain hTrimmed

theorem IsPortable.apart :
    (inputs.map item).Pairwise Item.Apart := by
  have hDistinct := List.pairwise_map.mp hPortable.distinct
  refine List.pairwise_map.mpr (hDistinct.imp_of_mem ?_)
  intro first second hFirst hSecond hNames
  rcases hPortable.item_eq hShows hFirst with
    ⟨name, hName, hFile, hPlain, -⟩
  rcases hPortable.item_eq hShows hSecond with
    ⟨other, hOther, hNext, hAlso, -⟩
  rw [hFile, hNext]
  refine Item.apart_files hPlain hAlso ?_
  rintro rfl
  exact hNames (hName.trans hOther.symm)

/- Their archive is a series of such items. -/
theorem IsPortable.exists_series
    {entries : List Entry}
    (hEntered : List.Forall₂ Entered inputs entries) :
    ∃ headed,
      headed.map Prod.fst = inputs.map item ∧
        Item.IsSeries headed ∧
        Ustar.archive entries = Item.archived headed := by
  have hSound := hPortable.sound hShows
  have hApart := hPortable.apart hShows
  rcases exists_headed hEntered
      (fun input hInput =>
        hSound _ (List.mem_map_of_mem hInput)) with
    ⟨headed, hItems, hHeaded, hBytes⟩
  rw [← hItems] at hSound hApart
  refine ⟨headed, hItems, ⟨hHeaded, hSound, hApart⟩, ?_⟩
  unfold Item.archived
  rw [hBytes]
  rfl

/- Each of them is extracted. -/
theorem IsPortable.extracted_eq (full : Path) :
    (inputs.map item).filterMap (Item.extracted? full) =
      inputs.map (fun input =>
        landing full (input.1.fileName?.getD "")) := by
  rw [List.filterMap_map, ← List.filterMap_eq_map]
  refine List.filterMap_congr (fun input hInput => ?_)
  rcases hPortable.item_eq hShows hInput with
    ⟨name, hName, hFile, hPlain, -⟩
  change
    (item input).extracted? full =
      some (landing full (input.1.fileName?.getD ""))
  rw [hFile, hName]
  exact
    Item.extracted?_file full hPlain
      (hPortable.filled input hInput)

/- None of them fails. -/
theorem IsPortable.failures_eq (full : Path) :
    (inputs.map item).filterMap (Item.failure? full) = [] := by
  refine List.filterMap_eq_nil_iff.mpr (fun made hMade => ?_)
  rcases List.mem_map.mp hMade with ⟨input, hInput, rfl⟩
  rcases hPortable.item_eq hShows hInput with
    ⟨name, -, hFile, hPlain, -⟩
  rw [hFile]
  exact
    Item.failure?_file full hPlain
      (hPortable.filled input hInput)

/- What is put are the files under their last names. -/
theorem IsPortable.puts_iff
    {rel : Location}
    (hRel : rel ≠ [])
    (node : Node) :
    (∃ made ∈ inputs.map item, made.Puts rel node) ↔
      ∃ input ∈ inputs, ∃ name,
        input.1.fileName? = some name ∧
          rel = [name] ∧ node = .file input.2 0 := by
  constructor
  · rintro ⟨made, hMade, hPuts⟩
    rcases List.mem_map.mp hMade with ⟨input, hInput, rfl⟩
    rcases hPortable.item_eq hShows hInput with
      ⟨name, hName, hFile, hPlain, -⟩
    rw [hFile,
      Item.puts_file_iff node hPlain
        (hPortable.filled input hInput) hRel] at hPuts
    exact ⟨input, hInput, name, hName, hPuts⟩
  · rintro ⟨input, hInput, name, hName, hPuts⟩
    rcases hPortable.item_eq hShows hInput with
      ⟨same, hSame, hFile, hPlain, -⟩
    cases hName.symm.trans hSame
    refine ⟨item input, List.mem_map_of_mem hInput, ?_⟩
    rw [hFile]
    exact
      (Item.puts_file_iff node hPlain
        (hPortable.filled input hInput) hRel).mpr hPuts

/-
  When their items are restored and the result is passed on,
  the files have come back.
-/
theorem IsPortable.restored
    {gunzip : Report}
    {x : Extracted}
    {u : Unpacked}
    {full : Path}
    {created : Bool}
    {ready : Disk}
    {base : Location}
    (hRestores :
      Extraction.Restores x (inputs.map item) full created
        ready base)
    (hUnpacks : Unpacks gunzip x u) :
    Restored inputs full base u := by
  have hExtracted :=
    hRestores.extracted.trans
      (hPortable.extracted_eq hShows full)
  constructor
  · have hSuccess :
        u.result.success = true ↔ x.result.success = true := by
      unfold Extraction.success
      rw [Report.success_iff, Report.success_iff,
        hUnpacks.verdict]
    rw [hSuccess, hRestores.success, hExtracted]
    simp
  · rw [hUnpacks.expected, hRestores.expected, List.countP_map]
    exact List.countP_eq_length.mpr (fun _ _ => rfl)
  · exact hUnpacks.extracted.trans hExtracted
  · rw [hUnpacks.failures, hRestores.failures]
    exact hPortable.failures_eq hShows full
  · intro rel hRel node
    rw [hUnpacks.disk, hRestores.below rel hRel node]
    exact hPortable.puts_iff hShows hRel node

end Portable

------------------------------------------------------------
-- Archives That Are Unpacked
------------------------------------------------------------

/- With any fuel that is enough, unpacking comes to `u`. -/
def Yields
    (run : Nat → Option Unpacked)
    (u : Unpacked) : Prop :=
  ∃ least, ∀ fuel, least ≤ fuel → run fuel = some u

theorem yields_map
    {run : Nat → Option Extracted}
    {x : Extracted}
    (hYields : Extraction.Yields run x)
    (f : Extracted → Unpacked) :
    Yields (fun fuel => (run fuel).map f) (f x) := by
  rcases hYields with ⟨least, hLeast⟩
  refine ⟨least, fun fuel hFuel => ?_⟩
  dsimp only
  rw [hLeast fuel hFuel]
  rfl

/-
  Unpacking passes on the result of an extraction that has
  restored the items.
-/
def Restores
    (run : Nat → Option Unpacked)
    (items : List Item)
    (full : Path)
    (created : Bool)
    (ready : Disk)
    (base : Location) : Prop :=
  ∃ gunzip x u,
    Yields run u ∧ Unpacks gunzip x u ∧
      Extraction.Restores x items full created ready base

section Archives

variable {codec : Codec} {encode : Bytes → Bytes}
variable {archive directory full : Path} {disk ready : Disk}
variable {base : Location} {created : Bool}
variable {headed : List (Item × Block)} {data : Bytes}

/- What was encoded into a file is in memory in the end. -/
theorem inMemory_encoded
    (options : DecompressionOptions)
    (hInverts : codec.Inverts encode)
    (hSome : data ≠ [])
    (hShows : disk.fileAt? archive = some (encode data))
    (hOpens : (Source.file archive).Opens disk)
    (hPermits : disk.trouble.Permits)
    (hShort : (encode data).length < 2 ^ 63)
    (hWhole : data.length < 2 ^ 63) :
    (inMemory codec options archive disk).report.success =
        true ∧
      (inMemory codec options archive disk).tape.bytes =
        data := by
  have hOffers :
      (Source.file archive).Offers disk (encode data) := by
    unfold Disk.fileAt? at hShows
    split at hShows
    next hLook =>
      cases hShows
      exact .file hLook hShort
    next => cases hShows
  have hTakes :
      Target.Takes (.file archive) disk data.length
        (.tape { bytes := [] }) := by
    refine
      .tape (Tape.serves_of_isCalm Script.plain_isCalm) ?_
    change 0 + data.length < 0x10000000000000000
    omega
  rcases hInverts.produced_eq hSome options.algorithm with
    ⟨hProduced, hMost⟩
  rcases delivers_produced (hInverts.long data)
      (hInverts.signed data) hProduced hMost hSome hPermits
      hOpens hOffers hTakes with
    ⟨hEnding, hTape⟩
  refine ⟨?_, ?_⟩
  · exact
      Report.success_iff.mpr (congrArg Ending.verdict hEnding)
  · refine (hTape { bytes := [] } rfl).2.trans ?_
    rw [Bytes.overlay_zero, List.drop_nil, List.append_nil]

/- An archive that is not compressed is unpacked in place. -/
theorem unpacks_file
    (decompression : DecompressionOptions)
    {extraction : ExtractionOptions}
    (hName : isGzipName archive = false)
    (hSanitize : extraction.sanitize = true)
    (hSeries : Item.IsSeries headed)
    (hShows :
      disk.fileAt? archive = some (Item.archived headed))
    (hOpens : (Source.file archive).Opens disk)
    (hWhole : (Item.archived headed).length < 2 ^ 63)
    (hFresh :
      Extraction.IsFresh disk directory full created ready
        base) :
    Restores
      (fun fuel =>
        unpack? fuel codec decompression extraction archive
          directory disk)
      (headed.map Prod.fst) full created ready base := by
  rcases Extraction.restores_file extraction hSanitize hSeries
      hShows hOpens hWhole hFresh with
    ⟨x, hYields, hRestores⟩
  refine
    ⟨{ operation := "" }, x, ⟨x.result, x.disk⟩, ?_,
      ⟨rfl, rfl, rfl, rfl, rfl, rfl, rfl⟩, hRestores⟩
  unfold unpack?
  rw [hName]
  exact yields_map hYields (fun x => ⟨x.result, x.disk⟩)

/- A compressed one is unpacked from memory. -/
theorem unpacks_member
    (decompression : DecompressionOptions)
    {extraction : ExtractionOptions}
    (hName : isGzipName archive = true)
    (hInverts : codec.Inverts encode)
    (hSanitize : extraction.sanitize = true)
    (hSeries : Item.IsSeries headed)
    (hShows :
      disk.fileAt? archive =
        some (encode (Item.archived headed)))
    (hOpens : (Source.file archive).Opens disk)
    (hShort : (encode (Item.archived headed)).length < 2 ^ 63)
    (hWhole : (Item.archived headed).length < 2 ^ 63)
    (hFresh :
      Extraction.IsFresh disk directory full created ready
        base) :
    Restores
      (fun fuel =>
        unpack? fuel codec decompression extraction archive
          directory disk)
      (headed.map Prod.fst) full created ready base := by
  have hSome : Item.archived headed ≠ [] := by
    intro hNone
    exact
      absurd (List.append_eq_nil_iff.mp hNone).2 (by decide)
  rcases inMemory_encoded decompression hInverts hSome hShows
      hOpens hFresh.permits hShort hWhole with
    ⟨hSuccess, hBytes⟩
  rcases hFresh.ticks
      (ticks_inMemory codec decompression archive disk) with
    ⟨ready', hLater, hAlike⟩
  have hTape :
      Tape.Holds { bytes := Item.archived headed }
        (Item.archived headed) :=
    ⟨.ofMemory Script.plain_isCalm rfl rfl, rfl, rfl, hWhole⟩
  rcases Extraction.restores_series extraction hSanitize hSeries
      hTape hLater with
    ⟨x, hYields, hRestores⟩
  have hUnpack : ∀ fuel,
      unpack? fuel codec decompression extraction archive
          directory disk = _ :=
    fun fuel =>
      unpack?_inMemory hName hSuccess fuel extraction directory
  rw [hBytes] at hUnpack
  simp only [hUnpack]
  exact
    ⟨_, x, _, yields_map hYields _,
      unpacks_withDecompression archive _ x,
      hRestores.of_alike hAlike⟩

/- The name of the archive says which of them it is. -/
theorem unpacks_archived
    (decompression : DecompressionOptions)
    {extraction : ExtractionOptions}
    (hInverts : codec.Inverts encode)
    (hSanitize : extraction.sanitize = true)
    (hSeries : Item.IsSeries headed)
    (hShows :
      disk.fileAt? archive =
        some (if isGzipName archive then
            encode (Item.archived headed)
          else Item.archived headed))
    (hOpens : (Source.file archive).Opens disk)
    (hShort :
      (if isGzipName archive then
          encode (Item.archived headed)
        else Item.archived headed).length < 2 ^ 63)
    (hWhole : (Item.archived headed).length < 2 ^ 63)
    (hFresh :
      Extraction.IsFresh disk directory full created ready
        base) :
    Restores
      (fun fuel =>
        unpack? fuel codec decompression extraction archive
          directory disk)
      (headed.map Prod.fst) full created ready base := by
  cases hName : isGzipName archive with
  | true =>
      rw [hName, if_pos rfl] at hShows hShort
      exact
        unpacks_member decompression hName hInverts hSanitize
          hSeries hShows hOpens hShort hWhole hFresh
  | false =>
      rw [hName, if_neg Bool.false_ne_true] at hShows
      exact
        unpacks_file decompression hName hSanitize hSeries
          hShows hOpens hWhole hFresh

end Archives

/-
  Packing counts the files that can be read.  Unpacking the
  archive into a fresh directory gives back just these files,
  under their last names and with the bytes that they had: for
  all files whose names an archive keeps, whether the archive
  is compressed or not, with every encoder that decoding
  inverts, and with every algorithm and option but the one
  that trusts names.
-/
theorem pack_unpack_restores
    {codec : Codec}
    {encode : Bytes → Bytes}
    (decompression : DecompressionOptions)
    (extraction : ExtractionOptions)
    (files : List Path)
    {archive directory full : Path}
    {disk ready : Disk}
    {place base : Location}
    {created : Bool}
    (hInverts : codec.Inverts encode)
    (hSanitize : extraction.sanitize = true)
    (hAccepts : Accepts disk archive place)
    (hOpens : disk.trouble.OpensAt place)
    (hPortable : IsPortable (readable disk files))
    (hWhole :
      Item.extent ((readable disk files).map item) +
        2 * blockSize < 2 ^ 63)
    (hShort :
      ∀ bytes,
        (packWith encode archive files disk).disk.fileAt?
            archive = some bytes →
          bytes.length < 2 ^ 63)
    (hFresh :
      Extraction.IsFresh
        (packWith encode archive files disk).disk directory full
        created ready base) :
    (packWith encode archive files disk).outcome =
        .ok (readable disk files).length ∧
      (∀ input ∈ readable disk files,
        disk.fileAt? input.1 = some input.2) ∧
      ∃ u,
        Yields
            (fun fuel =>
              unpack? fuel codec decompression extraction
                archive directory
                (packWith encode archive files disk).disk) u ∧
          Restored (readable disk files) full base u := by
  rcases packs encode files hAccepts with ⟨entries, hPacks⟩
  have hRead := shows_readable files disk
  rcases hPortable.exists_series hRead hPacks.entered with
    ⟨headed, hItems, hSeries, hPlain⟩
  have hShows :=
    Disk.fileAt?_eq hPacks.leads hPacks.file
      hAccepts.names.plain
  have hFits := hShort _ hShows
  have hLength : (Item.archived headed).length < 2 ^ 63 := by
    rw [Item.length_archived, hItems]
    exact hWhole
  have hSource :
      (Source.file archive).Opens
        (packWith encode archive files disk).disk := by
    rintro path there ⟨⟩ hThere
    cases hThere.symm.trans hPacks.leads
    rw [hPacks.settings.trouble]
    exact hOpens
  unfold bytesOf at hShows hFits
  rw [hPlain] at hShows hFits
  rcases unpacks_archived decompression hInverts hSanitize
      hSeries hShows hSource hFits hLength hFresh with
    ⟨gunzip, x, u, hYields, hUnpacks, hRestores⟩
  rw [hItems] at hRestores
  exact
    ⟨hPacks.outcome, hRead, u, hYields,
      hPortable.restored hRead hRestores hUnpacks⟩

/- Two files in a directory. -/
def shelf : Disk where
  entries :=
    [(["d"], .directory), (["d", "a"], .file [0x41] 0),
      (["d", "b c"], .file [0x42, 0x43] 0)]

/- Their paths, that of no file and that of the directory. -/
def shelved : List Path :=
  [⟨"d/a"⟩, ⟨"d/x"⟩, ⟨"/d/b c"⟩, ⟨"d"⟩]

set_option maxRecDepth 100000 in
/- Both come back from a compressed archive. -/
theorem shelf_restored :
    (packWith Gzip.gzip ⟨"o/b.tgz"⟩ shelved shelf).outcome =
        .ok 2 ∧
      ∃ u,
        Yields
            (fun fuel =>
              unpack? fuel (.standard .blocking) {} {}
                ⟨"o/b.tgz"⟩ ⟨"out"⟩
                (packWith Gzip.gzip ⟨"o/b.tgz"⟩ shelved
                  shelf).disk) u ∧
          Restored
            [(⟨"d/a"⟩, [0x41]), (⟨"/d/b c"⟩, [0x42, 0x43])]
            ⟨"/out"⟩ ["out"] u := by
  have hReadable :
      readable shelf shelved =
        [(⟨"d/a"⟩, [0x41]), (⟨"/d/b c"⟩, [0x42, 0x43])] := by
    decide +kernel
  have hAccepts :
      Accepts shelf ⟨"o/b.tgz"⟩ ["o", "b.tgz"] := by
    constructor
    · exact
        ⟨by decide +kernel, by decide, by decide, by decide⟩
    · exact fun _ _ => rfl
    · exact
        ⟨⟨"b.tgz", by decide +kernel, by decide⟩, by decide,
          by decide⟩
    · exact
        ⟨⟨"/o/b.tgz"⟩,
          ((resolveOutput ⟨"o/b.tgz"⟩).perform shelf).2,
          Prod.ext (by decide +kernel) rfl, by decide +kernel,
          by decide +kernel, by decide +kernel⟩
  have hPortable : IsPortable (readable shelf shelved) := by
    rw [hReadable]
    refine ⟨by decide, ?_, by decide +kernel⟩
    simp only [List.forall_mem_cons, List.not_mem_nil,
      false_implies, implies_true, and_true]
    exact
      ⟨⟨"a", by decide +kernel, by decide, by decide⟩,
        ⟨"b c", by decide +kernel, by decide, by decide⟩⟩
  have hWhole :
      Item.extent ((readable shelf shelved).map item) +
        2 * blockSize < 2 ^ 63 := by
    decide +kernel
  have hShort :
      ∀ bytes ∈
        (packWith Gzip.gzip ⟨"o/b.tgz"⟩ shelved
          shelf).disk.fileAt? ⟨"o/b.tgz"⟩,
        bytes.length < 2 ^ 63 := by
    decide +kernel
  have hPlaces :
      (Extraction.prepare
          (packWith Gzip.gzip ⟨"o/b.tgz"⟩ shelved shelf).disk
          ⟨"out"⟩).2.entries.map Prod.fst =
        [["out"], ["o", "b.tgz"], ["o"], ["d"], ["d", "a"],
          ["d", "b c"]] := by
    decide +kernel
  have hFresh :
      Extraction.IsFresh
        (packWith Gzip.gzip ⟨"o/b.tgz"⟩ shelved shelf).disk
        ⟨"out"⟩ ⟨"/out"⟩ true
        (Extraction.prepare
          (packWith Gzip.gzip ⟨"o/b.tgz"⟩ shelved shelf).disk
          ⟨"out"⟩).2 ["out"] := by
    refine
      ⟨Prod.ext (by decide +kernel) rfl, by decide +kernel, ?_,
        by decide +kernel, fun _ _ => rfl⟩
    intro rel hRel
    refine Disk.node?_eq_none (by simp) ?_
    rw [hPlaces]
    simp [hRel]
  have hAll :=
    pack_unpack_restores {} {} shelved
      (Codec.inverts_standard .blocking) rfl hAccepts
      (fun _ => ⟨.plain, rfl, Script.plain_isCalm⟩) hPortable
      hWhole hShort hFresh
  rw [hReadable] at hAll
  exact ⟨hAll.1, hAll.2.2⟩

/- One whose name begins with a blank, and another one. -/
def indented : Disk where
  entries :=
    [(["d"], .directory), (["d", " a"], .file [0x41] 0),
      (["d", "b"], .file [0x42] 0)]

set_option maxRecDepth 100000 in
/-
  Unpacking finds the first one, but without its blank.  And
  an archive is not found again by a name that does not end
  in one.
-/
theorem indented_renamed :
    readable indented [⟨"d/ a"⟩] = [(⟨"d/ a"⟩, [0x41])] ∧
      Path.fileName? ⟨"d/ a"⟩ = some " a" ∧
      (pack ⟨"b.tar"⟩ [⟨"d/ a"⟩] indented).outcome = .ok 1 ∧
      (unpack? 9 (.standard .blocking) {} {} ⟨"b.tar"⟩ ⟨"out"⟩
          (pack ⟨"b.tar"⟩ [⟨"d/ a"⟩] indented).disk).map
          (fun u =>
            (u.result.extracted, u.disk.node? ["out", " a"],
              u.disk.node? ["out", "a"])) =
        some ([⟨"/out/a"⟩], none, some (.file [0x41] 0)) ∧
      (pack ⟨"b.tar/."⟩ [⟨"d/b"⟩] indented).outcome = .ok 1 ∧
      (unpack? 9 (.standard .blocking) {} {} ⟨"b.tar/."⟩
          ⟨"out"⟩
          (pack ⟨"b.tar/."⟩ [⟨"d/b"⟩] indented).disk).map
          (fun u => u.result.success) =
        some false := by
  decide +kernel

end Bundle

end ArchiveRescue
