import Mathlib
import ArchiveRescue.Proofs.Header
import ArchiveRescue.Proofs.Tree
import ArchiveRescue.Ustar.Archive

/-
  What archives are made of, and what each part of one comes
  to when it is extracted: a file or a directory below the
  output directory, a failure that is recorded, or nothing.

  Key definitions include:
    * `Ustar.Item`
    * `Ustar.Item.IsSound`
    * `Ustar.Item.IsProper`
    * `Ustar.Item.IsTaken`
    * `Ustar.Item.Apart`
    * `Ustar.Item.extracted?`
    * `Ustar.Item.failure?`
    * `Ustar.Item.Puts`

  Main statements:
    * `Ustar.Item.place_of_isPlain`
    * `Ustar.target_of_accepted`
    * `Ustar.header_file`
-/

namespace ArchiveRescue

namespace Ustar

------------------------------------------------------------
-- Items
------------------------------------------------------------

/-
  What is put into an archive: a file, a directory, or an
  entry of another type with its own header.
-/
inductive Item where
  | file (name : String) (data : Bytes)
  | directory (name : String)
  | other (header : Header) (data : Bytes)
  deriving DecidableEq, Repr

/- A name that a header keeps as it is. -/
structure IsLegible (name : String) : Prop where
  short : (Text.encode name).length ≤ 100
  clear : '\x00' ∉ name.toList
  trimmed : Text.trimChars name.toList = name.toList

instance (name : String) : Decidable (IsLegible name) :=
  decidable_of_iff
    ((Text.encode name).length ≤ 100 ∧
      '\x00' ∉ name.toList ∧
      Text.trimChars name.toList = name.toList)
    ⟨fun hAll => ⟨hAll.1, hAll.2.1, hAll.2.2⟩,
      fun hName => ⟨hName.short, hName.clear, hName.trimmed⟩⟩

/- Where an accepted name leads from an output directory. -/
def landing
    (full : Path)
    (name : String) : Path :=
  full.join (.ofPieces (Path.pieces ⟨name⟩))

namespace Item

/- The entry that is written. -/
def entry : Item → Entry
| file name data => .file name data
| directory name => .directory name
| other header data => ⟨header, data⟩

/-
  Names fit the name field.  A slash at the end of its name
  would make a directory of a file, and other entries say
  that they are neither.
-/
def IsSound : Item → Prop
| file name _ =>
    IsLegible name ∧ name.toList.getLast? ≠ some '/'
| directory name => IsLegible name
| other header data =>
    header.typeflag ∉ [0x30, 0, 0x35, 0x37] ∧
      magic <+: Text.encode header.magic ∧
      header.size.toNat = data.length

instance : (item : Item) → Decidable item.IsSound
| file .. => inferInstanceAs (Decidable (_ ∧ _))
| directory name => inferInstanceAs (Decidable (IsLegible name))
| other .. => inferInstanceAs (Decidable (_ ∧ _ ∧ _))

/-
  A file with data or a directory, under a name that is
  accepted.
-/
def IsProper : Item → Prop
| file name data => isSafe ⟨name⟩ = true ∧ data ≠ []
| directory name => isSafe ⟨name⟩ = true
| other .. => False

instance : (item : Item) → Decidable item.IsProper
| file .. => inferInstanceAs (Decidable (_ ∧ _))
| directory .. => inferInstanceAs (Decidable (_ = true))
| other .. => inferInstanceAs (Decidable False)

/-
  Unsafe names are refused and the others reduced to their
  pieces, unless names are taken as they are.  Then the name
  of a file or a directory is safe and nothing but its pieces.
-/
def IsTaken (sanitize : Bool) : Item → Prop
| file name _
| directory name =>
    sanitize = true ∨
      isSafe ⟨name⟩ = true ∧
        Path.ofPieces (Path.pieces ⟨name⟩) = ⟨name⟩
| other .. => True

/- Every item is taken when unsafe names are refused. -/
theorem isTaken_of_sanitize
    (item : Item)
    {sanitize : Bool}
    (hSanitize : sanitize = true) :
    item.IsTaken sanitize := by
  cases item with
  | file name data => exact .inl hSanitize
  | directory name => exact .inl hSanitize
  | other header data => trivial

/- Whether an item announces a regular file. -/
def isFile : Item → Bool
| file .. => true
| _ => false

/- The place of an accepted file or directory. -/
def place? : Item → Option Location
| file name _
| directory name =>
    if isSafe ⟨name⟩ then some (Path.pieces ⟨name⟩) else none
| other .. => none

/- A name that is made of plain names leads down by them. -/
theorem place_of_isPlain
    {names : List String}
    (data : Bytes)
    (hPlain : Path.IsPlain names) :
    (file (Path.ofPieces names).text data).place? =
      some names := by
  have hPieces : (Path.ofPieces names).pieces = names :=
    Path.pieces_ofPieces hPlain.nonempty hPlain.pieces
      hPlain.whole
  have hSafe : isSafe (Path.ofPieces names) = true := by
    unfold isSafe
    rw [hPieces, hPlain.isAbsolute_eq]
    have hSome := hPlain.nonempty
    have hDown : ".." ∉ names := fun hUp =>
      hPlain.down ".." hUp rfl
    simp [hSome, hDown]
  unfold place?
  dsimp only
  rw [if_pos hSafe, hPieces]

/- No place is the output directory itself. -/
theorem place_ne_nil
    {item : Item}
    {place : Location}
    (hPlace : item.place? = some place) :
    place ≠ [] := by
  have hPieces : ∀ {name : String} {there : Location},
      (if isSafe ⟨name⟩ then some (Path.pieces ⟨name⟩)
        else none) = some there → there ≠ [] := by
    intro name there hThere
    split at hThere
    next hSafe =>
      cases hThere
      unfold isSafe at hSafe
      simp only [Bool.and_eq_true, Bool.not_eq_true',
        List.isEmpty_eq_false_iff] at hSafe
      exact hSafe.1.2
    next => cases hThere
  cases item with
  | file name data => exact hPieces hPlace
  | directory name => exact hPieces hPlace
  | other header data => cases hPlace

/-
  No file has the place of another item, or one that the way
  to another item leads through.
-/
def Apart (a b : Item) : Prop :=
  ∀ p ∈ a.place?, ∀ q ∈ b.place?,
    (a.isFile = true → ¬ p <+: q) ∧
      (b.isFile = true → ¬ q <+: p)

instance (a b : Item) : Decidable (a.Apart b) :=
  inferInstanceAs (Decidable (∀ p ∈ a.place?, _))

/- The file that is extracted. -/
def extracted? (full : Path) : Item → Option Path
| file name data =>
    if isSafe ⟨name⟩ && !data.isEmpty then
      some (landing full name)
    else none
| _ => none

/- The failure that is recorded. -/
def failure? (full : Path) : Item → Option Failure
| file name data =>
    if !isSafe ⟨name⟩ then
      some (.entryFailed name (.unsafeName name))
    else if data.isEmpty then
      some (.entryFailed name
        (.outputEmpty (landing full name).text))
    else none
| directory name =>
    if !isSafe ⟨name⟩ then
      some (.entryFailed name (.unsafeName name))
    else none
| other .. => none

/- A file with data or a directory does not fail. -/
theorem IsProper.failure?_eq
    {item : Item}
    (hProper : item.IsProper)
    (full : Path) :
    item.failure? full = none := by
  cases item with
  | file name data =>
      unfold failure?
      dsimp only
      rw [if_neg (by simp [hProper.1]),
        if_neg (by simp [hProper.2])]
  | directory name =>
      have hSafe : isSafe ⟨name⟩ = true := hProper
      exact if_neg (by simp [hSafe])
  | other header data => rfl

/-
  What is left on the disk, seen from the output directory: a
  file that has data, and the directories on the way.
-/
def Puts : Item → Location → Node → Prop
| file name data, rel, node =>
    isSafe ⟨name⟩ = true ∧
      ((rel <+: Path.pieces ⟨name⟩ ∧
          rel ≠ Path.pieces ⟨name⟩ ∧ node = .directory) ∨
        (rel = Path.pieces ⟨name⟩ ∧ data ≠ [] ∧
          node = .file data 0))
| directory name, rel, node =>
    isSafe ⟨name⟩ = true ∧ rel <+: Path.pieces ⟨name⟩ ∧
      node = .directory
| other .., _, _ => False

/- Whatever is put stands on the way to a place. -/
theorem Puts.on_way
    {item : Item}
    {rel : Location}
    {node : Node}
    (hPuts : item.Puts rel node) :
    ∃ place, item.place? = some place ∧ rel <+: place ∧
      (node = .directory ∨
        (item.isFile = true ∧ rel = place)) := by
  cases item with
  | file name data =>
      rcases hPuts with
        ⟨hSafe, ⟨hWay, -, hNode⟩ | ⟨rfl, -, -⟩⟩
      · exact ⟨_, if_pos hSafe, hWay, .inl hNode⟩
      · exact
          ⟨_, if_pos hSafe, List.prefix_refl _,
            .inr ⟨rfl, rfl⟩⟩
  | directory name =>
      rcases hPuts with ⟨hSafe, hWay, hNode⟩
      exact ⟨_, if_pos hSafe, hWay, .inl hNode⟩
  | other header data => exact hPuts.elim

/-
  What is extracted leaves something right below the output
  directory.
-/
theorem puts_of_extracted
    {item : Item}
    {full path : Path}
    (hExtracted : item.extracted? full = some path) :
    ∃ name node, item.Puts [name] node := by
  cases item with
  | directory name => cases hExtracted
  | other header data => cases hExtracted
  | file name data =>
      by_cases hKept :
          (isSafe ⟨name⟩ && !data.isEmpty) = true
      · rw [Bool.and_eq_true, Bool.not_eq_true',
          List.isEmpty_eq_false_iff] at hKept
        have hPlace :
            (file name data).place? =
              some (Path.pieces ⟨name⟩) :=
          if_pos hKept.1
        cases hPieces : Path.pieces ⟨name⟩ with
        | nil => exact (place_ne_nil hPlace hPieces).elim
        | cons first more =>
            by_cases hMore : more = []
            · subst hMore
              refine ⟨first, .file data 0, hKept.1, .inr ?_⟩
              exact ⟨hPieces.symm, hKept.2, rfl⟩
            · refine ⟨first, .directory, hKept.1, .inl ?_⟩
              rw [hPieces]
              refine ⟨⟨more, rfl⟩, ?_, rfl⟩
              intro hSame
              exact hMore (List.cons.inj hSame).2.symm
      · unfold extracted? at hExtracted
        dsimp only at hExtracted
        rw [if_neg hKept] at hExtracted
        cases hExtracted

/- What some items put between them. -/
def PutBy
    (items : List Item)
    (rel : Location)
    (node : Node) : Prop :=
  ∃ item ∈ items, item.Puts rel node

theorem putBy_singleton
    (item : Item)
    {rel : Location}
    {node : Node} :
    PutBy [item] rel node ↔ item.Puts rel node := by
  unfold PutBy
  simp only [List.mem_singleton, exists_eq_left]

theorem putBy_append
    (done more : List Item)
    {rel : Location}
    {node : Node} :
    PutBy (done ++ more) rel node ↔
      PutBy done rel node ∨ PutBy more rel node := by
  unfold PutBy
  simp only [List.mem_append, or_and_right, exists_or]

/- There is room for an item below a directory of a disk. -/
def Fits
    (item : Item)
    (d : Disk)
    (base : Location) : Prop :=
  ∀ place, item.place? = some place →
    d.IsFree base place ∧
      (item.isFile = true → d.node? (base ++ place) = none)

end Item

/- The target of a name, if it is accepted. -/
theorem target_of_accepted
    {name : String}
    {sanitize : Bool}
    (full : Path)
    (hTaken : (Item.directory name).IsTaken sanitize)
    (hSafe : isSafe ⟨name⟩ = true) :
    target full name sanitize = .ok (landing full name) := by
  unfold target
  rcases hTaken with rfl | ⟨-, hPieces⟩
  · rw [if_pos rfl, if_pos hSafe]
    rfl
  · unfold landing
    dsimp only
    rw [hPieces, if_pos hSafe, ite_self]

theorem target_of_rejected
    {name : String}
    {sanitize : Bool}
    (full : Path)
    (hTaken : (Item.directory name).IsTaken sanitize)
    (hSafe : isSafe ⟨name⟩ = false) :
    target full name sanitize =
      .error (.unsafeName name) := by
  rcases hTaken with rfl | ⟨hAccepted, -⟩
  · unfold target
    rw [if_pos rfl, if_neg (by simp [hSafe])]
  · rw [hSafe] at hAccepted
    cases hAccepted

------------------------------------------------------------
-- Headers That Were Written
------------------------------------------------------------

/- A legible name and a kind that depends on it are read. -/
theorem header_toBlock
    (header : Header)
    (hFolder : header.folder = "")
    (hLegible : IsLegible header.name) :
    header.toBlock.header.path = header.name ∧
      header.toBlock.header.kind = header.kind :=
  ⟨header.path_toBlock hFolder hLegible.short
      hLegible.clear hLegible.trimmed,
    header.kind_toBlock hFolder hLegible.short
      hLegible.clear hLegible.trimmed⟩

/- The header of a file is read back. -/
theorem header_file
    {name : String}
    (data : Bytes)
    (hLegible : IsLegible name)
    (hSlash : name.toList.getLast? ≠ some '/') :
    (Entry.file name data).header.toBlock.header.path = name ∧
      (Entry.file name data).header.toBlock.header.kind =
        .file := by
  have hKind : (Entry.file name data).header.kind = .file := by
    unfold Header.kind
    rw [if_pos (.inl rfl)]
    exact if_neg hSlash
  have hBoth :=
    header_toBlock (Entry.file name data).header rfl hLegible
  rw [hKind] at hBoth
  exact hBoth

/- Another type is read back, whatever the name. -/
theorem kind_other
    {header : Header}
    (hFlag : header.typeflag ∉ [0x30, 0, 0x35, 0x37]) :
    header.toBlock.header.kind = .other header.typeflag := by
  simp only [List.mem_cons, List.not_mem_nil, or_false,
    not_or] at hFlag
  unfold Header.kind
  rw [header.typeflag_toBlock]
  simp [hFlag]

namespace Item

/- The header of a sound item is recognised. -/
theorem IsSound.marked
    {item : Item}
    (hSound : item.IsSound) :
    magic <+: Text.encode item.entry.header.magic := by
  have hUstar : magic <+: Text.encode "ustar" := by
    decide +kernel
  cases item with
  | file name data => exact hUstar
  | directory name => exact hUstar
  | other header data => exact hSound.2.1

/- It declares how much data there is. -/
theorem IsSound.size_eq
    {item : Item}
    (hSound : item.IsSound)
    (hLength : item.entry.data.length < 2 ^ 63) :
    item.entry.header.size.toNat = item.entry.data.length := by
  cases item with
  | file name data =>
      change (UInt64.ofNat data.length).toNat = data.length
      rw [UInt64.toNat_ofNat']
      exact Nat.mod_eq_of_lt (hLength.trans (by decide))
  | directory name => rfl
  | other header data => exact hSound.2.2

/-
  A block that says the same about its entry as the header of
  an item does.
-/
structure IsAnnounced
    (item : Item)
    (block : Block) : Prop where
  path :
    block.header.path = item.entry.header.toBlock.header.path
  kind :
    block.header.kind = item.entry.header.toBlock.header.kind
  size :
    block.header.size = item.entry.header.toBlock.header.size

/- An item is announced by the header that is written. -/
theorem isAnnounced_toBlock (item : Item) :
    item.IsAnnounced item.entry.header.toBlock :=
  ⟨rfl, rfl, rfl⟩

/- A sound item is announced with as much data as it has. -/
theorem IsAnnounced.size_eq
    {item : Item}
    {block : Block}
    (hAnnounced : item.IsAnnounced block)
    (hSound : item.IsSound)
    (hLength : item.entry.data.length < 2 ^ 63) :
    block.header.size.toNat = item.entry.data.length := by
  rw [hAnnounced.size, Header.size_toBlock]
  exact hSound.size_eq hLength

end Item

end Ustar

end ArchiveRescue
