import Mathlib
import ArchiveRescue.Proofs.Tree

/-
  Relations between disks that an extraction cannot tell
  apart: the same kinds of nodes stand at the same places,
  and every change but the writing of a file goes the same
  way on both.  Then every operation that is made of such
  changes does so, too.

  Key definitions include:
    * `Node.SameKind`
    * `Disk.SameAfter`
    * `Disk.IsBisimulation`

  Main statements:
    * `Disk.IsBisimulation.locate_eq`
    * `Disk.IsBisimulation.makeDirectories`
    * `Disk.IsBisimulation.createFile`
    * `Disk.IsBisimulation.removeFile`
    * `Disk.IsBisimulation.removeDirectory`
-/

namespace ArchiveRescue

/- Nothing, a directory or a file stands at both places. -/
inductive Node.SameKind : Option Node → Option Node → Prop where
  | nothing : SameKind none none
  | directory : SameKind (some .directory) (some .directory)
  | file
      (data data' : Bytes)
      (modified modified' : Int) :
      SameKind (some (.file data modified))
        (some (.file data' modified'))

/- A node is of its own kind. -/
theorem Node.SameKind.refl (node? : Option Node) :
    SameKind node? node? := by
  rcases node? with _ | _ | ⟨data, modified⟩
  · exact .nothing
  · exact .directory
  · exact .file data data modified modified

namespace Disk

/- Two operations with the same result on related disks. -/
def SameAfter
    (R : Disk → Disk → Prop)
    {α : Type}
    (x y : α × Disk) : Prop :=
  y.1 = x.1 ∧ R x.2 y.2

/-
  Related disks are seen from the same directory, have nodes
  of the same kinds, and stay related under any change that
  writes nothing, which is refused on both or on none.
-/
structure IsBisimulation
    (R : Disk → Disk → Prop) : Prop where
  workDir : ∀ {d e}, R d e → e.workDir = d.workDir
  kinds :
    ∀ {d e}, R d e →
      ∀ place, Node.SameKind (d.node? place) (e.node? place)
  perform :
    ∀ {d e}, R d e →
      ∀ change, (∀ place more, change ≠ .append place more) →
        SameAfter R (d.perform change) (e.perform change)

namespace IsBisimulation

variable {R : Disk → Disk → Prop} {d e : Disk}

------------------------------------------------------------
-- Looking
------------------------------------------------------------

/- Directories stand at the same places. -/
theorem holdsDirectory_eq
    (hBisim : IsBisimulation R)
    (hRel : R d e)
    (place : Location) :
    e.holdsDirectory place = d.holdsDirectory place := by
  have hKind := hBisim.kinds hRel place
  unfold holdsDirectory
  generalize d.node? place = first at hKind ⊢
  generalize e.node? place = other at hKind ⊢
  cases hKind with
  | nothing => rfl
  | directory => rfl
  | file => rfl

/- Paths lead to the same places. -/
theorem descend_eq
    (hBisim : IsBisimulation R)
    (hRel : R d e)
    (here : Location)
    (name : String) :
    e.descend here name = d.descend here name := by
  have hKind := hBisim.kinds hRel here
  unfold descend
  generalize d.node? here = first at hKind ⊢
  generalize e.node? here = other at hKind ⊢
  cases hKind with
  | nothing => rfl
  | directory => rfl
  | file => rfl

theorem follow_eq
    (hBisim : IsBisimulation R)
    (hRel : R d e)
    (here : Location)
    (names : List String) :
    e.follow here names = d.follow here names := by
  induction names generalizing here with
  | nil => rfl
  | cons name rest ih =>
      unfold follow
      rw [hBisim.descend_eq hRel]
      split
      · rfl
      · exact ih _

theorem locate_eq
    (hBisim : IsBisimulation R)
    (hRel : R d e)
    (p : Path) :
    e.locate p = d.locate p := by
  unfold locate
  dsimp only
  rw [hBisim.workDir hRel, hBisim.follow_eq hRel]

theorem isDirectory_eq
    (hBisim : IsBisimulation R)
    (hRel : R d e)
    (p : Path) :
    e.isDirectory p = d.isDirectory p := by
  unfold isDirectory look
  rw [hBisim.locate_eq hRel]
  cases d.locate p with
  | error fault => rfl
  | ok place =>
      have hKind := hBisim.kinds hRel place
      dsimp only
      generalize d.node? place = first at hKind ⊢
      generalize e.node? place = other at hKind ⊢
      cases hKind with
      | nothing => rfl
      | directory => rfl
      | file => cases p.endsWithSlash <;> rfl

/- The same directories are empty. -/
theorem children_isEmpty
    (hBisim : IsBisimulation R)
    (hRel : R d e)
    (place : Location) :
    (e.children place).isEmpty =
      (d.children place).isEmpty := by
  have hNone : ∀ there,
      e.node? there = none ↔ d.node? there = none := by
    intro there
    have hKind := hBisim.kinds hRel there
    generalize d.node? there = first at hKind ⊢
    generalize e.node? there = other at hKind ⊢
    cases hKind with
    | nothing => rfl
    | directory => simp
    | file => simp
  rw [Bool.eq_iff_iff, List.isEmpty_iff, List.isEmpty_iff,
    children_eq_nil_iff, children_eq_nil_iff]
  simp only [hNone]

theorem isEmptyDirectory_eq
    (hBisim : IsBisimulation R)
    (hRel : R d e)
    (p : Path) :
    e.isEmptyDirectory p = d.isEmptyDirectory p := by
  unfold isEmptyDirectory
  rw [hBisim.locate_eq hRel]
  split
  · rw [hBisim.holdsDirectory_eq hRel,
      hBisim.children_isEmpty hRel]
  · rfl

------------------------------------------------------------
-- Directories
------------------------------------------------------------

/- The same directories are made. -/
theorem makeDirectory
    (hBisim : IsBisimulation R)
    (hRel : R d e)
    (p : Path) :
    SameAfter R (d.makeDirectory p) (e.makeDirectory p) := by
  unfold Disk.makeDirectory
  rw [hBisim.locate_eq hRel]
  split
  · exact ⟨rfl, hRel⟩
  next place _ =>
    have hKind := hBisim.kinds hRel place
    generalize d.node? place = first at hKind ⊢
    generalize e.node? place = other at hKind ⊢
    cases hKind with
    | nothing => exact hBisim.perform hRel _ nofun
    | directory => exact ⟨rfl, hRel⟩
    | file => exact ⟨rfl, hRel⟩

theorem ensureDirectory
    (hBisim : IsBisimulation R)
    (hRel : R d e)
    (p : Path) :
    SameAfter R (d.ensureDirectory p)
      (e.ensureDirectory p) := by
  have hMake := hBisim.makeDirectory hRel p
  unfold Disk.ensureDirectory
  rcases hFirst : d.makeDirectory p with ⟨made, tried⟩
  rcases hOther : e.makeDirectory p with ⟨made', tried'⟩
  rw [hFirst, hOther] at hMake
  rcases hMake with ⟨rfl, hTried⟩
  cases made' with
  | ok _ => exact ⟨rfl, hTried⟩
  | error fault =>
      dsimp only at hTried ⊢
      rw [hBisim.isDirectory_eq hTried]
      split
      · exact ⟨rfl, hTried⟩
      · exact ⟨rfl, hTried⟩

theorem makeChain
    (hBisim : IsBisimulation R)
    (hRel : R d e)
    (chain : List Path) :
    SameAfter R (d.makeChain chain) (e.makeChain chain) := by
  induction chain generalizing d e with
  | nil => exact ⟨rfl, hRel⟩
  | cons p parents ih =>
      by_cases hPath : p.text = ""
      · unfold Disk.makeChain
        rw [if_pos (by simpa using hPath),
          if_pos (by simpa using hPath)]
        exact ⟨rfl, hRel⟩
      have hMake := hBisim.makeDirectory hRel p
      rcases hFirst : d.makeDirectory p with ⟨made, tried⟩
      rcases hOther : e.makeDirectory p with ⟨made', tried'⟩
      rw [hFirst, hOther] at hMake
      rcases hMake with ⟨rfl, hTried⟩
      cases made' with
      | ok _ =>
          rw [makeChain_made parents hPath hFirst,
            makeChain_made parents hPath hOther]
          exact ⟨rfl, hTried⟩
      | error fault =>
          by_cases hFault : fault = .system .noEntry
          · subst hFault
            rw [makeChain_missing parents hPath hFirst,
              makeChain_missing parents hPath hOther]
            have hParents := ih hTried
            rcases hAbove : tried.makeChain parents with
              ⟨above, ready⟩
            rcases hBeyond : tried'.makeChain parents with
              ⟨above', ready'⟩
            rw [hAbove, hBeyond] at hParents
            rcases hParents with ⟨rfl, hReady⟩
            cases above' with
            | error fault => exact ⟨rfl, hReady⟩
            | ok _ => exact hBisim.ensureDirectory hReady p
          · rw [makeChain_failed parents hPath hFirst hFault,
              makeChain_failed parents hPath hOther hFault]
            rw [hBisim.isDirectory_eq hTried]
            split
            · exact ⟨rfl, hTried⟩
            · exact ⟨rfl, hTried⟩

theorem makeDirectories
    (hBisim : IsBisimulation R)
    (hRel : R d e)
    (p : Path) :
    SameAfter R (d.makeDirectories p)
      (e.makeDirectories p) :=
  hBisim.makeChain hRel p.ancestry

/- The same directories are removed. -/
theorem removeDirectory
    (hBisim : IsBisimulation R)
    (hRel : R d e)
    (p : Path) :
    SameAfter R (d.removeDirectory p)
      (e.removeDirectory p) := by
  unfold Disk.removeDirectory
  rw [hBisim.locate_eq hRel]
  cases d.locate p with
  | error fault => exact ⟨rfl, hRel⟩
  | ok place =>
      have hKind := hBisim.kinds hRel place
      dsimp only
      rw [hBisim.children_isEmpty hRel]
      generalize d.node? place = first at hKind ⊢
      generalize e.node? place = other at hKind ⊢
      cases hKind with
      | nothing => exact ⟨rfl, hRel⟩
      | file => exact ⟨rfl, hRel⟩
      | directory =>
          dsimp only
          split
          · exact hBisim.perform hRel _ nofun
          · exact ⟨rfl, hRel⟩

------------------------------------------------------------
-- Files
------------------------------------------------------------

/- The same files are created and removed. -/
theorem createFile
    (hBisim : IsBisimulation R)
    (hRel : R d e)
    (p : Path) :
    SameAfter R (d.createFile p) (e.createFile p) := by
  unfold Disk.createFile
  rw [hBisim.locate_eq hRel]
  split
  · exact ⟨rfl, hRel⟩
  next place _ =>
    rw [hBisim.holdsDirectory_eq hRel]
    split
    · exact ⟨rfl, hRel⟩
    · have hCreate :=
        hBisim.perform hRel (.create place) nofun
      rcases hFirst : d.perform (.create place) with
        ⟨made, tried⟩
      rcases hOther : e.perform (.create place) with
        ⟨made', tried'⟩
      rw [hFirst, hOther] at hCreate
      rcases hCreate with ⟨rfl, hTried⟩
      cases made' with
      | error fault => exact ⟨rfl, hTried⟩
      | ok _ => exact ⟨rfl, hTried⟩

theorem removeFile
    (hBisim : IsBisimulation R)
    (hRel : R d e)
    (p : Path) :
    SameAfter R (d.removeFile p) (e.removeFile p) := by
  unfold Disk.removeFile
  rw [hBisim.locate_eq hRel]
  cases d.locate p with
  | error fault => exact ⟨rfl, hRel⟩
  | ok place =>
      have hKind := hBisim.kinds hRel place
      dsimp only
      generalize d.node? place = first at hKind ⊢
      generalize e.node? place = other at hKind ⊢
      cases hKind with
      | nothing => exact ⟨rfl, hRel⟩
      | directory => exact ⟨rfl, hRel⟩
      | file =>
          dsimp only
          split
          · exact ⟨rfl, hRel⟩
          · exact hBisim.perform hRel _ nofun

end IsBisimulation

end Disk

end ArchiveRescue
