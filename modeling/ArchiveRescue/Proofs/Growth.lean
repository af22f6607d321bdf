import Mathlib
import ArchiveRescue.Proofs.Tree

/-
  What the changes of a disk can do to the nodes that stand
  on it already.  Making directories does nothing to them.
  Creating, writing and removing a file touches the file at
  one place only, and no directory.

  Key definitions include:
    * `Disk.Grows`
    * `Disk.Spares`
    * `Disk.Aims`

  Main statements:
    * `Disk.grows_makeDirectories`
    * `Disk.spares_createFile`
    * `Disk.spares_append`
    * `Disk.spares_removeFile`
-/

namespace ArchiveRescue

namespace Disk

------------------------------------------------------------
-- Disks That Only Grow
------------------------------------------------------------

/- Nothing that stands on the first disk is gone or changed. -/
structure Grows (d e : Disk) : Prop where
  settings : d.SameSettings e
  nodes :
    ∀ place node, d.node? place = some node →
      e.node? place = some node

namespace Grows

/- A disk that is left alone has grown by nothing. -/
theorem refl (d : Disk) : Grows d d :=
  ⟨.refl d, fun _ _ hNode => hNode⟩

/- Disks grow step by step. -/
theorem trans
    {d e f : Disk}
    (hFirst : Grows d e)
    (hSecond : Grows e f) :
    Grows d f := by
  constructor
  · exact hFirst.settings.trans hSecond.settings
  · intro place node hNode
    exact hSecond.nodes place node
      (hFirst.nodes place node hNode)

/- A disk whose turns alone have gone on. -/
theorem of_entries
    {d e : Disk}
    (hEntries : e.entries = d.entries)
    (hSettings : d.SameSettings e) :
    Grows d e := by
  refine ⟨hSettings, ?_⟩
  intro place node hNode
  unfold node? at hNode ⊢
  rwa [hEntries]

/- Paths go on leading where they led. -/
theorem locate
    {d e : Disk}
    {p : Path}
    {place : Location}
    (hGrows : Grows d e)
    (hLocate : d.locate p = .ok place) :
    e.locate p = .ok place :=
  locate_grown
    (fun there hThere => hGrows.nodes there _ hThere)
    hGrows.settings hLocate

end Grows

/- A disk grows when a directory is made where nothing was. -/
theorem grows_perform_makeDirectory
    {d : Disk}
    {place : Location}
    (hNone : d.node? place = none) :
    Grows d (d.perform (.makeDirectory place)).2 := by
  refine ⟨d.settings_perform _, ?_⟩
  have hPlace : place ≠ [] := by
    rintro rfl
    cases hNone
  intro there node hNode
  unfold perform
  dsimp only
  split
  · exact hNode
  · dsimp only [apply]
    rw [node?_put _ hPlace, if_neg]
    · exact hNode
    · rintro rfl
      rw [hNone] at hNode
      cases hNode

theorem grows_makeDirectory
    (d : Disk)
    (p : Path) :
    Grows d (d.makeDirectory p).2 := by
  unfold makeDirectory
  split
  · exact .refl d
  next place _ =>
    split
    · exact .refl d
    next hNone =>
      exact grows_perform_makeDirectory
        (Option.not_isSome_iff_eq_none.mp hNone)

/- A disk grows when directories are made, or stays as is. -/
theorem grows_makeDirectories
    (d : Disk)
    (p : Path) :
    Grows d (d.makeDirectories p).2 :=
  related_makeChain .refl .trans
    (fun q _ e => e.grows_makeDirectory q) d

------------------------------------------------------------
-- Changes at One Place
------------------------------------------------------------

/-
  Nothing that stands on the first disk is gone or changed,
  except what is no directory and stands where the path
  leads.
-/
structure Spares (p : Path) (d e : Disk) : Prop where
  settings : d.SameSettings e
  directories :
    ∀ place, d.node? place = some .directory →
      e.node? place = some .directory
  nodes :
    ∀ place node, d.node? place = some node →
      e.node? place = some node ∨ e.locate p = .ok place

/- A disk that has grown spares all. -/
theorem Grows.spares
    {d e : Disk}
    (hGrows : Grows d e)
    (p : Path) :
    Spares p d e := by
  refine ⟨hGrows.settings, ?_, ?_⟩
  · intro place hPlace
    exact hGrows.nodes place _ hPlace
  · intro place node hNode
    exact .inl (hGrows.nodes place node hNode)

namespace Spares

variable {p q : Path} {d e f : Disk} {place : Location}

/- A disk that is left alone is spared. -/
theorem refl
    (p : Path)
    (d : Disk) :
    Spares p d d :=
  (Grows.refl d).spares p

/- Paths go on leading where they led. -/
theorem locate
    (hSpares : Spares p d e)
    (hLocate : d.locate q = .ok place) :
    e.locate q = .ok place :=
  locate_grown hSpares.directories hSpares.settings hLocate

/- What two changes at one place leave alone is left alone. -/
theorem trans
    (hFirst : Spares p d e)
    (hSecond : Spares p e f) :
    Spares p d f := by
  refine ⟨hFirst.settings.trans hSecond.settings, ?_, ?_⟩
  · intro there hThere
    exact hSecond.directories there
      (hFirst.directories there hThere)
  · intro there node hNode
    rcases hFirst.nodes there node hNode with hKept | hLeads
    · exact hSecond.nodes there node hKept
    · exact .inr (hSecond.locate hLeads)

/-
  A change of the node at one place, which is no directory,
  spares the rest.
-/
theorem of_place
    (hSettings : d.SameSettings e)
    (hLeads : d.locate p = .ok place)
    (hNode : d.node? place ≠ some .directory)
    (hOther :
      ∀ there, there ≠ place →
        e.node? there = d.node? there) :
    Spares p d e := by
  have hDirectories :
      ∀ there, d.node? there = some .directory →
        e.node? there = some .directory := by
    intro there hThere
    rw [hOther there, hThere]
    rintro rfl
    exact hNode hThere
  refine ⟨hSettings, hDirectories, ?_⟩
  intro there node hThere
  by_cases hPlace : there = place
  · subst hPlace
    exact .inr (locate_grown hDirectories hSettings hLeads)
  · rw [hOther there hPlace]
    exact .inl hThere

end Spares

/- The path leads to the place, and a file stands there. -/
structure Aims
    (p : Path)
    (place : Location)
    (d : Disk) : Prop where
  leads : d.locate p = .ok place
  file :
    ∃ data modified,
      d.node? place = some (.file data modified)

/- What a file that has been created has changed. -/
theorem node?_of_createFile
    {d made : Disk}
    {p : Path}
    {place : Location}
    (hCreate : d.createFile p = (.ok place, made)) :
    d.locate p = .ok place ∧
      d.node? place ≠ some .directory ∧
      p.endsWithSlash = false ∧
      ∀ there,
        made.node? there =
          if there = place then some (.file [] 0)
          else d.node? there := by
  unfold createFile at hCreate
  split at hCreate
  · cases hCreate
  next there hLeads =>
    split at hCreate
    · cases hCreate
    next hFree =>
      split at hCreate
      · cases hCreate
      next created hPerform =>
        cases hCreate
        simp only [holdsDirectory, Bool.or_eq_true,
          beq_iff_eq, not_or, Bool.not_eq_true] at hFree
        have hPlace : place ≠ [] := by
          rintro rfl
          exact hFree.1 rfl
        refine ⟨hLeads, hFree.1, hFree.2, fun there => ?_⟩
        unfold perform at hPerform
        dsimp only at hPerform
        split at hPerform
        · cases hPerform
        · cases hPerform
          exact node?_put _ hPlace _ there

/- So it is there. -/
theorem aims_of_createFile
    {d made : Disk}
    {p : Path}
    {place : Location}
    (hCreate : d.createFile p = (.ok place, made)) :
    Spares p d made ∧ Aims p place made := by
  have hSettings := d.settings_createFile p
  rw [hCreate] at hSettings
  rcases node?_of_createFile hCreate with
    ⟨hLeads, hNode, -, hMade⟩
  have hSpares : Spares p d made := by
    apply Spares.of_place hSettings hLeads hNode
    intro there hThere
    rw [hMade, if_neg hThere]
  refine ⟨hSpares, hSpares.locate hLeads, [], 0, ?_⟩
  rw [hMade, if_pos rfl]

/- A disk on which nothing could be created stays as it is. -/
theorem grows_of_createFile
    {d tried : Disk}
    {p : Path}
    {fault : Fault}
    (hCreate : d.createFile p = (.error fault, tried)) :
    Grows d tried := by
  unfold createFile at hCreate
  split at hCreate
  · cases hCreate
    exact .refl d
  · split at hCreate
    · cases hCreate
      exact .refl d
    · split at hCreate
      next hPerform =>
        cases hCreate
        unfold perform at hPerform
        dsimp only at hPerform
        split at hPerform
        · cases hPerform
          exact .of_entries rfl ⟨rfl, rfl⟩
        · cases hPerform
      · cases hCreate

theorem spares_createFile
    (d : Disk)
    (p : Path) :
    Spares p d (d.createFile p).2 := by
  rcases hCreate : d.createFile p with ⟨reply, tried⟩
  cases reply with
  | ok place => exact (aims_of_createFile hCreate).1
  | error fault =>
      exact (grows_of_createFile hCreate).spares p

/- What is written to a file changes that file only. -/
theorem spares_append
    {d : Disk}
    {p : Path}
    {place : Location}
    (hAims : Aims p place d)
    (more : Bytes) :
    Spares p d (d.perform (.append place more)).2 ∧
      Aims p place (d.perform (.append place more)).2 := by
  rcases hAims.file with ⟨data, modified, hFile⟩
  have hPlace := ne_root_of_file hFile
  have hMade :
      ∃ written, ∀ there,
        (d.perform (.append place more)).2.node? there =
          if there = place then some (.file written modified)
          else d.node? there := by
    have hSame : ∀ there, d.node? there =
        if there = place then some (.file data modified)
        else d.node? there := by
      intro there
      split
      next hThere => rw [hThere, hFile]
      next => rfl
    unfold perform
    dsimp only
    split
    · exact ⟨data, hSame⟩
    · have hTicked :
          { d with turns := d.turns + 1 }.node? place =
            some (.file data modified) :=
        hFile
      unfold apply
      dsimp only
      rw [hTicked]
      exact ⟨data ++ more, node?_put _ hPlace _⟩
  rcases hMade with ⟨written, hMade⟩
  have hSpares :
      Spares p d (d.perform (.append place more)).2 := by
    apply Spares.of_place (d.settings_perform _) hAims.leads
    · rw [hFile]
      simp
    · intro there hThere
      rw [hMade, if_neg hThere]
  refine
    ⟨hSpares, hSpares.locate hAims.leads, written, modified,
      ?_⟩
  rw [hMade, if_pos rfl]

/- What was written stands behind what had been there. -/
theorem node?_of_append
    {d written : Disk}
    {place : Location}
    {data more : Bytes}
    {modified : Int}
    (hFile : d.node? place = some (.file data modified))
    (hAppend :
      d.perform (.append place more) = (.ok (), written)) :
    written.node? place =
      some (.file (data ++ more) modified) := by
  unfold perform at hAppend
  dsimp only at hAppend
  split at hAppend
  · cases hAppend
  · cases hAppend
    have hTicked :
        { d with turns := d.turns + 1 }.node? place =
          some (.file data modified) :=
      hFile
    unfold apply
    dsimp only
    rw [hTicked]
    dsimp only
    rw [node?_put _ (ne_root_of_file hFile), if_pos rfl]

/- What is written to a file shows nowhere else. -/
theorem node?_append_of_ne
    (d : Disk)
    (place : Location)
    (more : Bytes)
    {there : Location}
    (hThere : there ≠ place) :
    (d.perform (.append place more)).2.node? there =
      d.node? there := by
  unfold perform
  dsimp only
  split
  · rfl
  · unfold apply
    dsimp only
    split
    next hFile =>
      rw [node?_put _ (ne_root_of_file hFile),
        if_neg hThere]
      rfl
    next => rfl

/- What is no file is not written to. -/
theorem spares_perform_append
    {d : Disk}
    {p : Path}
    {place : Location}
    (hLeads : d.locate p = .ok place)
    (more : Bytes) :
    Spares p d (d.perform (.append place more)).2 := by
  by_cases hFile :
      ∃ data modified,
        d.node? place = some (.file data modified)
  · exact (spares_append ⟨hLeads, hFile⟩ more).1
  · have hSame :
        (d.perform (.append place more)).2.entries =
          d.entries := by
      unfold perform
      dsimp only
      split
      · rfl
      · unfold apply
        dsimp only
        split
        next data modified hNode =>
          exact absurd ⟨data, modified, hNode⟩ hFile
        · rfl
    exact
      (Grows.of_entries hSame
        (d.settings_perform _)).spares p

/-
  What removing a file does: nothing, or it takes away the
  file that stands where the path leads.
-/
theorem removeFile_cases
    (d : Disk)
    (p : Path) :
    (∃ place,
        (d.removeFile p).1 = .ok () ∧
        d.locate p = .ok place ∧
        (∃ data modified,
          d.node? place = some (.file data modified)) ∧
        ∀ there,
          (d.removeFile p).2.node? there =
            if there = place then none
            else d.node? there) ∨
      (∃ fault, (d.removeFile p).1 = .error fault) ∧
        Grows d (d.removeFile p).2 := by
  unfold removeFile
  split
  · exact .inr ⟨⟨_, rfl⟩, .refl d⟩
  next place hLeads =>
    split
    · exact .inr ⟨⟨_, rfl⟩, .refl d⟩
    · exact .inr ⟨⟨_, rfl⟩, .refl d⟩
    next data modified hFile =>
      split
      · exact .inr ⟨⟨_, rfl⟩, .refl d⟩
      · unfold perform
        dsimp only
        split
        · exact
            .inr ⟨⟨_, rfl⟩, .of_entries rfl ⟨rfl, rfl⟩⟩
        · exact
            .inl ⟨place, rfl, hLeads, ⟨_, _, hFile⟩,
              node?_erase _ (ne_root_of_file hFile)⟩

theorem spares_removeFile
    (d : Disk)
    (p : Path) :
    Spares p d (d.removeFile p).2 := by
  rcases d.removeFile_cases p with
    ⟨place, -, hLeads, ⟨data, modified, hFile⟩, hGone⟩ |
      ⟨-, hGrows⟩
  · apply Spares.of_place (d.settings_removeFile p) hLeads
    · rw [hFile]
      simp
    · intro there hThere
      rw [hGone, if_neg hThere]
  · exact hGrows.spares p

end Disk

end ArchiveRescue
