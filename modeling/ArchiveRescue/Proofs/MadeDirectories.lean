import Mathlib
import ArchiveRescue.Proofs.Enclosure
import ArchiveRescue.Proofs.Wholeness

/-
  Directories that are made on the way to a path.  Making
  them, failing to make them and removing a file put nothing
  on a disk but directories, where the path leads or above.

  Key definitions include:
    * `Disk.Paves`

  Main statements:
    * `Path.Descends.pieces_parent`
    * `Path.Descends.ancestry_tail`
    * `Disk.paves_makeDirectories`
    * `Disk.paves_of_failed`
    * `Disk.paves_removeFile`
-/

namespace ArchiveRescue

open Ustar Disk

/- What is below a place is below all that leads there. -/
theorem IsBelow.of_prefix
    {base place there : Location}
    (hBelow : IsBelow place there)
    (hPrefix : base <+: place) :
    IsBelow base there := by
  refine ⟨hPrefix.trans hBelow.1, ?_⟩
  rintro rfl
  exact hBelow.2 (hPrefix.eq_of_length_le hBelow.1.length_le)

------------------------------------------------------------
-- Parents
------------------------------------------------------------

namespace Path

variable {p q : Path}

/- What is kept of the parts below a root ends in a piece. -/
theorem dropIdle_rooted
    {parts : List String}
    (hSome : dropIdle true parts ≠ []) :
    ∃ front name,
      dropIdle true parts = front ++ [name] ∧
        isPiece name = true := by
  cases parts with
  | nil => exact absurd rfl hSome
  | cons first rest =>
      unfold dropIdle at hSome ⊢
      dsimp only at hSome ⊢
      split at hSome
      next hKept =>
        rw [if_pos hKept]
        cases hBack :
            rest.reverse.dropWhile (fun s => !isPiece s) with
        | nil =>
            rw [hBack] at hKept
            refine ⟨[], first, rfl, ?_⟩
            simpa using hKept
        | cons name others =>
            refine ⟨first :: others.reverse, name, ?_, ?_⟩
            · rw [List.reverse_cons, List.cons_append]
            · have hHead :=
                List.head?_dropWhile_not
                  (fun s => !isPiece s) rest.reverse
              rw [hBack] at hHead
              simpa using hHead
      next => exact absurd rfl hSome

/- The parent of a path lacks its last piece. -/
theorem Descends.pieces_parent
    (hDescends : p.Descends)
    (hParent : p.parent? = some q) :
    ∃ name, p.pieces = q.pieces ++ [name] := by
  rcases steps_of_isAbsolute hDescends.absolute with
    ⟨rest, hTrunk⟩
  rcases p.steps_trunk with ⟨idle, hSteps, -⟩
  rw [hTrunk, List.cons_append] at hSteps
  have hWhole : ∀ part ∈ rest ++ idle,
      '/' ∉ part.toList := by
    intro part hPart
    apply slash_notMem_steps (p := p)
    rw [hSteps]
    exact List.mem_cons_of_mem "" hPart
  unfold parent? at hParent
  rw [hDescends.absolute, hSteps] at hParent
  simp only [if_true, List.drop_one, List.tail_cons]
    at hParent
  split at hParent
  next => cases hParent
  next hSome =>
    cases hParent
    rcases dropIdle_rooted hSome with
      ⟨front, name, hNamed, hPiece⟩
    rcases exists_dropIdle true (rest ++ idle) with
      ⟨dropped, hParts, hIdle⟩
    rcases exists_dropIdle true front with
      ⟨more, hFront, hMore⟩
    have hAbove : dropIdle true front <+: rest ++ idle := by
      refine ⟨more ++ [name] ++ dropped, ?_⟩
      rw [hParts, hNamed]
      conv => right; rw [hFront]
      simp only [List.append_assoc]
    refine ⟨name, ?_⟩
    rw [hNamed, List.dropLast_concat, pieces_rooted
      (fun part hPart => hWhole part (hAbove.subset hPart))]
    have hKept :
        front.filter isPiece =
          (dropIdle true front).filter isPiece := by
      conv => left; rw [hFront]
      rw [List.filter_append, filter_idle hMore,
        List.append_nil]
    unfold pieces
    rw [hSteps, hParts, hNamed, ← hKept]
    rw [List.filter_cons_of_neg (by decide),
      List.filter_append, List.filter_append,
      filter_idle hIdle, List.append_nil,
      List.filter_cons_of_pos hPiece, List.filter_nil]

/- So it leads to a place above. -/
theorem Descends.above_parent
    (hDescends : p.Descends)
    (hParent : p.parent? = some q) :
    IsBelow q.pieces p.pieces := by
  rcases hDescends.pieces_parent hParent with ⟨name, hPieces⟩
  rw [hPieces]
  exact isBelow_append q.pieces (List.cons_ne_nil name [])

/- Behind a path come its proper parents. -/
theorem Descends.ancestry_tail
    (hDescends : p.Descends) :
    ∃ parents,
      p.ancestry = p :: parents ∧
        ∀ q ∈ parents,
          q.Descends ∧ IsBelow q.pieces p.pieces := by
  unfold Path.ancestry
  cases p.text.length with
  | zero => exact ⟨[], rfl, nofun⟩
  | succ fuel =>
      unfold Path.ancestryUpTo
      split
      next => exact ⟨[], rfl, nofun⟩
      next parent hParent =>
        refine ⟨_, rfl, ?_⟩
        intro q hMem
        have hAbove := hDescends.above_parent hParent
        rcases (hDescends.parent hParent).1.ancestryUpTo fuel
            q hMem with
          ⟨hLater, hPrefix⟩
        exact ⟨hLater, hAbove.of_prefix hPrefix⟩

end Path

------------------------------------------------------------
-- Directories on the Way
------------------------------------------------------------

namespace Disk

/-
  Directories have been made at certain places, and nothing
  else has been put anywhere.  No directory is gone.
-/
structure Paves
    (made : Location → Prop)
    (d e : Disk) : Prop where
  settings : d.SameSettings e
  directories :
    ∀ place, d.node? place = some .directory →
      e.node? place = some .directory
  nodes :
    ∀ place node, e.node? place = some node →
      d.node? place = some node ∨
        node = .directory ∧ made place

section Paving

variable {made more : Location → Prop} {d e f : Disk}
variable {p : Path}

theorem Paves.refl
    (made : Location → Prop)
    (d : Disk) :
    Paves made d d :=
  ⟨.refl d, fun _ hThere => hThere, fun _ _ => .inl⟩

theorem Paves.trans
    (hFirst : Paves made d e)
    (hSecond : Paves made e f) :
    Paves made d f := by
  refine ⟨hFirst.settings.trans hSecond.settings, ?_, ?_⟩
  · intro place hThere
    exact
      hSecond.directories place (hFirst.directories place hThere)
  · intro place node hNode
    rcases hSecond.nodes place node hNode with hOld | hMade
    · exact hFirst.nodes place node hOld
    · exact .inr hMade

theorem Paves.widen
    (hPaves : Paves made d e)
    (hInto : ∀ place, made place → more place) :
    Paves more d e :=
  { hPaves with
    nodes := fun place node hNode =>
      (hPaves.nodes place node hNode).imp_right
        (And.imp_right (hInto place)) }

/- Where a change is refused, nothing is new. -/
theorem Paves.of_refused
    (made : Location → Prop)
    {change : Change}
    {fault : Fault}
    (hRefused : d.perform change = (.error fault, e)) :
    Paves made d e := by
  unfold perform at hRefused
  dsimp only at hRefused
  split at hRefused
  next =>
    cases hRefused
    exact
      ⟨⟨rfl, rfl⟩, fun _ hThere => hThere, fun _ _ => .inl⟩
  next => cases hRefused

/- A directory is made where its path leads. -/
theorem paves_makeDirectory
    (d : Disk)
    (hDescends : p.Descends)
    (hMade : made p.pieces) :
    Paves made d (d.makeDirectory p).2 := by
  have hGrows := d.grows_makeDirectory p
  refine
    ⟨hGrows.settings, fun place => hGrows.nodes place _, ?_⟩
  intro there node hNode
  unfold makeDirectory at hNode
  split at hNode
  next => exact .inl hNode
  next place hLocate =>
    have hPlace := locate_descends hDescends hLocate
    subst hPlace
    split at hNode
    next => exact .inl hNode
    next hNone =>
      have hRoot : p.pieces ≠ [] := by
        intro hRoot
        rw [hRoot] at hNone
        exact hNone rfl
      unfold perform at hNode
      dsimp only at hNode
      split at hNode
      next => exact .inl hNode
      next =>
        dsimp only [apply] at hNode
        rw [node?_put _ hRoot] at hNode
        split at hNode
        next hHere =>
          cases hNode
          rw [hHere]
          exact .inr ⟨rfl, hMade⟩
        next => exact .inl hNode

/- An attempt that fails makes nothing. -/
theorem paves_of_unmade
    (made : Location → Prop)
    {fault : Fault}
    (hFailed : d.makeDirectory p = (.error fault, e)) :
    Paves made d e := by
  unfold makeDirectory at hFailed
  split at hFailed
  next =>
    cases hFailed
    exact .refl made d
  next =>
    split at hFailed
    next =>
      cases hFailed
      exact .refl made d
    next => exact .of_refused made hFailed

/- Directories are made up to where a path leads. -/
theorem paves_makeDirectories
    (d : Disk)
    (hDescends : p.Descends)
    (hMade : ∀ place, place <+: p.pieces → made place) :
    Paves made d (d.makeDirectories p).2 := by
  refine related_makeChain (.refl made) .trans ?_ d
  intro q hMem e
  rcases hDescends.ancestry q hMem with ⟨hLater, hAbove⟩
  exact e.paves_makeDirectory hLater (hMade q.pieces hAbove)

/- If that fails, the last of them is not made. -/
theorem paves_of_failed
    {fault : Fault}
    (hDescends : p.Descends)
    (hFailed : d.makeDirectories p = (.error fault, e)) :
    Paves (IsBelow · p.pieces) d e := by
  rcases hDescends.ancestry_tail with
    ⟨parents, hChain, hParents⟩
  have hAbove : ∀ tried : Disk,
      Paves (IsBelow · p.pieces) tried
        (tried.makeChain parents).2 := by
    intro tried
    refine related_makeChain (.refl _) .trans ?_ tried
    intro q hMem f
    rcases hParents q hMem with ⟨hLater, hBelow⟩
    exact f.paves_makeDirectory hLater hBelow
  unfold makeDirectories at hFailed
  rw [hChain] at hFailed
  unfold makeChain at hFailed
  split at hFailed
  next => cases hFailed
  next =>
    split at hFailed
    next => cases hFailed
    next tried hMissing =>
      have hTried := paves_of_unmade
        (IsBelow · p.pieces) hMissing
      have hRest := hAbove tried
      split at hFailed
      next hParent =>
        rw [hParent] at hRest
        cases hFailed
        exact hTried.trans hRest
      next ready hParent =>
        rw [hParent] at hRest
        refine (hTried.trans hRest).trans ?_
        unfold ensureDirectory at hFailed
        split at hFailed
        next => cases hFailed
        next hLast =>
          split at hFailed
          next => cases hFailed
          next =>
            cases hFailed
            exact paves_of_unmade _ hLast
    next hOther =>
      split at hFailed
      next => cases hFailed
      next =>
        cases hFailed
        exact paves_of_unmade _ hOther

/- Nothing is made if a file cannot be created. -/
theorem paves_of_uncreated
    (made : Location → Prop)
    {fault : Fault}
    (hFailed : d.createFile p = (.error fault, e)) :
    Paves made d e := by
  unfold createFile at hFailed
  split at hFailed
  next =>
    cases hFailed
    exact .refl made d
  next =>
    split at hFailed
    next =>
      cases hFailed
      exact .refl made d
    next =>
      split at hFailed
      next hRefused =>
        cases hFailed
        exact .of_refused made hRefused
      next => cases hFailed

/- Nothing is put anywhere by removing a file. -/
theorem paves_removeFile
    (made : Location → Prop)
    (d : Disk)
    (p : Path) :
    Paves made d (d.removeFile p).2 := by
  have hSpares := d.spares_removeFile p
  refine ⟨hSpares.settings, hSpares.directories, ?_⟩
  intro there node hNode
  unfold removeFile at hNode
  split at hNode
  next => exact .inl hNode
  next place _ =>
    split at hNode
    next => exact .inl hNode
    next => exact .inl hNode
    next hFile =>
      split at hNode
      next => exact .inl hNode
      next =>
        unfold perform at hNode
        dsimp only at hNode
        split at hNode
        next => exact .inl hNode
        next =>
          dsimp only [apply] at hNode
          rw [node?_erase _ (ne_root_of_file hFile)] at hNode
          split at hNode
          next => cases hNode
          next => exact .inl hNode

/- A file that may be removed is gone then. -/
theorem node?_removeFile
    {place : Location}
    (hRemoves : d.trouble.Removes)
    (hAims : Aims p place d)
    (hPlain : p.endsWithSlash = false) :
    (d.removeFile p).2.node? place = none := by
  rcases hAims.file with ⟨data, modified, hFile⟩
  unfold removeFile
  rw [hAims.leads]
  dsimp only
  rw [hFile]
  dsimp only
  rw [hPlain, if_neg Bool.false_ne_true,
    perform_allowed (hRemoves d.turns place)]
  dsimp only [apply]
  rw [node?_erase _ (ne_root_of_file hFile), if_pos rfl]

end Paving

end Disk

end ArchiveRescue
