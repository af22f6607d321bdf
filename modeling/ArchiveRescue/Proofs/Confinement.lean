import Mathlib
import ArchiveRescue.Proofs.Descent

/-
  Changes of a disk that are confined to what stands below
  one place.  Only directories are made outside, at the place
  or above it, and only where nothing stood.

  Key definitions include:
    * `IsBelow`
    * `Disk.Confines`
    * `Disk.Reaches`
    * `Disk.KeepsOutside`
    * `Path.OnWay`
    * `Path.Within`

  Main statements:
    * `Disk.Reaches.keepsOutside`
    * `Disk.reaches_makeDirectories`
    * `Disk.reaches_createFile`
    * `Disk.reaches_removeFile`
-/

namespace ArchiveRescue

------------------------------------------------------------
-- Places Below
------------------------------------------------------------

/- A place is below another one, and not that one itself. -/
def IsBelow (base place : Location) : Prop :=
  base <+: place ∧ place ≠ base

/- More names lead below a place. -/
theorem isBelow_append
    (base : Location)
    {rel : List String}
    (hSome : rel ≠ []) :
    IsBelow base (base ++ rel) :=
  ⟨List.prefix_append base rel,
    fun hSame => hSome (List.append_right_eq_self.mp hSame)⟩

/- The root is not below any place. -/
theorem IsBelow.ne_root
    {base place : Location}
    (hBelow : IsBelow base place) :
    place ≠ [] := by
  rintro rfl
  exact hBelow.2 (List.prefix_nil.mp hBelow.1).symm

namespace Disk

------------------------------------------------------------
-- Confined Changes
------------------------------------------------------------

/-
  The changes that are confined to a place: files are made,
  written and removed below it, and directories are made
  where nothing stands, below it, at it or above it.
-/
inductive Confines
    (d : Disk)
    (base : Location) : Change → Prop
| makeDirectory
    {place : Location}
    (hOnWay : place <+: base ∨ base <+: place)
    (hMissing : d.node? place = none) :
    Confines d base (.makeDirectory place)
| create
    {place : Location}
    (hBelow : IsBelow base place) :
    Confines d base (.create place)
| append
    {place : Location}
    (data : Bytes)
    (hBelow : IsBelow base place) :
    Confines d base (.append place data)
| remove
    {place : Location}
    (hBelow : IsBelow base place) :
    Confines d base (.remove place)

/- One confined change, made or refused. -/
def Moves (base : Location) (d e : Disk) : Prop :=
  ∃ change, d.Confines base change ∧ e = (d.perform change).2

/- Any number of confined changes, one after another. -/
def Reaches (base : Location) (d e : Disk) : Prop :=
  Relation.ReflTransGen (Moves base) d e

/-
  What does not stand below a place is the same on both
  disks, but for directories that lead to the place.
-/
def KeepsOutside (base : Location) (d e : Disk) : Prop :=
  ∀ place, ¬ IsBelow base place →
    e.node? place = d.node? place ∨
      place <+: base ∧ d.node? place = none ∧
        e.node? place = some .directory

section Keeping

variable {base : Location} {d e f : Disk}

theorem KeepsOutside.refl
    (base : Location)
    (d : Disk) :
    KeepsOutside base d d :=
  fun _ _ => .inl rfl

theorem KeepsOutside.trans
    (hFirst : KeepsOutside base d e)
    (hSecond : KeepsOutside base e f) :
    KeepsOutside base d f := by
  intro place hOutside
  rcases hFirst place hOutside with
    hSame | ⟨hPrefix, hNone, hMade⟩
  · rw [← hSame]
    exact hSecond place hOutside
  · rcases hSecond place hOutside with hSame | ⟨-, hGone, -⟩
    · exact .inr ⟨hPrefix, hNone, hSame.trans hMade⟩
    · rw [hMade] at hGone
      cases hGone

/- A change below a place is not seen outside. -/
theorem keepsOutside_of_below
    {there : Location}
    (hBelow : IsBelow base there)
    (hNodes :
      ∀ place, place ≠ there →
        e.node? place = d.node? place) :
    KeepsOutside base d e := by
  intro place hOutside
  refine .inl (hNodes place ?_)
  rintro rfl
  exact hOutside hBelow

/- What a confined change does outside. -/
theorem Confines.keepsOutside
    {change : Change}
    (hConfines : d.Confines base change) :
    KeepsOutside base d (d.apply change) := by
  unfold apply
  cases hConfines with
  | @makeDirectory there hOnWay hMissing =>
      have hRoot : there ≠ [] := by
        rintro rfl
        cases hMissing
      intro place hOutside
      dsimp only
      rw [node?_put d hRoot]
      split
      next hHere =>
        subst hHere
        refine .inr ⟨?_, hMissing, rfl⟩
        rcases hOnWay with hAbove | hThere
        · exact hAbove
        · rw [IsBelow, not_and_not_right] at hOutside
          rw [hOutside hThere]
      next => exact .inl rfl
  | create hBelow =>
      apply keepsOutside_of_below hBelow
      intro place hOther
      rw [node?_put d hBelow.ne_root, if_neg hOther]
  | append data hBelow =>
      dsimp only
      split
      · apply keepsOutside_of_below hBelow
        intro place hOther
        rw [node?_put d hBelow.ne_root, if_neg hOther]
      · exact .refl base d
  | remove hBelow =>
      apply keepsOutside_of_below hBelow
      intro place hOther
      rw [node?_erase d hBelow.ne_root, if_neg hOther]

/- The count of turns is no node. -/
theorem Moves.keepsOutside
    (hMoves : Moves base d e) :
    KeepsOutside base d e := by
  rcases hMoves with ⟨change, hConfines, rfl⟩
  unfold perform
  dsimp only
  split
  · exact fun _ _ => .inl rfl
  · have hTicked :
        Confines { d with turns := d.turns + 1 } base
          change := by
      cases hConfines with
      | makeDirectory hOnWay hMissing =>
          exact .makeDirectory hOnWay hMissing
      | create hBelow => exact .create hBelow
      | append data hBelow => exact .append data hBelow
      | remove hBelow => exact .remove hBelow
    exact hTicked.keepsOutside

/- Confined changes leave alone what stands outside. -/
theorem Reaches.keepsOutside
    (hReaches : d.Reaches base e) :
    KeepsOutside base d e := by
  induction hReaches with
  | refl => exact .refl base d
  | tail _ hMoves ih => exact ih.trans hMoves.keepsOutside

theorem Reaches.refl
    (base : Location)
    (d : Disk) :
    d.Reaches base d :=
  Relation.ReflTransGen.refl

theorem Reaches.trans
    (hFirst : d.Reaches base e)
    (hSecond : e.Reaches base f) :
    d.Reaches base f :=
  Relation.ReflTransGen.trans hFirst hSecond

/- A single change that is confined. -/
theorem Confines.reaches
    {change : Change}
    (hConfines : d.Confines base change) :
    d.Reaches base (d.perform change).2 :=
  Relation.ReflTransGen.single ⟨change, hConfines, rfl⟩

end Keeping

end Disk

------------------------------------------------------------
-- Paths
------------------------------------------------------------

namespace Path

variable {base : Location} {p q : Path}

/- A path that leads down to a place, or on from there. -/
structure OnWay (base : Location) (p : Path) : Prop where
  descends : p.Descends
  onWay : p.pieces <+: base ∨ base <+: p.pieces

/- A path that leads to where something may be put. -/
structure Within (base : Location) (p : Path) : Prop where
  descends : p.Descends
  below : IsBelow base p.pieces

theorem Within.onWay
    (hWithin : p.Within base) :
    p.OnWay base :=
  ⟨hWithin.descends, .inr hWithin.below.1⟩

/- What comes before a place on the way is on the way. -/
theorem OnWay.above
    (hOnWay : p.OnWay base)
    (hDescends : q.Descends)
    (hAbove : q.pieces <+: p.pieces) :
    q.OnWay base := by
  refine ⟨hDescends, ?_⟩
  rcases hOnWay.onWay with hPrefix | hPrefix
  · exact .inl (hAbove.trans hPrefix)
  · exact List.prefix_or_prefix_of_prefix hAbove hPrefix

end Path

------------------------------------------------------------
-- Operations
------------------------------------------------------------

namespace Disk

section Operations

variable {base : Location} {p : Path}

/- Making a directory on the way is confined. -/
theorem reaches_makeDirectory
    (d : Disk)
    (hOnWay : p.OnWay base) :
    d.Reaches base (d.makeDirectory p).2 := by
  unfold makeDirectory
  split
  · exact .refl base d
  next place hLocate =>
    split
    · exact .refl base d
    next hMissing =>
      rw [Option.not_isSome_iff_eq_none] at hMissing
      have hPlace :=
        locate_descends hOnWay.descends hLocate
      subst hPlace
      exact
        (Confines.makeDirectory hOnWay.onWay
          hMissing).reaches

/- So is making directories from above, one by one. -/
theorem reaches_makeDirectories
    (d : Disk)
    (hOnWay : p.OnWay base) :
    d.Reaches base (d.makeDirectories p).2 := by
  refine related_makeChain (.refl base) .trans ?_ d
  intro q hParent e
  rcases hOnWay.descends.ancestry q hParent with
    ⟨hDescends, hAbove⟩
  exact e.reaches_makeDirectory (hOnWay.above hDescends hAbove)

/- Files are created where they may be put. -/
theorem reaches_createFile
    (d : Disk)
    (hWithin : p.Within base) :
    d.Reaches base (d.createFile p).2 ∧
      ∀ place, (d.createFile p).1 = .ok place →
        IsBelow base place := by
  unfold createFile
  split
  · exact ⟨.refl base d, nofun⟩
  next place hLocate =>
    have hPlace := locate_descends hWithin.descends hLocate
    subst hPlace
    split
    · exact ⟨.refl base d, nofun⟩
    · have hCreate :=
        (Confines.create (d := d) hWithin.below).reaches
      split
      next hFailed =>
        rw [hFailed] at hCreate
        exact ⟨hCreate, nofun⟩
      next hMade =>
        rw [hMade] at hCreate
        refine ⟨hCreate, ?_⟩
        rintro place hSame
        cases hSame
        exact hWithin.below

/- And they are removed from there. -/
theorem reaches_removeFile
    (d : Disk)
    (hWithin : p.Within base) :
    d.Reaches base (d.removeFile p).2 := by
  unfold removeFile
  split
  · exact .refl base d
  next place hLocate =>
    have hPlace := locate_descends hWithin.descends hLocate
    subst hPlace
    split
    · exact .refl base d
    · exact .refl base d
    · split
      · exact .refl base d
      · exact (Confines.remove hWithin.below).reaches

/- Taking away a directory that was found to be empty. -/
theorem removeDirectory_eq
    {d : Disk}
    (hDescends : p.Descends)
    (hEmpty : d.isEmptyDirectory p = true) :
    d.removeDirectory p =
        d.perform (.removeDirectory p.pieces) ∧
      d.node? p.pieces = some .directory ∧
      d.children p.pieces = [] := by
  unfold isEmptyDirectory at hEmpty
  split at hEmpty
  next place hLocate =>
    have hPlace := locate_descends hDescends hLocate
    subst hPlace
    rw [Bool.and_eq_true, holdsDirectory, beq_iff_eq,
      List.isEmpty_iff] at hEmpty
    rcases hEmpty with ⟨hNode, hNone⟩
    refine ⟨?_, hNode, hNone⟩
    unfold removeDirectory
    rw [hLocate]
    dsimp only
    rw [hNode, hNone]
    rfl
  next => cases hEmpty

end Operations

end Disk

end ArchiveRescue
