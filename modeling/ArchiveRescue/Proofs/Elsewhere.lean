import Mathlib
import ArchiveRescue.Proofs.Alike
import ArchiveRescue.Proofs.Source

/-
  Disks that differ in nothing but the file at one place.
  Whatever was done to that file, emptying it makes the disks
  alike again, and everything elsewhere is read as before.

  Key definitions include:
    * `Disk.Admits`
    * `Disk.SameElsewhere`
    * `Disk.AltersOnly`

  Main statements:
    * `Disk.SameElsewhere.node?_eq`
    * `Disk.SameElsewhere.createFile`
    * `Disk.SameElsewhere.append`
    * `Disk.SameElsewhere.removeFile`
    * `Disk.SameElsewhere.alike_createFile`
-/

namespace ArchiveRescue

/- Where nothing is refused, it does not matter when. -/
theorem Trouble.Permits.steady
    {trouble : Trouble}
    (hPermits : trouble.Permits) :
    trouble.Steady := by
  intro sooner later change
  rw [hPermits, hPermits]

namespace Disk

------------------------------------------------------------
-- Places for Files
------------------------------------------------------------

/-
  The path leads to a place where a file can be created, as
  far as the nodes of the disk are concerned.
-/
structure Admits
    (d : Disk)
    (p : Path)
    (place : Location) : Prop where
  leads : d.locate p = .ok place
  free : d.holdsDirectory place = false
  plain : p.endsWithSlash = false

/- Only there a file is created. -/
theorem admits_of_createFile
    {d made : Disk}
    {p : Path}
    {place : Location}
    (hCreate : d.createFile p = (.ok place, made)) :
    d.Admits p place := by
  rcases node?_of_createFile hCreate with
    ⟨hLeads, hFree, hPlain, -⟩
  exact ⟨hLeads, beq_eq_false_iff_ne.mpr hFree, hPlain⟩

/- The root is no such place. -/
theorem ne_root_of_free
    {d : Disk}
    {place : Location}
    (hFree : d.holdsDirectory place = false) :
    place ≠ [] := by
  rintro rfl
  cases hFree

/- It is created, if no change is refused. -/
theorem Admits.createFile_eq
    {d : Disk}
    {p : Path}
    {place : Location}
    (hAdmits : d.Admits p place)
    (hPermits : d.trouble.Permits) :
    d.createFile p =
      (.ok place,
        { d with turns := d.turns + 1 }.put place
          (.file [] 0)) := by
  unfold createFile
  rw [hAdmits.leads]
  dsimp only
  rw [hAdmits.free, hAdmits.plain,
    perform_eq hPermits (.create place)]
  rfl

------------------------------------------------------------
-- Differences at One Place
------------------------------------------------------------

/- What is put at a place is taken away with the rest. -/
theorem erase_put
    (d : Disk)
    (place : Location)
    (node : Node) :
    (d.put place node).erase place = d.erase place := by
  unfold put erase
  simp [List.filter_filter]

theorem erase_erase
    (d : Disk)
    (place : Location) :
    (d.erase place).erase place = d.erase place := by
  unfold erase
  simp [List.filter_filter]

/-
  The disks are alike, except for what stands at one place,
  and no directory has got there.
-/
structure SameElsewhere
    (place : Location)
    (d e : Disk) : Prop where
  rest : (d.erase place).Alike (e.erase place)
  free : e.holdsDirectory place = false

namespace SameElsewhere

variable {place : Location} {d e f : Disk} {p : Path}

theorem refl
    (hFree : d.holdsDirectory place = false) :
    SameElsewhere place d d :=
  ⟨.refl _, hFree⟩

theorem trans
    (hFirst : SameElsewhere place d e)
    (hSecond : SameElsewhere place e f) :
    SameElsewhere place d f :=
  ⟨hFirst.rest.trans hSecond.rest, hSecond.free⟩

theorem symm
    (hFree : d.holdsDirectory place = false)
    (hSame : SameElsewhere place d e) :
    SameElsewhere place e d :=
  ⟨hSame.rest.symm, hFree⟩

/- The settings are the same. -/
theorem settings (hSame : SameElsewhere place d e) :
    d.SameSettings e :=
  ⟨hSame.rest.workDir, hSame.rest.trouble⟩

/- So is every node elsewhere. -/
theorem node?_eq
    (hSame : SameElsewhere place d e)
    {there : Location}
    (hThere : there ≠ place) :
    e.node? there = d.node? there := by
  have hPlace := ne_root_of_free hSame.free
  have hNode := hSame.rest.node?_eq there
  rwa [node?_erase e hPlace, node?_erase d hPlace,
    if_neg hThere, if_neg hThere] at hNode

/- Paths lead where they led. -/
theorem locate
    (hSame : SameElsewhere place d e)
    (hFree : d.holdsDirectory place = false)
    {q : Path}
    {there : Location}
    (hLeads : d.locate q = .ok there) :
    e.locate q = .ok there := by
  refine locate_grown ?_ hSame.settings hLeads
  intro here hHere
  rw [hSame.node?_eq, hHere]
  rintro rfl
  unfold holdsDirectory at hFree
  rw [hHere] at hFree
  cases hFree

/- A place for a file stays one. -/
theorem admits
    (hSame : SameElsewhere place d e)
    (hAdmits : d.Admits p place) :
    e.Admits p place :=
  ⟨hSame.locate hAdmits.free hAdmits.leads, hSame.free,
    hAdmits.plain⟩

/- Counting changes and openings makes no difference. -/
theorem of_ticks
    (hFree : d.holdsDirectory place = false)
    (hSteady : d.trouble.Steady)
    (hTicks : d.Ticks e) :
    SameElsewhere place d e where
  rest :=
    { entries := by
        unfold erase
        rw [hTicks.entries]
      workDir := hTicks.settings.workDir
      trouble := hTicks.settings.trouble
      turns := .inr hSteady }
  free := by
    unfold holdsDirectory at hFree ⊢
    rwa [hTicks.node?_eq]

end SameElsewhere

/-
  Nothing is altered but the file that the path leads to, on
  disks on which it does not matter when changes are made.
-/
def AltersOnly
    (p : Path)
    (d e : Disk) : Prop :=
  ∀ place, d.Admits p place → d.trouble.Steady →
    SameElsewhere place d e

namespace AltersOnly

variable {p : Path} {d e f : Disk}

theorem refl
    (p : Path)
    (d : Disk) :
    AltersOnly p d d :=
  fun _ hAdmits _ => .refl hAdmits.free

theorem trans
    (hFirst : AltersOnly p d e)
    (hSecond : AltersOnly p e f) :
    AltersOnly p d f := by
  intro place hAdmits hSteady
  have hSame := hFirst place hAdmits hSteady
  exact hSame.trans
    (hSecond place (hSame.admits hAdmits)
      (hSame.settings.trouble ▸ hSteady))

theorem of_ticks
    (p : Path)
    (hTicks : d.Ticks e) :
    AltersOnly p d e :=
  fun _ hAdmits hSteady =>
    .of_ticks hAdmits.free hSteady hTicks

end AltersOnly

------------------------------------------------------------
-- Changes at the Place
------------------------------------------------------------

section Changes

variable {d : Disk} {p : Path} {place : Location}

/- A change makes a difference at its place only. -/
theorem alike_perform
    (d : Disk)
    (hSteady : d.trouble.Steady)
    (change : Change) :
    (d.erase change.place).Alike
      ((d.perform change).2.erase change.place) := by
  have hTicked :
      (d.erase change.place).Alike
        ({ d with turns := d.turns + 1 }.erase
          change.place) :=
    ⟨rfl, rfl, rfl, .inr hSteady⟩
  unfold perform
  dsimp only
  split
  · exact hTicked
  · unfold apply
    cases change with
    | makeDirectory place =>
        dsimp only [Change.place] at hTicked ⊢
        rwa [erase_put]
    | create place =>
        dsimp only [Change.place] at hTicked ⊢
        rwa [erase_put]
    | append place more =>
        dsimp only [Change.place] at hTicked ⊢
        split
        · rwa [erase_put]
        · exact hTicked
    | remove place =>
        dsimp only [Change.place] at hTicked ⊢
        rwa [erase_erase]
    | removeDirectory place =>
        dsimp only [Change.place] at hTicked ⊢
        rwa [erase_erase]

/- So does creating the file. -/
theorem SameElsewhere.createFile
    (hAdmits : d.Admits p place)
    (hSteady : d.trouble.Steady) :
    SameElsewhere place d (d.createFile p).2 := by
  have hPlace := ne_root_of_free hAdmits.free
  have hRest := d.alike_perform hSteady (.create place)
  have hFree :
      (d.perform (.create place)).2.holdsDirectory place =
        false := by
    unfold perform
    dsimp only
    split
    · exact hAdmits.free
    · unfold holdsDirectory apply
      dsimp only
      rw [node?_put _ hPlace, if_pos rfl]
      rfl
  unfold Disk.createFile
  rw [hAdmits.leads]
  dsimp only
  rw [hAdmits.free, hAdmits.plain, if_neg (by decide)]
  split
  next hRefused =>
    rw [hRefused] at hRest hFree
    exact ⟨hRest, hFree⟩
  next hMade =>
    rw [hMade] at hRest hFree
    exact ⟨hRest, hFree⟩

/- So does writing to it. -/
theorem SameElsewhere.append
    (hAdmits : d.Admits p place)
    (hSteady : d.trouble.Steady)
    (more : Bytes) :
    SameElsewhere place d
      (d.perform (.append place more)).2 := by
  have hPlace := ne_root_of_free hAdmits.free
  refine ⟨d.alike_perform hSteady (.append place more), ?_⟩
  unfold perform
  dsimp only
  split
  · exact hAdmits.free
  · unfold apply
    dsimp only
    split
    · unfold holdsDirectory
      rw [node?_put _ hPlace, if_pos rfl]
      rfl
    · exact hAdmits.free

/- So does removing it. -/
theorem SameElsewhere.removeFile
    (hAdmits : d.Admits p place)
    (hSteady : d.trouble.Steady) :
    SameElsewhere place d (d.removeFile p).2 := by
  have hPlace := ne_root_of_free hAdmits.free
  unfold Disk.removeFile
  rw [hAdmits.leads]
  dsimp only
  split
  · exact .refl hAdmits.free
  · exact .refl hAdmits.free
  · rw [hAdmits.plain, if_neg (by decide)]
    refine ⟨d.alike_perform hSteady (.remove place), ?_⟩
    unfold perform
    dsimp only
    split
    · exact hAdmits.free
    · unfold holdsDirectory apply
      dsimp only
      rw [node?_erase _ hPlace, if_pos rfl]
      rfl

/-
  Emptying the file makes disks alike again that differed at
  its place.
-/
theorem SameElsewhere.alike_createFile
    {e : Disk}
    (hAdmits : d.Admits p place)
    (hPermits : d.trouble.Permits)
    (hSame : SameElsewhere place d e) :
    ∃ made made',
      d.createFile p = (.ok place, made) ∧
        e.createFile p = (.ok place, made') ∧
        made.Alike made' := by
  have hOther : e.trouble.Permits :=
    hSame.settings.trouble ▸ hPermits
  refine
    ⟨_, _, hAdmits.createFile_eq hPermits,
      (hSame.admits hAdmits).createFile_eq hOther, ?_⟩
  constructor
  · unfold put
    exact congrArg ((place, .file [] 0) :: ·)
      hSame.rest.entries
  · exact hSame.settings.workDir
  · exact hSame.settings.trouble
  · exact .inr hPermits.steady

end Changes

end Disk

end ArchiveRescue
