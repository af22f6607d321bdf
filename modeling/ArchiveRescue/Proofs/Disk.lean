import Mathlib
import ArchiveRescue.Disk

/-
  What the operations of a disk leave alone, and where they
  put and take away nodes.

  Key definitions include:
    * `Trouble.KeepsWriting`
    * `Disk.SameSettings`

  Main statements:
    * `Disk.related_makeChain`
    * `Disk.settings_makeDirectories`
    * `Disk.settings_createFile`
    * `Disk.settings_removeFile`
    * `Disk.node?_put`
    * `Disk.node?_erase`
    * `Disk.makeChain_made`
    * `Disk.makeChain_failed`
    * `Disk.makeChain_missing`
-/

namespace ArchiveRescue

/- Files that could be opened can be written to. -/
def Trouble.KeepsWriting (trouble : Trouble) : Prop :=
  ∀ turn place data,
    trouble.refuses turn (.append place data) = none

namespace Disk

------------------------------------------------------------
-- Attempts
------------------------------------------------------------

section Attempts

variable {R : Disk → Disk → Prop}

/- Making sure of a directory is an attempt to make it. -/
theorem related_ensureDirectory
    {p : Path}
    (hMake : ∀ d, R d (d.makeDirectory p).2)
    (d : Disk) :
    R d (d.ensureDirectory p).2 := by
  have hTried := hMake d
  unfold ensureDirectory
  split
  next hMade => rwa [hMade] at hTried
  next hFailed =>
    rw [hFailed] at hTried
    split <;> exact hTried

/-
  What holds between the disks before and after every attempt
  to make a directory holds for chains of directories.
-/
theorem related_makeChain
    {chain : List Path}
    (hRefl : ∀ d, R d d)
    (hTrans : ∀ {d e f}, R d e → R e f → R d f)
    (hMake : ∀ p ∈ chain, ∀ d, R d (d.makeDirectory p).2)
    (d : Disk) :
    R d (d.makeChain chain).2 := by
  induction chain generalizing d with
  | nil => exact hRefl d
  | cons p parents ih =>
      have hFirst := hMake p List.mem_cons_self
      have hTried := hFirst d
      have hRest := ih fun q hParent =>
        hMake q (List.mem_cons_of_mem p hParent)
      unfold makeChain
      split
      · exact hRefl d
      · split
        next hMade => rwa [hMade] at hTried
        next tried hMissing =>
          rw [hMissing] at hTried
          have hParents := hTrans hTried (hRest tried)
          split
          next hFailed => rwa [hFailed] at hParents
          next ready hReady =>
            rw [hReady] at hParents
            exact hTrans hParents
              (related_ensureDirectory hFirst ready)
        next hFailed =>
          rw [hFailed] at hTried
          split <;> exact hTried

end Attempts

------------------------------------------------------------
-- Settings
------------------------------------------------------------

/-
  Two disks seen from the same directory, with the same
  trouble.
-/
structure SameSettings (d e : Disk) : Prop where
  workDir : e.workDir = d.workDir
  trouble : e.trouble = d.trouble

namespace SameSettings

/- Every disk has its own settings. -/
theorem refl (d : Disk) : SameSettings d d :=
  ⟨rfl, rfl⟩

/- Operations one after another keep the settings. -/
theorem trans
    {d e f : Disk}
    (hFirst : SameSettings d e)
    (hSecond : SameSettings e f) :
    SameSettings d f :=
  ⟨hSecond.workDir.trans hFirst.workDir,
    hSecond.trouble.trans hFirst.trouble⟩

end SameSettings

/- A change has no effect on the settings. -/
theorem settings_apply
    (d : Disk)
    (change : Change) :
    SameSettings d (d.apply change) := by
  unfold apply
  cases change with
  | append place more =>
      dsimp only
      split
      · exact ⟨rfl, rfl⟩
      · exact .refl d
  | makeDirectory place => exact ⟨rfl, rfl⟩
  | create place => exact ⟨rfl, rfl⟩
  | remove place => exact ⟨rfl, rfl⟩
  | removeDirectory place => exact ⟨rfl, rfl⟩

/- A change that is refused is only counted. -/
theorem perform_refused
    {d : Disk}
    {change : Change}
    {fault : Fault}
    (hRefuses :
      d.trouble.refuses d.turns change = some fault) :
    d.perform change =
      (.error fault, { d with turns := d.turns + 1 }) := by
  unfold perform
  rw [hRefuses]

/- Any other is made. -/
theorem perform_allowed
    {d : Disk}
    {change : Change}
    (hAllows : d.trouble.refuses d.turns change = none) :
    d.perform change =
      (.ok (),
        { d with turns := d.turns + 1 }.apply change) := by
  unfold perform
  rw [hAllows]

theorem settings_perform
    (d : Disk)
    (change : Change) :
    SameSettings d (d.perform change).2 := by
  have hTicked :
      SameSettings d { d with turns := d.turns + 1 } :=
    ⟨rfl, rfl⟩
  unfold perform
  dsimp only
  split
  · exact hTicked
  · exact hTicked.trans (settings_apply _ change)

theorem settings_makeDirectory
    (d : Disk)
    (p : Path) :
    SameSettings d (d.makeDirectory p).2 := by
  unfold makeDirectory
  split
  · exact .refl d
  · split
    · exact .refl d
    · exact d.settings_perform _

/- Making directories keeps the settings. -/
theorem settings_makeDirectories
    (d : Disk)
    (p : Path) :
    SameSettings d (d.makeDirectories p).2 :=
  related_makeChain .refl .trans
    (fun q _ e => e.settings_makeDirectory q) d

/- Creating and removing files keeps the settings. -/
theorem settings_createFile
    (d : Disk)
    (p : Path) :
    SameSettings d (d.createFile p).2 := by
  unfold createFile
  split
  · exact .refl d
  next place _ =>
    split
    · exact .refl d
    · have hCreate := d.settings_perform (.create place)
      split
      next hFailed => rwa [hFailed] at hCreate
      next hMade => rwa [hMade] at hCreate

theorem settings_removeFile
    (d : Disk)
    (p : Path) :
    SameSettings d (d.removeFile p).2 := by
  unfold removeFile
  split
  · exact .refl d
  · split
    · exact .refl d
    · exact .refl d
    · split
      · exact .refl d
      · exact d.settings_perform _

------------------------------------------------------------
-- Nodes
------------------------------------------------------------

/- Looking up after entries of one key were dropped. -/
theorem lookup_filter_ne
    (entries : List (Location × Node))
    (gone place : Location) :
    (entries.filter (fun e => e.1 != gone)).lookup place =
      if place = gone then none else entries.lookup place := by
  induction entries with
  | nil => simp
  | cons entry rest ih =>
      rcases entry with ⟨key, node⟩
      by_cases hKey : key = gone
      · subst hKey
        rw [List.filter_cons_of_neg (by simp), ih]
        by_cases hPlace : place = key
        · simp [hPlace]
        · simp [hPlace, List.lookup_cons, beq_false_of_ne]
      · rw [List.filter_cons_of_pos (by simpa using hKey)]
        by_cases hPlace : place = key
        · subst hPlace
          simp [hKey]
        · simp [List.lookup_cons, beq_false_of_ne hPlace, ih]

/- Nothing stands where something was taken away. -/
theorem node?_erase
    (d : Disk)
    {gone : Location}
    (hGone : gone ≠ [])
    (place : Location) :
    (d.erase gone).node? place =
      if place = gone then none else d.node? place := by
  unfold node? erase
  dsimp only
  rw [lookup_filter_ne]
  by_cases hRoot : place = []
  · subst hRoot
    simp [Ne.symm hGone]
  · simp [hRoot]

/- A node stands where it was put. -/
theorem node?_put
    (d : Disk)
    {there : Location}
    (hThere : there ≠ [])
    (node : Node)
    (place : Location) :
    (d.put there node).node? place =
      if place = there then some node else d.node? place := by
  unfold put node?
  dsimp only
  by_cases hRoot : place = []
  · subst hRoot
    simp [Ne.symm hThere]
  · by_cases hPlace : place = there
    · subst hPlace
      simp [hRoot]
    · rw [if_neg hRoot, List.lookup_cons,
        beq_false_of_ne hPlace]
      unfold erase
      dsimp only
      rw [lookup_filter_ne, if_neg hPlace, if_neg hPlace,
        if_neg hRoot]

/- Nothing stands where no entry is, except for the root. -/
theorem node?_eq_none
    {d : Disk}
    {place : Location}
    (hPlace : place ≠ [])
    (hAbsent : place ∉ d.entries.map Prod.fst) :
    d.node? place = none := by
  unfold node?
  rw [if_neg hPlace, List.lookup_eq_none_iff]
  intro entry hEntry
  rw [bne_iff_ne]
  rintro rfl
  exact hAbsent (List.mem_map_of_mem hEntry)

/- No file stands at the root. -/
theorem ne_root_of_file
    {d : Disk}
    {place : Location}
    {data : Bytes}
    {modified : Int}
    (hFile : d.node? place = some (.file data modified)) :
    place ≠ [] := by
  rintro rfl
  unfold node? at hFile
  rw [if_pos rfl] at hFile
  cases hFile

------------------------------------------------------------
-- Chains of Directories
------------------------------------------------------------

/- A directory that can be made ends its chain. -/
theorem makeChain_made
    {d made : Disk}
    {p : Path}
    (parents : List Path)
    (hPath : p.text ≠ "")
    (hMake : d.makeDirectory p = (.ok (), made)) :
    d.makeChain (p :: parents) = (.ok (), made) := by
  unfold makeChain
  rw [if_neg (by simpa using hPath), hMake]

/- So does one that cannot be made, unless it is there. -/
theorem makeChain_failed
    {d tried : Disk}
    {p : Path}
    (parents : List Path)
    {fault : Fault}
    (hPath : p.text ≠ "")
    (hMake : d.makeDirectory p = (.error fault, tried))
    (hFault : fault ≠ .system .noEntry) :
    d.makeChain (p :: parents) =
      if tried.isDirectory p then (.ok (), tried)
      else (.error fault, tried) := by
  unfold makeChain
  rw [if_neg (by simpa using hPath), hMake]
  split
  next hOk => cases hOk
  next hMissing =>
    cases hMissing
    exact (hFault rfl).elim
  next hOther =>
    cases hOther
    rfl

/-
  Where something in front is missing, the rest of the chain
  is made first and the directory is tried again.
-/
theorem makeChain_missing
    {d tried : Disk}
    {p : Path}
    (parents : List Path)
    (hPath : p.text ≠ "")
    (hMake :
      d.makeDirectory p =
        (.error (.system .noEntry), tried)) :
    d.makeChain (p :: parents) =
      match tried.makeChain parents with
      | (.error fault, later) => (.error fault, later)
      | (.ok (), ready) => ready.ensureDirectory p := by
  conv =>
    left
    unfold makeChain
  rewrite [if_neg (by simpa using hPath), hMake]
  rfl

end Disk

end ArchiveRescue
