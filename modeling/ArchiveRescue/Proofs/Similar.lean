import Mathlib
import ArchiveRescue.Proofs.Alike
import ArchiveRescue.Proofs.Growth

/-
  Disks that hold the same, except that some files end sooner
  on one of them.  Such files are left behind where the disk
  lets them be written but not removed, and nothing that is
  done elsewhere depends on them.

  Key definitions include:
    * `Trouble.Clings`
    * `Disk.Lacks`
    * `Disk.Similar`

  Main statements:
    * `Disk.Similar.isBisimulation`
    * `Disk.Similar.fileSize_eq`
    * `Disk.Similar.createFile_ok`
    * `Disk.Similar.removeFile_written`
-/

namespace ArchiveRescue

/- Files at the place can be written but not removed. -/
def Trouble.Clings
    (trouble : Trouble)
    (place : Location) : Prop :=
  (trouble.refuses 0 (.remove place)).isSome ∧
    ∃ data, trouble.refuses 0 (.append place data) = none

namespace Disk

------------------------------------------------------------
-- Similar Disks
------------------------------------------------------------

/-
  The same file stands at the place on both disks, but for
  some bytes at its end, which the second disk lacks.  They
  are no more than a walk holds back.
-/
def Lacks
    (d e : Disk)
    (place : Location) : Prop :=
  ∃ data held modified,
    d.node? place = some (.file (data ++ held) modified) ∧
      e.node? place = some (.file data modified) ∧
      held.length ≤ Walk.bufferSize

/-
  Two disks with the same trouble that hold the same, except
  for what the second lacks at some places.  These places are
  such that files cannot be removed there.
-/
structure Similar
    (trouble : Trouble)
    (loose : Location → Prop)
    (d e : Disk) : Prop where
  workDir : e.workDir = d.workDir
  first : d.trouble = trouble
  other : e.trouble = trouble
  steady : trouble.Steady
  clings : ∀ place, loose place → trouble.Clings place
  nodes :
    ∀ place,
      e.node? place = d.node? place ∨
        loose place ∧ d.Lacks e place

namespace Similar

variable {trouble : Trouble} {loose tight : Location → Prop}
variable {d e : Disk} {p : Path} {place : Location}

/- Every disk is similar to itself. -/
theorem refl
    (d : Disk)
    (hSteady : d.trouble.Steady) :
    Similar d.trouble (fun _ => False) d d where
  workDir := rfl
  first := rfl
  other := rfl
  steady := hSteady
  clings _ := False.elim
  nodes _ := .inl rfl

/- The same nodes stand at the other places. -/
theorem node?_eq
    (hSimilar : Similar trouble loose d e)
    (hTight : ¬ loose place) :
    e.node? place = d.node? place := by
  rcases hSimilar.nodes place with hSame | ⟨hLoose, -⟩
  · exact hSame
  · exact absurd hLoose hTight

/- Places with the same files need not be counted. -/
theorem tighten
    (hSimilar : Similar trouble loose d e)
    (hClings : ∀ place, tight place → trouble.Clings place)
    (hNodes :
      ∀ place, loose place → ¬ tight place →
        e.node? place = d.node? place) :
    Similar trouble tight d e where
  workDir := hSimilar.workDir
  first := hSimilar.first
  other := hSimilar.other
  steady := hSimilar.steady
  clings := hClings
  nodes place := by
    rcases hSimilar.nodes place with hSame | ⟨hLoose, hLacks⟩
    · exact .inl hSame
    · by_cases hTight : tight place
      · exact .inr ⟨hTight, hLacks⟩
      · exact .inl (hNodes place hLoose hTight)

/- How many changes were tried makes no difference. -/
theorem ticked
    (hSimilar : Similar trouble loose d e)
    (turns turns' : Nat) :
    Similar trouble loose { d with turns := turns }
      { e with turns := turns' } where
  workDir := hSimilar.workDir
  first := hSimilar.first
  other := hSimilar.other
  steady := hSimilar.steady
  clings := hSimilar.clings
  nodes := hSimilar.nodes

/- Neither does it for what is refused. -/
theorem refuses_eq
    (hSimilar : Similar trouble loose d e)
    (change : Change) :
    d.trouble.refuses d.turns change =
        trouble.refuses 0 change ∧
      e.trouble.refuses e.turns change =
        trouble.refuses 0 change := by
  rw [hSimilar.first, hSimilar.other]
  exact
    ⟨hSimilar.steady 0 d.turns change,
      hSimilar.steady 0 e.turns change⟩

end Similar

/- A node that is put or taken away is so at its place. -/
theorem node?_put_of_ne
    (d : Disk)
    (there : Location)
    (node : Node)
    {place : Location}
    (hPlace : place ≠ []) :
    (d.put there node).node? place =
      if place = there then some node else d.node? place := by
  by_cases hThere : there = []
  · subst hThere
    rw [if_neg hPlace]
    unfold put node?
    rw [if_neg hPlace, if_neg hPlace]
    dsimp only
    rw [List.lookup_cons, beq_false_of_ne hPlace]
    unfold erase
    dsimp only
    rw [lookup_filter_ne, if_neg hPlace]
  · exact d.node?_put hThere node place

theorem node?_erase_of_ne
    (d : Disk)
    (gone : Location)
    {place : Location}
    (hPlace : place ≠ []) :
    (d.erase gone).node? place =
      if place = gone then none else d.node? place := by
  unfold node? erase
  rw [if_neg hPlace, if_neg hPlace]
  dsimp only
  rw [lookup_filter_ne]

namespace Similar

variable {trouble : Trouble} {loose : Location → Prop}
variable {d e : Disk} {p : Path} {place : Location}

/- Nodes of the same kinds stand at the same places. -/
theorem kinds
    (hSimilar : Similar trouble loose d e)
    (place : Location) :
    Node.SameKind (d.node? place) (e.node? place) := by
  rcases hSimilar.nodes place with
    hSame | ⟨-, data, held, modified, hFile, hOther, -⟩
  · rw [hSame]
    exact .refl _
  · rw [hFile, hOther]
    exact .file (data ++ held) data modified modified

/- Putting the same node on both leaves them similar. -/
theorem put
    (hSimilar : Similar trouble loose d e)
    (place : Location)
    (node : Node) :
    Similar trouble loose (d.put place node)
      (e.put place node) where
  workDir := hSimilar.workDir
  first := hSimilar.first
  other := hSimilar.other
  steady := hSimilar.steady
  clings := hSimilar.clings
  nodes there := by
    by_cases hRoot : there = []
    · subst hRoot
      exact .inl rfl
    unfold Lacks
    rw [node?_put_of_ne d place node hRoot,
      node?_put_of_ne e place node hRoot]
    split
    · exact .inl rfl
    · exact hSimilar.nodes there

/- So does taking away what stands at a place. -/
theorem erase
    (hSimilar : Similar trouble loose d e)
    (gone : Location) :
    Similar trouble loose (d.erase gone)
      (e.erase gone) where
  workDir := hSimilar.workDir
  first := hSimilar.first
  other := hSimilar.other
  steady := hSimilar.steady
  clings := hSimilar.clings
  nodes there := by
    by_cases hRoot : there = []
    · subst hRoot
      exact .inl rfl
    unfold Lacks
    rw [node?_erase_of_ne d gone hRoot,
      node?_erase_of_ne e gone hRoot]
    split
    · exact .inl rfl
    · exact hSimilar.nodes there

/- So does every change, if it writes to no loose place. -/
theorem apply
    (hSimilar : Similar trouble loose d e)
    {change : Change}
    (hTight :
      ∀ place more, change = .append place more →
        ¬ loose place) :
    Similar trouble loose (d.apply change)
      (e.apply change) := by
  unfold Disk.apply
  cases change with
  | makeDirectory place => exact hSimilar.put place _
  | create place => exact hSimilar.put place _
  | remove place => exact hSimilar.erase place
  | removeDirectory place => exact hSimilar.erase place
  | append place more =>
      dsimp only
      rw [hSimilar.node?_eq (hTight place more rfl)]
      split
      · exact hSimilar.put place _
      · exact hSimilar

/- The same changes are refused. -/
theorem perform
    (hSimilar : Similar trouble loose d e)
    {change : Change}
    (hTight :
      ∀ place more, change = .append place more →
        ¬ loose place) :
    SameAfter (Similar trouble loose) (d.perform change)
      (e.perform change) := by
  rcases hSimilar.refuses_eq change with ⟨hFirst, hOther⟩
  have hTicked :=
    hSimilar.ticked (d.turns + 1) (e.turns + 1)
  unfold Disk.perform
  dsimp only
  rw [hFirst, hOther]
  split
  · exact ⟨rfl, hTicked⟩
  · exact ⟨rfl, hTicked.apply hTight⟩

/- The same is written to a file that is the same on both. -/
theorem append
    (hSimilar : Similar trouble loose d e)
    (hTight : ¬ loose place)
    (more : Bytes) :
    SameAfter (Similar trouble loose)
      (d.perform (.append place more))
      (e.perform (.append place more)) := by
  refine hSimilar.perform ?_
  rintro there data ⟨⟩
  exact hTight

/- So every other operation goes the same way on both. -/
theorem isBisimulation :
    IsBisimulation (Similar trouble loose) where
  workDir := Similar.workDir
  kinds := Similar.kinds
  perform hSimilar _ hOther :=
    hSimilar.perform fun place more hSame =>
      absurd hSame (hOther place more)

/- Files at the other places have the same size. -/
theorem fileSize_eq
    (hSimilar : Similar trouble loose d e)
    (hLeads : d.locate p = .ok place)
    (hTight : ¬ loose place) :
    e.fileSize p = d.fileSize p := by
  unfold fileSize look
  rw [isBisimulation.locate_eq hSimilar, hLeads]
  dsimp only
  rw [hSimilar.node?_eq hTight]

/- A tape that is kept elsewhere sees the same. -/
theorem refresh_eq
    (hSimilar : Similar trouble loose d e)
    {t : Tape}
    (hApart :
      ∀ place, t.medium = .file (some place) →
        ¬ loose place) :
    e.refresh t = d.refresh t := by
  unfold refresh
  split
  next place hMedium =>
    rw [hSimilar.node?_eq (hApart place hMedium)]
  next => rfl

/- A file that is created is the same on both. -/
theorem createFile_ok
    {made : Disk}
    (hSimilar : Similar trouble loose d e)
    (hCreate : d.createFile p = (.ok place, made)) :
    ∃ made',
      e.createFile p = (.ok place, made') ∧
        Similar trouble
          (fun there => loose there ∧ there ≠ place)
          made made' := by
  have hAfter := isBisimulation.createFile hSimilar p
  rcases hOther : e.createFile p with ⟨reply, made'⟩
  rw [hCreate, hOther] at hAfter
  rcases hAfter with ⟨rfl, hMade⟩
  refine ⟨made', rfl, hMade.tighten ?_ ?_⟩
  · exact fun there hLoose => hMade.clings there hLoose.1
  · intro there hLoose hTight
    have hThere : there = place := by
      by_contra hNe
      exact hTight ⟨hLoose, hNe⟩
    rw [(node?_of_createFile hCreate).2.2.2,
      (node?_of_createFile hOther).2.2.2,
      if_pos hThere, if_pos hThere]

end Similar

------------------------------------------------------------
-- Files That Are Given Up
------------------------------------------------------------

section GivingUp

variable {trouble : Trouble} {loose : Location → Prop}
variable {d e : Disk} {p : Path} {place : Location}

/- The file that a path leads to is the one removed. -/
theorem Aims.removeFile_eq
    (hAims : Aims p place d)
    (hPlain : p.endsWithSlash = false) :
    d.removeFile p = d.perform (.remove place) := by
  rcases hAims.file with ⟨data, modified, hFile⟩
  unfold removeFile
  rw [hAims.leads]
  dsimp only
  rw [hFile, hPlain]
  rfl

/- The path leads to a file on similar disks, too. -/
theorem Aims.of_similar
    (hAims : Aims p place d)
    (hSimilar : Similar trouble loose d e) :
    Aims p place e := by
  refine ⟨?_, ?_⟩
  · rw [Similar.isBisimulation.locate_eq hSimilar]
    exact hAims.leads
  · rcases hAims.file with ⟨data, modified, hFile⟩
    have hKind := hSimilar.kinds place
    rw [hFile] at hKind
    generalize e.node? place = other at hKind ⊢
    cases hKind with
    | file => exact ⟨_, _, rfl⟩

/- What only one disk writes to a file makes it loose. -/
theorem Similar.written
    {more : Bytes}
    (hSimilar : Similar trouble loose d e)
    (hTight : ¬ loose place)
    (hAims : Aims p place d)
    (hClings : trouble.Clings place)
    (hSmall : more.length ≤ Walk.bufferSize) :
    Similar trouble
      (fun there => loose there ∨ there = place)
      (d.perform (.append place more)).2 e := by
  have hSettings := d.settings_perform (.append place more)
  have hOthers : ∀ there, there ≠ place →
      (d.perform (.append place more)).2.node? there =
        d.node? there :=
    fun there => d.node?_append_of_ne place more
  have hHere :
      e.node? place =
          (d.perform (.append place more)).2.node? place ∨
        (d.perform (.append place more)).2.Lacks e place := by
    rcases hAims.file with ⟨data, modified, hFile⟩
    have hSame := hSimilar.node?_eq hTight
    cases hRefuses :
        d.trouble.refuses d.turns (.append place more) with
    | some fault =>
        rw [perform_refused hRefuses]
        exact .inl hSame
    | none =>
        have hAppend := perform_allowed hRefuses
        rw [hAppend]
        exact
          .inr
            ⟨data, more, modified,
              node?_of_append hFile hAppend,
              hSame.trans hFile, hSmall⟩
  refine
    ⟨hSimilar.workDir.trans hSettings.workDir.symm,
      hSettings.trouble.trans hSimilar.first,
      hSimilar.other, hSimilar.steady, ?_, ?_⟩
  · rintro there (hLoose | rfl)
    · exact hSimilar.clings there hLoose
    · exact hClings
  · intro there
    by_cases hThere : there = place
    · subst hThere
      exact hHere.imp_right fun hLacks => ⟨.inr rfl, hLacks⟩
    · unfold Lacks
      rw [hOthers there hThere]
      exact
        (hSimilar.nodes there).imp_right (And.imp_left .inl)

/- It is gone with the file. -/
theorem Similar.erase_written
    (hSimilar : Similar trouble loose d e)
    (hAims : Aims p place d)
    (more : Bytes)
    (turns turns' : Nat) :
    Similar trouble loose
      ({ (d.perform (.append place more)).2 with
        turns := turns }.erase place)
      ({ e with turns := turns' }.erase place) := by
  have hSpares := (spares_append hAims more).1
  have hPlace : place ≠ [] := by
    rcases hAims.file with ⟨data, modified, hFile⟩
    exact ne_root_of_file hFile
  refine
    ⟨hSimilar.workDir.trans hSpares.settings.workDir.symm,
      hSpares.settings.trouble.trans hSimilar.first,
      hSimilar.other, hSimilar.steady, hSimilar.clings, ?_⟩
  intro there
  unfold Lacks
  rw [node?_erase _ hPlace, node?_erase _ hPlace]
  split
  · exact .inl rfl
  next hThere =>
    have hSame := d.node?_append_of_ne place more hThere
    exact hSame ▸ hSimilar.nodes there

/-
  A file that is to be removed may be written to before, on
  one of the disks only.  Then it is gone from both, or it
  could not be removed and its place is loose.
-/
theorem Similar.removeFile_written
    {more : Bytes}
    (hSimilar : Similar trouble loose d e)
    (hTight : ¬ loose place)
    (hAims : Aims p place d)
    (hPlain : p.endsWithSlash = false)
    (hSmall : more.length ≤ Walk.bufferSize) :
    ∃ worse : Location → Prop,
      (∀ there, worse there →
        loose there ∨ there = place) ∧
      SameAfter (Similar trouble worse)
        ((d.perform (.append place more)).2.removeFile p)
        (e.removeFile p) := by
  by_cases hClings : trouble.Clings place
  · -- The file may stay, with what was written.
    exact
      ⟨_, fun _ hLoose => hLoose,
        isBisimulation.removeFile
          (hSimilar.written hTight hAims hClings hSmall) p⟩
  cases hRemoves : trouble.refuses 0 (.remove place) with
  | none =>
      -- The file goes, and what was written goes with it.
      have hPerform : ∀ f : Disk, f.trouble = trouble →
          f.perform (.remove place) =
            (.ok (),
              { f with turns := f.turns + 1 }.erase
                place) := by
        intro f hSame
        refine perform_allowed ?_
        rw [hSame, hSimilar.steady 0, hRemoves]
      rcases spares_append hAims more with ⟨hSpares, hLater⟩
      have hTrouble :=
        hSpares.settings.trouble.trans hSimilar.first
      rw [hLater.removeFile_eq hPlain,
        (hAims.of_similar hSimilar).removeFile_eq hPlain,
        hPerform _ hTrouble, hPerform e hSimilar.other]
      exact
        ⟨loose, fun _ => .inl, rfl,
          hSimilar.erase_written hAims more _ _⟩
  | some fault =>
      -- So nothing was written.
      have hAppend :=
        (hSimilar.refuses_eq (.append place more)).1
      cases hWrites :
          trouble.refuses 0 (.append place more) with
      | none =>
          refine absurd ⟨?_, more, hWrites⟩ hClings
          rw [hRemoves]
          rfl
      | some other =>
          rw [hWrites] at hAppend
          rw [perform_refused hAppend]
          exact
            ⟨loose, fun _ => .inl,
              isBisimulation.removeFile
                (hSimilar.ticked (d.turns + 1) e.turns) p⟩

end GivingUp

end Disk

end ArchiveRescue
