import Mathlib
import ArchiveRescue.Proofs.Tree

/-
  Absolute paths that never lead upwards.  Such a path leads
  to the place that its pieces name, on every disk on which
  it leads anywhere, and its parents lead to places above.

  Key definitions include:
    * `Path.Descends`
    * `Disk.named`
    * `Disk.IsTree`

  Main statements:
    * `Path.pieces_join`
    * `Path.Descends.parent`
    * `Path.Descends.ancestry`
    * `Path.pieces_absolute`
    * `Ustar.descends_target`
    * `Disk.follow_of_absolute`
    * `Disk.locate_descends`
    * `Disk.IsTree.absolute`
    * `Disk.IsTree.isDirectory`
-/

namespace ArchiveRescue

namespace Path

------------------------------------------------------------
-- Pieces
------------------------------------------------------------

/- Steps that lead nowhere are no pieces. -/
theorem filter_idle
    {idle : List String}
    (hIdle : ∀ step ∈ idle, isPiece step = false) :
    idle.filter isPiece = [] := by
  rw [List.filter_eq_nil_iff]
  intro step hStep
  rw [hIdle step hStep]
  exact Bool.false_ne_true

/- A slash at the end is no piece either. -/
theorem pieces_trunk (p : Path) :
    p.trunk.pieces = p.pieces := by
  rcases p.steps_trunk with ⟨idle, hSteps, hIdle⟩
  unfold pieces
  rw [hSteps, List.filter_append, filter_idle hIdle,
    List.append_nil]

/- The pieces of joined paths. -/
theorem pieces_join
    {p q : Path}
    (hAbsolute : p.isAbsolute = true)
    (hRelative : q.isAbsolute = false) :
    (p.join q).pieces = p.pieces ++ q.pieces := by
  rw [← p.pieces_trunk]
  unfold pieces
  rw [steps_join hAbsolute hRelative, List.filter_append]

/- The pieces of a path made of parts below the root. -/
theorem pieces_rooted
    {parts : List String}
    (hWhole : ∀ part ∈ parts, '/' ∉ part.toList) :
    pieces ⟨"/" ++ "/".intercalate parts⟩ =
      parts.filter isPiece := by
  by_cases hNone : parts = []
  · subst hNone
    rfl
  · unfold pieces
    rw [steps_rooted hNone hWhole]
    rfl

theorem isAbsolute_rooted (rest : String) :
    isAbsolute ⟨"/" ++ rest⟩ = true := by
  simp [isAbsolute]

/- Appending pieces one after another. -/
theorem pieces_extend
    {p : Path}
    {names : List String}
    (hAbsolute : p.isAbsolute = true)
    (hPieces : ∀ name ∈ names, isPiece name = true)
    (hWhole : ∀ name ∈ names, '/' ∉ name.toList) :
    (p.extend names).pieces = p.pieces ++ names := by
  induction names generalizing p with
  | nil => exact (List.append_nil _).symm
  | cons name rest ih =>
      have hName : ofPieces [name] = ⟨name⟩ := by
        unfold ofPieces
        rw [String.intercalate_singleton]
      have hPiece : ∀ part ∈ [name], isPiece part = true := by
        simpa using hPieces name List.mem_cons_self
      have hOne : ∀ part ∈ [name], '/' ∉ part.toList := by
        simpa using hWhole name List.mem_cons_self
      have hRelative :=
        isAbsolute_ofPieces (List.cons_ne_nil name []) hPiece
          hOne
      have hHere :=
        pieces_ofPieces (List.cons_ne_nil name []) hPiece hOne
      rw [hName] at hRelative hHere
      have hRest :=
        ih (p := p.join ⟨name⟩) (isAbsolute_join _ hAbsolute)
          (fun part hPart =>
            hPieces part (List.mem_cons_of_mem name hPart))
          (fun part hPart =>
            hWhole part (List.mem_cons_of_mem name hPart))
      change ((p.join ⟨name⟩).extend rest).pieces = _
      rw [hRest, pieces_join hAbsolute hRelative, hHere,
        List.append_assoc, List.singleton_append]

/- The pieces of the absolute form of a path. -/
theorem pieces_absolute
    {p base full : Path}
    (hBase : base.isAbsolute = true)
    (hFull : p.absolute base = .ok full) :
    full.pieces =
      (if p.isAbsolute then [] else base.pieces) ++
        p.pieces := by
  have hStart : ∀ start : Path,
      start.isAbsolute = true →
        (start.extend p.pieces).pieces =
          start.pieces ++ p.pieces := by
    intro start hStart
    exact
      pieces_extend hStart
        (fun piece hPiece => (List.mem_filter.mp hPiece).2)
        (fun piece hPiece => slash_notMem_pieces hPiece)
  have hSlash : ∀ start : Path, start.isAbsolute = true →
      (if p.endsWithSlash then
          (start.extend p.pieces).join ⟨""⟩
        else start.extend p.pieces).pieces =
        start.pieces ++ p.pieces := by
    intro start hAbsolute
    rw [← hStart start hAbsolute]
    split
    · have hExtend := isAbsolute_extend p.pieces hAbsolute
      rw [pieces_join hExtend rfl]
      exact List.append_nil _
    · rfl
  unfold absolute at hFull
  split at hFull
  · cases hFull
  · cases hFull
    rw [hSlash]
    · unfold isAbsolute
      split
      next hText =>
        rw [hText]
        rfl
      next hText =>
        rw [hText]
        rfl
      next hText =>
        rw [hText]
        rfl
      next hOther =>
        have hRelative :
            (p.text.toList.head? == some '/') = false := by
          cases hText : p.text.toList with
          | nil => rfl
          | cons c rest =>
              rw [List.head?_cons, beq_eq_false_iff_ne]
              intro hSlash
              cases hSlash
              exact hOther rest hText
        rw [hRelative]
        rfl
    · split
      · rfl
      · rfl
      · rfl
      · exact hBase

------------------------------------------------------------
-- Ways Down
------------------------------------------------------------

/- An absolute path without a part that leads upwards. -/
structure Descends (p : Path) : Prop where
  absolute : p.isAbsolute = true
  down : ".." ∉ p.pieces

namespace Descends

variable {p q : Path}

/- The parent of such a path is one, and leads less far. -/
theorem parent
    (hDescends : p.Descends)
    (hParent : p.parent? = some q) :
    q.Descends ∧ q.pieces <+: p.pieces := by
  rcases steps_of_isAbsolute hDescends.absolute with
    ⟨rest, hTrunk⟩
  rcases p.steps_trunk with ⟨idle, hSteps, -⟩
  rw [hTrunk, List.cons_append] at hSteps
  have hKept : ∀ parts, dropIdle true parts <+: parts := by
    intro parts
    rcases exists_dropIdle true parts with
      ⟨dropped, hParts, -⟩
    exact ⟨dropped, hParts.symm⟩
  have hPrefix : q.isAbsolute = true ∧
      q.pieces <+: p.pieces := by
    unfold parent? at hParent
    rw [hDescends.absolute, hSteps] at hParent
    simp only [if_true, List.drop_one, List.tail_cons]
      at hParent
    split at hParent
    · cases hParent
    · cases hParent
      have hAbove :
          dropIdle true
              (dropIdle true (rest ++ idle)).dropLast <+:
            rest ++ idle :=
        (hKept _).trans
          ((List.dropLast_prefix _).trans (hKept _))
      refine ⟨isAbsolute_rooted _, ?_⟩
      rw [pieces_rooted]
      · unfold pieces
        rw [hSteps]
        exact hAbove.filter isPiece
      · intro part hPart
        apply slash_notMem_steps (p := p)
        rw [hSteps]
        exact
          List.mem_cons_of_mem "" (hAbove.subset hPart)
  exact
    ⟨⟨hPrefix.1,
      fun hUp => hDescends.down (hPrefix.2.subset hUp)⟩,
      hPrefix.2⟩

/- So are all its parents. -/
theorem ancestryUpTo
    (hDescends : p.Descends)
    (fuel : Nat) :
    ∀ q ∈ ancestryUpTo fuel p,
      q.Descends ∧ q.pieces <+: p.pieces := by
  induction fuel generalizing p with
  | zero =>
      intro q hMem
      rw [List.mem_singleton.mp hMem]
      exact ⟨hDescends, List.prefix_rfl⟩
  | succ fuel ih =>
      intro q hMem
      unfold Path.ancestryUpTo at hMem
      split at hMem
      · rw [List.mem_singleton.mp hMem]
        exact ⟨hDescends, List.prefix_rfl⟩
      next parent hParent =>
        rcases List.mem_cons.mp hMem with rfl | hAbove
        · exact ⟨hDescends, List.prefix_rfl⟩
        · rcases hDescends.parent hParent with
            ⟨hLater, hPrefix⟩
          rcases ih hLater q hAbove with
            ⟨hLast, hShorter⟩
          exact ⟨hLast, hShorter.trans hPrefix⟩

theorem ancestry
    (hDescends : p.Descends) :
    ∀ q ∈ p.ancestry, q.Descends ∧ q.pieces <+: p.pieces :=
  hDescends.ancestryUpTo p.text.length

end Descends

end Path

------------------------------------------------------------
-- Targets
------------------------------------------------------------

/- A safe name has pieces, and none that leads upwards. -/
theorem Ustar.pieces_of_isSafe
    {name : Path}
    (hSafe : Ustar.isSafe name = true) :
    name.pieces ≠ [] ∧ ".." ∉ name.pieces := by
  unfold isSafe at hSafe
  simp only [Bool.and_eq_true, Bool.not_eq_true',
    List.isEmpty_eq_false_iff] at hSafe
  refine ⟨hSafe.1.2, fun hUp => ?_⟩
  have hFound := hSafe.2
  rw [List.contains_iff_mem.mpr hUp] at hFound
  cases hFound

/- A checked name leads down from a directory by its pieces. -/
theorem Ustar.pieces_target
    {directory target : Path}
    {name : String}
    (hAbsolute : directory.isAbsolute = true)
    (hTarget : Ustar.target directory name true = .ok target) :
    Ustar.isSafe ⟨name⟩ = true ∧
      target.isAbsolute = true ∧
      target.pieces =
        directory.pieces ++ Path.pieces ⟨name⟩ := by
  unfold Ustar.target at hTarget
  rw [if_pos rfl] at hTarget
  split at hTarget
  next hSafe =>
    cases hTarget
    rcases pieces_of_isSafe hSafe with ⟨hSome, -⟩
    have hPieces : ∀ piece ∈ Path.pieces ⟨name⟩,
        Path.isPiece piece = true :=
      fun _ hPiece => (List.mem_filter.mp hPiece).2
    have hWhole : ∀ piece ∈ Path.pieces ⟨name⟩,
        '/' ∉ piece.toList :=
      fun _ hPiece => Path.slash_notMem_pieces hPiece
    have hJoin :=
      Path.pieces_join hAbsolute
        (Path.isAbsolute_ofPieces hSome hPieces hWhole)
    rw [Path.pieces_ofPieces hSome hPieces hWhole] at hJoin
    exact ⟨hSafe, Path.isAbsolute_join _ hAbsolute, hJoin⟩
  next => cases hTarget

/- And by at least one piece. -/
theorem Ustar.descends_target
    {directory target : Path}
    {name : String}
    (hDirectory : directory.Descends)
    (hTarget : Ustar.target directory name true = .ok target) :
    target.Descends ∧
      ∃ rel, rel ≠ [] ∧
        target.pieces = directory.pieces ++ rel := by
  rcases pieces_target hDirectory.absolute hTarget with
    ⟨hSafe, hAbsolute, hPieces⟩
  rcases pieces_of_isSafe hSafe with ⟨hSome, hDown⟩
  refine ⟨⟨hAbsolute, ?_⟩, _, hSome, hPieces⟩
  rw [hPieces, List.mem_append, not_or]
  exact ⟨hDirectory.down, hDown⟩

namespace Disk

------------------------------------------------------------
-- Places Below
------------------------------------------------------------

section Descending

variable {d e : Disk} {here there : Location}
variable {names : List String}

/- One step that does not lead upwards. -/
theorem descend_cases
    {name : String}
    (hName : name ≠ "..")
    (hDescend : d.descend here name = .ok there) :
    d.node? here = some .directory ∧
      there = here ++ [name].filter Path.isPiece := by
  unfold descend at hDescend
  split at hDescend
  · cases hDescend
  · cases hDescend
  next hHere =>
    refine ⟨hHere, ?_⟩
    split at hDescend
    next hIdle =>
      cases hDescend
      have hPiece : Path.isPiece name = false := by
        unfold Path.isPiece
        simpa [bne, Bool.or_eq_true, imp_iff_not_or,
          or_comm] using hIdle
      simp [hPiece]
    next hMoves =>
      have hPiece : Path.isPiece name = true := by
        unfold Path.isPiece
        simpa [bne, not_or] using hMoves
      rw [if_neg (by simpa using hName)] at hDescend
      split at hDescend
      · cases hDescend
      · cases hDescend
        simp [hPiece]

/- Steps that do not lead upwards lead to their pieces. -/
theorem follow_down
    (hDown : ".." ∉ names)
    (hFollow : d.follow here names = .ok there) :
    there = here ++ names.filter Path.isPiece := by
  induction names generalizing here with
  | nil =>
      cases hFollow
      exact (List.append_nil _).symm
  | cons name rest ih =>
      rw [List.mem_cons, not_or] at hDown
      unfold follow at hFollow
      split at hFollow
      · cases hFollow
      next next hNext =>
        rcases descend_cases (Ne.symm hDown.1) hNext with
          ⟨-, rfl⟩
        rw [ih hDown.2 hFollow, List.append_assoc,
          ← List.filter_append, List.singleton_append]

/-
  They lead to the same place where no directory on the way
  is missing.
-/
theorem follow_along
    (hDown : ".." ∉ names)
    (hAlong :
      ∀ place, place <+: there →
        d.node? place = some .directory →
          e.node? place = some .directory)
    (hFollow : d.follow here names = .ok there) :
    e.follow here names = .ok there := by
  induction names generalizing here with
  | nil => exact hFollow
  | cons name rest ih =>
      have hThere := follow_down hDown hFollow
      rw [List.mem_cons, not_or] at hDown
      unfold follow at hFollow ⊢
      split at hFollow
      · cases hFollow
      next next hNext =>
        rcases descend_cases (Ne.symm hDown.1) hNext with
          ⟨hHere, -⟩
        have hLater :=
          hAlong here ⟨_, hThere.symm⟩ hHere
        have hSame : e.descend here name = .ok next := by
          unfold descend at hNext ⊢
          rw [hHere] at hNext
          rw [hLater]
          exact hNext
        rw [hSame]
        exact ih hDown.2 hFollow

/- Steps that lead nowhere can be left out. -/
theorem follow_pieces
    (hFollow : d.follow here names = .ok there) :
    d.follow here (names.filter Path.isPiece) = .ok there := by
  induction names generalizing here with
  | nil => exact hFollow
  | cons name rest ih =>
      unfold follow at hFollow
      split at hFollow
      · cases hFollow
      next next hNext =>
        cases hPiece : Path.isPiece name with
        | true =>
            rw [List.filter_cons_of_pos hPiece, follow_cons,
              hNext]
            exact ih hFollow
        | false =>
            rw [List.filter_cons_of_neg (by simp [hPiece])]
            have hOne : d.follow here [name] = .ok next := by
              rw [follow_cons, hNext]
              rfl
            have hHere : next = here :=
              eq_of_follow_idle (by simpa using hPiece) hOne
            exact hHere ▸ ih hFollow

end Descending

section Locating

variable {d e : Disk} {p : Path} {place : Location}

/- The steps of a path that are followed on a disk. -/
theorem follow_of_descends
    (hDescends : p.Descends)
    (hLocate : d.locate p = .ok place) :
    ∃ names,
      ".." ∉ names ∧ names.filter Path.isPiece = p.pieces ∧
        d.follow [] names = .ok place ∧
        ∀ e : Disk, e.locate p = e.follow [] names := by
  rcases text_of_locate hLocate with ⟨hClear, hShort⟩
  rcases Path.exists_dropEnd (· == "") p.steps with
    ⟨dropped, hSteps, hEmpty⟩
  have hLeads : ∀ e : Disk, e.locate p = _ := fun e =>
    locate_eq e hDescends.absolute hClear hShort
  have hIdle : dropped.filter Path.isPiece = [] := by
    apply Path.filter_idle
    intro step hStep
    rw [beq_iff_eq.mp (hEmpty step hStep)]
    rfl
  refine ⟨_, ?_, ?_, (hLeads d).symm.trans hLocate, hLeads⟩
  · intro hUp
    apply hDescends.down
    refine List.mem_filter.mpr ⟨?_, rfl⟩
    rw [hSteps]
    exact List.mem_append_left dropped hUp
  · unfold Path.pieces
    conv => right; rw [hSteps]
    rw [List.filter_append, hIdle, List.append_nil]

/- An absolute path leads where its pieces lead. -/
theorem follow_of_absolute
    (hAbsolute : p.isAbsolute = true)
    (hLeads : d.locate p = .ok place) :
    d.follow [] p.pieces = .ok place := by
  rcases text_of_locate hLeads with ⟨hClear, hShort⟩
  rcases Path.exists_dropEnd (· == "") p.steps with
    ⟨dropped, hSteps, hEmpty⟩
  rw [locate_eq d hAbsolute hClear hShort] at hLeads
  have hIdle : dropped.filter Path.isPiece = [] := by
    apply Path.filter_idle
    intro step hStep
    rw [beq_iff_eq.mp (hEmpty step hStep)]
    rfl
  have hKept :
      (p.steps.reverse.dropWhile (· == "")).reverse.filter
          Path.isPiece =
        p.pieces := by
    unfold Path.pieces
    conv => right; rw [hSteps]
    rw [List.filter_append, hIdle, List.append_nil]
  rw [← hKept]
  exact follow_pieces hLeads

/- A path that leads down leads to its pieces. -/
theorem locate_descends
    (hDescends : p.Descends)
    (hLocate : d.locate p = .ok place) :
    place = p.pieces := by
  rcases follow_of_descends hDescends hLocate with
    ⟨names, hDown, hPieces, hFollow, -⟩
  rw [follow_down hDown hFollow, hPieces]
  rfl

end Locating

------------------------------------------------------------
-- Trees
------------------------------------------------------------

/- The place that a path names, if it never leads upwards. -/
def named
    (d : Disk)
    (p : Path) : Location :=
  (if p.isAbsolute then [] else d.workDir) ++ p.pieces

/-
  What is listed stands in a directory, and the names that
  lead to the working directory lead downwards.
-/
structure IsTree (d : Disk) : Prop where
  parents :
    ∀ entry ∈ d.entries,
      d.node? entry.1.dropLast = some .directory
  pieces : ∀ name ∈ d.workDir, Path.isPiece name = true
  whole : ∀ name ∈ d.workDir, '/' ∉ name.toList
  down : ".." ∉ d.workDir

namespace IsTree

variable {d e : Disk}

/- Everything that stands on a way down is a directory. -/
theorem above
    (hTree : d.IsTree)
    {place : Location}
    {rel : List String}
    (hThere : d.node? (place ++ rel) = some .directory) :
    d.node? place = some .directory := by
  induction rel using List.reverseRecOn with
  | nil =>
      rw [List.append_nil] at hThere
      exact hThere
  | append_singleton front name ih =>
      rw [← List.append_assoc] at hThere
      unfold node? at hThere
      rw [if_neg (by simp)] at hThere
      rcases List.lookup_eq_some_iff.mp hThere with
        ⟨before, behind, hEntries, -⟩
      have hParent :=
        hTree.parents (place ++ front ++ [name], .directory)
          (by simp [hEntries])
      rw [List.dropLast_concat] at hParent
      exact ih hParent

/- The path of the working directory leads down to it. -/
theorem workDir_descends (hTree : d.IsTree) :
    (Path.ofLocation d.workDir).Descends ∧
      (Path.ofLocation d.workDir).pieces = d.workDir := by
  have hPieces :
      (Path.ofLocation d.workDir).pieces = d.workDir :=
    (Path.pieces_rooted hTree.whole).trans
      (List.filter_eq_self.mpr hTree.pieces)
  refine ⟨⟨Path.isAbsolute_rooted _, ?_⟩, hPieces⟩
  rw [hPieces]
  exact hTree.down

/- An absolute form leads to the place that is named. -/
theorem absolute
    (hTree : d.IsTree)
    {p full : Path}
    (hDown : ".." ∉ p.pieces)
    (hFull : d.absolute p = .ok full) :
    full.Descends ∧ full.pieces = d.named p := by
  rcases hTree.workDir_descends with ⟨hWorkDir, hPieces⟩
  have hNamed := Path.pieces_absolute hWorkDir.absolute hFull
  rw [hPieces] at hNamed
  refine ⟨⟨?_, ?_⟩, hNamed⟩
  · exact Path.isAbsolute_of_absolute hWorkDir.absolute hFull
  · rw [hNamed, List.mem_append, not_or]
    refine ⟨?_, hDown⟩
    split
    · exact List.not_mem_nil
    · exact hTree.down

/-
  On a tree a path that leads down to a directory is found,
  if it is found on any disk.
-/
theorem isDirectory
    (hTree : d.IsTree)
    {p : Path}
    {place : Location}
    (hDescends : p.Descends)
    (hLocate : e.locate p = .ok place)
    (hNode : d.node? p.pieces = some .directory) :
    d.isDirectory p = true := by
  have hPlace := locate_descends hDescends hLocate
  subst hPlace
  rcases follow_of_descends hDescends hLocate with
    ⟨names, hDown, -, hFollow, hLeads⟩
  rw [isDirectory_iff]
  refine ⟨p.pieces, ?_, hNode⟩
  rw [hLeads d]
  apply follow_along hDown _ hFollow
  rintro place ⟨rel, hRel⟩ -
  rw [← hRel] at hNode
  exact hTree.above hNode

end IsTree

end Disk

end ArchiveRescue
