import Mathlib
import ArchiveRescue.Proofs.Descent

/-
  Where names of entries lead.  A checked name is refused if
  it is absolute, leads upwards or names nothing.  Any other
  name leads below the directory, by the parts that name
  something, and no two names with different such parts lead
  to the same place.

  Key definitions include:
    * `Path.lead`
    * `Ustar.parts`
    * `Ustar.Strays`
    * `Ustar.naming`

  Main statements:
    * `Path.extend_eq`
    * `Path.components_join`
    * `Ustar.pushAll?_pieces`
    * `Ustar.placed_eq`
    * `Ustar.target_sanitized`
-/

namespace ArchiveRescue

namespace Path

------------------------------------------------------------
-- Joining Below Any Path
------------------------------------------------------------

variable {p q : Path} {names : List String} {name : String}

/- What stands before the paths joined to another. -/
def lead (p : Path) : String :=
  if p.text == "" || p.endsWithSlash then p.text
  else p.text ++ "/"

theorem join_eq
    (p : Path)
    (hRelative : q.isAbsolute = false) :
    p.join q = ⟨p.lead ++ q.text⟩ := by
  unfold join lead
  rw [hRelative]
  split <;> split <;> first | rfl | contradiction

/- Nothing stands before what is joined to an empty path. -/
theorem join_empty
    (hRelative : q.isAbsolute = false) :
    join ⟨""⟩ q = q := by
  rw [join_eq ⟨""⟩ hRelative]
  exact congrArg mk String.empty_append

/- It goes on from the path, by a slash where one is missing. -/
theorem lead_cases (p : Path) :
    (p.text = "" ∧ p.lead = "") ∨
      (p.text ≠ "" ∧ p.lead = p.trunk.text ++ "/") := by
  unfold lead
  by_cases hEmpty : p.text = ""
  · rw [hEmpty]
    exact .inl ⟨rfl, rfl⟩
  · rw [beq_false_of_ne hEmpty]
    refine .inr ⟨hEmpty, ?_⟩
    rcases p.text_trunk with
      ⟨hSlash, hSame⟩ | ⟨hSlash, hText⟩
    · rw [hSlash, hSame]
      rfl
    · rw [hSlash, ← hText]
      rfl

/- No slash is missing behind a name. -/
theorem lead_join
    (p : Path)
    (hName : name ≠ "")
    (hWhole : '/' ∉ name.toList) :
    (p.join ⟨name⟩).lead = p.lead ++ name ++ "/" := by
  have hRelative : isAbsolute ⟨name⟩ = false := by
    unfold isAbsolute
    rw [beq_eq_false_iff_ne]
    exact fun hSlash => hWhole (List.mem_of_head? hSlash)
  have hChars : name.toList ≠ [] := by
    simpa using hName
  have hText : p.lead ++ name ≠ "" := by
    intro hEmpty
    have hNone := congrArg String.toList hEmpty
    rw [String.toList_append] at hNone
    exact hChars (List.append_eq_nil_iff.mp hNone).2
  have hEnd :
      endsWithSlash ⟨p.lead ++ name⟩ = false := by
    unfold endsWithSlash
    rw [String.toList_append,
      List.getLast?_append_of_ne_nil _ hChars,
      beq_eq_false_iff_ne]
    exact fun hSlash => hWhole (List.mem_of_getLast? hSlash)
  rw [join_eq p hRelative]
  refine if_neg ?_
  rw [hEnd, Bool.or_false, beq_iff_eq]
  exact hText

/- Pieces that are joined one by one are a path together. -/
theorem extend_eq
    (p : Path)
    (hSome : names ≠ [])
    (hPieces : ∀ name ∈ names, isPiece name = true)
    (hWhole : ∀ name ∈ names, '/' ∉ name.toList) :
    p.extend names = p.join (ofPieces names) := by
  induction names generalizing p with
  | nil => exact absurd rfl hSome
  | cons name rest ih =>
      change (p.join ⟨name⟩).extend rest = _
      by_cases hNone : rest = []
      · rw [hNone]
        unfold ofPieces
        rw [String.intercalate_singleton]
        rfl
      · have hLater : ∀ other ∈ rest, isPiece other = true :=
          fun other hOther =>
            hPieces other (List.mem_cons_of_mem name hOther)
        have hClear : ∀ other ∈ rest, '/' ∉ other.toList :=
          fun other hOther =>
            hWhole other (List.mem_cons_of_mem name hOther)
        have hName : name ≠ "" := by
          rintro rfl
          exact absurd (hPieces "" List.mem_cons_self)
            (by decide)
        rw [ih _ hNone hLater hClear,
          join_eq _ (isAbsolute_ofPieces hNone hLater hClear),
          join_eq _ (isAbsolute_ofPieces hSome hPieces hWhole),
          lead_join p hName (hWhole name List.mem_cons_self)]
        unfold ofPieces
        rw [String.intercalate_cons_of_ne_nil hNone]
        simp only [String.append_assoc]

------------------------------------------------------------
-- Components
------------------------------------------------------------

/- The components of pieces are those of their path. -/
theorem components_ofPieces
    (hSome : names ≠ [])
    (hPieces : ∀ name ∈ names, isPiece name = true)
    (hWhole : ∀ name ∈ names, '/' ∉ name.toList) :
    (ofPieces names).components =
      names.map Component.ofPiece := by
  have hSteps : (ofPieces names).steps = names :=
    steps_intercalate hSome hWhole
  have hHead : (names.head? == some ".") = false := by
    rw [beq_eq_false_iff_ne]
    intro hHere
    exact absurd (hPieces "." (List.mem_of_head? hHere))
      (by decide)
  unfold components
  rw [isAbsolute_ofPieces hSome hPieces hWhole, hSteps, hHead,
    pieces_ofPieces hSome hPieces hWhole]
  rfl

/- Every path has a first step. -/
theorem steps_ne_nil (p : Path) :
    p.steps ≠ [] := by
  unfold steps
  rw [splitSlash_eq]
  simp [List.splitOn_ne_nil]

/- It is the same without a slash at the end. -/
theorem head?_trunk (p : Path) :
    p.trunk.steps.head? = p.steps.head? := by
  rcases p.steps_trunk with ⟨idle, hSteps, -⟩
  rw [hSteps,
    List.head?_append_of_ne_nil _ p.trunk.steps_ne_nil]

/- A path that goes on is absolute if it was. -/
theorem isAbsolute_lead
    (hText : p.text ≠ "")
    (rest : String) :
    isAbsolute ⟨p.lead ++ rest⟩ = p.isAbsolute := by
  have hChars : p.text.toList ≠ [] := by
    simpa using hText
  have hLead : ∃ slash, p.lead = p.text ++ slash := by
    unfold lead
    split
    · exact ⟨"", String.append_empty.symm⟩
    · exact ⟨"/", rfl⟩
  rcases hLead with ⟨slash, hLead⟩
  unfold isAbsolute
  rw [hLead, String.append_assoc, String.toList_append,
    List.head?_append_of_ne_nil _ hChars]

/- Pieces come below the components of any path. -/
theorem components_join
    (p : Path)
    (hSome : names ≠ [])
    (hPieces : ∀ name ∈ names, isPiece name = true)
    (hWhole : ∀ name ∈ names, '/' ∉ name.toList) :
    (p.join (ofPieces names)).components =
      p.components ++ names.map Component.ofPiece := by
  have hRelative := isAbsolute_ofPieces hSome hPieces hWhole
  rw [join_eq p hRelative]
  rcases p.lead_cases with
    ⟨hEmpty, hLead⟩ | ⟨hText, hLead⟩
  · rw [hLead, String.empty_append]
    rcases p with ⟨text⟩
    cases hEmpty
    exact components_ofPieces hSome hPieces hWhole
  · have hSteps :
        steps ⟨p.lead ++ (ofPieces names).text⟩ =
          p.trunk.steps ++ names := by
      rw [hLead, steps_append_slash]
      exact congrArg _ (steps_intercalate hSome hWhole)
    have hBelow :
        pieces ⟨p.lead ++ (ofPieces names).text⟩ =
          p.pieces ++ names := by
      unfold pieces
      rw [hSteps, List.filter_append,
        List.filter_eq_self.mpr hPieces]
      exact congrArg (· ++ names) p.pieces_trunk
    have hRoot := isAbsolute_lead hText (ofPieces names).text
    have hHead :
        (steps ⟨p.lead ++ (ofPieces names).text⟩).head? =
          p.steps.head? := by
      rw [hSteps,
        List.head?_append_of_ne_nil _ p.trunk.steps_ne_nil,
        head?_trunk]
    unfold components
    rw [hRoot, hHead, hBelow, List.map_append]
    split
    · rfl
    · split <;> rfl

end Path

namespace Ustar

------------------------------------------------------------
-- Component by Component
------------------------------------------------------------

/- Pieces are pushed unless one of them leads upwards. -/
theorem pushAll?_pieces
    (p : Path)
    (names : List String) :
    pushAll? p (names.map Path.Component.ofPiece) =
      if ".." ∈ names then none else some (p.extend names) := by
  induction names generalizing p with
  | nil => rfl
  | cons name rest ih =>
      rw [List.map_cons]
      by_cases hUp : name = ".."
      · rw [hUp, if_pos List.mem_cons_self]
        rfl
      · have hNamed :
            Path.Component.ofPiece name = .named name :=
          if_neg (by simpa using hUp)
        have hRest : ".." ∈ name :: rest ↔ ".." ∈ rest := by
          simp [Ne.symm hUp]
        rw [hNamed, if_congr hRest rfl rfl]
        exact ih (p.join ⟨name⟩)

/- A "." in front of a relative name makes no difference. -/
theorem pushAll?_components
    {name : Path}
    (hRelative : ¬ name.isAbsolute)
    (p : Path) :
    pushAll? p name.components =
      pushAll? p (name.pieces.map Path.Component.ofPiece) := by
  unfold Path.components
  rw [if_neg hRelative]
  split <;> rfl

/- The pieces of a path are pieces without slashes. -/
theorem pieces_spec (name : Path) :
    (∀ piece ∈ name.pieces, Path.isPiece piece = true) ∧
      ∀ piece ∈ name.pieces, '/' ∉ piece.toList :=
  ⟨fun _ hPiece => (List.mem_filter.mp hPiece).2,
    fun _ hPiece => Path.slash_notMem_pieces hPiece⟩

/- What a name has to be to be accepted. -/
theorem isSafe_iff (name : Path) :
    isSafe name = true ↔
      name.isAbsolute = false ∧ name.pieces ≠ [] ∧
        ".." ∉ name.pieces := by
  unfold isSafe
  simp [and_assoc]

/- An accepted name leads to where its pieces lead. -/
theorem target_of_isSafe
    (directory : Path)
    {name : String}
    (hSafe : isSafe ⟨name⟩ = true) :
    target directory name true =
      .ok (directory.extend (Path.pieces ⟨name⟩)) := by
  rcases pieces_spec ⟨name⟩ with ⟨hPieces, hWhole⟩
  unfold target
  rw [if_pos rfl, if_pos hSafe,
    Path.extend_eq directory ((isSafe_iff _).mp hSafe).2.1
      hPieces hWhole]

/- What is pushed for an accepted name is not empty. -/
theorem placed_of_isSafe
    (directory : Path)
    {name : String}
    (hSafe : isSafe ⟨name⟩ = true) :
    placed directory name =
      .ok (directory.extend (Path.pieces ⟨name⟩)) := by
  rcases pieces_spec ⟨name⟩ with ⟨hPieces, hWhole⟩
  rcases (isSafe_iff _).mp hSafe with
    ⟨hRelative, hSome, hDown⟩
  have hText :
      (Path.ofPieces (Path.pieces ⟨name⟩)).text ≠ "" := by
    intro hEmpty
    have hBack := Path.pieces_ofPieces hSome hPieces hWhole
    have hNone :
        Path.ofPieces (Path.pieces ⟨name⟩) = ⟨""⟩ :=
      congrArg Path.mk hEmpty
    rw [hNone] at hBack
    exact hSome hBack.symm
  unfold placed
  rw [pushAll?_components (Bool.eq_false_iff.mp hRelative),
    pushAll?_pieces, if_neg hDown,
    Path.extend_eq ⟨""⟩ hSome hPieces hWhole,
    Path.join_empty
      (Path.isAbsolute_ofPieces hSome hPieces hWhole),
    Path.extend_eq directory hSome hPieces hWhole]
  dsimp only
  rw [beq_false_of_ne hText]
  rfl

/- For any other name a component is refused, or none comes. -/
theorem placed_of_not_isSafe
    (directory : Path)
    {name : String}
    (hSafe : isSafe ⟨name⟩ = false) :
    placed directory name = .error (.unsafeName name) := by
  unfold placed
  by_cases hAbsolute : Path.isAbsolute ⟨name⟩
  · unfold Path.components
    rw [if_pos hAbsolute]
    rfl
  · rw [pushAll?_components hAbsolute, pushAll?_pieces]
    by_cases hUp : ".." ∈ Path.pieces ⟨name⟩
    · rw [if_pos hUp]
    · have hNone : Path.pieces ⟨name⟩ = [] := by
        by_contra hSome
        refine Bool.eq_false_iff.mp hSafe ?_
        exact
          (isSafe_iff _).mpr
            ⟨Bool.eq_false_iff.mpr hAbsolute, hSome, hUp⟩
      rw [if_neg hUp, hNone]
      rfl

/- Names are checked as a whole or component by component. -/
theorem placed_eq
    (directory : Path)
    (name : String) :
    placed directory name = target directory name true := by
  cases hSafe : isSafe ⟨name⟩ with
  | true =>
      rw [placed_of_isSafe directory hSafe,
        target_of_isSafe directory hSafe]
  | false =>
      rw [placed_of_not_isSafe directory hSafe]
      unfold target
      rw [if_pos rfl, if_neg (by simp [hSafe])]

------------------------------------------------------------
-- Names That Are Accepted
------------------------------------------------------------

/- The parts of a name between its slashes. -/
def parts (name : String) : List String :=
  (name.toList.splitOn '/').map String.ofList

/-
  A name strays if it begins with a slash, leads upwards
  somewhere or has no part that names anything.
-/
def Strays (name : String) : Prop :=
  name.toList.head? = some '/' ∨
    ".." ∈ parts name ∨
    ∀ part ∈ parts name, part = "" ∨ part = "."

instance (name : String) : Decidable (Strays name) :=
  inferInstanceAs (Decidable (_ ∨ _ ∨ _))

/- The parts of a name that name something. -/
def naming (name : String) : List String :=
  (parts name).filter
    (fun part => decide (part ≠ "" ∧ part ≠ "."))

theorem parts_eq (name : String) :
    parts name = Path.steps ⟨name⟩ := by
  unfold parts Path.steps
  rw [splitSlash_eq]

theorem naming_eq (name : String) :
    naming name = Path.pieces ⟨name⟩ := by
  unfold naming Path.pieces
  rw [parts_eq]
  refine List.filter_congr ?_
  intro part hPart
  rw [Bool.eq_iff_iff]
  unfold Path.isPiece
  simp

/- The names that do not stray are accepted. -/
theorem isSafe_iff_not_strays (name : String) :
    isSafe ⟨name⟩ = true ↔ ¬ Strays name := by
  have hUp :
      ".." ∈ Path.pieces ⟨name⟩ ↔ ".." ∈ parts name := by
    rw [parts_eq]
    unfold Path.pieces
    rw [List.mem_filter]
    exact and_iff_left rfl
  have hNone :
      Path.pieces ⟨name⟩ = [] ↔
        ∀ part ∈ parts name, part = "" ∨ part = "." := by
    rw [parts_eq]
    unfold Path.pieces
    rw [List.filter_eq_nil_iff]
    unfold Path.isPiece
    simp [or_iff_not_imp_left]
  have hRoot :
      Path.isAbsolute ⟨name⟩ = false ↔
        ¬ name.toList.head? = some '/' := by
    unfold Path.isAbsolute
    rw [beq_eq_false_iff_ne]
  rw [isSafe_iff, hRoot, Ne, hNone, hUp]
  unfold Strays
  tauto

/- No part of an accepted name leads upwards. -/
theorem map_ofPiece
    {names : List String}
    (hDown : ".." ∉ names) :
    names.map Path.Component.ofPiece =
      names.map Path.Component.named := by
  refine List.map_congr_left ?_
  intro name hName
  refine if_neg ?_
  rw [beq_iff_eq]
  rintro rfl
  exact hDown hName

/- An accepted name leads down by the parts that name. -/
theorem components_extend
    (directory : Path)
    {name : String}
    (hSafe : isSafe ⟨name⟩ = true) :
    (directory.extend (naming name)).components =
      directory.components ++
        (naming name).map Path.Component.named := by
  rcases pieces_spec ⟨name⟩ with ⟨hPieces, hWhole⟩
  rcases (isSafe_iff _).mp hSafe with ⟨-, hSome, hDown⟩
  rw [naming_eq, Path.extend_eq directory hSome hPieces hWhole,
    Path.components_join directory hSome hPieces hWhole,
    map_ofPiece hDown]

/-
  A checked name is refused exactly if it strays.  Otherwise
  it leads below the directory, whatever that is, by the
  parts that name something, and only names with the same
  such parts lead to the same place.
-/
theorem target_sanitized (directory : Path) :
    (∀ name,
      placed directory name = target directory name true) ∧
    (∀ name,
      target directory name true =
          .error (.unsafeName name) ↔
        Strays name) ∧
    (∀ name, ¬ Strays name →
      target directory name true =
          .ok (directory.extend (naming name)) ∧
        naming name ≠ [] ∧
        (directory.extend (naming name)).components =
          directory.components ++
            (naming name).map Path.Component.named) ∧
    (∀ name other, ¬ Strays name → ¬ Strays other →
      (target directory name true =
          target directory other true ↔
        naming name = naming other)) := by
  have hTarget : ∀ name, isSafe ⟨name⟩ = true →
      target directory name true =
        .ok (directory.extend (naming name)) := by
    intro name hSafe
    rw [naming_eq]
    exact target_of_isSafe directory hSafe
  refine ⟨placed_eq directory, ?_, ?_, ?_⟩
  · intro name
    cases hSafe : isSafe ⟨name⟩ with
    | true =>
        rw [hTarget name hSafe]
        refine iff_of_false nofun ?_
        exact (isSafe_iff_not_strays name).mp hSafe
    | false =>
        rw [← placed_eq, placed_of_not_isSafe directory hSafe]
        refine iff_of_true rfl ?_
        by_contra hKept
        have hAccepted := (isSafe_iff_not_strays name).mpr hKept
        rw [hSafe] at hAccepted
        cases hAccepted
  · intro name hKept
    have hSafe := (isSafe_iff_not_strays name).mpr hKept
    refine
      ⟨hTarget name hSafe, ?_,
        components_extend directory hSafe⟩
    rw [naming_eq]
    exact ((isSafe_iff _).mp hSafe).2.1
  · intro name other hName hOther
    have hFirst := (isSafe_iff_not_strays name).mpr hName
    have hSecond := (isSafe_iff_not_strays other).mpr hOther
    rw [hTarget name hFirst, hTarget other hSecond]
    constructor
    · intro hSame
      have hPaths := congrArg Path.components
        (Except.ok.inj hSame)
      rw [components_extend directory hFirst,
        components_extend directory hSecond] at hPaths
      refine
        List.map_injective_iff.mpr ?_
          (List.append_cancel_left hPaths)
      intro a b hNamed
      exact Path.Component.named.inj hNamed
    · intro hSame
      rw [hSame]

/- Slashes and single dots make no difference. -/
theorem target_out :
    ¬ Strays "./a/.//b.txt/" ∧
      ¬ Strays "a/b.txt" ∧
      target ⟨"out"⟩ "./a/.//b.txt/" true =
        .ok ⟨"out/a/b.txt"⟩ ∧
      target ⟨"out"⟩ "./a/.//b.txt/" true =
        target ⟨"out"⟩ "a/b.txt" true ∧
      target ⟨"out"⟩ "a/../b.txt" true =
        .error (.unsafeName "a/../b.txt") := by
  have hName : ¬ Strays "./a/.//b.txt/" := by decide +kernel
  have hOther : ¬ Strays "a/b.txt" := by decide +kernel
  rcases target_sanitized ⟨"out"⟩ with
    ⟨-, hRefused, hAccepted, hSame⟩
  refine
    ⟨hName, hOther, (hAccepted _ hName).1.trans ?_,
      (hSame _ _ hName hOther).mpr ?_,
      (hRefused _).mpr ?_⟩
  · decide +kernel
  · decide +kernel
  · decide +kernel

end Ustar

end ArchiveRescue
