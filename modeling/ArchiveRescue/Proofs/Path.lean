import Mathlib
import ArchiveRescue.Proofs.Text
import ArchiveRescue.Ustar.Target

/-
  What paths are made of.  A path is its steps with slashes
  between them, so the steps of a path below a directory are
  those of the directory and of the names that lead there,
  and its parents are what is left when names are dropped.

  Key definitions include:
    * `Path.trunk`
    * `Path.IsPlain`

  Main statements:
    * `Path.steps_join`
    * `Path.parent?_join`
    * `Path.parent?_join_single`
    * `Path.isPlain_pieces`
    * `Path.isAbsolute_of_absolute`
-/

namespace ArchiveRescue

------------------------------------------------------------
-- Splitting
------------------------------------------------------------

/- There is a part for every slash, and one more. -/
theorem splitSlash_eq (cs : List Char) :
    splitSlash cs = cs.splitOn '/' := by
  induction cs with
  | nil => rfl
  | cons c rest ih =>
      rw [List.splitOn_cons_eq_if_modifyHead]
      unfold splitSlash
      rw [ih]
      by_cases hSlash : c = '/'
      · rw [if_pos hSlash, if_pos (by simpa using hSlash)]
      · rw [if_neg hSlash, if_neg (by simpa using hSlash)]
        cases hRest : rest.splitOn '/' with
        | nil =>
            exact (List.splitOn_ne_nil '/' rest hRest).elim
        | cons part parts => rfl

/- No part has a slash in it. -/
theorem slash_notMem_splitSlash
    {cs part : List Char}
    (hPart : part ∈ splitSlash cs) :
    '/' ∉ part := by
  induction cs generalizing part with
  | nil =>
      rw [List.mem_singleton.mp hPart]
      exact List.not_mem_nil
  | cons c rest ih =>
      unfold splitSlash at hPart
      split at hPart
      next hSlash =>
        rcases List.mem_cons.mp hPart with rfl | hLater
        · exact List.not_mem_nil
        · exact ih hLater
      next hOther =>
        split at hPart
        · rw [List.mem_singleton.mp hPart, List.mem_singleton]
          exact Ne.symm hOther
        next first parts hRest =>
          rw [hRest] at ih
          rcases List.mem_cons.mp hPart with rfl | hLater
          · intro hMem
            rcases List.mem_cons.mp hMem with hHere | hMem
            · exact hOther hHere.symm
            · exact ih List.mem_cons_self hMem
          · exact ih (List.mem_cons_of_mem first hLater)

/- There are not many more parts than characters. -/
theorem length_splitSlash_le (cs : List Char) :
    (splitSlash cs).length ≤ cs.length + 1 := by
  induction cs with
  | nil => exact Nat.le_refl 1
  | cons c rest ih =>
      unfold splitSlash
      split
      · rw [List.length_cons, List.length_cons]
        omega
      · split
        · exact Nat.le_add_left 1 _
        next hRest =>
          rw [hRest] at ih
          rw [List.length_cons] at ih ⊢
          rw [List.length_cons]
          omega

namespace Path

------------------------------------------------------------
-- Steps
------------------------------------------------------------

/- A path is its steps with slashes between them. -/
theorem text_eq (p : Path) :
    p.text = "/".intercalate p.steps := by
  apply String.toList_injective
  have hParts :
      p.steps.map String.toList = splitSlash p.text.toList := by
    unfold steps
    rw [List.map_map]
    simp
  rw [String.toList_intercalate, hParts, splitSlash_eq]
  exact (List.intercalate_splitOn '/').symm

/- Paths with the same steps are the same. -/
theorem eq_of_steps
    {p q : Path}
    (hSteps : p.steps = q.steps) :
    p = q := by
  have hText : p.text = q.text := by
    rw [p.text_eq, hSteps, ← q.text_eq]
  cases p
  cases q
  exact congrArg mk hText

/- No step has a slash in it. -/
theorem slash_notMem_steps
    {p : Path}
    {step : String}
    (hStep : step ∈ p.steps) :
    '/' ∉ step.toList := by
  unfold steps at hStep
  rcases List.mem_map.mp hStep with ⟨part, hPart, rfl⟩
  rw [String.toList_ofList]
  exact slash_notMem_splitSlash hPart

/- Parts without slashes are the steps of their path. -/
theorem steps_intercalate
    {parts : List String}
    (hSome : parts ≠ [])
    (hWhole : ∀ part ∈ parts, '/' ∉ part.toList) :
    steps ⟨"/".intercalate parts⟩ = parts := by
  have hParts :
      splitSlash ("/".intercalate parts).toList =
        parts.map String.toList := by
    rw [splitSlash_eq, String.toList_intercalate]
    apply List.splitOn_intercalate
    · intro part hPart
      rcases List.mem_map.mp hPart with ⟨name, hName, rfl⟩
      exact hWhole name hName
    · simpa using hSome
  unfold steps
  rw [hParts, List.map_map]
  simp

/- Steps on both sides of a slash. -/
theorem steps_append_slash (front back : String) :
    steps ⟨front ++ "/" ++ back⟩ =
      steps ⟨front⟩ ++ steps ⟨back⟩ := by
  have hChars :
      (front ++ "/" ++ back).toList =
        front.toList ++ '/' :: back.toList := by
    simp
  unfold steps
  rw [hChars]
  simp only [splitSlash_eq]
  rw [List.splitOn_append_cons_self, List.map_append]

/- A path has a step, and not many more than characters. -/
theorem length_steps_le (p : Path) :
    p.steps.length ≤ p.text.length + 1 := by
  have hParts := length_splitSlash_le p.text.toList
  rw [String.length_toList] at hParts
  unfold steps
  rw [List.length_map]
  exact hParts

/- Fewer parts make a shorter path. -/
theorem intercalate_sublist
    {xs ys : List String}
    (hSub : xs.Sublist ys) :
    ("/".intercalate xs).toList.Sublist
      ("/".intercalate ys).toList := by
  induction hSub with
  | slnil => exact List.Sublist.refl _
  | @cons xs ys y hSub ih =>
      by_cases hNone : ys = []
      · subst hNone
        rw [List.sublist_nil.mp hSub]
        exact List.nil_sublist _
      · rw [String.intercalate_cons_of_ne_nil hNone,
          String.toList_append]
        exact ih.trans (List.sublist_append_right _ _)
  | @cons_cons xs ys y hSub ih =>
      by_cases hNone : xs = []
      · subst hNone
        rw [String.intercalate_singleton]
        by_cases hMore : ys = []
        · rw [hMore, String.intercalate_singleton]
        · rw [String.intercalate_cons_of_ne_nil hMore,
            String.toList_append, String.toList_append,
            List.append_assoc]
          exact List.sublist_append_left _ _
      · have hMore : ys ≠ [] := by
          rintro rfl
          exact hNone (List.sublist_nil.mp hSub)
        rw [String.intercalate_cons_of_ne_nil hNone,
          String.intercalate_cons_of_ne_nil hMore]
        simp only [String.toList_append]
        exact ih.append_left _

/- Fewer characters take fewer bytes. -/
theorem length_encodeChars_le
    {cs ds : List Char}
    (hSub : cs.Sublist ds) :
    (Text.encodeChars cs).length ≤
      (Text.encodeChars ds).length :=
  (hSub.flatMap String.utf8EncodeChar).length_le

------------------------------------------------------------
-- Slashes at the Ends
------------------------------------------------------------

/- An absolute path is not empty. -/
theorem exists_of_isAbsolute
    {p : Path}
    (hAbsolute : p.isAbsolute = true) :
    ∃ rest, p.text.toList = '/' :: rest := by
  unfold isAbsolute at hAbsolute
  rw [beq_iff_eq] at hAbsolute
  exact List.head?_eq_some_iff.mp hAbsolute

theorem text_ne_empty
    {p : Path}
    (hAbsolute : p.isAbsolute = true) :
    p.text ≠ "" := by
  rcases exists_of_isAbsolute hAbsolute with ⟨rest, hText⟩
  intro hNone
  rw [hNone] at hText
  cases hText

/- The path without a slash at its end. -/
def trunk (p : Path) : Path :=
  if p.endsWithSlash then
    ⟨String.ofList p.text.toList.dropLast⟩
  else p

/- A slash at the end is all that can be missing. -/
theorem text_trunk (p : Path) :
    (p.endsWithSlash = false ∧ p.trunk = p) ∨
      (p.endsWithSlash = true ∧
        p.text = p.trunk.text ++ "/") := by
  unfold trunk
  cases hSlash : p.endsWithSlash with
  | false => exact .inl ⟨rfl, rfl⟩
  | true =>
      refine .inr ⟨rfl, ?_⟩
      unfold endsWithSlash at hSlash
      rw [beq_iff_eq] at hSlash
      apply String.toList_injective
      rw [if_pos rfl, String.toList_append,
        String.toList_ofList]
      exact
        (List.dropLast_append_getLast? '/' hSlash).symm

theorem trunk_sublist (p : Path) :
    p.trunk.text.toList.Sublist p.text.toList := by
  rcases p.text_trunk with ⟨-, hSame⟩ | ⟨-, hText⟩
  · rw [hSame]
  · conv => right; rw [hText, String.toList_append]
    exact List.sublist_append_left _ _

/- What is missing is no step that goes anywhere. -/
theorem steps_trunk (p : Path) :
    ∃ idle, p.steps = p.trunk.steps ++ idle ∧
      ∀ step ∈ idle, isPiece step = false := by
  rcases p.text_trunk with ⟨-, hSame⟩ | ⟨-, hText⟩
  · rw [hSame]
    exact ⟨[], (List.append_nil _).symm, by simp⟩
  · refine ⟨[""], ?_, by simp [isPiece]⟩
    have hSteps := steps_append_slash p.trunk.text ""
    rw [String.append_empty, ← hText] at hSteps
    exact hSteps

/- A path with a slash at its end has an empty last step. -/
theorem getLast?_steps
    {p : Path}
    (hSlash : p.endsWithSlash = true) :
    p.steps.getLast? = some "" := by
  rcases p.text_trunk with ⟨hNone, -⟩ | ⟨-, hText⟩
  · rw [hNone] at hSlash
    cases hSlash
  · have hSteps := steps_append_slash p.trunk.text ""
    rw [String.append_empty, ← hText] at hSteps
    change p.steps = _ at hSteps
    rw [hSteps]
    exact List.getLast?_concat

/- The first step of an absolute path is empty. -/
theorem steps_of_isAbsolute
    {p : Path}
    (hAbsolute : p.isAbsolute = true) :
    ∃ rest, p.trunk.steps = "" :: rest := by
  have hHead : ∀ cs : List Char,
      cs = [] ∨ cs.head? = some '/' →
        ∃ rest, splitSlash cs = [] :: rest := by
    intro cs hCs
    rcases hCs with rfl | hSlash
    · exact ⟨[], rfl⟩
    · rcases List.head?_eq_some_iff.mp hSlash with
        ⟨rest, rfl⟩
      exact ⟨splitSlash rest, rfl⟩
  have hTrunk :
      p.trunk.text.toList = [] ∨
        p.trunk.text.toList.head? = some '/' := by
    rcases exists_of_isAbsolute hAbsolute with ⟨rest, hText⟩
    rcases p.text_trunk with ⟨-, hSame⟩ | ⟨-, hSlash⟩
    · rw [hSame, hText]
      exact .inr rfl
    · rw [hSlash, String.toList_append] at hText
      cases hChars : p.trunk.text.toList with
      | nil => exact .inl rfl
      | cons c cs =>
          rw [hChars] at hText
          cases hText
          exact .inr rfl
  rcases hHead _ hTrunk with ⟨rest, hRest⟩
  unfold steps
  rw [hRest]
  exact ⟨rest.map String.ofList, rfl⟩

/- A path with an empty first step and more is absolute. -/
theorem isAbsolute_of_steps
    {p : Path}
    {rest : List String}
    (hSteps : p.steps = "" :: rest)
    (hMore : rest ≠ []) :
    p.isAbsolute = true := by
  have hText := p.text_eq
  rw [hSteps, String.intercalate_cons_of_ne_nil hMore]
    at hText
  unfold isAbsolute
  rw [hText]
  simp

------------------------------------------------------------
-- Joining
------------------------------------------------------------

/- Exactly one slash stands between joined paths. -/
theorem text_join
    {p q : Path}
    (hAbsolute : p.isAbsolute = true)
    (hRelative : q.isAbsolute = false) :
    (p.join q).text = p.trunk.text ++ "/" ++ q.text := by
  have hSome := beq_false_of_ne (text_ne_empty hAbsolute)
  unfold join
  rw [hRelative, hSome]
  rcases p.text_trunk with ⟨hSlash, hSame⟩ | ⟨hSlash, hText⟩
  · rw [hSlash, hSame]
    rfl
  · rw [hSlash, ← hText]
    rfl

/- The steps of joined paths. -/
theorem steps_join
    {p q : Path}
    (hAbsolute : p.isAbsolute = true)
    (hRelative : q.isAbsolute = false) :
    (p.join q).steps = p.trunk.steps ++ q.steps := by
  have hText := text_join hAbsolute hRelative
  have hSteps := steps_append_slash p.trunk.text q.text
  rw [← hText] at hSteps
  exact hSteps

/- Joining keeps a path absolute. -/
theorem isAbsolute_join
    {p : Path}
    (q : Path)
    (hAbsolute : p.isAbsolute = true) :
    (p.join q).isAbsolute = true := by
  rcases exists_of_isAbsolute hAbsolute with ⟨rest, hText⟩
  unfold join
  split
  · assumption
  · split
    · simp [isAbsolute, hText]
    · simp [isAbsolute, hText]

theorem isAbsolute_extend
    {p : Path}
    (names : List String)
    (hAbsolute : p.isAbsolute = true) :
    (p.extend names).isAbsolute = true := by
  induction names generalizing p with
  | nil => exact hAbsolute
  | cons name rest ih => exact ih (isAbsolute_join _ hAbsolute)

/- The absolute form of a path is absolute. -/
theorem isAbsolute_of_absolute
    {p base full : Path}
    (hBase : base.isAbsolute = true)
    (hFull : p.absolute base = .ok full) :
    full.isAbsolute = true := by
  have hSlash : ∀ body : Path, body.isAbsolute = true →
      (if p.endsWithSlash then body.join ⟨""⟩
        else body).isAbsolute = true := by
    intro body hBody
    split
    · exact isAbsolute_join _ hBody
    · exact hBody
  unfold absolute at hFull
  split at hFull
  · cases hFull
  · cases hFull
    apply hSlash
    apply isAbsolute_extend
    split
    · rfl
    · rfl
    · rfl
    · exact hBase

------------------------------------------------------------
-- Plain Names
------------------------------------------------------------

/- The path of pieces is not absolute. -/
theorem isAbsolute_ofPieces
    {names : List String}
    (hSome : names ≠ [])
    (hPieces : ∀ name ∈ names, isPiece name = true)
    (hWhole : ∀ name ∈ names, '/' ∉ name.toList) :
    (ofPieces names).isAbsolute = false := by
  by_contra hAbsolute
  rw [Bool.not_eq_false] at hAbsolute
  have hTrunk := (ofPieces names).steps_trunk
  have hNames : (ofPieces names).steps = names :=
    steps_intercalate hSome hWhole
  rcases steps_of_isAbsolute hAbsolute with ⟨rest, hRest⟩
  rcases hTrunk with ⟨idle, hSteps, -⟩
  rw [hNames, hRest] at hSteps
  have hEmpty := hPieces "" (by simp [hSteps])
  exact absurd hEmpty (by decide)

/- A path made of pieces has these pieces. -/
theorem pieces_ofPieces
    {names : List String}
    (hSome : names ≠ [])
    (hPieces : ∀ name ∈ names, isPiece name = true)
    (hWhole : ∀ name ∈ names, '/' ∉ name.toList) :
    (ofPieces names).pieces = names := by
  unfold pieces ofPieces
  rw [steps_intercalate hSome hWhole]
  exact List.filter_eq_self.mpr hPieces

/- No piece has a slash in it. -/
theorem slash_notMem_pieces
    {p : Path}
    {piece : String}
    (hPiece : piece ∈ p.pieces) :
    '/' ∉ piece.toList :=
  slash_notMem_steps (List.mem_filter.mp hPiece).1

/-
  Names that lead downwards from a directory, and make a path
  that fits the name field of a header.
-/
structure IsPlain (names : List String) : Prop where
  nonempty : names ≠ []
  pieces : ∀ name ∈ names, isPiece name = true
  whole : ∀ name ∈ names, '/' ∉ name.toList
  down : ∀ name ∈ names, name ≠ ".."
  clear : '\x00' ∉ (ofPieces names).text.toList
  short : (Text.encode (ofPieces names).text).length ≤ 100

namespace IsPlain

variable {names : List String}

/- The first names are plain if all are. -/
theorem front
    {front back : List String}
    (hPlain : IsPlain (front ++ back))
    (hSome : front ≠ []) :
    IsPlain front := by
  have hSub : (ofPieces front).text.toList.Sublist
      (ofPieces (front ++ back)).text.toList :=
    intercalate_sublist (List.sublist_append_left front back)
  constructor
  · exact hSome
  · intro name hName
    exact hPlain.pieces name (List.mem_append_left back hName)
  · intro name hName
    exact hPlain.whole name (List.mem_append_left back hName)
  · intro name hName
    exact hPlain.down name (List.mem_append_left back hName)
  · intro hMem
    exact hPlain.clear (hSub.subset hMem)
  · exact (length_encodeChars_le hSub).trans hPlain.short

/- The names are the steps of their path. -/
theorem steps_eq (hPlain : IsPlain names) :
    (ofPieces names).steps = names :=
  steps_intercalate hPlain.nonempty hPlain.whole

/- Their path is not absolute. -/
theorem isAbsolute_eq (hPlain : IsPlain names) :
    (ofPieces names).isAbsolute = false :=
  isAbsolute_ofPieces hPlain.nonempty hPlain.pieces
    hPlain.whole

/- No name is too long. -/
theorem length_encode_le
    (hPlain : IsPlain names)
    {name : String}
    (hName : name ∈ names) :
    (Text.encode name).length ≤ 255 := by
  have hSub :=
    intercalate_sublist (List.singleton_sublist.mpr hName)
  rw [String.intercalate_singleton] at hSub
  have hLength := length_encodeChars_le hSub
  exact (hLength.trans hPlain.short).trans (by decide)

/- The last name is a piece. -/
theorem exists_concat (hPlain : IsPlain names) :
    ∃ front name, names = front ++ [name] ∧
      isPiece name = true := by
  rcases List.eq_nil_or_concat names with hNone | hSome
  · exact (hPlain.nonempty hNone).elim
  · rcases hSome with ⟨front, name, rfl⟩
    exact ⟨front, name, List.concat_eq_append,
      hPlain.pieces name (by simp)⟩

end IsPlain

/- The pieces of a safe name that fits its field are plain. -/
theorem isPlain_pieces
    {name : String}
    (hSafe : Ustar.isSafe ⟨name⟩ = true)
    (hShort : (Text.encode name).length ≤ 100)
    (hClear : '\x00' ∉ name.toList) :
    IsPlain (pieces ⟨name⟩) := by
  unfold Ustar.isSafe at hSafe
  simp only [Bool.and_eq_true, Bool.not_eq_true',
    List.isEmpty_eq_false_iff] at hSafe
  have hSub : (ofPieces (pieces ⟨name⟩)).text.toList.Sublist
      name.toList := by
    have hText := text_eq ⟨name⟩
    dsimp only at hText
    conv => right; rw [hText]
    exact intercalate_sublist List.filter_sublist
  constructor
  · exact hSafe.1.2
  · intro piece hPiece
    exact (List.mem_filter.mp hPiece).2
  · intro piece hPiece
    exact slash_notMem_pieces hPiece
  · rintro piece hPiece rfl
    have hUp := List.contains_iff_mem.mpr hPiece
    rw [hSafe.2] at hUp
    cases hUp
  · intro hMem
    exact hClear (hSub.subset hMem)
  · exact (length_encodeChars_le hSub).trans hShort

------------------------------------------------------------
-- Parents
------------------------------------------------------------

/- What stays when steps are dropped from the end. -/
theorem exists_dropEnd
    (idle : String → Bool)
    (parts : List String) :
    ∃ dropped,
      parts =
        (parts.reverse.dropWhile idle).reverse ++ dropped ∧
      ∀ part ∈ dropped, idle part = true := by
  refine ⟨(parts.reverse.takeWhile idle).reverse, ?_, ?_⟩
  · rw [← List.reverse_append,
      List.takeWhile_append_dropWhile, List.reverse_reverse]
  · intro part hPart
    rw [List.mem_reverse] at hPart
    exact List.mem_takeWhile_imp hPart

/- Nothing is dropped behind a piece. -/
theorem dropIdle_concat
    (rooted : Bool)
    (parts : List String)
    {name : String}
    (hPiece : isPiece name = true) :
    dropIdle rooted (parts ++ [name]) = parts ++ [name] := by
  cases parts with
  | nil => simp [dropIdle, hPiece]
  | cons first rest => simp [dropIdle, hPiece]

/- What is dropped leads nowhere. -/
theorem exists_dropIdle
    (rooted : Bool)
    (parts : List String) :
    ∃ idle, parts = dropIdle rooted parts ++ idle ∧
      ∀ part ∈ idle, isPiece part = false := by
  cases parts with
  | nil => exact ⟨[], rfl, by simp⟩
  | cons first rest =>
      rcases exists_dropEnd (fun s => !isPiece s) rest with
        ⟨dropped, hRest, hIdle⟩
      have hDropped : ∀ part ∈ dropped,
          isPiece part = false := by
        intro part hPart
        simpa using hIdle part hPart
      unfold dropIdle
      dsimp only
      split
      · refine ⟨dropped, ?_, hDropped⟩
        rw [List.cons_append, ← hRest]
      next hNone =>
        simp only [Bool.or_eq_true, Bool.not_eq_true',
          not_or, Bool.not_eq_false, Bool.not_eq_true,
          List.isEmpty_iff] at hNone
        refine ⟨first :: rest, rfl, ?_⟩
        intro part hPart
        rcases List.mem_cons.mp hPart with rfl | hLater
        · exact hNone.1.2
        · rw [hRest, hNone.1.1] at hLater
          exact hDropped part hLater

/- A path made of parts below the root. -/
theorem steps_rooted
    {parts : List String}
    (hSome : parts ≠ [])
    (hWhole : ∀ part ∈ parts, '/' ∉ part.toList) :
    steps ⟨"/" ++ "/".intercalate parts⟩ = "" :: parts := by
  have hText :
      "/" ++ "/".intercalate parts =
        "/".intercalate ("" :: parts) := by
    rw [String.intercalate_cons_of_ne_nil hSome,
      String.empty_append]
  rw [hText]
  apply steps_intercalate
  · exact List.cons_ne_nil "" parts
  · intro part hPart
    rcases List.mem_cons.mp hPart with rfl | hMem
    · exact List.not_mem_nil
    · exact hWhole part hMem

/- The parent of an absolute path that ends with a piece. -/
theorem parent?_of_steps
    {p : Path}
    {parts : List String}
    {name : String}
    (hSteps : p.steps = "" :: (parts ++ [name]))
    (hPiece : isPiece name = true) :
    p.parent? =
      some ⟨"/" ++ "/".intercalate (dropIdle true parts)⟩ := by
  have hAbsolute : p.isAbsolute = true :=
    isAbsolute_of_steps hSteps (by simp)
  unfold parent?
  rw [hAbsolute, hSteps]
  simp only [if_true, List.drop_one, List.tail_cons,
    dropIdle_concat true parts hPiece]
  split
  next hNone => simp at hNone
  · rw [List.dropLast_concat]

section Below

variable {p : Path} {names : List String} {name : String}

/- Dropping the last of some names leads to the parent. -/
theorem parent?_join
    (hAbsolute : p.isAbsolute = true)
    (hPlain : IsPlain (names ++ [name]))
    (hSome : names ≠ []) :
    (p.join (ofPieces (names ++ [name]))).parent? =
      some (p.join (ofPieces names)) := by
  have hFront := hPlain.front hSome
  rcases steps_of_isAbsolute hAbsolute with ⟨rest, hTrunk⟩
  rcases hFront.exists_concat with
    ⟨before, last, hNames, hLast⟩
  have hSteps :
      (p.join (ofPieces names)).steps =
        "" :: (rest ++ names) := by
    rw [steps_join hAbsolute hFront.isAbsolute_eq,
      hFront.steps_eq, hTrunk, List.cons_append]
  have hWhole : ∀ part ∈ rest ++ names,
      '/' ∉ part.toList := by
    intro part hPart
    apply slash_notMem_steps (p := p.join (ofPieces names))
    rw [hSteps]
    exact List.mem_cons_of_mem "" hPart
  have hKept : dropIdle true (rest ++ names) =
      rest ++ names := by
    rw [hNames, ← List.append_assoc]
    exact dropIdle_concat true _ hLast
  have hLonger :
      (p.join (ofPieces (names ++ [name]))).steps =
        "" :: (rest ++ names ++ [name]) := by
    rw [steps_join hAbsolute hPlain.isAbsolute_eq,
      hPlain.steps_eq, hTrunk, List.cons_append,
      List.append_assoc]
  rw [parent?_of_steps hLonger
    (hPlain.pieces name (by simp))]
  congr 1
  apply eq_of_steps
  rw [hKept, steps_rooted (by simp [hSome]) hWhole, hSteps]

/-
  `q` is no longer than `p` and takes the same steps, up to
  steps at the end that lead nowhere.
-/
structure Trims (q p : Path) : Prop where
  absolute : q.isAbsolute = true
  chars : q.text.toList.Sublist p.text.toList
  steps :
    ∃ kept idle idle',
      p.steps = kept ++ idle ∧
      q.steps = kept ++ idle' ∧
      (∀ step ∈ idle, isPiece step = false) ∧
      (∀ step ∈ idle', isPiece step = false)

/- Dropping the only name leads back to where it began. -/
theorem parent?_join_single
    (hAbsolute : p.isAbsolute = true)
    (hPlain : IsPlain [name]) :
    ∃ q, (p.join (ofPieces [name])).parent? = some q ∧
      q.Trims p := by
  rcases steps_of_isAbsolute hAbsolute with ⟨rest, hTrunk⟩
  rcases p.steps_trunk with ⟨slash, hSlash, hSlashIdle⟩
  rcases exists_dropIdle true rest with ⟨idle, hRest, hIdle⟩
  have hLonger :
      (p.join (ofPieces [name])).steps =
        "" :: (rest ++ [name]) := by
    rw [steps_join hAbsolute hPlain.isAbsolute_eq,
      hPlain.steps_eq, hTrunk, List.cons_append]
  have hSteps :
      p.steps =
        ("" :: dropIdle true rest) ++ (idle ++ slash) := by
    rw [hSlash, hTrunk, List.cons_append, List.cons_append,
      ← List.append_assoc, ← hRest]
  have hDropped : ∀ step ∈ idle ++ slash,
      isPiece step = false := by
    intro step hStep
    rcases List.mem_append.mp hStep with hHere | hEnd
    · exact hIdle step hHere
    · exact hSlashIdle step hEnd
  refine ⟨_, parent?_of_steps hLonger
    (hPlain.pieces name List.mem_cons_self), ?_⟩
  by_cases hNone : dropIdle true rest = []
  · rw [hNone] at hSteps ⊢
    rcases exists_of_isAbsolute hAbsolute with ⟨cs, hText⟩
    constructor
    · rfl
    · rw [hText]
      exact List.singleton_sublist.mpr List.mem_cons_self
    · exact ⟨[""], idle ++ slash, [""], hSteps, rfl,
        hDropped, by simp [isPiece]⟩
  · have hWhole : ∀ part ∈ dropIdle true rest,
        '/' ∉ part.toList := by
      intro part hPart
      apply slash_notMem_steps (p := p)
      rw [hSteps]
      simp [hPart]
    have hShorter := steps_rooted hNone hWhole
    constructor
    · exact isAbsolute_of_steps hShorter hNone
    · rw [text_eq p, text_eq ⟨_ ++ _⟩, hShorter, hSteps]
      exact intercalate_sublist
        (List.sublist_append_left _ _)
    · exact ⟨"" :: dropIdle true rest, idle ++ slash, [],
        hSteps, hShorter.trans (List.append_nil _).symm,
        hDropped, by simp⟩

/- A path below another does not end with a slash. -/
theorem endsWithSlash_join
    (hAbsolute : p.isAbsolute = true)
    (hPlain : IsPlain names) :
    (p.join (ofPieces names)).endsWithSlash = false := by
  by_contra hSlash
  rw [Bool.not_eq_false] at hSlash
  have hLast := getLast?_steps hSlash
  rcases hPlain.exists_concat with
    ⟨front, name, hNames, hPiece⟩
  rw [steps_join hAbsolute hPlain.isAbsolute_eq,
    hPlain.steps_eq, hNames, ← List.append_assoc,
    List.getLast?_concat] at hLast
  cases hLast
  exact absurd hPiece (by decide)

/- There are at least as many parents as names. -/
theorem length_le_text_join
    (hAbsolute : p.isAbsolute = true)
    (hPlain : IsPlain names) :
    names.length ≤ (p.join (ofPieces names)).text.length := by
  have hLength := (p.join (ofPieces names)).length_steps_le
  rcases steps_of_isAbsolute hAbsolute with ⟨rest, hTrunk⟩
  rw [steps_join hAbsolute hPlain.isAbsolute_eq,
    hPlain.steps_eq, hTrunk, List.length_append,
    List.length_cons] at hLength
  omega

end Below

end Path

end ArchiveRescue
