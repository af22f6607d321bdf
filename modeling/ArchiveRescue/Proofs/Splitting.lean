import Mathlib
import ArchiveRescue.Proofs.Inscription

/-
  What becomes of a long path that is split into a folder and
  a name.  It is split at the first slash whose two sides fit
  their fields, even where nothing or another slash stands in
  front of it.  Joining the sides again then loses slashes,
  and this happens at no other paths.

  Key definitions include:
    * `Ustar.Header.SplitsAt`
    * `Ustar.Header.joined`
    * `Ustar.Header.LosesAt`

  Main statements:
    * `Ustar.Header.splitFrom?_first`
    * `Ustar.Header.joined_eq_iff`
    * `Ustar.Header.split_of_loses`
    * `Ustar.Header.plain_path_reads_back_iff`
-/

namespace ArchiveRescue

namespace Ustar

namespace Header

------------------------------------------------------------
-- The First Slash That Fits
------------------------------------------------------------

/- A slash whose two sides fit their fields. -/
structure SplitsAt (cs before after : List Char) : Prop where
  whole : cs = before ++ '/' :: after
  folder_fits : (Text.encodeChars before).length ≤ 155
  name_fits : (Text.encodeChars after).length ≤ 100
  name_some : after ≠ []

theorem fits_iff {before after : List Char} :
    fits before after = true ↔
      (Text.encodeChars before).length ≤ 155 ∧
        (Text.encodeChars after).length ≤ 100 ∧
          after ≠ [] := by
  simp [fits, and_assoc]

/- Both sides of a slash are shorter than the whole. -/
theorem length_encodeChars_slash (before after : List Char) :
    (Text.encodeChars (before ++ '/' :: after)).length =
      (Text.encodeChars before).length + 1 +
        (Text.encodeChars after).length := by
  have hSlash :
      Text.encodeChars ('/' :: after) =
        0x2F :: Text.encodeChars after :=
    rfl
  rw [Text.encodeChars_append, hSlash, List.length_append,
    List.length_cons]
  omega

/- What is found is a slash that fits. -/
theorem splitFrom?_sound
    {done cs before after : List Char}
    (hSplit : splitFrom? done cs = some (before, after)) :
    SplitsAt (done ++ cs) before after := by
  induction cs generalizing done with
  | nil => cases hSplit
  | cons c rest ih =>
      unfold splitFrom? at hSplit
      split at hSplit
      next hHere =>
        rw [Bool.and_eq_true, beq_iff_eq] at hHere
        rcases hHere with ⟨rfl, hFits⟩
        cases hSplit
        rcases fits_iff.mp hFits with ⟨hFolder, hName, hSome⟩
        exact ⟨rfl, hFolder, hName, hSome⟩
      next =>
        have hLater := ih hSplit
        rw [List.append_assoc] at hLater
        exact hLater

/- If there is one, one is found, and none stands before it. -/
theorem splitFrom?_first
    {done front after : List Char}
    (hSplits :
      SplitsAt (done ++ (front ++ '/' :: after))
        (done ++ front) after) :
    ∃ before tail,
      splitFrom? done (front ++ '/' :: after) =
          some (before, tail) ∧
        before <+: done ++ front := by
  induction front generalizing done with
  | nil =>
      have hFits : fits done after = true := by
        rw [List.append_nil] at hSplits
        exact fits_iff.mpr
          ⟨hSplits.folder_fits, hSplits.name_fits,
            hSplits.name_some⟩
      refine ⟨done, after, ?_, List.prefix_append _ _⟩
      rw [List.nil_append]
      unfold splitFrom?
      rw [hFits]
      rfl
  | cons c rest ih =>
      rw [List.cons_append]
      unfold splitFrom?
      split
      · exact ⟨done, _, rfl, List.prefix_append _ _⟩
      · have hNext := @ih (done ++ [c])
        simp only [List.append_assoc, List.singleton_append]
          at hNext
        exact hNext hSplits

/- So a long path with a slash that fits is split. -/
theorem split_of_splits
    {p : String}
    {front tail : List Char}
    (hLong : 100 < (Text.encode p).length)
    (hSplits : SplitsAt p.toList front tail) :
    ∃ before after,
      split p = (String.ofList before, String.ofList after) ∧
        SplitsAt p.toList before after ∧ before <+: front := by
  have hFirst :=
    @splitFrom?_first [] front tail (hSplits.whole ▸ hSplits)
  rw [← hSplits.whole] at hFirst
  rcases hFirst with ⟨before, after, hSplit, hPrefix⟩
  refine ⟨before, after, ?_, splitFrom?_sound hSplit, hPrefix⟩
  unfold split
  rw [if_neg (by omega), hSplit]

------------------------------------------------------------
-- Joining Again
------------------------------------------------------------

/- The path of an entry whose folder and name are these. -/
def joined (before after : List Char) : List Char :=
  if before = [] then after
  else before.rdropWhile (· == '/') ++ '/' :: after

theorem path_eq_joined
    {h : Header}
    {before after : List Char}
    (hFolder : h.folder = String.ofList before)
    (hName : h.name = String.ofList after) :
    h.path = String.ofList (joined before after) := by
  unfold path joined
  rw [hFolder, hName]
  by_cases hNone : before = []
  · rw [hNone]
    rfl
  · have hSome : (String.ofList before == "") = false := by
      simpa using hNone
    rw [hSome, if_neg hNone, String.toList_ofList]
    simp [List.rdropWhile, String.ofList_append,
      String.append_assoc]

/-
  A folder that is joined to a name as it was: there is one,
  and it does not end with a slash.
-/
def Rejoins (before : List Char) : Prop :=
  before ≠ [] ∧ before.getLast? ≠ some '/'

theorem joined_eq_iff (before after : List Char) :
    joined before after = before ++ '/' :: after ↔
      Rejoins before := by
  unfold joined Rejoins
  by_cases hNone : before = []
  · have hOther : after ≠ '/' :: after := by
      intro hSame
      have hLength := congrArg List.length hSame
      simp at hLength
    simp [hNone, hOther]
  · rw [if_neg hNone, List.append_left_inj,
      List.rdropWhile_eq_self_iff,
      List.getLast?_eq_getLast_of_ne_nil hNone]
    simp [hNone]

------------------------------------------------------------
-- Lost Slashes
------------------------------------------------------------

/-
  A slash in front of just the hundred bytes that the field
  of the name can hold, behind a folder that is not joined
  as it was.
-/
structure LosesAt (cs before after : List Char) : Prop where
  whole : cs = before ++ '/' :: after
  folder_fits : (Text.encodeChars before).length ≤ 155
  name_full : (Text.encodeChars after).length = 100
  parts : ¬ Rejoins before

/- Both sides fit there. -/
theorem LosesAt.splits
    {cs before after : List Char}
    (hLoses : LosesAt cs before after) :
    SplitsAt cs before after := by
  refine ⟨hLoses.whole, hLoses.folder_fits,
    Nat.le_of_eq hLoses.name_full, ?_⟩
  rintro rfl
  exact absurd hLoses.name_full (by decide)

/-
  The path is split there: behind any slash before it, there
  is more than the field of the name can hold.
-/
theorem split_of_loses
    {p : String}
    {before after : List Char}
    (hLoses : LosesAt p.toList before after) :
    split p = (String.ofList before, String.ofList after) := by
  have hTotal : (Text.encode p).length =
      (Text.encodeChars before).length + 1 + 100 := by
    unfold Text.encode
    rw [hLoses.whole, length_encodeChars_slash,
      hLoses.name_full]
  rcases split_of_splits (by omega) hLoses.splits with
    ⟨first, name, hSplit, hFirst, rest, rfl⟩
  have hWhole := hFirst.whole
  rw [hLoses.whole, List.append_assoc,
    List.append_cancel_left_eq] at hWhole
  cases rest with
  | nil =>
      rw [List.nil_append, List.cons_inj_right] at hWhole
      rw [hSplit, List.append_nil, hWhole]
  | cons c more =>
      rw [List.cons_append, List.cons_eq_cons] at hWhole
      have hName := hFirst.name_fits
      rw [← hWhole.2, length_encodeChars_slash,
        hLoses.name_full] at hName
      omega

/-
  A long path loses slashes only there.  The folder is empty
  or ends with a slash.  If the name were not full, an earlier
  slash would be found, or the path would not be long.
-/
theorem loses_of_split
    {p : String}
    {before after : List Char}
    (hLong : 100 < (Text.encode p).length)
    (hSplits : SplitsAt p.toList before after)
    (hSplit :
      split p = (String.ofList before, String.ofList after))
    (hParts : ¬ Rejoins before) :
    LosesAt p.toList before after := by
  refine ⟨hSplits.whole, hSplits.folder_fits, ?_, hParts⟩
  have hName := hSplits.name_fits
  by_contra hRoom
  by_cases hNone : before = []
  · have hTotal := hLong
    unfold Text.encode at hTotal
    rw [hSplits.whole, length_encodeChars_slash, hNone]
      at hTotal
    change 100 < 0 + 1 + _ at hTotal
    omega
  · have hSlash : before.getLast? = some '/' := by
      by_contra hOther
      exact hParts ⟨hNone, hOther⟩
    rcases List.getLast?_eq_some_iff.mp hSlash with
      ⟨front, rfl⟩
    have hEarlier : SplitsAt p.toList front ('/' :: after) := by
      constructor
      case whole => rw [hSplits.whole, List.append_assoc]; rfl
      case folder_fits =>
        have hFolder := hSplits.folder_fits
        rw [length_encodeChars_slash] at hFolder
        omega
      case name_fits =>
        have hSlashed := length_encodeChars_slash [] after
        rw [List.nil_append] at hSlashed
        rw [hSlashed]
        change 0 + 1 + _ ≤ 100
        omega
      case name_some => exact List.cons_ne_nil _ _
    rcases split_of_splits hLong hEarlier with
      ⟨first, name, hFound, -, hPrefix⟩
    rw [hSplit, Prod.mk.injEq, String.ofList_inj] at hFound
    have hLength := hPrefix.length_le
    rw [← hFound.1, List.length_append, List.length_singleton]
      at hLength
    omega

------------------------------------------------------------
-- Plain Paths
------------------------------------------------------------

/- Characters that are neither zero nor blank. -/
def IsPlain (cs : List Char) : Prop :=
  ∀ c ∈ cs, c ≠ '\x00' ∧ Text.isBlank c = false

/- A field keeps as many of them as it has room for. -/
theorem keeps_of_plain
    {width : Nat}
    {cs : List Char}
    (hPlain : IsPlain cs)
    (hFits : (Text.encodeChars cs).length ≤ width) :
    Field.Keeps width (String.ofList cs) := by
  constructor
  case fits =>
    unfold Text.encode
    rw [String.toList_ofList]
    exact hFits
  case clear =>
    rw [String.toList_ofList]
    exact fun hMem => (hPlain _ hMem).1 rfl
  case first =>
    rw [String.toList_ofList]
    exact fun c hFirst =>
      (hPlain c (List.mem_of_head? hFirst)).2
  case last =>
    rw [String.toList_ofList]
    exact fun c hLast =>
      (hPlain c (List.mem_of_getLast? hLast)).2

/- Plain sides of a slash are read back and joined. -/
theorem path_of_place
    {h : Header}
    {before after : List Char}
    (hPlace :
      h.place = (String.ofList before, String.ofList after))
    (hBefore : IsPlain before)
    (hAfter : IsPlain after)
    (hFolder : (Text.encodeChars before).length ≤ 155)
    (hName : (Text.encodeChars after).length ≤ 100) :
    h.toBlock.header.path =
      String.ofList (joined before after) := by
  have hFirst := h.folder_placed
  have hSecond := h.name_placed
  rw [hPlace] at hFirst hSecond
  exact path_eq_joined
    (hFirst (keeps_of_plain hBefore hFolder))
    (hSecond (keeps_of_plain hAfter hName))

/-
  A plain path that is short or can be split is read back
  from its header exactly if it loses no slashes.  If it does,
  what is read is the path with the slashes lost.
-/
theorem plain_path_reads_back_iff
    (h : Header)
    (hFolder : h.folder = "")
    (hPlain : IsPlain h.name.toList)
    (hFits :
      (Text.encode h.name).length ≤ 100 ∨
        ∃ before after, SplitsAt h.name.toList before after) :
    (h.toBlock.header.path = h.name ↔
        ¬ ∃ before after,
          LosesAt h.name.toList before after) ∧
      ∀ before after, LosesAt h.name.toList before after →
        h.toBlock.header.path =
          String.ofList (joined before after) := by
  have hPlace : h.place = split h.name := by
    unfold place
    rw [hFolder]
    rfl
  have hSides : ∀ before after,
      SplitsAt h.name.toList before after →
        split h.name =
            (String.ofList before, String.ofList after) →
          h.toBlock.header.path =
            String.ofList (joined before after) := by
    intro before after hSplits hSplit
    have hBoth := hPlain
    rw [hSplits.whole] at hBoth
    apply path_of_place (hPlace.trans hSplit)
    · exact fun c hMem =>
        hBoth c (List.mem_append_left _ hMem)
    · exact fun c hMem =>
        hBoth c (List.mem_append_right _
          (List.mem_cons_of_mem _ hMem))
    · exact hSplits.folder_fits
    · exact hSplits.name_fits
  have hLost : ∀ before after,
      LosesAt h.name.toList before after →
        h.toBlock.header.path =
          String.ofList (joined before after) := by
    intro before after hLoses
    exact hSides before after hLoses.splits
      (split_of_loses hLoses)
  refine ⟨⟨?_, ?_⟩, hLost⟩
  · rintro hSame ⟨before, after, hLoses⟩
    rw [hLost before after hLoses] at hSame
    have hJoined := congrArg String.toList hSame
    rw [String.toList_ofList, hLoses.whole] at hJoined
    exact hLoses.parts
      ((joined_eq_iff before after).mp hJoined)
  · intro hKept
    by_cases hShort : (Text.encode h.name).length ≤ 100
    · have hKeeps := keeps_of_plain hPlain hShort
      rw [String.ofList_toList] at hKeeps
      exact h.path_toBlock hFolder hShort hKeeps.clear
        (Text.trimChars_eq_self hKeeps.first hKeeps.last)
    · rcases hFits with hShorter | ⟨front, tail, hSplits⟩
      · exact absurd hShorter hShort
      · rcases split_of_splits (by omega) hSplits with
          ⟨before, after, hSplit, hFirst, -⟩
        have hRejoins : Rejoins before := by
          by_contra hParts
          exact hKept ⟨before, after,
            loses_of_split (by omega) hFirst hSplit hParts⟩
        rw [hSides before after hFirst hSplit,
          (joined_eq_iff before after).mpr hRejoins,
          ← hFirst.whole, String.ofList_toList]

/- An absolute path that is read back as a relative one. -/
theorem absolute_path_reads_back_relative :
    let rest :=
      List.replicate 50 'b' ++ '/' :: List.replicate 49 'c'
    let h : Header :=
      { name := String.ofList ('/' :: rest)
        mode := 0o644
        size := 0 }
    h.toBlock.header.path = String.ofList rest ∧
      h.toBlock.header.path ≠ h.name := by
  intro rest h
  have hChars : h.name.toList = '/' :: rest :=
    String.toList_ofList
  have hLoses : LosesAt h.name.toList [] rest := by
    rw [hChars]
    refine ⟨rfl, by decide, by decide, ?_⟩
    exact fun hParts => hParts.1 rfl
  have hPlain : IsPlain h.name.toList := by
    intro c hMem
    have hKinds : c = '/' ∨ c = 'b' ∨ c = 'c' := by
      rw [hChars] at hMem
      simp [rest] at hMem
      tauto
    rcases hKinds with rfl | rfl | rfl <;> decide
  have hRead :=
    plain_path_reads_back_iff h rfl hPlain
      (.inr ⟨[], rest, hLoses.splits⟩)
  refine ⟨hRead.2 [] rest hLoses, ?_⟩
  intro hSame
  exact hRead.1.mp hSame ⟨[], rest, hLoses⟩

end Header

end Ustar

end ArchiveRescue
