import Mathlib
import ArchiveRescue.Proofs.Disk
import ArchiveRescue.Proofs.Path

/-
  Trees below a directory of a disk, observed by what stands
  at each place.  Making a directory or a file below it adds
  the directories on the way and nothing else.

  Key definitions include:
    * `Trouble.Permits`
    * `Disk.Hosts`
    * `Disk.Adds`
    * `Disk.IsFree`
    * `Disk.IsOpen`

  Main statements:
    * `Disk.Hosts.locate_join`
    * `Disk.Hosts.makeDirectories_join`
    * `Disk.Hosts.makeParents_join`
    * `Disk.Hosts.createFile_join`
    * `Disk.Hosts.removeFile_join`
    * `Disk.isDirectory_of_makeDirectories`
    * `Disk.children_eq_nil_iff`
-/

namespace ArchiveRescue

open ArchiveRescue.Path

/- No change is refused. -/
def Trouble.Permits (trouble : Trouble) : Prop :=
  ∀ turn change, trouble.refuses turn change = none

/- So files that could be opened can be written to. -/
theorem Trouble.Permits.keepsWriting
    {trouble : Trouble}
    (hPermits : trouble.Permits) :
    trouble.KeepsWriting := by
  intro turn place data
  exact hPermits turn (.append place data)

namespace Disk

------------------------------------------------------------
-- Following Steps
------------------------------------------------------------

/- The first step, and from there the others. -/
theorem follow_cons
    (d : Disk)
    (here : Location)
    (name : String)
    (rest : List String) :
    d.follow here (name :: rest) =
      (d.descend here name).bind
        (fun there => d.follow there rest) := by
  rw [follow]
  cases d.descend here name with
  | error fault => rfl
  | ok there => rfl

/- Steps are followed one after another. -/
theorem follow_append
    (d : Disk)
    (here : Location)
    (front back : List String) :
    d.follow here (front ++ back) =
      (d.follow here front).bind
        (fun there => d.follow there back) := by
  induction front generalizing here with
  | nil => rfl
  | cons name rest ih =>
      rw [List.cons_append, follow_cons, follow_cons]
      cases d.descend here name with
      | error fault => rfl
      | ok there => exact ih there

/- A step that goes nowhere stays in its directory. -/
theorem descend_idle
    (d : Disk)
    (here : Location)
    {step : String}
    (hIdle : isPiece step = false) :
    d.descend here step =
      match d.node? here with
      | none => .error .missing
      | some (.file ..) => .error (.system .notDirectory)
      | some .directory => .ok here := by
  have hStep : (step == "" || step == ".") = true := by
    unfold isPiece at hIdle
    cases hEmpty : step == "" with
    | true => rfl
    | false =>
        cases hDot : step == "." with
        | true => rfl
        | false => simp [bne, hEmpty, hDot] at hIdle
  unfold descend
  rewrite [if_pos hStep]
  rfl

/- So do such steps one after another. -/
theorem follow_idle
    {d : Disk}
    {here : Location}
    {idle : List String}
    (hHere : d.node? here = some .directory)
    (hIdle : ∀ step ∈ idle, isPiece step = false) :
    d.follow here idle = .ok here := by
  induction idle with
  | nil => rfl
  | cons step rest ih =>
      have hStep := hIdle step List.mem_cons_self
      rw [follow_cons, descend_idle d here hStep, hHere]
      apply ih
      intro later hLater
      exact hIdle later (List.mem_cons_of_mem step hLater)

theorem eq_of_follow_idle
    {d : Disk}
    {here there : Location}
    {idle : List String}
    (hIdle : ∀ step ∈ idle, isPiece step = false)
    (hFollow : d.follow here idle = .ok there) :
    there = here := by
  induction idle with
  | nil =>
      cases hFollow
      rfl
  | cons step rest ih =>
      have hStep := hIdle step List.mem_cons_self
      unfold follow at hFollow
      rw [descend_idle d here hStep] at hFollow
      split at hFollow
      · cases hFollow
      next hDescend =>
        split at hDescend
        · cases hDescend
        · cases hDescend
        · cases hDescend
          apply ih _ hFollow
          intro later hLater
          exact hIdle later (List.mem_cons_of_mem step hLater)

/- Steps lead to the same place where no directory is gone. -/
theorem follow_grown
    {d e : Disk}
    {here there : Location}
    {names : List String}
    (hGrown :
      ∀ place, d.node? place = some .directory →
        e.node? place = some .directory)
    (hFollow : d.follow here names = .ok there) :
    e.follow here names = .ok there := by
  induction names generalizing here with
  | nil => exact hFollow
  | cons name rest ih =>
      unfold follow at hFollow ⊢
      split at hFollow
      · cases hFollow
      next next hDescend =>
        have hSame : e.descend here name = .ok next := by
          unfold descend at hDescend ⊢
          split at hDescend
          · cases hDescend
          · cases hDescend
          next hHere =>
            rw [hGrown here hHere]
            exact hDescend
        rw [hSame]
        exact ih hFollow

------------------------------------------------------------
-- Locating Paths
------------------------------------------------------------

section Locating

variable {d e : Disk} {p q : Path} {place : Location}

/- What a path must be like to lead anywhere. -/
theorem text_of_locate
    (hLocate : d.locate p = .ok place) :
    '\x00' ∉ p.text.toList ∧
      (Text.encode p.text).length < 4096 := by
  unfold locate at hLocate
  split at hLocate
  · cases hLocate
  next hClear =>
    split at hLocate
    · cases hLocate
    · split at hLocate
      · cases hLocate
      next hShort =>
        constructor
        · simpa using hClear
        · exact Nat.not_le.mp hShort

/- An absolute path is followed from the root. -/
theorem locate_eq
    (d : Disk)
    (hAbsolute : p.isAbsolute = true)
    (hClear : '\x00' ∉ p.text.toList)
    (hShort : (Text.encode p.text).length < 4096) :
    d.locate p =
      d.follow []
        (p.steps.reverse.dropWhile (· == "")).reverse := by
  have hSome := beq_false_of_ne (text_ne_empty hAbsolute)
  unfold locate
  rw [if_neg (by simpa using hClear), hSome,
    if_neg Bool.false_ne_true, if_neg (Nat.not_le.mpr hShort),
    hAbsolute]
  rfl

/- The empty steps at its end make no difference. -/
theorem locate_of_follow
    (hAbsolute : p.isAbsolute = true)
    (hClear : '\x00' ∉ p.text.toList)
    (hShort : (Text.encode p.text).length < 4096)
    (hFollow : d.follow [] p.steps = .ok place) :
    d.locate p = .ok place := by
  rw [locate_eq d hAbsolute hClear hShort]
  rcases exists_dropEnd (· == "") p.steps with
    ⟨dropped, hSteps, hEmpty⟩
  rw [hSteps, follow_append] at hFollow
  cases hNames :
      d.follow []
        (p.steps.reverse.dropWhile (· == "")).reverse with
  | error fault =>
      rw [hNames] at hFollow
      cases hFollow
  | ok there =>
      rw [hNames] at hFollow
      have hIdle : ∀ step ∈ dropped,
          isPiece step = false := by
        intro step hStep
        rw [beq_iff_eq.mp (hEmpty step hStep)]
        rfl
      rw [eq_of_follow_idle hIdle hFollow]

theorem follow_of_locate
    (hAbsolute : p.isAbsolute = true)
    (hLocate : d.locate p = .ok place)
    (hPlace : d.node? place = some .directory) :
    d.follow [] p.steps = .ok place := by
  rcases text_of_locate hLocate with ⟨hClear, hShort⟩
  rcases exists_dropEnd (· == "") p.steps with
    ⟨dropped, hSteps, hEmpty⟩
  rw [locate_eq d hAbsolute hClear hShort] at hLocate
  rw [hSteps, follow_append, hLocate]
  apply follow_idle hPlace
  intro step hStep
  rw [beq_iff_eq.mp (hEmpty step hStep)]
  rfl

/- Paths keep leading where no directory is gone. -/
theorem locate_grown
    (hGrown :
      ∀ place, d.node? place = some .directory →
        e.node? place = some .directory)
    (hSettings : d.SameSettings e)
    (hLocate : d.locate p = .ok place) :
    e.locate p = .ok place := by
  unfold locate at hLocate ⊢
  rw [hSettings.workDir]
  split at hLocate
  · cases hLocate
  next hClear =>
    rw [if_neg hClear]
    split at hLocate
    · cases hLocate
    next hSome =>
      rw [if_neg hSome]
      split at hLocate
      · cases hLocate
      next hShort =>
        rw [if_neg hShort]
        exact follow_grown hGrown hLocate

end Locating

------------------------------------------------------------
-- Directories That Host
------------------------------------------------------------

/-
  The path `full` leads to the directory `base`, and there is
  room for the paths of plain names below it.
-/
structure Hosts
    (d : Disk)
    (full : Path)
    (base : Location) : Prop where
  absolute : full.isAbsolute = true
  leads : d.locate full = .ok base
  directory : d.node? base = some .directory
  room : (Text.encode full.text).length + 101 < 4096
  permits : d.trouble.Permits

namespace Hosts

variable {d : Disk} {full : Path} {base : Location}
variable {names : List String}

/- The directory is found without a slash at the end. -/
theorem follow_trunk (hHosts : d.Hosts full base) :
    d.follow [] full.trunk.steps = .ok base := by
  have hFollow :=
    follow_of_locate hHosts.absolute hHosts.leads
      hHosts.directory
  rcases full.steps_trunk with ⟨idle, hSteps, hIdle⟩
  rw [hSteps, follow_append] at hFollow
  cases hTrunk : d.follow [] full.trunk.steps with
  | error fault =>
      rw [hTrunk] at hFollow
      cases hFollow
  | ok there =>
      rw [hTrunk] at hFollow
      rw [eq_of_follow_idle hIdle hFollow]

/- Paths of plain names have no zero and are not too long. -/
theorem text_join
    (hHosts : d.Hosts full base)
    (hPlain : IsPlain names) :
    '\x00' ∉ (full.join (.ofPieces names)).text.toList ∧
      (Text.encode
        (full.join (.ofPieces names)).text).length < 4096 := by
  rcases text_of_locate hHosts.leads with ⟨hClear, -⟩
  have hRoom := hHosts.room
  have hShort := hPlain.short
  have hTrunk := length_encodeChars_le full.trunk_sublist
  rw [Path.text_join hHosts.absolute hPlain.isAbsolute_eq]
  constructor
  · simp only [String.toList_append, List.mem_append, not_or]
    refine ⟨⟨?_, by decide⟩, hPlain.clear⟩
    intro hMem
    exact hClear (full.trunk_sublist.subset hMem)
  · have hSlash :
        (Text.encodeChars "/".toList).length = 1 := by
      decide +kernel
    unfold Text.encode at *
    simp only [String.toList_append, Text.encodeChars_append,
      List.length_append, hSlash]
    omega

/- A path of plain names is followed from the directory. -/
theorem locate_join
    (hHosts : d.Hosts full base)
    (hPlain : IsPlain names) :
    d.locate (full.join (.ofPieces names)) =
      d.follow base names := by
  rcases hHosts.text_join hPlain with ⟨hClear, hShort⟩
  rcases hPlain.exists_concat with
    ⟨front, name, hNames, hPiece⟩
  have hKept :
      ((full.trunk.steps ++ names).reverse.dropWhile
          (· == "")).reverse =
        full.trunk.steps ++ names := by
    have hName : (name == "") = false := by
      rw [beq_eq_false_iff_ne]
      rintro rfl
      exact absurd hPiece (by decide)
    rw [hNames, ← List.append_assoc, List.reverse_append,
      List.reverse_singleton, List.singleton_append,
      List.dropWhile_cons_of_neg (by simp [hName]),
      List.reverse_cons, List.reverse_reverse]
  rw [locate_eq d (isAbsolute_join _ hHosts.absolute) hClear
    hShort, steps_join hHosts.absolute hPlain.isAbsolute_eq,
    hPlain.steps_eq, hKept, follow_append,
    hHosts.follow_trunk]
  rfl

/- The directory is found by every shorter form of its path. -/
theorem locate_trims
    (hHosts : d.Hosts full base)
    {q : Path}
    (hTrims : q.Trims full) :
    d.locate q = .ok base := by
  rcases text_of_locate hHosts.leads with ⟨hClear, hShort⟩
  rcases hTrims.steps with
    ⟨kept, idle, idle', hSteps, hShorter, hIdle, hIdle'⟩
  have hFollow :=
    follow_of_locate hHosts.absolute hHosts.leads
      hHosts.directory
  apply locate_of_follow hTrims.absolute
  · intro hMem
    exact hClear (hTrims.chars.subset hMem)
  · exact
      (length_encodeChars_le hTrims.chars).trans_lt hShort
  · rw [hSteps, follow_append] at hFollow
    rw [hShorter, follow_append]
    cases hKept : d.follow [] kept with
    | error fault =>
        rw [hKept] at hFollow
        cases hFollow
    | ok there =>
        rw [hKept] at hFollow
        have hThere := eq_of_follow_idle hIdle hFollow
        subst hThere
        exact follow_idle hHosts.directory hIdle'

end Hosts

------------------------------------------------------------
-- Additions
------------------------------------------------------------

/-
  Below `base`, the second disk holds what the first one
  holds and what is put there, each node at a place relative
  to `base`.  Everywhere else they hold the same.
-/
structure Adds
    (d e : Disk)
    (base : Location)
    (put : Location → Node → Prop) : Prop where
  settings : d.SameSettings e
  below :
    ∀ rel, rel ≠ [] → ∀ node,
      e.node? (base ++ rel) = some node ↔
        d.node? (base ++ rel) = some node ∨ put rel node
  beside :
    ∀ place, (∀ rel, rel ≠ [] → place ≠ base ++ rel) →
      e.node? place = d.node? place

namespace Adds

variable {d e f : Disk} {base : Location}
variable {put more : Location → Node → Prop}

/- What stands there already is added by doing nothing. -/
theorem unchanged
    (hSettings : d.SameSettings e)
    (hSame : ∀ place, e.node? place = d.node? place)
    (hThere :
      ∀ rel, rel ≠ [] → ∀ node, put rel node →
        d.node? (base ++ rel) = some node) :
    Adds d e base put := by
  constructor
  · exact hSettings
  · intro rel hRel node
    rw [hSame]
    constructor
    · exact .inl
    · rintro (hOld | hPut)
      · exact hOld
      · exact hThere rel hRel node hPut
  · intro place _
    exact hSame place

/- Additions one after another. -/
theorem trans
    (hFirst : Adds d e base put)
    (hSecond : Adds e f base more) :
    Adds d f base
      (fun rel node => put rel node ∨ more rel node) := by
  constructor
  · exact hFirst.settings.trans hSecond.settings
  · intro rel hRel node
    rw [hSecond.below rel hRel, hFirst.below rel hRel,
      or_assoc]
  · intro place hBeside
    rw [hSecond.beside place hBeside,
      hFirst.beside place hBeside]

/- What was there already may count as added. -/
theorem widen
    (hAdds : Adds d e base put)
    (hInto : ∀ rel node, put rel node → more rel node)
    (hFrom :
      ∀ rel, rel ≠ [] → ∀ node, more rel node →
        d.node? (base ++ rel) = some node ∨ put rel node) :
    Adds d e base more := by
  constructor
  · exact hAdds.settings
  · intro rel hRel node
    rw [hAdds.below rel hRel]
    constructor
    · exact Or.imp_right (hInto rel node)
    · rintro (hOld | hMore)
      · exact .inl hOld
      · exact hFrom rel hRel node hMore
  · exact hAdds.beside

/- A single node is added where nothing stood. -/
theorem single
    {names : List String}
    {node : Node}
    (hSettings : d.SameSettings e)
    (hNone : d.node? (base ++ names) = none)
    (hPut :
      ∀ place, e.node? place =
        if place = base ++ names then some node
        else d.node? place)
    (hNames : names ≠ []) :
    Adds d e base
      (fun rel there => rel = names ∧ there = node) := by
  constructor
  · exact hSettings
  · intro rel _ there
    rw [hPut]
    by_cases hRel : rel = names
    · subst hRel
      rw [if_pos rfl, hNone]
      simp [eq_comm]
    · rw [if_neg (by simpa using hRel)]
      simp [hRel]
  · intro place hBeside
    rw [hPut, if_neg (hBeside names hNames)]

/- Where nothing stood, just what is put there stands. -/
theorem below_empty
    (hAdds : Adds d e base put)
    (hEmpty :
      ∀ rel, rel ≠ [] → d.node? (base ++ rel) = none)
    {rel : Location}
    (hRel : rel ≠ [])
    (node : Node) :
    e.node? (base ++ rel) = some node ↔ put rel node := by
  rw [hAdds.below rel hRel, hEmpty rel hRel]
  simp

/- No directory is gone. -/
theorem grown
    (hAdds : Adds d e base put)
    (place : Location)
    (hPlace : d.node? place = some .directory) :
    e.node? place = some .directory := by
  by_cases hBelow : ∃ rel, rel ≠ [] ∧ place = base ++ rel
  · rcases hBelow with ⟨rel, hRel, rfl⟩
    exact (hAdds.below rel hRel .directory).mpr (.inl hPlace)
  · rw [hAdds.beside place, hPlace]
    intro rel hRel hPlace
    exact hBelow ⟨rel, hRel, hPlace⟩

/- A directory goes on to host. -/
theorem hosts
    (hAdds : Adds d e base put)
    {full : Path}
    (hHosts : d.Hosts full base) :
    e.Hosts full base := by
  constructor
  · exact hHosts.absolute
  · exact
      locate_grown hAdds.grown hAdds.settings hHosts.leads
  · exact hAdds.grown base hHosts.directory
  · exact hHosts.room
  · rw [hAdds.settings.trouble]
    exact hHosts.permits

end Adds

------------------------------------------------------------
-- Ways Downwards
------------------------------------------------------------

/- No file stands on the way down from a directory. -/
def IsFree
    (d : Disk)
    (base : Location)
    (names : List String) : Prop :=
  ∀ front, front <+: names → ∀ data modified,
    d.node? (base ++ front) ≠ some (.file data modified)

/- Every directory on the way down stands. -/
def IsOpen
    (d : Disk)
    (base : Location)
    (names : List String) : Prop :=
  ∀ front, front <+: names → front ≠ names →
    d.node? (base ++ front) = some .directory

/- The first directory and the way down from the next one. -/
theorem isOpen_cons
    {d : Disk}
    {base : Location}
    (hBase : d.node? base = some .directory)
    (name : String)
    (rest : List String) :
    d.IsOpen base (name :: rest) ↔
      d.IsOpen (base ++ [name]) rest := by
  constructor
  · intro hOpen front hFront hOther
    rw [List.append_assoc]
    exact hOpen (name :: front)
      (List.cons_prefix_cons.mpr ⟨rfl, hFront⟩)
      (by simpa using hOther)
  · intro hOpen front hFront hOther
    cases front with
    | nil => rwa [List.append_nil]
    | cons first more =>
        rcases List.cons_prefix_cons.mp hFront with
          ⟨rfl, hMore⟩
        have hNode := hOpen more hMore (by simpa using hOther)
        rwa [List.append_assoc] at hNode

/- A name that leads downwards and is not too long. -/
def LeadsDown (name : String) : Prop :=
  isPiece name = true ∧ name ≠ ".." ∧
    (Text.encode name).length ≤ 255

/- Such a name leads from a directory to what it names. -/
theorem descend_down
    {d : Disk}
    {base : Location}
    {name : String}
    (hBase : d.node? base = some .directory)
    (hDown : LeadsDown name) :
    d.descend base name = .ok (base ++ [name]) := by
  rcases hDown with ⟨hPiece, hUp, hShort⟩
  unfold isPiece at hPiece
  simp only [Bool.and_eq_true, bne_iff_ne] at hPiece
  unfold descend
  rw [hBase]
  simp only [beq_false_of_ne hPiece.1,
    beq_false_of_ne hPiece.2, beq_false_of_ne hUp,
    Bool.or_self, Bool.false_eq_true, if_false]
  rw [if_neg (Nat.not_lt.mpr hShort)]

/- An open way leads to what stands at its end. -/
theorem follow_open
    {d : Disk}
    {base : Location}
    {names : List String}
    (hDown : ∀ name ∈ names, LeadsDown name)
    (hOpen : d.IsOpen base names) :
    d.follow base names = .ok (base ++ names) := by
  induction names generalizing base with
  | nil =>
      rw [List.append_nil]
      rfl
  | cons name rest ih =>
      have hBase := hOpen [] List.nil_prefix (by simp)
      rw [List.append_nil] at hBase
      have hRest : ∀ later ∈ rest, LeadsDown later := by
        intro later hLater
        exact hDown later (List.mem_cons_of_mem name hLater)
      have hFollow :=
        ih hRest ((isOpen_cons hBase name rest).mp hOpen)
      rw [List.append_assoc] at hFollow
      rw [follow_cons,
        descend_down hBase (hDown name List.mem_cons_self)]
      exact hFollow

/- On a way that is free but not open, something is missing. -/
theorem follow_shut
    {d : Disk}
    {base : Location}
    {names : List String}
    (hDown : ∀ name ∈ names, LeadsDown name)
    (hFree : d.IsFree base names)
    (hShut : ¬ d.IsOpen base names) :
    d.follow base names = .error .missing := by
  induction names generalizing base with
  | nil =>
      apply (hShut _).elim
      intro front hFront hOther
      exact (hOther (List.prefix_nil.mp hFront)).elim
  | cons name rest ih =>
      have hHere := hFree [] List.nil_prefix
      rw [List.append_nil] at hHere
      rw [follow_cons]
      cases hBase : d.node? base with
      | none =>
          unfold descend
          rw [hBase]
          rfl
      | some node =>
          cases node with
          | file data modified =>
              exact (hHere data modified hBase).elim
          | directory =>
              rw [isOpen_cons hBase] at hShut
              rw [descend_down hBase
                (hDown name List.mem_cons_self)]
              apply ih _ _ hShut
              · intro later hLater
                exact hDown later
                  (List.mem_cons_of_mem name hLater)
              · intro front hFront
                rw [List.append_assoc]
                exact hFree (name :: front)
                  (List.cons_prefix_cons.mpr ⟨rfl, hFront⟩)

/- The names of a plain path lead downwards. -/
theorem leadsDown_of_isPlain
    {names : List String}
    (hPlain : IsPlain names)
    {name : String}
    (hName : name ∈ names) :
    LeadsDown name :=
  ⟨hPlain.pieces name hName, hPlain.down name hName,
    hPlain.length_encode_le hName⟩

/- So a plain path leads where its names say, or nowhere. -/
theorem Hosts.locate_open
    {d : Disk}
    {full : Path}
    {base : Location}
    {names : List String}
    (hHosts : d.Hosts full base)
    (hPlain : IsPlain names)
    (hOpen : d.IsOpen base names) :
    d.locate (full.join (.ofPieces names)) =
      .ok (base ++ names) := by
  rw [hHosts.locate_join hPlain]
  exact follow_open (fun _ => leadsDown_of_isPlain hPlain) hOpen

theorem Hosts.locate_shut
    {d : Disk}
    {full : Path}
    {base : Location}
    {names : List String}
    (hHosts : d.Hosts full base)
    (hPlain : IsPlain names)
    (hFree : d.IsFree base names)
    (hShut : ¬ d.IsOpen base names) :
    d.locate (full.join (.ofPieces names)) =
      .error .missing := by
  rw [hHosts.locate_join hPlain]
  exact
    follow_shut (fun _ => leadsDown_of_isPlain hPlain) hFree
      hShut

------------------------------------------------------------
-- Making Directories
------------------------------------------------------------

/- A change that is permitted is made. -/
theorem perform_eq
    {d : Disk}
    (hPermits : d.trouble.Permits)
    (change : Change) :
    d.perform change =
      (.ok (),
        { d with turns := d.turns + 1 }.apply change) :=
  perform_allowed (hPermits d.turns change)

section Making

variable {d : Disk} {full : Path} {base : Location}
variable {names : List String}

/- A place below a directory is not the root. -/
theorem append_ne_root
    (base : Location)
    (hSome : names ≠ []) :
    base ++ names ≠ [] := by
  intro hRoot
  exact hSome (List.append_eq_nil_iff.mp hRoot).2

/- A free way has no file at its end. -/
theorem IsFree.last
    (hFree : d.IsFree base names) :
    d.node? (base ++ names) = none ∨
      d.node? (base ++ names) = some .directory := by
  cases hNode : d.node? (base ++ names) with
  | none => exact .inl rfl
  | some node =>
      cases node with
      | directory => exact .inr rfl
      | file data modified =>
          exact
            (hFree names (List.prefix_refl names) data modified
              hNode).elim

/- The shorter part of a free way is free. -/
theorem IsFree.front
    {front back : List String}
    (hFree : d.IsFree base (front ++ back)) :
    d.IsFree base front := by
  intro part hPart
  exact hFree part
    (hPart.trans (List.prefix_append front back))

/-
  Where the way is open, a directory is made at its end, or
  it is there already.
-/
theorem Hosts.makeDirectory_open
    (hHosts : d.Hosts full base)
    (hPlain : IsPlain names)
    (hFree : d.IsFree base names)
    (hOpen : d.IsOpen base names) :
    ∃ made,
      d.Adds made base
        (fun rel node => rel <+: names ∧ node = .directory) ∧
      ((d.makeDirectory (full.join (.ofPieces names)) =
          (.ok (), made)) ∨
        (d.makeDirectory (full.join (.ofPieces names)) =
            (.error (.system .alreadyExists), made) ∧
          made.isDirectory (full.join (.ofPieces names)) =
            true)) := by
  have hLocate := hHosts.locate_open hPlain hOpen
  rcases hFree.last with hNone | hSome
  · let made :=
      { d with turns := d.turns + 1 }.put (base ++ names)
        .directory
    have hMake :
        d.makeDirectory (full.join (.ofPieces names)) =
          (.ok (), made) := by
      unfold makeDirectory
      rw [hLocate]
      dsimp only
      rw [hNone, perform_eq hHosts.permits]
      rfl
    have hPut := node?_put { d with turns := d.turns + 1 }
      (append_ne_root base hPlain.nonempty) .directory
    have hAdds : d.Adds made base
        (fun rel node => rel = names ∧ node = .directory) :=
      .single ⟨rfl, rfl⟩ hNone hPut hPlain.nonempty
    refine ⟨made, ?_, .inl hMake⟩
    apply hAdds.widen
    · rintro rel node ⟨rfl, rfl⟩
      exact ⟨List.prefix_refl rel, rfl⟩
    · rintro rel - node ⟨hFront, rfl⟩
      by_cases hSame : rel = names
      · exact .inr ⟨hSame, rfl⟩
      · exact .inl (hOpen rel hFront hSame)
  · refine ⟨d, ?_, .inr ⟨?_, ?_⟩⟩
    · apply Adds.unchanged (.refl d) (fun _ => rfl)
      rintro rel - node ⟨hFront, rfl⟩
      by_cases hSame : rel = names
      · rw [hSame]
        exact hSome
      · exact hOpen rel hFront hSame
    · unfold makeDirectory
      rw [hLocate]
      dsimp only
      rw [hSome]
      rfl
    · unfold isDirectory look
      rw [hLocate]
      dsimp only
      rw [hSome]

/- So a chain that begins with this directory is made. -/
theorem Hosts.makeChain_open
    (hHosts : d.Hosts full base)
    (hPlain : IsPlain names)
    (hFree : d.IsFree base names)
    (hOpen : d.IsOpen base names) :
    ∃ made,
      d.Adds made base
        (fun rel node => rel <+: names ∧ node = .directory) ∧
      d.ensureDirectory (full.join (.ofPieces names)) =
        (.ok (), made) ∧
      ∀ parents,
        d.makeChain
            (full.join (.ofPieces names) :: parents) =
          (.ok (), made) := by
  have hPath :=
    text_ne_empty
      (isAbsolute_join (.ofPieces names) hHosts.absolute)
  rcases hHosts.makeDirectory_open hPlain hFree hOpen with
    ⟨made, hAdds, hMake | ⟨hMake, hThere⟩⟩
  · refine ⟨made, hAdds, ?_, ?_⟩
    · unfold ensureDirectory
      rw [hMake]
    · intro parents
      exact makeChain_made parents hPath hMake
  · refine ⟨made, hAdds, ?_, ?_⟩
    · unfold ensureDirectory
      rw [hMake]
      dsimp only
      rw [if_pos hThere]
    · intro parents
      rw [makeChain_failed parents hPath hMake (by simp),
        if_pos hThere]

/- A way stays free where only directories are added. -/
theorem IsFree.adds
    {e : Disk}
    {put : Location → Node → Prop}
    (hFree : d.IsFree base names)
    (hHosts : d.Hosts full base)
    (hAdds : d.Adds e base put)
    (hPut : ∀ rel node, put rel node → node = .directory) :
    e.IsFree base names := by
  intro front hFront data modified hFile
  by_cases hRoot : front = []
  · rw [hRoot, List.append_nil,
      (hAdds.hosts hHosts).directory] at hFile
    cases hFile
  · rcases (hAdds.below front hRoot _).mp hFile with
      hOld | hNew
    · exact hFree front hFront data modified hOld
    · cases hPut front _ hNew

/- The way is open when its directories have been made. -/
theorem isOpen_of_adds
    {e : Disk}
    {front : List String}
    (hHosts : d.Hosts full base)
    (hAdds :
      d.Adds e base
        (fun rel node => rel <+: front ∧ node = .directory))
    (name : String) :
    e.IsOpen base (front ++ [name]) := by
  intro part hPart hOther
  by_cases hRoot : part = []
  · rw [hRoot, List.append_nil]
    exact (hAdds.hosts hHosts).directory
  · rcases List.prefix_concat_iff.mp hPart with hSame | hPart
    · exact (hOther hSame).elim
    · exact (hAdds.below part hRoot _).mpr (.inr ⟨hPart, rfl⟩)

/- A path comes first among its parents and itself. -/
theorem exists_ancestry
    (fuel : Nat)
    (p : Path) :
    ∃ parents, ancestryUpTo fuel p = p :: parents := by
  cases fuel with
  | zero => exact ⟨[], rfl⟩
  | succ fuel =>
      unfold ancestryUpTo
      split
      · exact ⟨[], rfl⟩
      · exact ⟨_, rfl⟩

/-
  A directory is made with all parents that are missing.  The
  induction is on the parents: either the way to the
  directory is open, or it is once its parent was made.
-/
theorem Hosts.makeChain_join
    (fuel : Nat)
    (hHosts : d.Hosts full base)
    (hPlain : IsPlain names)
    (hFree : d.IsFree base names)
    (hFuel : names.length ≤ fuel) :
    ∃ made,
      d.Adds made base
        (fun rel node => rel <+: names ∧ node = .directory) ∧
      d.makeChain
          (ancestryUpTo fuel (full.join (.ofPieces names))) =
        (.ok (), made) := by
  induction fuel generalizing names with
  | zero =>
      exact
        (hPlain.nonempty
          (List.length_eq_zero_iff.mp
            (Nat.le_zero.mp hFuel))).elim
  | succ fuel ih =>
      by_cases hOpen : d.IsOpen base names
      · rcases exists_ancestry (fuel + 1)
            (full.join (.ofPieces names)) with
          ⟨parents, hChain⟩
        rcases hHosts.makeChain_open hPlain hFree hOpen with
          ⟨made, hAdds, -, hMade⟩
        refine ⟨made, hAdds, ?_⟩
        rw [hChain]
        exact hMade parents
      · rcases hPlain.exists_concat with
          ⟨front, name, rfl, -⟩
        have hSome : front ≠ [] := by
          rintro rfl
          apply hOpen
          rw [List.nil_append,
            isOpen_cons hHosts.directory]
          intro part hPart hOther
          exact (hOther (List.prefix_nil.mp hPart)).elim
        have hPath :=
          text_ne_empty
            (isAbsolute_join (.ofPieces (front ++ [name]))
              hHosts.absolute)
        have hMake :
            d.makeDirectory
                (full.join (.ofPieces (front ++ [name]))) =
              (.error (.system .noEntry), d) := by
          unfold makeDirectory
          rw [hHosts.locate_shut hPlain hFree hOpen]
          rfl
        rw [List.length_append, List.length_singleton]
          at hFuel
        rcases ih (hPlain.front hSome) hFree.front
            (by omega) with ⟨ready, hReady, hChain⟩
        have hReadyFree :=
          hFree.adds hHosts hReady (fun _ _ hPut => hPut.2)
        rcases (hReady.hosts hHosts).makeChain_open hPlain
            hReadyFree (isOpen_of_adds hHosts hReady name) with
          ⟨made, hAdds, hEnsure, -⟩
        refine ⟨made, ?_, ?_⟩
        · apply (hReady.trans hAdds).widen
          · rintro rel node (⟨hFront, rfl⟩ | hHere)
            · exact
                ⟨hFront.trans (List.prefix_append _ _), rfl⟩
            · exact hHere
          · intro rel _ node hHere
            exact .inr (.inr hHere)
        · unfold ancestryUpTo
          rw [parent?_join hHosts.absolute hPlain hSome]
          dsimp only
          rw [makeChain_missing _ hPath hMake, hChain]
          exact hEnsure

/- A directory of a plain name can be made. -/
theorem Hosts.makeDirectories_join
    (hHosts : d.Hosts full base)
    (hPlain : IsPlain names)
    (hFree : d.IsFree base names) :
    ∃ made,
      d.Adds made base
        (fun rel node => rel <+: names ∧ node = .directory) ∧
      d.makeDirectories (full.join (.ofPieces names)) =
        (.ok (), made) := by
  have hFuel := length_le_text_join hHosts.absolute hPlain
  exact hHosts.makeChain_join _ hPlain hFree hFuel

/-
  So can the directories that a file of a plain name stands
  in.  For a single name that is the directory they all lead
  from, in whatever form its path comes out.
-/
theorem Hosts.makeParents_join
    {front : List String}
    {name : String}
    (hHosts : d.Hosts full base)
    (hPlain : IsPlain (front ++ [name]))
    (hFree : d.IsFree base (front ++ [name])) :
    ∃ parent ready,
      (full.join (.ofPieces (front ++ [name]))).parent? =
        some parent ∧
      d.Adds ready base
        (fun rel node => rel <+: front ∧ node = .directory) ∧
      d.makeDirectories parent = (.ok (), ready) := by
  by_cases hSome : front = []
  · subst hSome
    rcases parent?_join_single hHosts.absolute hPlain with
      ⟨q, hParent, hTrims⟩
    have hLocate := hHosts.locate_trims hTrims
    have hMake :
        d.makeDirectory q =
          (.error (.system .alreadyExists), d) := by
      unfold makeDirectory
      rw [hLocate]
      dsimp only
      rw [hHosts.directory]
      rfl
    have hThere : d.isDirectory q = true := by
      unfold isDirectory look
      rw [hLocate]
      dsimp only
      rw [hHosts.directory]
    rcases exists_ancestry q.text.length q with
      ⟨parents, hChain⟩
    refine ⟨q, d, hParent, ?_, ?_⟩
    · apply Adds.unchanged (.refl d) (fun _ => rfl)
      rintro rel hRel node ⟨hFront, -⟩
      exact (hRel (List.prefix_nil.mp hFront)).elim
    · unfold makeDirectories ancestry
      rw [hChain,
        makeChain_failed parents
          (text_ne_empty hTrims.absolute) hMake (by simp),
        if_pos hThere]
  · rcases hHosts.makeDirectories_join (hPlain.front hSome)
        hFree.front with ⟨ready, hAdds, hMake⟩
    exact
      ⟨full.join (.ofPieces front), ready,
        parent?_join hHosts.absolute hPlain hSome, hAdds,
        hMake⟩

------------------------------------------------------------
-- Making and Removing Files
------------------------------------------------------------

/- A file is created where the way is open. -/
theorem Hosts.createFile_join
    (hHosts : d.Hosts full base)
    (hPlain : IsPlain names)
    (hOpen : d.IsOpen base names)
    (hNone : d.node? (base ++ names) = none) :
    ∃ made,
      d.createFile (full.join (.ofPieces names)) =
        (.ok (base ++ names), made) ∧
      d.SameSettings made ∧
      ∀ place, made.node? place =
        if place = base ++ names then some (.file [] 0)
        else d.node? place := by
  have hPlace : d.holdsDirectory (base ++ names) = false := by
    unfold holdsDirectory
    rw [hNone]
    rfl
  refine
    ⟨{ d with turns := d.turns + 1 }.put (base ++ names)
      (.file [] 0), ?_, ⟨rfl, rfl⟩, ?_⟩
  · unfold createFile
    rw [hHosts.locate_open hPlain hOpen]
    dsimp only
    rw [hPlace, endsWithSlash_join hHosts.absolute hPlain,
      perform_eq hHosts.permits]
    rfl
  · exact
      node?_put { d with turns := d.turns + 1 }
        (append_ne_root base hPlain.nonempty) (.file [] 0)

/- A file at the end of an open way is found. -/
theorem Hosts.fileSize_join
    {data : Bytes}
    {modified : Int}
    (hHosts : d.Hosts full base)
    (hPlain : IsPlain names)
    (hOpen : d.IsOpen base names)
    (hFile :
      d.node? (base ++ names) = some (.file data modified)) :
    d.fileSize (full.join (.ofPieces names)) =
      .ok data.length := by
  unfold fileSize look
  rw [hHosts.locate_open hPlain hOpen]
  dsimp only
  rw [hFile, endsWithSlash_join hHosts.absolute hPlain]
  rfl

/- It can be removed. -/
theorem Hosts.removeFile_join
    {data : Bytes}
    {modified : Int}
    (hHosts : d.Hosts full base)
    (hPlain : IsPlain names)
    (hOpen : d.IsOpen base names)
    (hFile :
      d.node? (base ++ names) = some (.file data modified)) :
    ∃ removed,
      d.removeFile (full.join (.ofPieces names)) =
        (.ok (), removed) ∧
      d.SameSettings removed ∧
      ∀ place, removed.node? place =
        if place = base ++ names then none
        else d.node? place := by
  refine
    ⟨{ d with turns := d.turns + 1 }.erase (base ++ names),
      ?_, ⟨rfl, rfl⟩, ?_⟩
  · unfold removeFile
    rw [hHosts.locate_open hPlain hOpen]
    dsimp only
    rw [hFile, endsWithSlash_join hHosts.absolute hPlain]
    dsimp only
    rw [perform_eq hHosts.permits]
    rfl
  · exact
      node?_erase { d with turns := d.turns + 1 }
        (append_ne_root base hPlain.nonempty)

end Making

------------------------------------------------------------
-- Directories That Were Made
------------------------------------------------------------

section Made

variable {d made : Disk} {p : Path}

/- A path leads to a directory when it leads to its place. -/
theorem isDirectory_iff :
    d.isDirectory p = true ↔
      ∃ place, d.locate p = .ok place ∧
        d.node? place = some .directory := by
  unfold isDirectory look
  constructor
  · intro hLook
    cases hLocate : d.locate p with
    | error fault =>
        rw [hLocate] at hLook
        cases hLook
    | ok place =>
        rw [hLocate] at hLook
        dsimp only at hLook
        refine ⟨place, rfl, ?_⟩
        cases hNode : d.node? place with
        | none =>
            rw [hNode] at hLook
            cases hLook
        | some node =>
            rw [hNode] at hLook
            cases node with
            | directory => rfl
            | file data modified =>
                cases hSlash : p.endsWithSlash with
                | true =>
                    rw [hSlash] at hLook
                    cases hLook
                | false =>
                    rw [hSlash] at hLook
                    cases hLook
  · rintro ⟨place, hLocate, hNode⟩
    rw [hLocate]
    dsimp only
    rw [hNode]

/- What was made is a directory. -/
theorem isDirectory_of_makeDirectory
    (hMake : d.makeDirectory p = (.ok (), made)) :
    made.isDirectory p = true := by
  unfold makeDirectory at hMake
  split at hMake
  · cases hMake
  next place hLocate =>
    split at hMake
    · cases hMake
    next hNone =>
      unfold perform at hMake
      dsimp only at hMake
      split at hMake
      · cases hMake
      · cases hMake
        have hRoot : place ≠ [] := by
          rintro rfl
          exact hNone rfl
        have hPut :=
          node?_put { d with turns := d.turns + 1 } hRoot
            .directory
        rw [isDirectory_iff]
        refine ⟨place, ?_, (hPut place).trans (if_pos rfl)⟩
        refine locate_grown (d := d) ?_ ⟨rfl, rfl⟩ hLocate
        intro there hThere
        refine (hPut there).trans ?_
        split
        · rfl
        · exact hThere

theorem isDirectory_of_ensureDirectory
    (hMake : d.ensureDirectory p = (.ok (), made)) :
    made.isDirectory p = true := by
  unfold ensureDirectory at hMake
  split at hMake
  next hMade =>
    cases hMake
    exact isDirectory_of_makeDirectory hMade
  next =>
    split at hMake
    next hThere =>
      cases hMake
      exact hThere
    next => cases hMake

theorem isDirectory_of_makeDirectories
    (hAbsolute : p.isAbsolute = true)
    (hMake : d.makeDirectories p = (.ok (), made)) :
    made.isDirectory p = true := by
  rcases exists_ancestry p.text.length p with
    ⟨parents, hChain⟩
  unfold makeDirectories ancestry at hMake
  rw [hChain] at hMake
  unfold makeChain at hMake
  rw [if_neg (by simpa using text_ne_empty hAbsolute)]
    at hMake
  split at hMake
  next hMade =>
    cases hMake
    exact isDirectory_of_makeDirectory hMade
  next tried _ =>
    split at hMake
    next => cases hMake
    next ready _ => exact isDirectory_of_ensureDirectory hMake
  next =>
    split at hMake
    next hThere =>
      cases hMake
      exact hThere
    next => cases hMake

end Made

------------------------------------------------------------
-- Empty Directories
------------------------------------------------------------

/- A directory is empty when nothing stands right below it. -/
theorem children_eq_nil_iff
    (d : Disk)
    (place : Location) :
    d.children place = [] ↔
      ∀ name, d.node? (place ++ [name]) = none := by
  have hNode : ∀ name,
      d.node? (place ++ [name]) = none ↔
        ∀ entry ∈ d.entries, entry.1 ≠ place ++ [name] := by
    intro name
    unfold node?
    rw [if_neg (by simp), List.lookup_eq_none_iff]
    simp only [bne_iff_ne]
    constructor
    · exact fun hNone entry hEntry => (hNone entry hEntry).symm
    · exact fun hNone entry hEntry => (hNone entry hEntry).symm
  unfold children
  rw [List.filterMap_eq_nil_iff]
  simp only [hNode]
  constructor
  · intro hNone name entry hEntry hPlace
    have hHere := hNone entry hEntry
    rw [hPlace, List.dropLast_concat, if_pos rfl,
      List.getLast?_concat] at hHere
    cases hHere
  · intro hNone entry hEntry
    rcases List.eq_nil_or_concat entry.1 with
      hRoot | ⟨front, name, hSplit⟩
    · rw [hRoot]
      split <;> rfl
    · rw [List.concat_eq_append] at hSplit
      rw [hSplit, List.dropLast_concat]
      split
      next hHere =>
        subst hHere
        exact (hNone name entry hEntry hSplit).elim
      next => rfl

/- A directory that hosts is empty when it has no children. -/
theorem Hosts.isEmptyDirectory_full
    {d : Disk}
    {full : Path}
    {base : Location}
    (hHosts : d.Hosts full base) :
    d.isEmptyDirectory full = (d.children base).isEmpty := by
  unfold isEmptyDirectory holdsDirectory
  rw [hHosts.leads]
  dsimp only
  rw [hHosts.directory]
  rfl

/-
  An empty directory that hosts can be taken away, and with
  it nothing else.  The root stays in any case.
-/
theorem Hosts.removeDirectory_full
    {d : Disk}
    {full : Path}
    {base : Location}
    (hHosts : d.Hosts full base)
    (hEmpty : d.children base = []) :
    ∃ removed,
      d.removeDirectory full = (.ok (), removed) ∧
      (base ≠ [] → removed.node? base = none) ∧
      ∀ place, place ≠ base →
        removed.node? place = d.node? place := by
  refine
    ⟨{ d with turns := d.turns + 1 }.erase base, ?_, ?_, ?_⟩
  · unfold removeDirectory
    rw [hHosts.leads]
    dsimp only
    rw [hHosts.directory, hEmpty]
    dsimp only
    rw [perform_eq hHosts.permits]
    rfl
  · intro hRoot
    rw [node?_erase _ hRoot, if_pos rfl]
  · intro place hOther
    unfold node? erase
    dsimp only
    rw [lookup_filter_ne, if_neg hOther]

end Disk

end ArchiveRescue
