import ArchiveRescue.Fault

/-
  This file defines paths as they are written, the ways to
  take them apart and to join them, and their absolute form.
  Nothing here looks at a disk.

  Key definitions include:
    * `Path`
    * `Path.steps`
    * `Path.pieces`
    * `Path.components`
    * `Path.join`
    * `Path.fileName?`
    * `Path.parent?`
    * `Path.ancestry`
    * `Location`
    * `Path.absolute`
-/

namespace ArchiveRescue

------------------------------------------------------------
-- Splitting
------------------------------------------------------------

/- The parts of a text between slashes; there is always one. -/
def splitSlash : List Char → List (List Char)
| [] => [[]]
| c :: rest =>
    if c = '/' then [] :: splitSlash rest
    else
      match splitSlash rest with
      | [] => [[c]]
      | part :: parts => (c :: part) :: parts

/- A path is kept as it was written. -/
structure Path where
  text : String
  deriving DecidableEq, Repr

/- A place in the tree of names, below its root. -/
abbrev Location :=
  List String

namespace Path

/- Every part between slashes, with empty and "." parts. -/
def steps (p : Path) : List String :=
  (splitSlash p.text.toList).map String.ofList

/- A part that names something or leads upwards. -/
def isPiece (s : String) : Bool :=
  s != "" && s != "."

/- The parts that are neither empty nor ".". -/
def pieces (p : Path) : List String :=
  p.steps.filter isPiece

/- A path is absolute when it begins with a slash. -/
def isAbsolute (p : Path) : Bool :=
  p.text.toList.head? == some '/'

/- What a part of a path says about where it leads. -/
inductive Component where
  | root
  | here
  | up
  | named (name : String)
  deriving DecidableEq, Repr

/- The component that a piece stands for. -/
def Component.ofPiece (piece : String) : Component :=
  if piece == ".." then .up else .named piece

/-
  The components of a path.  A "." only counts at the start
  of a relative path.
-/
def components (p : Path) : List Component :=
  let below := p.pieces.map Component.ofPiece
  if p.isAbsolute then .root :: below
  else if p.steps.head? == some "." then .here :: below
  else below

/- A path that ends with a slash can only be a directory. -/
def endsWithSlash (p : Path) : Bool :=
  p.text.toList.getLast? == some '/'

------------------------------------------------------------
-- Joining
------------------------------------------------------------

/-
  Append a path to another, with one slash between.  An
  absolute path replaces what stands before it.
-/
def join (p q : Path) : Path :=
  if q.isAbsolute then q
  else if p.text == "" || p.endsWithSlash then
    ⟨p.text ++ q.text⟩
  else ⟨p.text ++ "/" ++ q.text⟩

/- Append pieces one after another. -/
def extend
    (p : Path)
    (names : List String) : Path :=
  names.foldl (fun acc name => acc.join ⟨name⟩) p

/- A relative path made of pieces. -/
def ofPieces (names : List String) : Path :=
  ⟨"/".intercalate names⟩

/- The path of a location. -/
def ofLocation (place : Location) : Path :=
  ⟨"/" ++ "/".intercalate place⟩

------------------------------------------------------------
-- Last Names and Parents
------------------------------------------------------------

/- The last piece, unless it leads upwards. -/
def fileName? (p : Path) : Option String :=
  match p.pieces.getLast? with
  | some ".." => none
  | last => last

/-
  Drop the parts at the end that name nothing.  The first
  part of a relative path counts even when it is ".".
-/
def dropIdle
    (rooted : Bool)
    (parts : List String) : List String :=
  match parts with
  | [] => []
  | first :: rest =>
      let kept :=
        (rest.reverse.dropWhile (fun s => !isPiece s)).reverse
      if !kept.isEmpty || isPiece first ||
          (!rooted && first == ".") then
        first :: kept
      else []

/- The path without its last part, if it has one. -/
def parent? (p : Path) : Option Path :=
  let rooted := p.isAbsolute
  let parts := if rooted then p.steps.drop 1 else p.steps
  match dropIdle rooted parts with
  | [] => none
  | named =>
      let above := dropIdle rooted named.dropLast
      let relative := "/".intercalate above
      some ⟨if rooted then "/" ++ relative else relative⟩

/- A path followed by its parents, at most `fuel` of them. -/
def ancestryUpTo : Nat → Path → List Path
| 0, p => [p]
| fuel + 1, p =>
    match p.parent? with
    | none => [p]
    | some parent => p :: ancestryUpTo fuel parent

/- A path followed by all its parents. -/
def ancestry (p : Path) : List Path :=
  ancestryUpTo p.text.length p

------------------------------------------------------------
-- Absolute Paths
------------------------------------------------------------

/-
  The absolute form of a path, seen from a base directory.
  Empty and "." parts are dropped, ".." stays, a slash at the
  end stays, and exactly two slashes at the start stay two.
-/
def absolute
    (p base : Path) : Except Fault Path :=
  if p.text == "" then .error .emptyPath
  else
    let start : Path :=
      match p.text.toList with
      | '/' :: '/' :: '/' :: _ => ⟨"/"⟩
      | '/' :: '/' :: _ => ⟨"//"⟩
      | '/' :: _ => ⟨"/"⟩
      | _ => base
    let body := start.extend p.pieces
    .ok (if p.endsWithSlash then body.join ⟨""⟩ else body)

end Path

end ArchiveRescue
