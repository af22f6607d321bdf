import ArchiveRescue.Tape
import ArchiveRescue.Text.Utf8

/-
  This file defines disks: trees of directories and files
  below one root, without links.  Paths are resolved step by
  step, as a system does it, and every change is a value
  that can be refused.

  Key definitions include:
    * `Node`
    * `Change`
    * `Trouble`
    * `Trouble.sealed`
    * `Disk`
    * `Disk.locate`
    * `Disk.look`
    * `Disk.perform`
    * `Disk.makeDirectories`
    * `Disk.createFile`
    * `Disk.openFile`
    * `Disk.listing`
-/

namespace ArchiveRescue

------------------------------------------------------------
-- Disks
------------------------------------------------------------

/- What stands at a place.  Files know when they changed. -/
inductive Node where
  | directory
  | file (data : Bytes) (modified : Int)
  deriving DecidableEq, Repr

/- A change of a disk. -/
inductive Change where
  | makeDirectory (place : Location)
  | create (place : Location)
  | append (place : Location) (data : Bytes)
  | remove (place : Location)
  | removeDirectory (place : Location)
  deriving DecidableEq, Repr

/- The place that a change is about. -/
def Change.place : Change → Location
| .makeDirectory place
| .create place
| .append place _
| .remove place
| .removeDirectory place => place

/-
  Which changes are refused and how the opening of a file
  goes, by the number of earlier changes and openings.
-/
structure Trouble where
  refuses : Nat → Change → Option Fault :=
    fun _ _ => none
  opening : Nat → Location → Except Fault Script :=
    fun _ _ => .ok .plain

/-
  The trouble of a disk on which nothing below some place can
  be changed.
-/
def Trouble.sealed
    (place : Location)
    (fault : Fault) : Trouble where
  refuses _ change :=
    if place.isPrefixOf change.place then some fault
    else none

/-
  A tree of nodes, seen from a working directory.  The root
  is always a directory and not listed.
-/
structure Disk where
  entries : List (Location × Node) := []
  workDir : Location := []
  turns : Nat := 0
  trouble : Trouble := {}

namespace Disk

/- What stands at a place. -/
def node?
    (d : Disk)
    (place : Location) : Option Node :=
  if place = [] then some .directory
  else d.entries.lookup place

/- Whether a directory stands at a place. -/
def holdsDirectory
    (d : Disk)
    (place : Location) : Bool :=
  d.node? place == some .directory

/- Take away what stands at a place. -/
def erase
    (d : Disk)
    (place : Location) : Disk :=
  { d with
    entries := d.entries.filter (fun e => e.1 != place) }

/- Put a node at a place. -/
def put
    (d : Disk)
    (place : Location)
    (node : Node) : Disk :=
  { d with entries := (place, node) :: (d.erase place).entries }

/- The names that stand right below a place. -/
def children
    (d : Disk)
    (place : Location) : List String :=
  d.entries.filterMap (fun e =>
    if e.1.dropLast = place then e.1.getLast? else none)

------------------------------------------------------------
-- Resolving Paths
------------------------------------------------------------

/- Go from a directory to a name in it. -/
def descend
    (d : Disk)
    (here : Location)
    (name : String) : Except Fault Location :=
  match d.node? here with
  | none => .error .missing
  | some (.file ..) => .error (.system .notDirectory)
  | some .directory =>
      if name == "" || name == "." then .ok here
      else if name == ".." then .ok here.dropLast
      else if 255 < (Text.encode name).length then
        .error (.system .nameTooLong)
      else .ok (here ++ [name])

/- Follow names one after another. -/
def follow
    (d : Disk) :
    Location → List String → Except Fault Location
| here, [] => .ok here
| here, name :: rest =>
    match d.descend here name with
    | .error fault => .error fault
    | .ok there => d.follow there rest

/-
  The place that a path leads to.  All but the last step must
  exist and be directories.
-/
def locate
    (d : Disk)
    (p : Path) : Except Fault Location :=
  if p.text.toList.contains '\x00' then .error .nulInPath
  else if p.text == "" then .error .missing
  else if 4096 ≤ (Text.encode p.text).length then
    .error (.system .nameTooLong)
  else
    let names :=
      (p.steps.reverse.dropWhile (· == "")).reverse
    d.follow (if p.isAbsolute then [] else d.workDir) names

/- What a path leads to. -/
def look
    (d : Disk)
    (p : Path) : Except Fault Node :=
  match d.locate p with
  | .error fault => .error fault
  | .ok place =>
      match d.node? place with
      | none => .error .missing
      | some .directory => .ok .directory
      | some node =>
          if p.endsWithSlash then
            .error (.system .notDirectory)
          else .ok node

/- Whether a path leads to a directory. -/
def isDirectory
    (d : Disk)
    (p : Path) : Bool :=
  match d.look p with
  | .ok .directory => true
  | _ => false

/- Whether a path leads to an empty directory. -/
def isEmptyDirectory
    (d : Disk)
    (p : Path) : Bool :=
  match d.locate p with
  | .ok place =>
      d.holdsDirectory place && (d.children place).isEmpty
  | .error _ => false

/- The size of the file that a path leads to. -/
def fileSize
    (d : Disk)
    (p : Path) : Except Fault Nat :=
  match d.look p with
  | .error fault => .error fault
  | .ok .directory => .ok 4096
  | .ok (.file data _) => .ok data.length

/- The absolute form of a path. -/
def absolute
    (d : Disk)
    (p : Path) : Except Fault Path :=
  p.absolute (.ofLocation d.workDir)

------------------------------------------------------------
-- Changes
------------------------------------------------------------

/- The effect of a change. -/
def apply
    (d : Disk) : Change → Disk
| .makeDirectory place => d.put place .directory
| .create place => d.put place (.file [] 0)
| .append place more =>
    match d.node? place with
    | some (.file data modified) =>
        d.put place (.file (data ++ more) modified)
    | _ => d
| .remove place => d.erase place
| .removeDirectory place => d.erase place

/- Make a change, unless it is refused. -/
def perform
    (d : Disk)
    (change : Change) : Except Fault Unit × Disk :=
  let ticked := { d with turns := d.turns + 1 }
  match d.trouble.refuses d.turns change with
  | some fault => (.error fault, ticked)
  | none => (.ok (), ticked.apply change)

/- Make a directory. -/
def makeDirectory
    (d : Disk)
    (p : Path) : Except Fault Unit × Disk :=
  match d.locate p with
  | .error fault => (.error fault, d)
  | .ok place =>
      if (d.node? place).isSome then
        (.error (.system .alreadyExists), d)
      else d.perform (.makeDirectory place)

/-
  Make a directory whose parent exists.  A directory that is
  there already will do.
-/
def ensureDirectory
    (d : Disk)
    (p : Path) : Except Fault Unit × Disk :=
  match d.makeDirectory p with
  | (.ok (), made) => (.ok (), made)
  | (.error fault, tried) =>
      if tried.isDirectory p then (.ok (), tried)
      else (.error fault, tried)

/-
  Make the first of some directories.  Where its parent is
  missing, the parent is made first from those that follow.
-/
def makeChain
    (d : Disk) : List Path → Except Fault Unit × Disk
| [] => (.error .missing, d)
| p :: parents =>
    if p.text == "" then (.ok (), d)
    else
      match d.makeDirectory p with
      | (.ok (), made) => (.ok (), made)
      | (.error (.system .noEntry), tried) =>
          match tried.makeChain parents with
          | (.error fault, later) => (.error fault, later)
          | (.ok (), ready) => ready.ensureDirectory p
      | (.error fault, tried) =>
          if tried.isDirectory p then (.ok (), tried)
          else (.error fault, tried)

/- Make a directory with all parents that are missing. -/
def makeDirectories
    (d : Disk)
    (p : Path) : Except Fault Unit × Disk :=
  d.makeChain p.ancestry

/- Create a file or empty it, and tell its place. -/
def createFile
    (d : Disk)
    (p : Path) : Except Fault Location × Disk :=
  match d.locate p with
  | .error fault => (.error fault, d)
  | .ok place =>
      if d.holdsDirectory place || p.endsWithSlash then
        (.error (.system .isDirectory), d)
      else
        match d.perform (.create place) with
        | (.error fault, tried) => (.error fault, tried)
        | (.ok (), made) => (.ok place, made)

/- Remove a file. -/
def removeFile
    (d : Disk)
    (p : Path) : Except Fault Unit × Disk :=
  match d.locate p with
  | .error fault => (.error fault, d)
  | .ok place =>
      match d.node? place with
      | none => (.error .missing, d)
      | some .directory => (.error (.system .isDirectory), d)
      | some (.file ..) =>
          if p.endsWithSlash then
            (.error (.system .notDirectory), d)
          else d.perform (.remove place)

/- Remove an empty directory. -/
def removeDirectory
    (d : Disk)
    (p : Path) : Except Fault Unit × Disk :=
  match d.locate p with
  | .error fault => (.error fault, d)
  | .ok place =>
      match d.node? place with
      | none => (.error .missing, d)
      | some (.file ..) =>
          (.error (.system .notDirectory), d)
      | some .directory =>
          if (d.children place).isEmpty then
            d.perform (.removeDirectory place)
          else (.error (.system .notEmpty), d)

------------------------------------------------------------
-- Reading Files
------------------------------------------------------------

/-
  Open a file.  A directory can be opened too, but not read.
-/
def openFile
    (d : Disk)
    (p : Path) : Except Fault Tape × Disk :=
  match d.locate p with
  | .error fault => (.error fault, d)
  | .ok place =>
      match d.node? place with
      | none => (.error .missing, d)
      | some .directory =>
          (.ok
            { bytes := []
              medium := .file (some place)
              script :=
                .unreadable (.system .isDirectory) }, d)
      | some (.file data _) =>
          if p.endsWithSlash then
            (.error (.system .notDirectory), d)
          else
            let ticked := { d with turns := d.turns + 1 }
            match d.trouble.opening d.turns place with
            | .error fault => (.error fault, ticked)
            | .ok script =>
                (.ok
                  { bytes := data
                    medium := .file (some place)
                    script := script }, ticked)

/-
  An open file sees what is written to it later.  A file that
  has been removed keeps its bytes for those who opened it.
-/
def refresh
    (d : Disk)
    (t : Tape) : Tape :=
  match t.medium with
  | .file (some place) =>
      match d.node? place with
      | some (.file data _) => { t with bytes := data }
      | some .directory => t
      | none => { t with medium := .file none }
  | _ => t

/- All bytes of a file. -/
def contents
    (d : Disk)
    (p : Path) : Except Fault Bytes × Disk :=
  match d.openFile p with
  | (.error fault, tried) => (.error fault, tried)
  | (.ok tape, opened) =>
      match tape.drain with
      | (_, some fault, _) => (.error fault, opened)
      | (data, none, _) => (.ok data, opened)

/- When a file changed. -/
def modified?
    (d : Disk)
    (p : Path) : Option Int :=
  match d.look p with
  | .ok (.file _ modified) => some modified
  | _ => none

------------------------------------------------------------
-- Listings
------------------------------------------------------------

/- The order of names from the root on. -/
def precedes : Location → Location → Bool
| [], _ => true
| _ :: _, [] => false
| x :: xs, y :: ys =>
    if x = y then precedes xs ys else decide (x < y)

/-
  All that stands below a place, each directory before what
  it holds, with names in order and relative to the place.
-/
def listing
    (d : Disk)
    (place : Location) : List (Location × Node) :=
  let below :=
    d.entries.filterMap (fun e =>
      if place.isPrefixOf e.1 && e.1 != place then
        some (e.1.drop place.length, e.2)
      else none)
  below.mergeSort (fun a b => precedes a.1 b.1)

end Disk

end ArchiveRescue
