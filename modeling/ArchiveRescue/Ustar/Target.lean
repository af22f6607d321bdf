import ArchiveRescue.Outcome

/-
  This file defines where the entries of an archive land
  below an output directory.

  Key definitions include:
    * `Ustar.isSafe`
    * `Ustar.target`
    * `Ustar.pushAll?`
    * `Ustar.placed`
-/

namespace ArchiveRescue

namespace Ustar

/-
  A name is safe when it is relative, names something and
  never leads upwards.
-/
def isSafe (name : Path) : Bool :=
  !name.isAbsolute && !name.pieces.isEmpty &&
    !name.pieces.contains ".."

/-
  Where an entry lands.  Unsafe names are rejected and the
  others reduced to their pieces, unless names are taken as
  they are.
-/
def target
    (directory : Path)
    (name : String)
    (sanitize : Bool) : Outcome Path :=
  let path : Path := ⟨name⟩
  if sanitize then
    if isSafe path then
      .ok (directory.join (.ofPieces path.pieces))
    else .error (.unsafeName name)
  else .ok (directory.join path)

/-
  Push the components of a name to a path, one after another,
  as long as all of them lead downwards.
-/
def pushAll? : Path → List Path.Component → Option Path
| path, [] => some path
| path, .named part :: rest => pushAll? (path.join ⟨part⟩) rest
| path, .here :: rest => pushAll? path rest
| _, .root :: _ => none
| _, .up :: _ => none

/-
  Where an entry with a checked name lands, component by
  component.  Something has to be left of the name.
-/
def placed
    (directory : Path)
    (name : String) : Outcome Path :=
  match pushAll? ⟨""⟩ (Path.components ⟨name⟩) with
  | none => .error (.unsafeName name)
  | some relative =>
      if relative.text == "" then .error (.unsafeName name)
      else .ok (directory.join relative)

end Ustar

end ArchiveRescue
