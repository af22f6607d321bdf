import ArchiveRescue.Calendar
import ArchiveRescue.Outcome
import ArchiveRescue.Tape

/-
  This file defines the framing of gzip data: the ten bytes
  at the start and the eight bytes at the end, which can be
  read without the payload between.

  Key definitions include:
    * `Gzip.Framing`
    * `Gzip.Framing.hasSignature`
    * `Gzip.Framing.headerText`
    * `Gzip.Framing.footerText`
    * `Gzip.Framing.ofBytes`
    * `Gzip.Framing.ofTape`
    * `Gzip.Framing.awaited`
-/

namespace ArchiveRescue

namespace Gzip

------------------------------------------------------------
-- Framing
------------------------------------------------------------

/- The length of the fixed header. -/
def headerLength : Nat :=
  10

/- The length of the footer. -/
def footerLength : Nat :=
  8

/- The length of header and footer together. -/
def framingLength : Nat :=
  headerLength + footerLength

/- The two bytes that gzip data begins with. -/
def signature : Bytes :=
  [0x1F, 0x8B]

/- A fixed header and a footer. -/
structure Framing where
  header : Bytes
  footer : Bytes
  deriving DecidableEq, Repr

namespace Framing

/- Whether the header begins with the signature. -/
def hasSignature (f : Framing) : Bool :=
  f.header.take 2 == signature

/- The compression method. -/
def method (f : Framing) : UInt8 :=
  f.header.getD 2 0

/- The flags. -/
def flags (f : Framing) : UInt8 :=
  f.header.getD 3 0

/- When the data changed, in seconds since 1970. -/
def mtime (f : Framing) : Nat :=
  Bytes.ofLittleEndian (Bytes.slice f.header 4 4)

/- The operating system. -/
def system (f : Framing) : UInt8 :=
  f.header.getD 9 0

/- The written checksum. -/
def checksum (f : Framing) : Nat :=
  Bytes.ofLittleEndian (f.footer.take 4)

/- The written size of the data, modulo 2 ^ 32. -/
def size (f : Framing) : Nat :=
  Bytes.ofLittleEndian (Bytes.slice f.footer 4 4)

/- Whether a file name follows the header. -/
def hasFileName (f : Framing) : Bool :=
  f.flags &&& 0x08 != 0

/- Whether any field follows the header. -/
def hasOptionalFields (f : Framing) : Bool :=
  f.flags &&& 0x1E != 0

/- The time in the header, as it is shown. -/
def mtimeText (f : Framing) : String :=
  if f.mtime = 0 then "unset" else Calendar.stamp f.mtime

/- The header as it is shown. -/
def headerText (f : Framing) : String :=
  Text.hexSpaced f.header ++ " (method=" ++
    toString f.method.toNat ++ ", flags=0x" ++
    Text.hexByte f.flags ++ ", mtime=" ++ f.mtimeText ++
    ", os=" ++ toString f.system.toNat ++ ")"

/- The footer as it is shown. -/
def footerText (f : Framing) : String :=
  Text.hexSpaced f.footer ++ " (crc32=0x" ++
    Text.padded 16 8 f.checksum ++ ", isize=" ++
    toString f.size ++ ")"

------------------------------------------------------------
-- Reading
------------------------------------------------------------

/- The framing of gzip data. -/
def ofBytes (data : Bytes) : Outcome Framing :=
  if data.length < framingLength then
    .error (.framingTooShort framingLength data.length)
  else
    .ok
      { header := data.take headerLength
        footer := data.drop (data.length - footerLength) }

/- The name of the step that reads framing. -/
def reading : String :=
  "gzip header/footer read"

/- Read the framing of the data between two positions. -/
def between
    (start ending : Nat) : Stage Tape Framing := do
  let available := ending - start
  if available < framingLength then
    Stage.fail (.framingTooShort framingLength available)
  else
    let _ ← call (·.seek (.fromStart start))
    let header ← call (·.readExactly headerLength)
    let _ ← call (·.seek (.fromStart (ending - footerLength)))
    let footer ← call (·.readExactly footerLength)
    pure { header := header, footer := footer }
where
  call {α : Type}
      (f : Tape → Except Fault α × Tape) : Stage Tape α :=
    Stage.ofStep (fun t =>
      let (result, told) := f t
      (Outcome.ofFault reading result, told))

/-
  Read the framing of the data from the position on.  The
  tape is moved back afterwards, also after a failure.
-/
def ofTape : Stage Tape Framing :=
  Stage.ofStep (fun t =>
    match t.tell with
    | (.error fault, told) =>
        (.error (.faulted reading fault), told)
    | (.ok start, told) =>
        match told.seek (.fromEnd 0) with
        | (.error fault, later) =>
            (.error (.faulted reading fault), later)
        | (.ok ending, later) =>
            let (outcome, read) :=
              (between start ending).perform later
            match read.seek (.fromStart start) with
            | (.error fault, final) =>
                (.error (.faulted reading fault), final)
            | (.ok _, final) => (outcome, final))

------------------------------------------------------------
-- Awaiting
------------------------------------------------------------

/-
  Read exactly `n` bytes, awaiting them.  An early end is told
  in other words than by `Tape.readExactly`.  That this goes
  on after an interruption is an assumption, see
  `Tape.readPatiently`.
-/
def awaitExactly
    (n : Nat)
    (t : Tape) : Except Fault Bytes × Tape :=
  match t.readUpTo n with
  | (.error fault, told) => (.error fault, told)
  | (.ok got, told) =>
      if got.length = n then (.ok got, told)
      else (.error (.described "early eof"), told)

/-
  Read the framing of the data between two positions, awaiting
  it.  Both parts are gathered in one buffer, which is then
  taken apart like the data itself.
-/
def gathered
    (start ending : Nat) : Stage Tape Framing := do
  let available := ending - start
  if available < framingLength then
    Stage.fail (.framingTooShort framingLength available)
  else
    let _ ← between.call (·.seek (.fromStart start))
    let header ← between.call (awaitExactly headerLength)
    let _ ←
      between.call (·.seek (.fromStart (ending - footerLength)))
    let footer ← between.call (awaitExactly footerLength)
    ExceptT.mk (pure (ofBytes (header ++ footer)))

/-
  Read the framing of the data from the position on, awaiting
  it.  The tape is moved back afterwards, also after a failure.
-/
def awaited : Stage Tape Framing :=
  Stage.ofStep (fun t =>
    match t.tell with
    | (.error fault, told) =>
        (.error (.faulted reading fault), told)
    | (.ok start, told) =>
        match told.seek (.fromEnd 0) with
        | (.error fault, later) =>
            (.error (.faulted reading fault), later)
        | (.ok ending, later) =>
            let (outcome, read) :=
              (gathered start ending).perform later
            match read.seek (.fromStart start) with
            | (.error fault, final) =>
                (.error (.faulted reading fault), final)
            | (.ok _, final) => (outcome, final))

end Framing

end Gzip

end ArchiveRescue
