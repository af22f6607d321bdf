import ArchiveRescue.Ustar.Field

/-
  This file defines the headers of archive entries and the
  blocks of 512 bytes that they are written to.

  Key definitions include:
    * `Ustar.blockSize`
    * `Ustar.Block`
    * `Ustar.EntryKind`
    * `Ustar.Header`
    * `Ustar.Header.ofBlock`
    * `Ustar.Header.toBlock`
    * `Ustar.Header.path`
    * `Ustar.Header.kind`
-/

namespace ArchiveRescue

namespace Ustar

------------------------------------------------------------
-- Blocks
------------------------------------------------------------

/- Archives consist of blocks of this many bytes. -/
def blockSize : Nat :=
  512

/- A block of an archive. -/
structure Block where
  bytes : Bytes
  length_bytes : bytes.length = blockSize
  deriving DecidableEq

/- The word that marks a block as a header. -/
def magic : Bytes :=
  [0x75, 0x73, 0x74, 0x61, 0x72]

/- Where the magic word stands in a header. -/
def magicStart : Nat :=
  257

namespace Block

/- Cut bytes to a block, or fill them up with zeros. -/
def ofBytes (bs : Bytes) : Block :=
  ⟨Bytes.fit blockSize bs, Bytes.length_fit blockSize bs⟩

/- A field of a block. -/
def field
    (block : Block)
    (start width : Nat) : Bytes :=
  Bytes.slice block.bytes start width

/-
  The sum of the bytes of a block, where the eight bytes of
  the checksum field count as spaces.
-/
def checksum (block : Block) : Nat :=
  Bytes.total (block.bytes.take 148) + 8 * 0x20 +
    Bytes.total (block.bytes.drop 156)

end Block

------------------------------------------------------------
-- Headers
------------------------------------------------------------

/- What an entry is, as far as extraction cares. -/
inductive EntryKind where
  | file
  | directory
  | other (flag : UInt8)
  deriving DecidableEq, Repr

/-
  The header of an entry.  `folder` is the part of a long
  path that goes in front of the name.
-/
structure Header where
  name : String
  mode : UInt32
  uid : UInt32 := 0
  gid : UInt32 := 0
  size : UInt64
  mtime : UInt64 := 0
  checksum : UInt32 := 0
  typeflag : UInt8 := 0x30
  linkname : String := ""
  magic : String := "ustar"
  version : String := "00"
  uname : String := ""
  gname : String := ""
  devmajor : UInt32 := 0
  devminor : UInt32 := 0
  folder : String := ""
  deriving DecidableEq, Repr

namespace Header

/- The header of a directory. -/
def directory (name : String) : Header :=
  { name := name, mode := 0o755, size := 0, typeflag := 0x35 }

/- Read a header from a block. -/
def ofBlock (block : Block) : Header where
  name := Field.text (block.field 0 100)
  mode := (Field.number (block.field 100 8)).toUInt32
  uid := (Field.number (block.field 108 8)).toUInt32
  gid := (Field.number (block.field 116 8)).toUInt32
  size := Field.number (block.field 124 12)
  mtime := Field.number (block.field 136 12)
  checksum := (Field.number (block.field 148 8)).toUInt32
  typeflag := block.bytes.getD 156 0
  linkname := Field.text (block.field 157 100)
  magic := Field.text (block.field 257 6)
  version := Field.text (block.field 263 2)
  uname := Field.text (block.field 265 32)
  gname := Field.text (block.field 297 32)
  devmajor := (Field.number (block.field 329 8)).toUInt32
  devminor := (Field.number (block.field 337 8)).toUInt32
  folder := Field.text (block.field 345 155)

/- The path of an entry. -/
def path (h : Header) : String :=
  if h.folder == "" then h.name
  else
    let trimmed :=
      (h.folder.toList.reverse.dropWhile (· == '/')).reverse
    String.ofList trimmed ++ "/" ++ h.name

/-
  The kind of an entry.  Old archives mark a directory only
  by a slash at the end of its name.
-/
def kind (h : Header) : EntryKind :=
  if h.typeflag = 0x30 ∨ h.typeflag = 0 then
    if h.name.toList.getLast? = some '/' then .directory
    else .file
  else if h.typeflag = 0x37 then .file
  else if h.typeflag = 0x35 then .directory
  else .other h.typeflag

------------------------------------------------------------
-- Writing
------------------------------------------------------------

/- Whether the parts around a slash fit their fields. -/
def fits (before after : List Char) : Bool :=
  (Text.encodeChars before).length ≤ 155 &&
    (Text.encodeChars after).length ≤ 100 && !after.isEmpty

/- Split at the first slash whose two sides fit. -/
def splitFrom?
    (before : List Char) :
    List Char → Option (List Char × List Char)
| [] => none
| c :: rest =>
    if c == '/' && fits before rest then some (before, rest)
    else splitFrom? (before ++ [c]) rest

/-
  Split a path that is too long for the name field into a
  folder and a name.  A path that cannot be split is left
  whole and gets cut when it is written.
-/
def split (path : String) : String × String :=
  if (Text.encode path).length ≤ 100 then ("", path)
  else
    match splitFrom? [] path.toList with
    | none => ("", path)
    | some (before, after) =>
        (String.ofList before, String.ofList after)

/- The folder and the name that are written. -/
def place (h : Header) : String × String :=
  if h.folder == "" then split h.name else (h.folder, h.name)

/- A number of 32 bits in a field. -/
def short
    (width : Nat)
    (n : UInt32) : Bytes :=
  Field.ofNumber width n.toUInt64

/- The fields in front of the checksum. -/
def front (h : Header) : Bytes :=
  Field.ofText 100 h.place.2 ++ short 8 h.mode ++
    short 8 h.uid ++ short 8 h.gid ++
    Field.ofNumber 12 h.size ++ Field.ofNumber 12 h.mtime

/- The fields behind the checksum. -/
def back (h : Header) : Bytes :=
  [h.typeflag] ++ Field.ofText 100 h.linkname ++
    Field.ofText 6 h.magic ++ Field.ofText 2 h.version ++
    Field.ofText 32 h.uname ++ Field.ofText 32 h.gname ++
    short 8 h.devmajor ++ short 8 h.devminor ++
    Field.ofText 155 h.place.1 ++ Bytes.zeros 12

/- The checksum field: six digits, a zero and a space. -/
def checksumField (h : Header) : Bytes :=
  let sum :=
    Bytes.total h.front + 8 * 0x20 + Bytes.total h.back
  Field.octal 6 sum ++ [0, 0x20]

/- Write a header, with a checksum that matches. -/
def toBlock (h : Header) : Block :=
  .ofBytes (h.front ++ h.checksumField ++ h.back)

end Header

end Ustar

end ArchiveRescue
