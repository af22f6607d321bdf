import ArchiveRescue.Ustar.Header

/-
  This file defines archives as they are written: entries,
  each a header with its data filled up to whole blocks, and
  two zero blocks at the end.

  Key definitions include:
    * `Ustar.padding`
    * `Ustar.Entry`
    * `Ustar.Entry.toBytes`
    * `Ustar.archive`
-/

namespace ArchiveRescue

namespace Ustar

/- How many bytes are missing to a whole block. -/
def padding (len : Nat) : Nat :=
  (blockSize - len % blockSize) % blockSize

/- An entry to be written. -/
structure Entry where
  header : Header
  data : Bytes
  deriving DecidableEq, Repr

namespace Entry

/- A regular file. -/
def file
    (name : String)
    (data : Bytes) : Entry where
  header :=
    { name := name
      mode := 0o644
      size := UInt64.ofNat data.length }
  data := data

/- A directory. -/
def directory (name : String) : Entry where
  header := .directory name
  data := []

/- The blocks of an entry. -/
def toBytes (entry : Entry) : Bytes :=
  entry.header.toBlock.bytes ++ entry.data ++
    Bytes.zeros (padding entry.data.length)

end Entry

/- The bytes of an archive. -/
def archive (entries : List Entry) : Bytes :=
  entries.flatMap Entry.toBytes ++
    Bytes.zeros (2 * blockSize)

end Ustar

end ArchiveRescue
