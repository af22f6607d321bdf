import ArchiveRescue.Deflate.Inflate
import ArchiveRescue.Deflate.Stored
import ArchiveRescue.Fault
import ArchiveRescue.Gzip.Checksum

/-
  This file defines gzip members: how one is written, and
  what the decoders of the two kinds of engine deliver from
  bytes that may not be one.

  Key definitions include:
    * `Gzip.Delivery`
    * `Gzip.afterHeader`
    * `Gzip.gunzip`
    * `Gzip.inflate`
    * `Gzip.gzip`
-/

namespace ArchiveRescue

namespace Gzip

------------------------------------------------------------
-- Deliveries
------------------------------------------------------------

/-
  How a decoder ends: with all data, because its input ends,
  or because its input is not valid.
-/
inductive Verdict where
  | complete
  | cut (flaw : Flaw)
  | broken (flaw : Flaw)
  deriving DecidableEq, Repr

/- What a decoder delivers and how it ends. -/
structure Delivery where
  bytes : Bytes
  verdict : Verdict
  deriving DecidableEq, Repr

/- A delivery of nothing. -/
def nothing (verdict : Verdict) : Delivery :=
  ⟨[], verdict⟩

------------------------------------------------------------
-- Headers
------------------------------------------------------------

/- What stands behind a part of a header, or why not. -/
abbrev Parsed :=
  Except Verdict Bytes

/- The longest name or comment that is accepted. -/
def fieldLimit? : Mode → Option Nat
| .blocking => some 65535
| .nonblocking => none

/- Pass a field of two length bytes and so many bytes. -/
def skipExtra (input : Bytes) : Parsed :=
  match input with
  | a :: b :: rest =>
      let length := Bytes.ofLittleEndian [a, b]
      if rest.length < length then .error (.cut .headerCut)
      else .ok (rest.drop length)
  | _ => .error (.cut .headerCut)

/- Pass a field that ends with a zero byte. -/
def skipText
    (mode : Mode)
    (input : Bytes) : Parsed :=
  let content := input.takeWhile (· != 0)
  let tooLong :=
    match fieldLimit? mode with
    | none => false
    | some limit => limit < content.length
  if tooLong then .error (.broken .headerField)
  else
    match input.drop content.length with
    | [] => .error (.cut .headerCut)
    | _ :: rest => .ok rest

/- Pass a field if the flags announce it. -/
def skipIf
    (announced : Bool)
    (skip : Bytes → Parsed)
    (input : Bytes) : Parsed :=
  if announced then skip input else .ok input

/- Pass the checksum of the header, which must match. -/
def skipChecksum (whole input : Bytes) : Parsed :=
  match input with
  | a :: b :: rest =>
      let header := whole.take (whole.length - input.length)
      let expected := (checksum header).toNat % 65536
      if Bytes.ofLittleEndian [a, b] = expected then .ok rest
      else .error (.broken .headerChecksum)
  | _ => .error (.cut .headerCut)

/- Whether the fixed header is acceptable. -/
def acceptable
    (mode : Mode)
    (input : Bytes) : Bool :=
  let plain := input.getD 3 0 &&& 0xE0 == 0
  input.take 3 == [0x1F, 0x8B, 0x08] &&
    (mode == .nonblocking || plain)

/- What stands behind the header of a member. -/
def afterHeader
    (mode : Mode)
    (input : Bytes) : Parsed :=
  if input.length < 10 then .error (.cut .headerCut)
  else if !acceptable mode input then
    .error (.broken .header)
  else do
    let flags := input.getD 3 0
    let rest ←
      skipIf (flags &&& 0x04 != 0) skipExtra (input.drop 10)
    let rest ←
      skipIf (flags &&& 0x08 != 0) (skipText mode) rest
    let rest ←
      skipIf (flags &&& 0x10 != 0) (skipText mode) rest
    skipIf (flags &&& 0x02 != 0) (skipChecksum input) rest

------------------------------------------------------------
-- Decoders
------------------------------------------------------------

/- How the footer judges the data. -/
def judge
    (data footer : Bytes) : Verdict :=
  if footer.length < 8 then .cut .footerCut
  else if Bytes.ofLittleEndian (footer.take 4) ≠
      (checksum data).toNat then
    .broken .checksum
  else if Bytes.ofLittleEndian (Bytes.slice footer 4 4) ≠
      data.length % 0x100000000 then
    .broken .size
  else .complete

/- Decode the first member of some bytes. -/
def gunzip
    (mode : Mode)
    (input : Bytes) : Delivery :=
  match afterHeader mode input with
  | .error verdict => nothing verdict
  | .ok payload =>
      let inflated := Deflate.inflate payload
      ⟨inflated.bytes,
        match inflated.ending with
        | .starved => .cut .dataCut
        | .corrupt => .broken .data
        | .complete rest => judge inflated.bytes rest⟩

/- Decode a payload; what follows it is ignored. -/
def inflate (input : Bytes) : Delivery :=
  let inflated := Deflate.inflate input
  ⟨inflated.bytes,
    match inflated.ending with
    | .starved => .cut .payloadCut
    | .corrupt => .broken .data
    | .complete _ => .complete⟩

------------------------------------------------------------
-- Writing
------------------------------------------------------------

/- The header of members that are written here. -/
def plainHeader : Bytes :=
  [0x1F, 0x8B, 0x08, 0, 0, 0, 0, 0, 0, 0xFF]

/- A member that holds the data. -/
def gzip (data : Bytes) : Bytes :=
  plainHeader ++ Deflate.deflate data ++
    Bytes.littleEndian 4 (checksum data).toNat ++
    Bytes.littleEndian 4 data.length

end Gzip

end ArchiveRescue
