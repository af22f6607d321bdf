import ArchiveRescue.Bytes

/-
  This file defines how text becomes bytes and how bytes
  become text.  Decoding never fails: each maximal part of
  the input that begins a character without completing one
  is read as a single replacement character.

  Key definitions include:
    * `Text.encode`
    * `Text.Pending`
    * `Text.lead`
    * `Text.step`
    * `Text.decode`
-/

namespace ArchiveRescue

namespace Text

------------------------------------------------------------
-- Encoding
------------------------------------------------------------

/- The UTF-8 bytes of a list of characters. -/
def encodeChars (cs : List Char) : Bytes :=
  cs.flatMap String.utf8EncodeChar

/- The UTF-8 bytes of a text. -/
def encode (s : String) : Bytes :=
  encodeChars s.toList

------------------------------------------------------------
-- Decoding
------------------------------------------------------------

/- The character that stands for bytes that are no text. -/
def replacement : Char :=
  '\uFFFD'

/-
  A character of which some bytes have been read: the value
  so far, how many bytes are missing, and the range that the
  next byte must lie in.
-/
structure Pending where
  value : Nat
  missing : Nat
  low : UInt8
  high : UInt8

/-
  Read a byte between two characters.  The second-byte ranges
  after E0, ED, F0 and F4 rule out overlong forms, surrogates
  and values beyond the last code point.
-/
def lead (b : UInt8) : List Char × Option Pending :=
  let n := b.toNat
  if b < 0x80 then ([Char.ofNat n], none)
  else if b < 0xC2 then ([replacement], none)
  else if b < 0xE0 then
    ([], some ⟨n - 0xC0, 1, 0x80, 0xBF⟩)
  else if b = 0xE0 then ([], some ⟨0, 2, 0xA0, 0xBF⟩)
  else if b = 0xED then ([], some ⟨0xD, 2, 0x80, 0x9F⟩)
  else if b < 0xF0 then
    ([], some ⟨n - 0xE0, 2, 0x80, 0xBF⟩)
  else if b = 0xF0 then ([], some ⟨0, 3, 0x90, 0xBF⟩)
  else if b < 0xF4 then
    ([], some ⟨n - 0xF0, 3, 0x80, 0xBF⟩)
  else if b = 0xF4 then ([], some ⟨4, 3, 0x80, 0x8F⟩)
  else ([replacement], none)

/-
  Read one byte.  A byte that cannot continue the pending
  character gives up on it and starts afresh.
-/
def step :
    Option Pending → UInt8 → List Char × Option Pending
| none, b => lead b
| some p, b =>
    if p.low ≤ b ∧ b ≤ p.high then
      let value := p.value * 64 + (b.toNat - 0x80)
      if p.missing ≤ 1 then ([Char.ofNat value], none)
      else ([], some ⟨value, p.missing - 1, 0x80, 0xBF⟩)
    else
      let (out, next) := lead b
      (replacement :: out, next)

/- Read bytes after the pending part of a character. -/
def decodeFrom : Option Pending → Bytes → List Char
| none, [] => []
| some _, [] => [replacement]
| pending, b :: rest =>
    (step pending b).1 ++ decodeFrom (step pending b).2 rest

/- The characters that a byte string stands for. -/
def decodeChars (bs : Bytes) : List Char :=
  decodeFrom none bs

/- The text that a byte string stands for. -/
def decode (bs : Bytes) : String :=
  String.ofList (decodeChars bs)

end Text

end ArchiveRescue
