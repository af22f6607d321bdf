import ArchiveRescue.Deflate.Code

/-
  This file defines how compressed blocks are inflated.  What
  has been inflated is kept when the input ends early or is
  not valid.  A copy that reaches back before the start of
  the output finds zeros there.

  Key definitions include:
    * `Deflate.Ending`
    * `Deflate.Inflated`
    * `Deflate.copyBack`
    * `Deflate.symbols`
    * `Deflate.codes`
    * `Deflate.stored`
    * `Deflate.blocks`
    * `Deflate.inflate`
-/

namespace ArchiveRescue

namespace Deflate

/- What is inflated, and the bits behind it or why it stops. -/
abbrev Run :=
  Array UInt8 × Except Stop Bits

------------------------------------------------------------
-- Compressed Data
------------------------------------------------------------

/- The least length of each length symbol, and extra bits. -/
def lengthTable : List (Nat × Nat) :=
  [(3, 0), (4, 0), (5, 0), (6, 0), (7, 0), (8, 0), (9, 0),
    (10, 0), (11, 1), (13, 1), (15, 1), (17, 1), (19, 2),
    (23, 2), (27, 2), (31, 2), (35, 3), (43, 3), (51, 3),
    (59, 3), (67, 4), (83, 4), (99, 4), (115, 4), (131, 5),
    (163, 5), (195, 5), (227, 5), (258, 0)]

/- The least distance of each symbol, and extra bits. -/
def distanceTable : List (Nat × Nat) :=
  [(1, 0), (2, 0), (3, 0), (4, 0), (5, 1), (7, 1), (9, 2),
    (13, 2), (17, 3), (25, 3), (33, 4), (49, 4), (65, 5),
    (97, 5), (129, 6), (193, 6), (257, 7), (385, 7),
    (513, 8), (769, 8), (1025, 9), (1537, 9), (2049, 10),
    (3073, 10), (4097, 11), (6145, 11), (8193, 12),
    (12289, 12), (16385, 13), (24577, 13)]

/- Read the number that a symbol and extra bits stand for. -/
def amount
    (table : List (Nat × Nat))
    (symbol : Nat) : Reader Nat :=
  match table[symbol]? with
  | none => throw .corrupt
  | some (least, extra) => do
      let more ← number extra
      pure (least + more)

/- Append bytes that stand at a distance before the end. -/
def copyBack
    (distance : Nat) : Nat → Array UInt8 → Array UInt8
| 0, out => out
| count + 1, out =>
    let byte :=
      if distance ≤ out.size then
        out.getD (out.size - distance) 0
      else 0
    copyBack distance count (out.push byte)

/-
  Read the length and the distance of a copy.  The symbols of
  lengths come behind the end mark.
-/
@[irreducible]
def reference
    (distances : Code)
    (symbol : Nat) : Reader (Nat × Nat) := do
  let length ← amount lengthTable (symbol - 257)
  let word ← distances.symbol
  let distance ← amount distanceTable word
  pure (length, distance)

/-
  Inflate symbols up to the end of a block, at most `fuel` of
  them.
-/
def symbols
    (literals distances : Code) :
    Nat → Array UInt8 → Bits → Run
| 0, out, _ => (out, .error .starved)
| fuel + 1, out, bits =>
    match literals.symbol bits with
    | .error stop => (out, .error stop)
    | .ok (symbol, rest) =>
        if symbol < 256 then
          symbols literals distances fuel
            (out.push (UInt8.ofNat symbol)) rest
        else if symbol = 256 then (out, .ok rest)
        else
          match reference distances symbol rest with
          | .error stop => (out, .error stop)
          | .ok ((length, distance), later) =>
              symbols literals distances fuel
                (copyBack distance length out) later

------------------------------------------------------------
-- Codes of a Block
------------------------------------------------------------

/- The code of literals that needs no description. -/
def fixedLiterals : Code :=
  .ofLengths
    (List.replicate 144 8 ++ List.replicate 112 9 ++
      List.replicate 24 7 ++ List.replicate 8 8)

/- The code of distances that needs no description. -/
def fixedDistances : Code :=
  .ofLengths (List.replicate 32 5)

/- The order in which the first lengths are described. -/
def describedOrder : List Nat :=
  [16, 17, 18, 0, 8, 7, 9, 6, 10, 5, 11, 4, 12, 3, 13, 2,
    14, 1, 15]

/- Read lengths of three bits each. -/
def shortLengths : Nat → Reader (List Nat)
| 0 => pure []
| count + 1 => do
    let length ← number 3
    let more ← shortLengths count
    pure (length :: more)

/- The lengths of all nineteen symbols, in their own order. -/
def inOrder (described : List Nat) : List Nat :=
  (List.range 19).map (fun symbol =>
    ((describedOrder.zip described).lookup symbol).getD 0)

/-
  Read what a length symbol stands for, given the length
  before it: one length, or a run of the length before it or
  of zeros.
-/
def lengthRun
    (symbol : Nat)
    (before : Option Nat) : Reader (List Nat) :=
  if symbol < 16 then pure [symbol]
  else if symbol = 16 then
    match before with
    | none => throw .corrupt
    | some length => do
        let more ← number 2
        pure (List.replicate (3 + more) length)
  else if symbol = 17 then do
    let more ← number 3
    pure (List.replicate (3 + more) 0)
  else do
    let more ← number 7
    pure (List.replicate (11 + more) 0)

/-
  Read the lengths of words up to a total, in at most `fuel`
  runs.  They are kept with the latest in front.
-/
def lengthsUpTo
    (code : Code)
    (total : Nat) :
    Nat → List Nat → Reader (List Nat)
| 0, _ => throw .corrupt
| fuel + 1, known =>
    if known.length = total then pure known.reverse
    else if total < known.length then throw .corrupt
    else do
      let symbol ← code.symbol
      let run ← lengthRun symbol known.head?
      lengthsUpTo code total fuel (run ++ known)

/- A code, which must be valid. -/
def valid : Option Code → Reader Code
| none => throw .corrupt
| some code => pure code

/- Read the codes of a block that describes them. -/
def codes : Reader (Code × Code) := do
  let moreLiterals ← number 5
  let moreDistances ← number 5
  let moreLengths ← number 4
  if 29 < moreLiterals ∨ 29 < moreDistances then
    throw .corrupt
  else
    let literals := moreLiterals + 257
    let total := literals + moreDistances + 1
    let described ← shortLengths (moreLengths + 4)
    let code ← valid (Code.complete? (inOrder described))
    let lengths ← lengthsUpTo code total (total + 1) []
    let first ← valid
      (Code.ofLengths? (lengths.take literals))
    let second ← valid
      (Code.ofLengths? (lengths.drop literals))
    pure (first, second)

------------------------------------------------------------
-- Blocks
------------------------------------------------------------

/- Copy a block that is not compressed. -/
def stored
    (out : Array UInt8)
    (bits : Bits) : Run :=
  match bits.aligned with
  | a :: b :: c :: d :: rest =>
      let length := Bytes.ofLittleEndian [a, b]
      let inverse := Bytes.ofLittleEndian [c, d]
      if length + inverse ≠ 0xFFFF then
        (out, .error .corrupt)
      else
        let copied := out ++ (rest.take length).toArray
        if rest.length < length then
          (copied, .error .starved)
        else (copied, .ok ⟨rest.drop length, 0⟩)
  | _ => (out, .error .starved)

/- Inflate the content of a block of some type. -/
def content
    (type : Nat)
    (out : Array UInt8)
    (bits : Bits) : Run :=
  match type with
  | 0 => stored out bits
  | 1 =>
      symbols fixedLiterals fixedDistances (bits.left + 1)
        out bits
  | 2 =>
      match codes bits with
      | .error stop => (out, .error stop)
      | .ok ((literals, distances), rest) =>
          symbols literals distances (rest.left + 1) out rest
  | _ => (out, .error .corrupt)

/- Inflate blocks up to the final one, at most `fuel`. -/
def blocks :
    Nat → Array UInt8 → Bits → Run
| 0, out, _ => (out, .error .starved)
| fuel + 1, out, bits =>
    match number 3 bits with
    | .error stop => (out, .error stop)
    | .ok (head, rest) =>
        match content (head / 2) out rest with
        | (more, .error stop) => (more, .error stop)
        | (more, .ok later) =>
            if head % 2 = 1 then (more, .ok later)
            else blocks fuel more later

------------------------------------------------------------
-- Whole Payloads
------------------------------------------------------------

/- How a payload ends. -/
inductive Ending where
  | complete (rest : Bytes)
  | starved
  | corrupt
  deriving DecidableEq, Repr

/- What a payload inflates to and how it ends. -/
structure Inflated where
  bytes : Bytes
  ending : Ending
  deriving DecidableEq, Repr

/- Output is handed over in pieces of this size. -/
def pieceSize : Nat :=
  32768

/- The bytes of all full pieces. -/
def fullPieces (bs : Bytes) : Bytes :=
  bs.take (bs.length / pieceSize * pieceSize)

/-
  Inflate a payload.  When it turns out not to be valid, only
  full pieces have been handed over before.
-/
def inflate (input : Bytes) : Inflated :=
  match blocks (8 * input.length + 1) #[] ⟨input, 0⟩ with
  | (out, .ok rest) =>
      ⟨out.toList, .complete rest.aligned⟩
  | (out, .error .starved) => ⟨out.toList, .starved⟩
  | (out, .error .corrupt) =>
      ⟨fullPieces out.toList, .corrupt⟩

end Deflate

end ArchiveRescue
