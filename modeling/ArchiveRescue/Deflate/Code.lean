import ArchiveRescue.Deflate.Bits

/-
  This file defines the canonical codes of compressed blocks.
  A code is given by the length of each symbol's code word;
  words of one length are numbered in the order of symbols.

  Key definitions include:
    * `Deflate.Stop`
    * `Deflate.Reader`
    * `Deflate.Code`
    * `Deflate.Code.complete?`
    * `Deflate.Code.ofLengths?`
    * `Deflate.Code.symbol`
-/

namespace ArchiveRescue

namespace Deflate

------------------------------------------------------------
-- Steps of Decoding
------------------------------------------------------------

/- Why decoding stops: the input ends or is not valid. -/
inductive Stop where
  | starved
  | corrupt
  deriving DecidableEq, Repr

/- A step that reads something from bits, or stops. -/
abbrev Reader (α : Type) :=
  StateT Bits (Except Stop) α

/- Read a number, unless the input ends. -/
def number (count : Nat) : Reader Nat :=
  fun bits =>
    match bits.read? count with
    | none => .error .starved
    | some result => .ok result

------------------------------------------------------------
-- Codes
------------------------------------------------------------

/-
  A code: how many words there are of each length from one
  on, and the symbols in the order of their words.
-/
structure Code where
  counts : List Nat
  symbols : Array Nat

namespace Code

/- The longest word. -/
def maxLength : Nat :=
  15

/- The symbols whose words have a length. -/
def symbolsOf
    (lengths : List Nat)
    (length : Nat) : List Nat :=
  (lengths.zipIdx.filter (fun e => e.1 == length)).map
    Prod.snd

/- The code with the given lengths of words. -/
def ofLengths (lengths : List Nat) : Code :=
  let groups :=
    (List.range' 1 maxLength).map (symbolsOf lengths)
  { counts := groups.map List.length
    symbols := groups.flatten.toArray }

/-
  The part of all words of the maximal length that begin with
  words of a code.
-/
def covered : List Nat → Nat
| [] => 0
| count :: more =>
    count * Nat.pow 2 more.length + covered more

/- Whether the words cover everything exactly once. -/
def isComplete (code : Code) : Bool :=
  covered code.counts == Nat.pow 2 maxLength

/- The code with the given lengths, if it is complete. -/
def complete? (lengths : List Nat) : Option Code :=
  let code := ofLengths lengths
  if code.isComplete then some code else none

/- Whether there is no word, or only one of a single bit. -/
def isTiny (lengths : List Nat) : Bool :=
  let words := lengths.filter (fun length => length != 0)
  words == [] || words == [1]

/- The code with the given lengths, if complete or tiny. -/
def ofLengths? (lengths : List Nat) : Option Code :=
  let code := ofLengths lengths
  if code.isComplete || isTiny lengths then some code
  else none

/-
  Read a word bit by bit.  Words of each length are a run of
  numbers that starts at `first`; `index` symbols have
  shorter words.  Bits that begin no word are refused at once.
-/
def symbolFrom
    (symbols : Array Nat) :
    List Nat → Nat → Nat → Nat → Reader Nat
| [], _, _, _ => throw .corrupt
| count :: more, word, first, index => do
    let bit ← number 1
    let longer := 2 * word + bit
    let next := 2 * first + count
    if longer < next then
      match symbols[index + (longer - 2 * first)]? with
      | none => throw .corrupt
      | some symbol => pure symbol
    else if (longer - next) * Nat.pow 2 more.length <
        covered more then
      symbolFrom symbols more longer next (index + count)
    else throw .corrupt

/- Read a symbol. -/
def symbol (code : Code) : Reader Nat :=
  symbolFrom code.symbols code.counts 0 0 0

end Code

end Deflate

end ArchiveRescue
