import ArchiveRescue.Options
import ArchiveRescue.Path

/-
  This file defines what the words of a command line mean.
  Words are read from the left, and the first one that makes
  no sense decides.

  Key definitions include:
    * `CommandLine.Command`
    * `CommandLine.Invocation`
    * `CommandLine.Request`
    * `CommandLine.parse`
-/

namespace ArchiveRescue

namespace CommandLine

------------------------------------------------------------
-- Commands
------------------------------------------------------------

/- What can be asked for, with its operands and options. -/
inductive Command where
  | gunzip
      (input output : Path)
      (options : DecompressionOptions)
  | untar
      (archive directory : Path)
      (options : ExtractionOptions)
  | unpack
      (archive directory : Path)
      (options : ExtractionOptions)
  | inspect (file : Path)
  | pack (archive : Path) (files : List Path)
  deriving DecidableEq, Repr

/- A command, how much it tells, and the kind of engine. -/
structure Invocation where
  verbose : Bool
  nonblocking : Bool
  command : Command
  deriving DecidableEq, Repr

/- What a command line asks for. -/
inductive Request where
  | run (invocation : Invocation)
  | version
  | help
  | misuse
  deriving DecidableEq, Repr

------------------------------------------------------------
-- Flags
------------------------------------------------------------

/- Names of commands. -/
inductive Verb where
  | gunzip
  | untar
  | unpack
  | inspect
  | pack
  deriving DecidableEq, Repr

/- Words that switch something on. -/
inductive Flag where
  | verbose
  | nonblocking
  | keepPartial
  | verifyChecksum
  | allowUnsafePaths
  deriving DecidableEq, Repr

/- The command with a name. -/
def Verb.ofName? : String → Option Verb
| "gunzip" => some .gunzip
| "untar" => some .untar
| "unpack" => some .unpack
| "inspect" => some .inspect
| "pack" => some .pack
| _ => none

/- The flags that any command takes. -/
def Flag.isGlobal : Flag → Bool
| .verbose
| .nonblocking => true
| _ => false

/- Whether a command takes a flag. -/
def Verb.takes : Verb → Flag → Bool
| .gunzip, .keepPartial => true
| .untar, .verifyChecksum
| .untar, .allowUnsafePaths
| .unpack, .verifyChecksum
| .unpack, .allowUnsafePaths => true
| _, flag => flag.isGlobal

/- Whether a command takes an operand behind some others. -/
def Verb.takesAfter : Verb → Nat → Bool
| .pack, _ => true
| .inspect, count => count < 1
| _, count => count < 2

/- The flag with a long name. -/
def Flag.ofName? : String → Option Flag
| "verbose" => some .verbose
| "nonblocking" => some .nonblocking
| "keep-partial" => some .keepPartial
| "verify-checksum" => some .verifyChecksum
| "allow-unsafe-paths" => some .allowUnsafePaths
| _ => none

------------------------------------------------------------
-- Words
------------------------------------------------------------

/- The shape of a word. -/
inductive Word where
  | terminator
  | long (name : String) (value? : Option String)
  | cluster (letters : List Char)
  | operand (text : String)
  deriving DecidableEq, Repr

/- The name and the value around the first equals sign. -/
def splitValue (cs : List Char) : String × Option String :=
  let name := cs.takeWhile (· != '=')
  match cs.drop name.length with
  | [] => (String.ofList name, none)
  | _ :: value =>
      (String.ofList name, some (String.ofList value))

/- The shape of a word.  A lone hyphen is an operand. -/
def Word.ofText (s : String) : Word :=
  match s.toList with
  | ['-', '-'] => .terminator
  | '-' :: '-' :: rest =>
      let (name, value?) := splitValue rest
      .long name value?
  | '-' :: c :: rest => .cluster (c :: rest)
  | _ => .operand s

------------------------------------------------------------
-- Words of a Command
------------------------------------------------------------

/- What the words of a command have said so far. -/
structure Said where
  flags : List Flag := []
  algorithm? : Option Algorithm := none
  operands : List String := []
  deriving DecidableEq, Repr

namespace Said

/- Take a flag.  No flag may be given twice. -/
def flag?
    (said : Said)
    (flag : Flag) : Option Said :=
  if said.flags.contains flag then none
  else some { said with flags := said.flags ++ [flag] }

/- Take a name of an algorithm, which may be given once. -/
def choose?
    (said : Said)
    (name : String) : Option Said :=
  match said.algorithm?, Algorithm.ofName? name with
  | none, .ok algorithm =>
      some { said with algorithm? := some algorithm }
  | _, _ => none

/-
  Take an operand, which must not be empty or more than the
  command takes.
-/
def operand?
    (verb : Verb)
    (said : Said)
    (text : String) : Option Said :=
  if text != "" && verb.takesAfter said.operands.length then
    some { said with operands := said.operands ++ [text] }
  else none

end Said

/- What reading a word leads to. -/
inductive Progress where
  | goOn (said : Said)
  | wanting (said : Said)
  | stop (request : Request)
  deriving DecidableEq, Repr

/- Go on, or stop because a word makes no sense. -/
def Progress.ofOption : Option Said → Progress
| some said => .goOn said
| none => .stop .misuse

/- Read a word with a long name. -/
def readLong
    (verb : Verb)
    (said : Said)
    (name : String)
    (value? : Option String) : Progress :=
  match name, value?, Flag.ofName? name with
  | "help", none, _ => .stop .help
  | "algorithm", value?, _ =>
      if verb = .gunzip then
        match value? with
        | none => .wanting said
        | some value => .ofOption (said.choose? value)
      else .stop .misuse
  | _, none, some flag =>
      if verb.takes flag then .ofOption (said.flag? flag)
      else .stop .misuse
  | _, _, _ => .stop .misuse

/-
  Read letters behind one hyphen.  What follows the letter of
  a value, up to an equals sign in front, is the value.
-/
def readLetters
    (verb : Verb)
    (said : Said) : List Char → Progress
| [] => .goOn said
| 'v' :: rest =>
    match said.flag? .verbose with
    | none => .stop .misuse
    | some more => readLetters verb more rest
| 'h' :: _ => .stop .help
| 'a' :: rest =>
    if verb = .gunzip then
      match rest with
      | [] => .wanting said
      | '=' :: value =>
          .ofOption (said.choose? (String.ofList value))
      | value =>
          .ofOption (said.choose? (String.ofList value))
    else .stop .misuse
| _ :: _ => .stop .misuse

/- Read words that can only be operands. -/
def readOperands
    (verb : Verb) :
    Said → List String → Except Request Said
| said, [] => .ok said
| said, text :: rest =>
    match said.operand? verb text with
    | none => .error .misuse
    | some more => readOperands verb more rest

/- Read the words behind the name of a command. -/
def readWords
    (verb : Verb) :
    Said → Bool → List String → Except Request Said
| said, false, [] => .ok said
| _, true, [] => .error .misuse
| said, true, text :: rest =>
    match Word.ofText text with
    | .operand value =>
        match said.choose? value with
        | none => .error .misuse
        | some more => readWords verb more false rest
    | _ => .error .misuse
| said, false, text :: rest =>
    match Word.ofText text with
    | .terminator => readOperands verb said rest
    | .operand value =>
        match said.operand? verb value with
        | none => .error .misuse
        | some more => readWords verb more false rest
    | .long name value? =>
        match readLong verb said name value? with
        | .goOn more => readWords verb more false rest
        | .wanting more => readWords verb more true rest
        | .stop request => .error request
    | .cluster letters =>
        match readLetters verb said letters with
        | .goOn more => readWords verb more false rest
        | .wanting more => readWords verb more true rest
        | .stop request => .error request

------------------------------------------------------------
-- Whole Command Lines
------------------------------------------------------------

/- The options of an extraction. -/
def Said.extraction (said : Said) : ExtractionOptions where
  verifyChecksum := said.flags.contains .verifyChecksum
  sanitize := !said.flags.contains .allowUnsafePaths

/- The options of a decompression. -/
def Said.decompression
    (said : Said) : DecompressionOptions where
  algorithm := said.algorithm?.getD .withRetry
  keepPartial := said.flags.contains .keepPartial

/- The command that a verb and its words make. -/
def Said.command?
    (said : Said)
    (verb : Verb) : Option Command :=
  match verb, said.operands with
  | .gunzip, [input, output] =>
      some (.gunzip ⟨input⟩ ⟨output⟩ said.decompression)
  | .untar, [archive, directory] =>
      some (.untar ⟨archive⟩ ⟨directory⟩ said.extraction)
  | .unpack, [archive, directory] =>
      some (.unpack ⟨archive⟩ ⟨directory⟩ said.extraction)
  | .inspect, [file] => some (.inspect ⟨file⟩)
  | .pack, archive :: file :: files =>
      some (.pack ⟨archive⟩ ((file :: files).map Path.mk))
  | _, _ => none

/- Read a command whose name has been read. -/
def readCommand
    (globals : List Flag)
    (verb : Verb)
    (words : List String) : Request :=
  match readWords verb {} false words with
  | .error request => request
  | .ok said =>
      let given := globals ++ said.flags
      match said.command? verb with
      | none => .misuse
      | some command =>
          .run
            { verbose := given.contains .verbose
              nonblocking := given.contains .nonblocking
              command := command }

/- Read letters in front of the name of a command. -/
def readGlobalLetters
    (globals : List Flag) :
    List Char → Except Request (List Flag)
| [] => .ok globals
| 'v' :: rest =>
    if globals.contains .verbose then .error .misuse
    else readGlobalLetters (globals ++ [.verbose]) rest
| 'V' :: _ => .error .version
| 'h' :: _ => .error .help
| _ :: _ => .error .misuse

/- Read a long name in front of the name of a command. -/
def readGlobalLong
    (globals : List Flag)
    (name : String) : Except Request (List Flag) :=
  match name, Flag.ofName? name with
  | "version", _ => .error .version
  | "help", _ => .error .help
  | _, some flag =>
      if flag.isGlobal && !globals.contains flag then
        .ok (globals ++ [flag])
      else .error .misuse
  | _, none => .error .misuse

/- Read what help is asked about: a command or nothing. -/
def readTopic : List String → Request
| [] => .help
| [name] =>
    if name == "help" || (Verb.ofName? name).isSome then .help
    else .misuse
| _ => .misuse

/- Read words after some flags for any command. -/
def readFrom
    (globals : List Flag) : List String → Request
| [] => .misuse
| text :: rest =>
    match Word.ofText text with
    | .terminator => .misuse
    | .long name none =>
        match readGlobalLong globals name with
        | .error request => request
        | .ok more => readFrom more rest
    | .long _ (some _) => .misuse
    | .cluster letters =>
        match readGlobalLetters globals letters with
        | .error request => request
        | .ok more => readFrom more rest
    | .operand "help" => readTopic rest
    | .operand name =>
        match Verb.ofName? name with
        | none => .misuse
        | some verb => readCommand globals verb rest

/- What the words of a command line ask for. -/
def parse (words : List String) : Request :=
  readFrom [] words

end CommandLine

end ArchiveRescue
