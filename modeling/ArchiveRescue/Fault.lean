/-
  This file defines the faults that storage and decoders
  raise, and the words in which each one is reported.

  Key definitions include:
    * `Cause`
    * `Mode`
    * `Flaw`
    * `Flaw.text`
    * `Fault`
    * `Fault.text`
-/

namespace ArchiveRescue

------------------------------------------------------------
-- System Causes
------------------------------------------------------------

/- The reasons for which a system call is refused. -/
inductive Cause where
  | noEntry
  | accessDenied
  | alreadyExists
  | notDirectory
  | isDirectory
  | invalidArgument
  | noSpace
  | nameTooLong
  | notEmpty
  deriving DecidableEq, Repr

namespace Cause

/- The number of a cause. -/
def number : Cause → Nat
| .noEntry => 2
| .accessDenied => 13
| .alreadyExists => 17
| .notDirectory => 20
| .isDirectory => 21
| .invalidArgument => 22
| .noSpace => 28
| .nameTooLong => 36
| .notEmpty => 39

/- The words for a cause. -/
def words : Cause → String
| .noEntry => "No such file or directory"
| .accessDenied => "Permission denied"
| .alreadyExists => "File exists"
| .notDirectory => "Not a directory"
| .isDirectory => "Is a directory"
| .invalidArgument => "Invalid argument"
| .noSpace => "No space left on device"
| .nameTooLong => "File name too long"
| .notEmpty => "Directory not empty"

/- Every cause, in the order of the numbers. -/
def all : List Cause :=
  [.noEntry, .accessDenied, .alreadyExists, .notDirectory,
    .isDirectory, .invalidArgument, .noSpace, .nameTooLong,
    .notEmpty]

/- The cause with a number. -/
def ofNumber? (n : Nat) : Option Cause :=
  all.find? (fun cause => cause.number == n)

/- The words for a cause, followed by its number. -/
def text (cause : Cause) : String :=
  cause.words ++ " (os error " ++ toString cause.number ++ ")"

end Cause

------------------------------------------------------------
-- Flaws of Compressed Data
------------------------------------------------------------

/- How an engine waits for its input and output. -/
inductive Mode where
  | blocking
  | nonblocking
  deriving DecidableEq, Repr

/- What can be wrong with a gzip member or its payload. -/
inductive Flaw where
  | header
  | headerChecksum
  | headerField
  | headerCut
  | data
  | dataCut
  | payloadCut
  | footerCut
  | checksum
  | size
  deriving DecidableEq, Repr

/-
  The words for a flaw.  The two kinds of engine use decoders
  that word the same flaw differently.
-/
def Flaw.text : Mode → Flaw → String
| .blocking, .header => "invalid gzip header"
| .blocking, .headerChecksum
| .blocking, .checksum
| .blocking, .size =>
    "corrupt gzip stream does not have a matching checksum"
| .blocking, .headerField => "gzip header field too long"
| .blocking, .data => "corrupt deflate stream"
| .blocking, .dataCut
| .blocking, .payloadCut => "incomplete deflate stream"
| .nonblocking, .header
| .nonblocking, .headerField => "Invalid gzip header"
| .nonblocking, .headerChecksum =>
    "CRC computed for header does not match"
| .nonblocking, .data => "deflate decompression error"
| .nonblocking, .payloadCut => "unexpected BufError"
| .nonblocking, .checksum => "CRC computed does not match"
| .nonblocking, .size =>
    "amount of bytes read does not match"
| _, .headerCut
| _, .footerCut
| .nonblocking, .dataCut => "unexpected end of file"

------------------------------------------------------------
-- Faults
------------------------------------------------------------

/-
  Something that went wrong outside the formats: a refused
  call, an unusable path, a seek out of range, a read that
  was interrupted or ended early, flawed compressed data, a
  fault known only by its words, or a panic.
-/
inductive Fault where
  | system (cause : Cause)
  | nulInPath
  | emptyPath
  | seekOutOfRange
  | interrupted
  | endedEarly
  | flawed (mode : Mode) (flaw : Flaw)
  | described (words : String)
  | panicked (words : String)
  deriving DecidableEq, Repr

namespace Fault

/- The words in which a fault is reported. -/
def text : Fault → String
| .system cause => cause.text
| .nulInPath =>
    "file name contained an unexpected NUL byte"
| .emptyPath => "cannot make an empty path absolute"
| .seekOutOfRange =>
    "invalid seek to a negative or overflowing position"
| .interrupted => "operation interrupted"
| .endedEarly => "failed to fill whole buffer"
| .flawed mode flaw => flaw.text mode
| .described words => words
| .panicked words => "panicked: " ++ words

/- The fault of a call on something that is not there. -/
def missing : Fault :=
  .system .noEntry

end Fault

end ArchiveRescue
