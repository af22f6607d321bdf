import ArchiveRescue.Bundle
import ArchiveRescue.CommandLine.Arguments

/-
  This file defines what a command does on a disk and what it
  says: lines for its reader, lines about errors, lines of
  the log, and an exit code.

  Key definitions include:
    * `CommandLine.Transcript`
    * `CommandLine.shownLine`
    * `CommandLine.perform?`
    * `CommandLine.session?`
-/

namespace ArchiveRescue

namespace CommandLine

------------------------------------------------------------
-- Transcripts
------------------------------------------------------------

/- What a command has said, its exit code and the disk. -/
structure Transcript where
  code : Nat
  output : List String := []
  errors : List String := []
  log : List Line := []
  disk : Disk

/- The exit code for success or failure. -/
def codeOf (success : Bool) : Nat :=
  if success then 0 else 1

/- The line about the first failure of an operation. -/
def errorLines (report : Report) : List String :=
  match report.failure? with
  | none => []
  | some failure => ["Error: " ++ failure.message]

/- A line of the log with the name of its operation. -/
def shownLine (line : Line) : String :=
  let said := line.severity.label ++ " " ++ line.message
  match line.operation with
  | none => said
  | some name => said ++ " operation=\"" ++ name ++ "\""

/- Leave out the lines that only matter on request. -/
def visible
    (verbose : Bool)
    (lines : List Line) : List Line :=
  lines.filter
    (fun l => verbose || l.severity != .debug)

------------------------------------------------------------
-- Commands
------------------------------------------------------------

/- Say what an extraction has come to. -/
def ofExtraction
    (x : Extraction)
    (disk : Disk) : Transcript where
  code := codeOf x.success
  output :=
    x.extracted.map (fun p => "Extracted: " ++ p.text) ++
      ["Recovered " ++ toString x.extracted.length ++ " of " ++
        toString x.expected ++ " file(s) into: " ++
        x.directory.text]
  errors :=
    x.failures.map (fun f => "Skipped:   " ++ f.message) ++
      errorLines x.report
  log := x.report.lines
  disk := disk

/- Say that a command has failed. -/
def ofFailure
    (failure : Failure)
    (earlier : List Line)
    (disk : Disk) : Transcript where
  code := 1
  log := earlier ++ [⟨.error, failure.message, none⟩]
  disk := disk

/- Decompress a file. -/
def gunzip
    (mode : Mode)
    (input output : Path)
    (options : DecompressionOptions)
    (disk : Disk) : Transcript :=
  let x :=
    Decompression.toFile (.standard mode) options
      (.file input) output disk
  { code := codeOf x.report.success
    output :=
      if x.report.success then
        ["Decompressed to: " ++ x.outputPath.text]
      else []
    errors := errorLines x.report
    log := x.report.lines
    disk := x.disk }

/- Show the framing of a file. -/
def inspect
    (file : Path)
    (disk : Disk) : Transcript :=
  match (Bundle.inspect file).perform disk with
  | (.error failure, looked) => ofFailure failure [] looked
  | (.ok framing, looked) =>
      { code := codeOf framing.hasSignature
        output :=
          ["File:      " ++ file.text,
            "Signature: " ++
              (if framing.hasSignature then "gzip"
              else "missing"),
            "Header:    " ++ framing.headerText,
            "Footer:    " ++ framing.footerText] ++
          (if framing.hasFileName then
            ["Note:      header carries an embedded file name"]
          else [])
        disk := looked }

/- Pack files. -/
def pack
    (archive : Path)
    (files : List Path)
    (disk : Disk) : Transcript :=
  let x := Bundle.pack archive files disk
  match x.outcome with
  | .error failure => ofFailure failure x.lines x.disk
  | .ok count =>
      { code := codeOf (0 < count)
        output :=
          ["Created tar archive: " ++ archive.text ++ " (" ++
            toString count ++ " file(s))"]
        log := x.lines
        disk := x.disk }

/-
  Carry out a command.  The fuel bounds the walks through
  archives; unpacking always waits for its input.
-/
def perform?
    (fuel : Nat)
    (mode : Mode)
    (disk : Disk) : Command → Option Transcript
| .gunzip input output options =>
    some (gunzip mode input output options disk)
| .untar archive directory options =>
    (Extraction.ofFile? mode fuel options archive directory
      disk).map (fun x => ofExtraction x.result x.disk)
| .unpack archive directory options =>
    (Bundle.unpack? fuel (.standard .blocking) {} options
      archive directory disk).map
        (fun x => ofExtraction x.result x.disk)
| .inspect file => some (inspect file disk)
| .pack archive files => some (pack archive files disk)

------------------------------------------------------------
-- Sessions
------------------------------------------------------------

/- The name and the version of the command. -/
def versionLine : String :=
  "tar_salvage 0.1.0"

/- How the command is used. -/
def usage : List String :=
  ["Recover files from damaged gzip and tar archives",
    "",
    "Usage: tar_salvage [OPTIONS] <COMMAND>",
    "",
    "Commands: gunzip, untar, unpack, inspect, pack",
    "Options:  -v, --verbose  --nonblocking  -h, --help  " ++
      "-V, --version"]

/- Do what the words of a command line ask for. -/
def session?
    (fuel : Nat)
    (words : List String)
    (disk : Disk) : Option Transcript :=
  match parse words with
  | .misuse => some { code := 2, errors := usage, disk := disk }
  | .help => some { code := 0, output := usage, disk := disk }
  | .version =>
      some { code := 0, output := [versionLine], disk := disk }
  | .run invocation =>
      let mode :=
        if invocation.nonblocking then Mode.nonblocking
        else .blocking
      (perform? fuel mode disk invocation.command).map
        (fun t =>
          { t with log := visible invocation.verbose t.log })

end CommandLine

end ArchiveRescue
