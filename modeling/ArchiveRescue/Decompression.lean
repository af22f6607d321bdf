import ArchiveRescue.Decompression.Sink
import ArchiveRescue.Decompression.Source
import ArchiveRescue.Gzip.Member
import ArchiveRescue.Options

/-
  This file defines decompressions: a source and a sink are
  verified, the framing is looked at, an algorithm is run,
  and its outcome is settled.

  Key definitions include:
    * `Codec`
    * `Bench`
    * `Decompression.direct`
    * `Decompression.withoutCrc`
    * `Decompression.withRetry`
    * `Decompression.run`
    * `Decompression.toFile`
    * `Decompression.toTape`
-/

namespace ArchiveRescue

------------------------------------------------------------
-- Decoders
------------------------------------------------------------

/-
  The decoders of an engine: one for members and one for the
  payloads in them.
-/
structure Codec where
  mode : Mode
  gunzip : Bytes → Gzip.Delivery
  inflate : Bytes → Gzip.Delivery

namespace Codec

/- The decoders of this library. -/
def standard (mode : Mode) : Codec where
  mode := mode
  gunzip := Gzip.gunzip mode
  inflate := Gzip.inflate

/- The fault that a decoder ends with. -/
def faultOf
    (codec : Codec) : Gzip.Verdict → Option Fault
| .complete => none
| .cut flaw
| .broken flaw => some (.flawed codec.mode flaw)

/-
  What a decoder delivers and the fault that it ends with,
  when its input may have ended with a fault.  That fault
  matters only where the decoder wanted more input; an engine
  that does not wait has then delivered nothing.
-/
def deliver
    (codec : Codec)
    (decode : Bytes → Gzip.Delivery)
    (data : Bytes)
    (fault? : Option Fault) : Bytes × Option Fault :=
  let delivery := decode data
  match delivery.verdict, fault?, codec.mode with
  | .cut _, some fault, .blocking =>
      (delivery.bytes, some fault)
  | .cut _, some fault, .nonblocking => ([], some fault)
  | verdict, _, _ => (delivery.bytes, codec.faultOf verdict)

/-
  How many of the bytes delivered before a fault reach a
  file.  An engine that does not wait loses what its buffer
  still holds.
-/
def settled
    (codec : Codec)
    (sink : Sink)
    (bs : Bytes) : Bytes :=
  match codec.mode, sink with
  | .nonblocking, .file _ =>
      bs.take (bs.length / 8192 * 8192)
  | _, _ => bs

end Codec

------------------------------------------------------------
-- Benches
------------------------------------------------------------

/- All that a decompression works on. -/
structure Bench where
  disk : Disk
  source : Source
  sink : Sink
  report : Report

namespace Bench

/- Use the source. -/
def onSource
    {α : Type}
    (stage : Stage Inlet α) : Stage Bench α :=
  Stage.focus (fun b => (b.source, b.disk))
    (fun b i => { b with source := i.1, disk := i.2 }) stage

/- Use the sink. -/
def onSink
    {α : Type}
    (stage : Stage Outlet α) : Stage Bench α :=
  Stage.focus (fun b => (b.sink, b.disk))
    (fun b o => { b with sink := o.1, disk := o.2 }) stage

/- Change the report. -/
def telling
    (b : Bench)
    (change : Report → Report) : Bench :=
  { b with report := change b.report }

/- Log something of little interest. -/
def debug (message : String) : Stage Bench Unit :=
  modify (fun b => b.telling (·.debug message))

end Bench

namespace Decompression

open Bench

------------------------------------------------------------
-- Algorithms
------------------------------------------------------------

/- The name of the step that trusts the checks. -/
def directName : String :=
  "direct decompression"

/- The name of the step that skips the checks. -/
def withoutCrcName : String :=
  "decompression without crc"

/- Write what was delivered, and fail if there was a fault. -/
def put
    (codec : Codec)
    (origin : String)
    (delivered : Bytes × Option Fault) : Stage Bench Unit := do
  match delivered.2 with
  | none =>
      onSink (Sink.write origin delivered.1)
      onSink (Sink.flush origin)
  | some fault =>
      let kept := codec.settled (← get).sink delivered.1
      onSink (Sink.write origin kept)
      throw (.faulted origin fault)

/- The output must hold something. -/
def ensureNotEmpty (origin : String) : Stage Bench Nat := do
  let written ← onSink Sink.written
  if written = 0 then
    onSink Sink.discard
    throw (.outputEmpty (origin ++ " output"))
  else pure written

/- Log how a step ended. -/
def logged
    (origin : String)
    (stage : Stage Bench Nat) : Stage Bench Nat :=
  stage.observed
    (fun b n => b.telling (·.debug
      (origin ++ " wrote " ++ toString n ++ " byte(s)")))
    (fun b failure => b.telling (·.error
      (origin ++ " failed: " ++ failure.message)))

/- Decode the whole input as a member. -/
def direct (codec : Codec) : Stage Bench Nat :=
  logged directName (do
    let opened ← onSource Source.opened
    onSink Sink.begin
    let (data, fault?) ←
      onSource (Source.drain opened)
    put codec directName
      (codec.deliver codec.gunzip data fault?)
    ensureNotEmpty directName)

/- The bytes between the fixed header and the footer. -/
def payload (data : Bytes) : Bytes :=
  Bytes.slice data Gzip.headerLength
    (data.length - Gzip.framingLength)

/-
  Decode the bytes between header and footer as a payload.
  Fields behind the fixed header are not passed over.
-/
def withoutCrc (codec : Codec) : Stage Bench Nat :=
  logged withoutCrcName (do
    let data ← onSource Source.readAll
    let framing ←
      ExceptT.mk (pure (Gzip.Framing.ofBytes data))
    if framing.hasOptionalFields then
      debug ("header flags 0x" ++
        Text.hexByte framing.flags ++
        " announce optional fields; they are not skipped")
    let trimmed := payload data
    debug ("raw-inflating " ++ toString trimmed.length ++
      " byte(s) of trimmed payload")
    onSink Sink.reset
    onSink Sink.begin
    put codec withoutCrcName
      (codec.deliver codec.inflate trimmed none)
    ensureNotEmpty withoutCrcName)

/-
  Trust the checks first, and skip them if that fails.
-/
def withRetry (codec : Codec) : Stage Bench Nat := do
  onSource Source.preserve
  tryCatch (direct codec) (fun _ => do
    modify (fun b => b.telling (·.info
      "retrying without crc validation"))
    onSink Sink.reset
    ExceptT.adapt Failure.fallbackFailed (withoutCrc codec))

/- Run an algorithm. -/
def algorithm
    (codec : Codec) : Algorithm → Stage Bench Nat
| .direct => direct codec
| .withoutCrc => withoutCrc codec
| .withRetry => withRetry codec

------------------------------------------------------------
-- Whole Runs
------------------------------------------------------------

/- Verify both ends. -/
def verify : Stage Bench Unit := do
  onSource Source.verify
  onSink Sink.verify
  debug "input and output verified"

/- Note the framing, which must have the signature. -/
def inspect : Stage Bench Unit := do
  let framing ← onSource Source.framing
  modify (fun b => b.telling (·.note (fun s =>
    { s with
      header := some framing.headerText
      footer := some framing.footerText })))
  debug ("gzip header: " ++ framing.headerText)
  debug ("gzip footer: " ++ framing.footerText)
  if !framing.hasSignature then
    throw (.noSignature framing.headerText)

/- Settle the outcome of a run. -/
def settle
    (options : DecompressionOptions)
    (outcome : Outcome Nat)
    (b : Bench) : Bench :=
  match outcome with
  | .ok written =>
      b.telling (fun r =>
        (r.info ("decompressed " ++ toString written ++
          " byte(s)")).succeed)
  | .error failure =>
      let failed := b.telling (·.fail failure)
      if !options.keepPartial &&
          b.report.snapshot.outputPath.isSome then
        match (onSink Sink.discard).perform failed with
        | (.ok (), final) => final
        | (.error later, final) =>
            final.telling (·.fail later)
      else failed

/- Verify, inspect and decompress. -/
def attempt
    (codec : Codec)
    (options : DecompressionOptions) : Stage Bench Nat := do
  verify
  inspect
  algorithm codec options.algorithm

/- Run a decompression. -/
def run
    (codec : Codec)
    (options : DecompressionOptions)
    (operation : String)
    (source : Source)
    (sink : Sink)
    (disk : Disk) : Bench :=
  let given := sink.describe (source.describe {})
  let report : Report :=
    { operation := operation, snapshot := given }
  let start : Bench :=
    { disk := disk
      source := source
      sink := sink
      report :=
        report.debug ("starting " ++ options.algorithm.name ++
          " decompression") }
  let (outcome, tried) :=
    (attempt codec options).perform start
  let settled := settle options outcome tried
  settled.telling (·.note settled.sink.describe)

------------------------------------------------------------
-- Results
------------------------------------------------------------

/- How a source is called in names of operations. -/
def sourceName : Source → String
| .file _ => "file"
| .stream .. => "stream"

/- The name of an operation between two ends. -/
def operation
    (mode : Mode)
    (source : Source)
    (target : String) : String :=
  let name :=
    "decompress_" ++ sourceName source ++ "_to_" ++ target
  match mode with
  | .blocking => name
  | .nonblocking => name ++ "_async"

/- The outcome of a decompression to a file. -/
structure ToFile where
  outputPath : Path
  report : Report
  disk : Disk

/- The outcome of a decompression to a tape. -/
structure ToTape where
  bytesWritten : Nat
  report : Report
  tape : Tape
  disk : Disk

/- Decompress to a file. -/
def toFile
    (codec : Codec)
    (options : DecompressionOptions)
    (source : Source)
    (path : Path)
    (disk : Disk) : ToFile :=
  let b :=
    run codec options (operation codec.mode source "file")
      source (.file path) disk
  { outputPath :=
      match b.sink with
      | .file final => final
      | .stream .. => path
    report := b.report
    disk := b.disk }

/- Decompress to a tape. -/
def toTape
    (codec : Codec)
    (options : DecompressionOptions)
    (source : Source)
    (tape : Tape)
    (disk : Disk) : ToTape :=
  let b :=
    run codec options (operation codec.mode source "stream")
      source (.ofTape tape) disk
  let (outcome, final) :=
    if b.report.success then
      (onSink Sink.written).perform b
    else (.ok 0, b)
  { bytesWritten := outcome.toOption.getD 0
    report := b.report
    tape :=
      match final.sink with
      | .stream told _ => told
      | .file _ => tape
    disk := final.disk }

end Decompression

end ArchiveRescue
