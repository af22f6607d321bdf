import Mathlib
import ArchiveRescue.Bundle
import ArchiveRescue.Proofs.Runs

/-
  What unpacking a compressed archive comes to.  It is
  decompressed into memory and what is there then is
  extracted.  The memory holds the output, and behind it what
  a direct attempt that failed had written further on.

  Key definitions include:
    * `Decompression.inMemory`
    * `Decompression.stale`
    * `Bundle.Unpacks`

  Main statements:
    * `Decompression.direct_sink`
    * `Decompression.inMemory_leaves`
    * `Bundle.unpack?_inMemory`
    * `Bundle.unpacks_output_and_stale`
-/

namespace ArchiveRescue

open Stage

namespace Decompression

open Bench

------------------------------------------------------------
-- Runs in Memory
------------------------------------------------------------

section Runs

variable {codec : Codec} {options : DecompressionOptions}
variable {operation : String} {source : Source}
variable {tape : Tape} {begun : Nat} {disk : Disk}

/- A direct run leaves what a direct attempt would leave. -/
theorem direct_sink
    {ready tried : Bench}
    {outcome : Outcome Nat}
    (hReady :
      preparation.perform
          (start options operation source
            (.stream tape begun) disk) =
        (.ok (), ready))
    (hDirect : (direct codec).perform ready = (outcome, tried)) :
    (run codec { options with algorithm := .direct } operation
        source (.stream tape begun) disk).sink =
      tried.sink := by
  have hStart :
      Linked (· = ·)
        (start options operation source (.stream tape begun)
          disk)
        (start { options with algorithm := .direct } operation
          source (.stream tape begun) disk) :=
    ⟨rfl, rfl, rfl⟩
  rcases lifts_preparation_same _ _ () ready hStart hReady with
    ⟨ready', hReady', hLinked⟩
  have hBoth := respects_direct codec ready ready' hLinked
  rcases hOther : (direct codec).perform ready' with
    ⟨outcome', tried'⟩
  rw [hDirect, hOther] at hBoth
  rcases hBoth with ⟨rfl, hTried⟩
  rw [hTried.sink]
  cases outcome' with
  | ok n =>
      exact (run_of_ok hReady' hOther).2.2
  | error failure =>
      have hCleaned := cleaned_stream hReady' hOther rfl
      rw [(run_of_error hReady' hOther).2.2, hCleaned]

end Runs

/- Decompress a file into empty memory. -/
def inMemory
    (codec : Codec)
    (options : DecompressionOptions)
    (path : Path)
    (disk : Disk) : ToTape :=
  toTape codec options (.file path) { bytes := [] } disk

/-
  What is in memory behind the output: what a direct attempt
  had written there, if one was made that may have failed.
-/
def stale
    (codec : Codec)
    (options : DecompressionOptions)
    (path : Path)
    (disk : Disk) : Bytes :=
  match options.algorithm with
  | .withRetry =>
      (inMemory codec { options with algorithm := .direct }
        path disk).tape.bytes.drop
          (inMemory codec options path disk).bytesWritten
  | _ => []

/- Memory holds the output and what is stale behind it. -/
theorem inMemory_leaves
    {codec : Codec}
    {options : DecompressionOptions}
    {path : Path}
    {disk : Disk}
    (hSuccess :
      (inMemory codec options path disk).report.success =
        true) :
    ∃ output,
      output.length =
          (inMemory codec options path disk).bytesWritten ∧
        (inMemory codec options path disk).tape.bytes =
          output ++ stale codec options path disk := by
  have hVerdict :
      (run codec options
          (operation codec.mode (.file path) "stream")
          (.file path) (.ofTape { bytes := [] })
          disk).report.verdict = .succeeded := by
    unfold inMemory toTape at hSuccess
    exact Report.success_iff.mp hSuccess
  rcases run_ok_cases hVerdict with
    ⟨ready, n, tried, hReady, hTried⟩
  have hSource :=
    (prepares_preparation
      (start options
        (operation codec.mode (.file path) "stream")
        (.file path) (.ofTape { bytes := [] })
        disk)).source.file path rfl
  rw [hReady] at hSource
  rcases preparation_stream_ok (b := start options
      (operation codec.mode (.file path) "stream")
      (.file path) (.ofTape { bytes := [] }) disk)
      rfl hReady with
    ⟨first, hFirst, hNothing, -⟩
  have hEmpty : first.bytes = [] := hNothing.nothing rfl
  have hRuns := runs_algorithm codec options.algorithm ready
  rw [hTried] at hRuns
  rcases (hRuns.stream first 0 hFirst).1 with
    ⟨told, hTold, hFollows⟩
  have hServes : told.Serves :=
    (Tape.serves_of_isCalm Script.plain_isCalm).follows
      (hNothing.follows.trans hFollows)
  have hSink := (run_of_ok hReady hTried).2.2.trans hTold
  rcases algorithm_ok hSource hFirst hNothing.position
      hTried with
    ⟨left, hLeaves, hLeft⟩
  rcases hLeaves.bytes_eq hTold with
    ⟨hPosition, hBound, output, hLength, hBytes⟩
  have hCount :
      (inMemory codec options path disk).bytesWritten = n := by
    rw [← hPosition]
    exact toTape_count hVerdict hSink hServes hBound
  have hTape :
      (inMemory codec options path disk).tape.bytes =
        output ++ left.bytes.drop n := by
    rw [← hBytes]
    exact toTape_of_sink hSink
  refine ⟨output, hLength.trans hCount.symm, ?_⟩
  rw [hTape, List.append_cancel_left_eq]
  -- What is left is compared with the tape of a direct run.
  unfold stale
  rw [hCount]
  rcases hLeft with
    ⟨rfl, hDirect⟩ | ⟨hRetry, failure, failed, hFailed, hLeft⟩
  · rw [hEmpty, List.drop_nil] at hBytes ⊢
    split
    next hRetry =>
      have hSame :
          (inMemory codec { options with algorithm := .direct }
            path disk).tape.bytes = told.bytes :=
        toTape_of_sink
          ((direct_sink hReady (hDirect hRetry)).trans hTold)
      rw [hSame, hBytes, List.append_nil, ← hLength,
        List.drop_length]
    next => rfl
  · rw [hRetry]
    have hSame :
        (inMemory codec { options with algorithm := .direct }
          path disk).tape.bytes = left.bytes :=
      toTape_of_sink
        ((direct_sink hReady hFailed).trans hLeft)
    dsimp only
    rw [hSame]

/- The disk is only read for it. -/
theorem ticks_inMemory
    (codec : Codec)
    (options : DecompressionOptions)
    (path : Path)
    (disk : Disk) :
    disk.Ticks (inMemory codec options path disk).disk := by
  rcases run_stream codec options
      (operation codec.mode (.file path) "stream")
      (.file path) { bytes := [] } 0 disk with
    ⟨hTicks, told, start, hSink, -⟩
  unfold inMemory
  rwa [toTape_eq hSink]

end Decompression

namespace Bundle

open Decompression

------------------------------------------------------------
-- Unpacking
------------------------------------------------------------

/-
  The result of unpacking is that of an extraction with the
  log of the decompression put in front.
-/
structure Unpacks
    (gunzip : Report)
    (x : Extracted)
    (u : Unpacked) : Prop where
  disk : u.disk = x.disk
  directory : u.result.directory = x.result.directory
  expected : u.result.expected = x.result.expected
  extracted : u.result.extracted = x.result.extracted
  failures : u.result.failures = x.result.failures
  verdict : u.result.report.verdict = x.result.report.verdict
  lines :
    u.result.report.lines =
      gunzip.lines ++ x.result.report.lines

theorem unpacks_withDecompression
    (archive : Path)
    (gunzip : Report)
    (x : Extracted) :
    Unpacks gunzip x
      { result := withDecompression archive gunzip x.result
        disk := x.disk } :=
  ⟨rfl, rfl, rfl, rfl, rfl, rfl, rfl⟩

section InMemory

variable {archive : Path} {codec : Codec}
variable {decompression : DecompressionOptions} {disk : Disk}

/- What memory holds in the end is extracted. -/
theorem unpack?_inMemory
    (hName : isGzipName archive = true)
    (hSuccess :
      (inMemory codec decompression archive
        disk).report.success = true)
    (fuel : Nat)
    (extraction : ExtractionOptions)
    (directory : Path) :
    unpack? fuel codec decompression extraction archive
        directory disk =
      (Extraction.ofTape? .blocking fuel extraction
        { bytes :=
            (inMemory codec decompression archive
              disk).tape.bytes }
        directory
        (inMemory codec decompression archive disk).disk).map
          (fun x =>
            { result :=
                withDecompression archive
                  (inMemory codec decompression archive
                    disk).report x.result
              disk := x.disk }) := by
  unfold unpack?
  rw [if_pos hName]
  unfold inMemory at hSuccess ⊢
  dsimp only
  rw [hSuccess, if_pos rfl]

end InMemory

/-
  What unpacking a compressed archive comes to, for every
  archive, codec, disk and options.  The archive is
  decompressed in memory, which does not change the disk.  If
  that fails, the report of the decompression is all there
  is.  Otherwise what memory holds is extracted: the output
  and behind it what a direct attempt left, which is nothing
  unless that attempt failed after writing more than the
  output has.
-/
theorem unpacks_output_and_stale
    {archive : Path}
    (hName : isGzipName archive = true)
    (fuel : Nat)
    (codec : Codec)
    (decompression : DecompressionOptions)
    (extraction : ExtractionOptions)
    (directory : Path)
    (disk : Disk) :
    disk.Ticks
        (inMemory codec decompression archive disk).disk ∧
      ((inMemory codec decompression archive
            disk).report.success = false →
        unpack? fuel codec decompression extraction archive
            directory disk =
          some
            { result :=
                { directory := directory
                  expected := 0
                  extracted := []
                  failures := []
                  report :=
                    (inMemory codec decompression archive
                      disk).report }
              disk :=
                (inMemory codec decompression archive
                  disk).disk }) ∧
      ((inMemory codec decompression archive
            disk).report.success = true →
        ∃ output,
          output.length =
              (inMemory codec decompression archive
                disk).bytesWritten ∧
            (inMemory codec decompression archive
                disk).tape.bytes =
              output ++
                stale codec decompression archive disk ∧
            Option.Rel
              (Unpacks
                (inMemory codec decompression archive
                  disk).report)
              (Extraction.ofTape? .blocking fuel extraction
                { bytes :=
                    output ++
                      stale codec decompression archive disk }
                directory
                (inMemory codec decompression archive
                  disk).disk)
              (unpack? fuel codec decompression extraction
                archive directory disk)) := by
  refine ⟨ticks_inMemory codec decompression archive disk,
    ?_, ?_⟩
  · intro hFails
    unfold unpack?
    rw [if_pos hName]
    unfold inMemory at hFails
    dsimp only
    rw [hFails, if_neg Bool.false_ne_true]
    rfl
  · intro hSuccess
    rcases inMemory_leaves hSuccess with
      ⟨output, hLength, hBytes⟩
    refine ⟨output, hLength, hBytes, ?_⟩
    rw [← hBytes, unpack?_inMemory hName hSuccess]
    cases Extraction.ofTape? .blocking fuel extraction
        { bytes :=
            (inMemory codec decompression archive
              disk).tape.bytes }
        directory
        (inMemory codec decompression archive disk).disk with
    | none => exact .none
    | some x =>
        exact .some (unpacks_withDecompression archive _ x)

/-
  A member with a field behind its header, two bytes of data
  and a checksum that does not match.  Without checks the
  field is taken for a payload, which has one byte of data.
-/
def spoiltMember : Bytes :=
  [0x1F, 0x8B, 0x08, 0x04, 0, 0, 0, 0, 0, 0xFF] ++
    (0x0B :: Bytes.zeros 12) ++
    [0x01, 0x02, 0x00, 0xFD, 0xFF, 0x50, 0x51] ++
    [0, 0, 0, 0, 2, 0, 0, 0]

def spoiltArchive : Disk where
  entries := [(["a.tgz"], .file spoiltMember 0)]

set_option maxRecDepth 100000 in
/- Two bytes are extracted although one was decompressed. -/
theorem spoiltArchive_unpacks :
    isGzipName ⟨"/a.tgz"⟩ = true ∧
      (inMemory (.standard .blocking) {} ⟨"/a.tgz"⟩
        spoiltArchive).bytesWritten = 1 ∧
      Option.Rel
        (Unpacks
          (inMemory (.standard .blocking) {} ⟨"/a.tgz"⟩
            spoiltArchive).report)
        (Extraction.ofTape? .blocking 9 {}
          { bytes := [0x50, 0x51] } ⟨"/out"⟩
          (inMemory (.standard .blocking) {} ⟨"/a.tgz"⟩
            spoiltArchive).disk)
        (unpack? 9 (.standard .blocking) {} {} ⟨"/a.tgz"⟩
          ⟨"/out"⟩ spoiltArchive) := by
  have hName : isGzipName ⟨"/a.tgz"⟩ = true := by
    decide +kernel
  have hSuccess :
      (inMemory (.standard .blocking) {} ⟨"/a.tgz"⟩
        spoiltArchive).report.success = true := by
    decide +kernel
  have hCount :
      (inMemory (.standard .blocking) {} ⟨"/a.tgz"⟩
        spoiltArchive).bytesWritten = 1 := by
    decide +kernel
  have hTape :
      (inMemory (.standard .blocking) {} ⟨"/a.tgz"⟩
        spoiltArchive).tape.bytes = [0x50, 0x51] := by
    decide +kernel
  rcases (unpacks_output_and_stale hName 9
      (.standard .blocking) {} {} ⟨"/out"⟩
      spoiltArchive).2.2 hSuccess with
    ⟨output, -, hBytes, hUnpacks⟩
  rw [← hBytes, hTape] at hUnpacks
  exact ⟨hName, hCount, hUnpacks⟩

end Bundle

end ArchiveRescue
