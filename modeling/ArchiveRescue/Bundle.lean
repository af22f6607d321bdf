import ArchiveRescue.Decompression
import ArchiveRescue.Extraction

/-
  This file defines what is done with whole bundles of files:
  packing files into an archive, unpacking an archive that
  may be compressed, and looking at the framing of a file.

  Key definitions include:
    * `isGzipName`
    * `Bundle.packWith`
    * `Bundle.pack`
    * `Bundle.unpack?`
    * `Bundle.inspect`
-/

namespace ArchiveRescue

/-
  Whether the last name of a path announces gzip data, in any
  mixture of ASCII cases.
-/
def isGzipName (p : Path) : Bool :=
  let name := ((p.fileName?).getD "").toList.map Char.toLower
  ".gz".toList.isSuffixOf name ||
    ".tgz".toList.isSuffixOf name

namespace Bundle

------------------------------------------------------------
-- Packing
------------------------------------------------------------

/- The result of packing, the disk and the lines logged. -/
structure Packed where
  outcome : Outcome Nat
  disk : Disk
  lines : List Line

/- The files that were read and the lines logged so far. -/
structure Gathered where
  disk : Disk
  entries : List Ustar.Entry := []
  lines : List Line := []

/- The entry of a file, named by its last name only. -/
def entryOf
    (disk : Disk)
    (path : Path)
    (data : Bytes) : Ustar.Entry :=
  let entry := Ustar.Entry.file (path.fileName?.getD "") data
  let seconds := ((disk.modified? path).getD 0).toNat
  { entry with
    header :=
      { entry.header with mtime := UInt64.ofNat seconds } }

/- Read one file.  A file that cannot be read is skipped. -/
def gather
    (g : Gathered)
    (path : Path) : Gathered :=
  match g.disk.contents path with
  | (.error fault, tried) =>
      { g with
        disk := tried
        lines := g.lines ++
          [⟨.warning, "skipping " ++ Failure.quoted path.text ++
            ": " ++ fault.text, none⟩] }
  | (.ok data, read) =>
      { g with
        disk := read
        entries := g.entries ++ [entryOf read path data] }

/- Write a file in one go. -/
def writeFile
    (path : Path)
    (data : Bytes) : Stage Disk Unit :=
  Stage.ofStep (fun disk =>
    match disk.createFile path with
    | (.error fault, tried) =>
        (.error (cannot "write" path fault), tried)
    | (.ok place, made) =>
        if data.isEmpty then (.ok (), made)
        else
          let (result, written) :=
            made.perform (.append place data)
          (result.mapError (cannot "write" path), written))

/-
  Pack files into an archive, which is compressed by the
  encoder when its name says so, and count the entries.
-/
def packWith
    (encode : Bytes → Bytes)
    (archive : Path)
    (files : List Path)
    (disk : Disk) : Packed :=
  let g := files.foldl gather { disk := disk }
  let plain := Ustar.archive g.entries
  let bytes :=
    if isGzipName archive then encode plain else plain
  let writing : Stage Disk Path := do
    let full ← resolveOutput archive
    writeFile full bytes
    pure full
  match writing.perform g.disk with
  | (.error failure, tried) => ⟨.error failure, tried, g.lines⟩
  | (.ok full, written) =>
      let count := g.entries.length
      let line : Line :=
        ⟨.info,
          "created tar archive " ++ Failure.quoted full.text ++
            " with " ++ toString count ++ " entries", none⟩
      ⟨.ok count, written, g.lines ++ [line]⟩

/- Pack files with the encoder of this library. -/
def pack
    (archive : Path)
    (files : List Path)
    (disk : Disk) : Packed :=
  packWith Gzip.gzip archive files disk

------------------------------------------------------------
-- Unpacking
------------------------------------------------------------

/- The result of unpacking and the disk. -/
structure Unpacked where
  result : Extraction
  disk : Disk

/- Add what decompression told to an extraction. -/
def withDecompression
    (archive : Path)
    (gunzip : Report)
    (x : Extraction) : Extraction :=
  let noted :=
    x.report.note (fun s =>
      { s with
        inputPath := some archive
        inputIsStream := false
        header := gunzip.snapshot.header
        footer := gunzip.snapshot.footer })
  { x with report := noted.prepend gunzip.lines }

/-
  Unpack an archive.  Compressed archives are decompressed in
  memory first.  The fuel bounds the walk.
-/
def unpack?
    (fuel : Nat)
    (codec : Codec)
    (decompression : DecompressionOptions)
    (extraction : ExtractionOptions)
    (archive : Path)
    (directory : Path)
    (disk : Disk) : Option Unpacked :=
  if isGzipName archive then
    let gunzip :=
      Decompression.toTape codec decompression
        (.file archive) { bytes := [] } disk
    if gunzip.report.success then
      (Extraction.ofTape? .blocking fuel extraction
        { bytes := gunzip.tape.bytes } directory
        gunzip.disk).map (fun x =>
          { result :=
              withDecompression archive gunzip.report x.result
            disk := x.disk })
    else
      some
        { result :=
            Extraction.unavailable gunzip.report directory
          disk := gunzip.disk }
  else
    (Extraction.ofFile? .blocking fuel extraction archive
      directory disk).map (fun x => ⟨x.result, x.disk⟩)

------------------------------------------------------------
-- Inspecting
------------------------------------------------------------

/- The framing of a file. -/
def inspect (path : Path) : Stage Disk Gzip.Framing :=
  Stage.ofStep (fun disk =>
    let looking : Stage Inlet Gzip.Framing := do
      Source.verify
      Source.framing
    let (outcome, (_, looked)) :=
      looking.perform (.file path, disk)
    (outcome, looked))

end Bundle

end ArchiveRescue
