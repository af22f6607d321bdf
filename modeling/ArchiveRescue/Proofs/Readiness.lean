import Mathlib
import ArchiveRescue.Proofs.OutletContents

/-
  What a decompression needs to get as far as its algorithm.
  The framing of an input is read where it stands, and it is
  that of the data.  If the input can be read and the output
  can be written, both ends are verified.

  Key definitions include:
    * `Source.InReach`
    * `Source.Offers`
    * `Source.InRange`
    * `Decompression.Target.Takes`
    * `Decompression.inspected`
    * `Decompression.noted`

  Main statements:
    * `Gzip.Framing.ofTape_eq`
    * `Source.Holds.framing_eq`
    * `Decompression.preparation_eq`
    * `Decompression.prepares_ready`
-/

namespace ArchiveRescue

open Stage

------------------------------------------------------------
-- Framing
------------------------------------------------------------

namespace Gzip.Framing

variable {t : Tape}

/- A call that goes well is made. -/
theorem perform_call
    {α : Type}
    {call : Tape → Except Fault α × Tape}
    {u : Tape}
    {value : α}
    (hCall : call t = (.ok value, u)) :
    (between.call call).perform t = (.ok value, u) := by
  unfold between.call
  rw [perform_ofStep, hCall]
  rfl

/- The two parts are found at both ends of the data. -/
theorem between_eq
    (start : Nat)
    (hSound : t.Sound)
    (hShort : t.bytes.length < t.medium.bound) :
    ∃ u,
      (between start t.bytes.length).perform t =
          (ofBytes (t.bytes.drop start), u) ∧
        u.Sound ∧ t.SameSource u := by
  unfold between ofBytes
  dsimp only
  rw [List.length_drop]
  by_cases hLong :
      t.bytes.length - start < framingLength
  · rw [if_pos hLong, if_pos hLong]
    exact ⟨t, rfl, hSound, .refl t⟩
  · rw [if_neg hLong, if_neg hLong]
    have hEnough : 18 ≤ t.bytes.length - start :=
      Nat.le_of_not_lt hLong
    have hFirst : t.goalOf (.fromStart start) = start := rfl
    rcases hSound.goes hFirst (by omega) with
      ⟨a, hSeek, hA, hSameA, hAt⟩
    rcases hA.readExactly_eq (n := 10)
        (by rw [hAt, hSameA.bytes]; omega) with
      ⟨b, hHeader, hB, hSameB⟩
    have hSecond :
        b.goalOf (.fromStart (t.bytes.length - 8)) =
          ((t.bytes.length - 8 : Nat) : Int) :=
      rfl
    have hBound : b.medium.bound = t.medium.bound := by
      rw [hSameB.medium, hSameA.medium]
    rcases hB.goes hSecond (by rw [hBound]; omega) with
      ⟨c, hBack, hC, hSameC, hAlso⟩
    have hBytes : c.bytes = t.bytes := by
      rw [hSameC.bytes, hSameB.bytes, hSameA.bytes]
    rcases hC.readExactly_eq (n := 8)
        (by rw [hAlso, hBytes]; omega) with
      ⟨d, hFooter, hD, hSameD⟩
    have hLast :
        Bytes.slice t.bytes (t.bytes.length - 8) 8 =
          (t.bytes.drop start).drop
            (t.bytes.length - start - 8) := by
      have hWhere :
          start + (t.bytes.length - start - 8) =
            t.bytes.length - 8 := by
        omega
      rw [List.drop_drop, hWhere]
      refine List.take_of_length_le ?_
      rw [List.length_drop]
      omega
    refine
      ⟨d, ?_, hD,
        ((hSameA.trans hSameB).trans hSameC).trans hSameD⟩
    rw [perform_bind_ok (perform_call hSeek),
      perform_bind_ok (perform_call hHeader),
      perform_bind_ok (perform_call hBack),
      perform_bind_ok (perform_call hFooter), hAt, hAlso,
      hBytes, hSameA.bytes, hLast]
    rfl

/- The framing on a tape is that of what stands on it. -/
theorem ofTape_eq
    (hSound : t.Sound)
    (hShort : t.bytes.length < t.medium.bound)
    (hHere : t.position < t.medium.bound) :
    (ofTape.perform t).1 =
      ofBytes (t.bytes.drop t.position) := by
  have hTell : t.goalOf (.fromHere 0) = t.position :=
    Int.add_zero _
  rcases hSound.goes hTell hHere with
    ⟨a, hTold, hA, hSameA, -⟩
  have hEnd : a.goalOf (.fromEnd 0) = t.bytes.length := by
    rw [← hSameA.bytes]
    exact Int.add_zero _
  rcases hA.goes hEnd (by rw [hSameA.medium]; exact hShort)
    with ⟨b, hSeek, hB, hSameB, -⟩
  have hBoth := hSameA.trans hSameB
  have hStill : b.bytes.length < b.medium.bound := by
    rw [hBoth.bytes, hBoth.medium]
    exact hShort
  rcases between_eq t.position hB hStill with
    ⟨c, hRead, hC, hSameC⟩
  rw [hBoth.bytes] at hRead
  have hStart :
      c.goalOf (.fromStart t.position) = t.position :=
    rfl
  have hBound : t.position < c.medium.bound := by
    rw [hSameC.medium, hBoth.medium]
    exact hHere
  rcases hC.goes hStart hBound with ⟨d, hBack, -⟩
  unfold ofTape
  rw [perform_ofStep]
  unfold Tape.tell
  rw [hTold]
  dsimp only
  rw [hSeek]
  dsimp only
  rw [hRead]
  dsimp only
  rw [hBack]

end Gzip.Framing

------------------------------------------------------------
-- Inputs
------------------------------------------------------------

namespace Source

/- All positions in the input can be gone to. -/
def InReach
    (data : Bytes) : Source → Prop
| .file _ => data.length < 0x8000000000000000
| .stream tape _ none =>
    tape.bytes.length < tape.medium.bound
| .stream _ _ (some _) => True

/- The framing that is read is that of the data. -/
theorem Holds.framing_eq
    {source : Source}
    {disk : Disk}
    {data : Bytes}
    (hHolds : source.Holds disk data)
    (hOpens : source.Opens disk)
    (hReach : source.InReach data) :
    (framing.perform (source, disk)).1 =
      Gzip.Framing.ofBytes data := by
  unfold framing
  rw [perform_get_bind]
  cases hHolds with
  | file hLeads hNode hPlain =>
      rcases Disk.openFile_eq (hOpens _ _ rfl hLeads) hLeads
          hNode hPlain with
        ⟨tape, opened, hOpen, hSound, hBytes, hPosition, -⟩
      have hBound := tape.medium.le_bound
      have hLength : data.length < 0x8000000000000000 :=
        hReach
      have hFraming :=
        Gzip.Framing.ofTape_eq hSound
          (by rw [hBytes]; omega) (by rw [hPosition]; omega)
      dsimp only
      rw [perform_bind_ok (perform_openFile hOpen),
        perform_mk, hFraming, hBytes, hPosition,
        List.drop_zero]
  | @stream tape start _ hSound hBound =>
      rcases rewind_ok none disk hSound hBound with
        ⟨told, hRewind, hTold, hSource, hPosition⟩
      have hLength :
          tape.bytes.length < tape.medium.bound :=
        hReach
      have hFraming :=
        Gzip.Framing.ofTape_eq hTold
          (by rw [hSource.bytes, hSource.medium]; exact hLength)
          (by rw [hPosition, hSource.medium]; exact hBound)
      rw [hSource.bytes, hPosition] at hFraming
      dsimp only
      rw [perform_bind_ok hRewind, perform_ofStep]
      exact hFraming
  | copy tape start data disk => rfl

/-
  A source as it is given, and the data that it can be read
  for: a file, or a tape that stands where the data begins.
-/
inductive Offers (disk : Disk) : Source → Bytes → Prop where
  | file
      {path : Path}
      {data : Bytes}
      {modified : Int}
      (shows : disk.look path = .ok (.file data modified))
      (short : data.length < 0x8000000000000000) :
      Offers disk (.file path) data
  | tape
      {tape : Tape}
      (sound : tape.Sound)
      (short : tape.bytes.length < tape.medium.bound) :
      Offers disk (.ofTape tape)
        (tape.bytes.drop tape.position)

/- A tape stands where it can be sought. -/
def InRange (source : Source) : Prop :=
  ∀ tape, source = .ofTape tape →
    tape.position < tape.medium.bound

/- A tape with data in front of it does. -/
theorem Offers.inRange
    {disk : Disk}
    {source : Source}
    {data : Bytes}
    (hOffers : Offers disk source data)
    (hSome : data ≠ []) :
    source.InRange := by
  intro tape hTape
  cases hOffers with
  | file hShows hShort => cases hTape
  | tape hSound hShort =>
      cases hTape
      by_contra hBeyond
      exact hSome (List.drop_eq_nil_of_le (by omega))

/- Such a source is verified. -/
theorem Offers.verify_ok
    {disk : Disk}
    {source : Source}
    {data : Bytes}
    (hOffers : Offers disk source data)
    (hOpens : source.Opens disk)
    (hRange : source.InRange) :
    ∃ verified ticked,
      verify.perform (source, disk) =
          (.ok (), (verified, ticked)) ∧
        verified.Holds ticked data ∧
        verified.Opens ticked ∧
        verified.InReach data := by
  unfold verify
  rw [perform_get_bind]
  cases hOffers with
  | @file path data modified hShows hShort =>
      rcases Disk.leads_of_look hShows with
        ⟨place, hLeads, hNode, hPlain⟩
      rcases Disk.openFile_eq (hOpens _ _ rfl hLeads) hLeads
          hNode hPlain with
        ⟨tape, opened, hOpen, -⟩
      have hTicks := disk.ticks_openFile path
      rw [hOpen] at hTicks
      have hHolds := Holds.file hLeads hNode hPlain
      dsimp only
      rw [perform_get_bind]
      dsimp only
      rw [hShows]
      dsimp only
      rw [perform_bind_ok (perform_openFile hOpen)]
      exact
        ⟨_, opened, rfl, hHolds.grown hTicks.grows,
          hHolds.opens_grown hOpens hTicks.grows, hShort⟩
  | @tape tape hSound hShort =>
      have hHere := hRange tape rfl
      have hTell : tape.goalOf (.fromHere 0) = tape.position :=
        Int.add_zero _
      rcases hSound.goes hTell hHere with
        ⟨told, hTold, hStill, hSource, -⟩
      dsimp only [ofTape]
      unfold Tape.tell
      rw [hTold]
      refine
        ⟨.stream told tape.position none, disk, rfl, ?_,
          nofun, ?_⟩
      · rw [← hSource.bytes]
        refine .stream disk hStill ?_
        rw [hSource.medium]
        exact hHere
      · unfold InReach
        dsimp only
        rw [hSource.bytes, hSource.medium]
        exact hShort

end Source

------------------------------------------------------------
-- Outputs
------------------------------------------------------------

namespace Disk

/- Reading has left the disk alike. -/
theorem Ticks.alike
    {d e : Disk}
    (hTicks : d.Ticks e)
    (hSteady : d.trouble.Steady) :
    d.Alike e :=
  ⟨hTicks.entries, hTicks.settings.workDir,
    hTicks.settings.trouble, .inr hSteady⟩

/- Output paths are resolved alike on disks that are alike. -/
theorem Alike.resolveOutput
    {d e : Disk}
    (hAlike : d.Alike e)
    (path : Path) :
    AlikeAfter ((ArchiveRescue.resolveOutput path).perform d)
      ((ArchiveRescue.resolveOutput path).perform e) := by
  unfold ArchiveRescue.resolveOutput
  rw [perform_ofStep, perform_ofStep, hAlike.absolute_eq]
  cases d.absolute path with
  | error fault => exact ⟨rfl, hAlike⟩
  | ok full =>
      dsimp only
      cases full.parent? with
      | none => exact ⟨rfl, hAlike⟩
      | some parent =>
          have hMake := hAlike.makeDirectories parent
          dsimp only
          rcases hFirst : d.makeDirectories parent with
            ⟨made, tried⟩
          rcases hOther : e.makeDirectories parent with
            ⟨made', tried'⟩
          rw [hFirst, hOther] at hMake
          rcases hMake with ⟨rfl, hTried⟩
          cases made' with
          | ok _ => exact ⟨rfl, hTried⟩
          | error fault => exact ⟨rfl, hTried⟩

/- A place for a file is one on disks that are alike. -/
theorem Alike.admits
    {d e : Disk}
    {p : Path}
    {place : Location}
    (hAlike : d.Alike e)
    (hAdmits : d.Admits p place) :
    e.Admits p place where
  leads := (hAlike.locate_eq p).trans hAdmits.leads
  free := (hAlike.holdsDirectory_eq place).trans hAdmits.free
  plain := hAdmits.plain

/- No directory is shown there. -/
theorem Admits.not_isDirectory
    {d : Disk}
    {p : Path}
    {place : Location}
    (hAdmits : d.Admits p place) :
    d.isDirectory p = false := by
  have hFree := hAdmits.free
  unfold holdsDirectory at hFree
  unfold isDirectory look
  rw [hAdmits.leads]
  dsimp only
  cases hNode : d.node? place with
  | none => rfl
  | some node =>
      cases node with
      | directory =>
          rw [hNode] at hFree
          cases hFree
      | file data modified =>
          dsimp only
          rw [hAdmits.plain]
          rfl

end Disk

namespace Decompression

open Bench

namespace Target

/- What is on the tape that is written to. -/
def held : Target → Bytes
| .file _ => []
| .tape t => t.bytes

/-
  So many bytes can be written to the target: a file can be
  created at the output path, which is not that of the input,
  or the tape refuses nothing and is not at its end.
-/
inductive Takes
    (source : Source)
    (disk : Disk)
    (size : Nat) : Target → Prop where
  | file
      {path full : Path}
      {made : Disk}
      {place : Location}
      (resolves :
        (resolveOutput path).perform disk = (.ok full, made))
      (admits : made.Admits full place)
      (apart :
        ∀ input, source = .file input →
          disk.locate input ≠ .ok place) :
      Takes source disk size (.file path)
  | tape
      {tape : Tape}
      (serves : tape.Serves)
      (room : tape.position + size < tape.medium.bound) :
      Takes source disk size (.tape tape)

end Target

section Prepared

variable {codec : Codec} {options : DecompressionOptions}
variable {source : Source} {target : Target} {disk : Disk}
variable {whole : Bytes} {size : Nat}

/- The output of a file is verified as it was resolved. -/
theorem verify_file
    {path full : Path}
    {ticked made : Disk}
    {place : Location}
    (hResolves :
      (resolveOutput path).perform disk = (.ok full, made))
    (hAdmits : made.Admits full place)
    (hPermits : disk.trouble.Permits)
    (hTicks : disk.Ticks ticked) :
    ∃ later,
      Sink.verify.perform (.file path, ticked) =
          (.ok (), (.file full, later)) ∧
        later.Admits full place := by
  have hResolved :=
    (hTicks.alike hPermits.steady).resolveOutput path
  rcases hLater : (resolveOutput path).perform ticked with
    ⟨outcome, later⟩
  rw [hResolves, hLater] at hResolved
  rcases hResolved with ⟨hSame, hAlike⟩
  cases hSame
  have hStill := hAlike.admits hAdmits
  have hStage :
      (Sink.onDisk (resolveOutput path)).perform
          (.file path, ticked) =
        (.ok full, (.file path, later)) := by
    unfold Sink.onDisk
    rw [perform_focus, hLater]
  refine ⟨later, ?_, hStill⟩
  unfold Sink.verify
  rw [perform_get_bind]
  dsimp only
  rw [perform_bind_ok hStage, perform_modify_bind,
    perform_get_bind]
  dsimp only
  rw [hStill.not_isDirectory]
  rfl

/-
  A target that takes bytes is verified, and is then not the
  input.
-/
theorem Target.Takes.verify_ok
    {ticked : Disk}
    (hTakes : target.Takes source disk size)
    (hPermits : disk.trouble.Permits)
    (hTicks : disk.Ticks ticked) :
    ∃ sink later,
      Sink.verify.perform (target.sink, ticked) =
          (.ok (), (sink, later)) ∧
        Outlet.Fresh size target.held (sink, later) ∧
        ∀ out, sink = .file out →
          ∃ place,
            later.locate out = .ok place ∧
              ∀ input, source = .file input →
                disk.locate input ≠ .ok place := by
  cases hTakes with
  | @file path full made place hResolves hAdmits hApart =>
      rcases verify_file hResolves hAdmits hPermits hTicks with
        ⟨later, hVerify, hStill⟩
      have hGrows :=
        Sink.stays_verify (.file path, ticked)
      rw [hVerify] at hGrows
      have hTrouble : later.trouble = disk.trouble :=
        hGrows.disk.settings.trouble.trans
          hTicks.settings.trouble
      refine
        ⟨.file full, later, hVerify,
          .file hStill (hTrouble ▸ hPermits), ?_⟩
      rintro out ⟨⟩
      exact ⟨place, hStill.leads, hApart⟩
  | @tape tape hServes hRoom =>
      rcases hServes.tell_eq with ⟨told, hTell, hWrote⟩
      rw [if_pos (by omega)] at hTell
      refine
        ⟨.stream told tape.position, ticked, ?_, ?_, nofun⟩
      · dsimp only [Target.sink, Sink.ofTape]
        unfold Sink.verify
        rw [perform_get_bind]
        dsimp only
        rw [hTell]
        rfl
      · refine
          .stream (.stream ticked
            (hServes.follows hWrote.follows) rfl hWrote ?_
            fun _ _ => rfl)
        rw [hWrote.follows.medium]
        exact hRoom

/- The framing of an input must have the signature. -/
def inspected : Outcome Gzip.Framing → Outcome Unit
| .error failure => .error failure
| .ok framing =>
    if framing.hasSignature then .ok ()
    else .error (.noSignature framing.headerText)

/- A framing that was found is noted. -/
def noted
    (found : Outcome Gzip.Framing)
    (s : Snapshot) : Snapshot :=
  match found with
  | .error _ => s
  | .ok framing =>
      { s with
        header := some framing.headerText
        footer := some framing.footerText }

/-
  Where both ends are verified, preparing ends as looking for
  the framing does.
-/
theorem preparation_eq
    {b : Bench}
    {verified framed : Source}
    {sink : Sink}
    {ticked later final : Disk}
    {found : Outcome Gzip.Framing}
    (hSource :
      Source.verify.perform (b.source, b.disk) =
        (.ok (), (verified, ticked)))
    (hSink :
      Sink.verify.perform (b.sink, ticked) =
        (.ok (), (sink, later)))
    (hFraming :
      Source.framing.perform (verified, later) =
        (found, (framed, final))) :
    ∃ ready,
      preparation.perform b = (inspected found, ready) ∧
        ready.source = framed ∧
        ready.sink = sink ∧
        ready.disk = final ∧
        ready.report.snapshot =
          noted found b.report.snapshot := by
  have hVerified :
      verify.perform b =
        (.ok (),
          { disk := later
            source := verified
            sink := sink
            report :=
              b.report.debug "input and output verified" }) := by
    unfold verify debug
    rw [perform_bind_ok (perform_onSource hSource),
      perform_bind_ok
        (perform_onSink
          (b := { b with source := verified, disk := ticked })
          hSink)]
    rfl
  have hInspected :=
    perform_onSource
      (b :=
        { disk := later
          source := verified
          sink := sink
          report :=
            b.report.debug "input and output verified" })
      hFraming
  unfold preparation inspect debug
  rw [perform_bind_ok hVerified]
  cases found with
  | error failure =>
      rw [perform_bind_error hInspected]
      exact ⟨_, rfl, rfl, rfl, rfl, rfl⟩
  | ok framing =>
      rw [perform_bind_ok hInspected, perform_modify_bind,
        perform_modify_bind, perform_modify_bind]
      unfold inspected
      dsimp only
      cases framing.hasSignature with
      | true => exact ⟨_, rfl, rfl, rfl, rfl, rfl⟩
      | false => exact ⟨_, rfl, rfl, rfl, rfl, rfl⟩

/- A file that is prepared is the input, in its place. -/
theorem input_of_prepared
    {ready : Bench}
    {path : Path}
    {place : Location}
    (hOffers : source.Offers disk whole)
    (hPrepares :
      Bench.Prepares (begun codec options source target disk)
        ready)
    (hSource : ready.source = .file path)
    (hLeads : ready.disk.locate path = .ok place) :
    source = .file path ∧ disk.locate path = .ok place := by
  cases hOffers with
  | @file input data modified hShows hShort =>
      cases (hPrepares.source.file input rfl).symm.trans
        hSource
      rcases Disk.leads_of_look hShows with
        ⟨first, hFirst, -⟩
      cases (hPrepares.outlet.disk.locate hFirst).symm.trans
        hLeads
      exact ⟨rfl, hFirst⟩
  | @tape tape hSound hShort =>
      rcases hPrepares.source.stream tape 0 none rfl with
        ⟨told, begun, copied?, hTold⟩
      cases hTold.symm.trans hSource

/- An output that is not the input before is not it later. -/
theorem apart_of_prepared
    {ready : Bench}
    (hOffers : source.Offers disk whole)
    (hPrepares :
      Bench.Prepares (begun codec options source target disk)
        ready)
    (hOut :
      ∀ out, ready.sink = .file out →
        ∃ place,
          ready.disk.locate out = .ok place ∧
            ∀ input, source = .file input →
              disk.locate input ≠ .ok place) :
    ready.Apart := by
  intro path out place hSource hFile hLeads hAlso
  rcases hOut out hFile with ⟨there, hThere, hApart⟩
  cases hThere.symm.trans hAlso
  rcases input_of_prepared hOffers hPrepares hSource hLeads
    with ⟨hInput, hFirst⟩
  exact hApart path hInput hFirst

/- An input that could be opened before can be so later. -/
theorem opens_of_prepared
    {ready : Bench}
    (hOffers : source.Offers disk whole)
    (hPrepares :
      Bench.Prepares (begun codec options source target disk)
        ready)
    (hOpens : source.Opens disk) :
    ready.source.Opens ready.disk := by
  intro path place hSource hLeads
  rcases input_of_prepared hOffers hPrepares hSource hLeads
    with ⟨hInput, hFirst⟩
  rw [hPrepares.outlet.disk.settings.trouble]
  exact hOpens path place hInput hFirst

/-
  Where the source offers its data and the target takes so
  many bytes, it depends on the framing of the data alone
  whether the algorithm is reached.  If it is, a retry can
  start.
-/
theorem prepares_ready
    (codec : Codec)
    (options : DecompressionOptions)
    (hOffers : source.Offers disk whole)
    (hRange : source.InRange)
    (hTakes : target.Takes source disk size)
    (hPermits : disk.trouble.Permits)
    (hOpens : source.Opens disk) :
    ∃ ready,
      preparation.perform
          (begun codec options source target disk) =
          (inspected (Gzip.Framing.ofBytes whole), ready) ∧
        ready.report.snapshot =
          noted (Gzip.Framing.ofBytes whole)
            (begun codec options source target
              disk).report.snapshot ∧
        (inspected (Gzip.Framing.ofBytes whole) = .ok () →
          Ready whole ready ∧
            Outlet.Fresh size target.held
              (ready.sink, ready.disk)) := by
  rcases hOffers.verify_ok hOpens hRange with
    ⟨verified, ticked, hVerify, hHolds, hOpened, hReach⟩
  have hTicks := Source.ticks_verify (source, disk)
  rw [hVerify] at hTicks
  rcases hTakes.verify_ok hPermits hTicks.disk with
    ⟨sink, later, hSink, hFresh, hOut⟩
  have hStays := Sink.stays_verify (target.sink, ticked)
  rw [hSink] at hStays
  have hTrouble : later.trouble = disk.trouble :=
    hStays.disk.settings.trouble.trans
      hTicks.disk.settings.trouble
  have hLater := hHolds.grown hStays.disk
  have hFraming :=
    hLater.framing_eq
      (hHolds.opens_grown hOpened hStays.disk) hReach
  rcases hFramed : Source.framing.perform (verified, later)
    with ⟨found, framed, final⟩
  have hLast := (Source.kept_framing (verified, later)).ticks
  rw [hFramed] at hFraming hLast
  dsimp only at hFraming
  subst hFraming
  rcases preparation_eq
      (b := begun codec options source target disk) hVerify
      hSink hFramed with
    ⟨ready, hReady, rfl, rfl, rfl, hSnapshot⟩
  refine ⟨ready, hReady, hSnapshot, fun hSigned => ?_⟩
  have hStill := hFresh.ticks hLast.disk
  have hSame : ready.disk.trouble = disk.trouble :=
    hLast.disk.settings.trouble.trans hTrouble
  have hPrepares :=
    prepares_preparation
      (begun codec options source target disk)
  rw [hReady] at hPrepares
  rcases hFound : Gzip.Framing.ofBytes whole with
    failure | framing
  · rw [hFound] at hSigned
    cases hSigned
  rw [hFound] at hFramed
  rcases hLater.framing_ok hFramed with ⟨hAgain, hLong⟩
  refine ⟨?_, hStill⟩
  exact
    { holds := hAgain
      long := hLong
      apart := by
        refine apart_of_prepared hOffers hPrepares ?_
        intro out hFile
        rcases hOut out hFile with ⟨place, hLeads, hApart⟩
        exact
          ⟨place, hLast.disk.grows.locate hLeads, hApart⟩
      begins := by
        intro out hFile
        rw [hFile] at hStill
        cases hStill with
        | file hAdmits _ => exact ⟨_, hAdmits⟩
      permits := hSame ▸ hPermits
      opens := opens_of_prepared hOffers hPrepares hOpens
      bound := by
        intro tape start hStream
        rw [hStream] at hStill
        cases hStill with
        | stream hBears =>
            cases hBears with
            | stream _ _ _ _ hRoom _ => omega }

/- Data with a signature and room for a framing is let by. -/
theorem inspected_signed
    (hLong : Gzip.framingLength ≤ whole.length)
    (hSigned : whole.take 2 = Gzip.signature) :
    inspected (Gzip.Framing.ofBytes whole) = .ok () := by
  have hHeader :
      (whole.take Gzip.headerLength).take 2 =
        Gzip.signature := by
    rw [List.take_take]
    exact hSigned
  unfold Gzip.Framing.ofBytes
  rw [if_neg (by omega)]
  exact if_pos (beq_iff_eq.mpr hHeader)

end Prepared

end Decompression

end ArchiveRescue
