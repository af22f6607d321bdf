import Mathlib
import ArchiveRescue.Proofs.Readiness

/-
  Decompressions of the same data agree, from a file or a
  tape, to a file or a tape.  Where nothing is refused, the
  verdict, the framing that is noted and the output depend on
  the data and the algorithm alone.

  Key definitions include:
    * `Decompression.decompressed`
    * `Decompression.Account`
    * `Decompression.account`
    * `Decompression.expected`

  Main statements:
    * `Decompression.snapshot_run`
    * `Decompression.account_eq`
    * `Decompression.topologies_agree`
-/

namespace ArchiveRescue

open Stage

------------------------------------------------------------
-- Snapshots
------------------------------------------------------------

namespace Report

theorem snapshot_fail
    (r : Report)
    (failure : Failure) :
    (r.fail failure).snapshot = r.snapshot := by
  unfold fail
  dsimp only
  split <;> rfl

theorem snapshot_succeed (r : Report) :
    r.succeed.snapshot = r.snapshot := by
  unfold succeed
  split <;> rfl

end Report

namespace Decompression

open Bench

/- No algorithm changes what has been noted. -/
theorem snapshot_upheld :
    Bench.Upheld
      (fun b c => c.report.snapshot = b.report.snapshot) where
  refl _ := rfl
  trans hFirst hSecond := hSecond.trans hFirst
  source _ _ := rfl
  sink _ _ := rfl
  telling _ _ _ hSnapshot := hSnapshot

/- Neither does settling. -/
theorem snapshot_settle
    (options : DecompressionOptions)
    (outcome : Outcome Nat)
    (b : Bench) :
    (settle options outcome b).report.snapshot =
      b.report.snapshot := by
  unfold settle
  cases outcome with
  | ok n => exact Report.snapshot_succeed _
  | error failure =>
      have hFail := b.report.snapshot_fail failure
      dsimp only
      split
      · have hDiscard :=
          snapshot_upheld.sink .discard
            (b.telling (·.fail failure))
        split
        next hDone =>
          rw [hDone] at hDiscard
          exact hDiscard.trans hFail
        next later final hLater =>
          rw [hLater] at hDiscard
          exact
            ((final.report.snapshot_fail later).trans
              hDiscard).trans hFail
      · exact hFail

section Runs

variable {codec : Codec} {options : DecompressionOptions}
variable {operation : String} {source : Source}
variable {sink : Sink} {disk : Disk}

/-
  A run notes the framing that its attempt has noted, and
  which output it has used.
-/
theorem snapshot_run
    {outcome : Outcome Nat}
    {tried : Bench}
    (hAttempt :
      (attempt codec options).perform
          (start options operation source sink disk) =
        (outcome, tried)) :
    let final := run codec options operation source sink disk
    final.report.snapshot.header =
        tried.report.snapshot.header ∧
      final.report.snapshot.footer =
        tried.report.snapshot.footer := by
  dsimp only
  rw [run_of_attempt hAttempt,
    ← snapshot_settle options outcome tried]
  cases (settle options outcome tried).sink with
  | file path => exact ⟨rfl, rfl⟩
  | stream tape begun => exact ⟨rfl, rfl⟩

end Runs

------------------------------------------------------------
-- Accounts
------------------------------------------------------------

/-
  What the data decompresses to, unless its framing is not
  that of a member.
-/
def decompressed
    (codec : Codec)
    (which : Algorithm)
    (whole : Bytes) : Outcome Bytes :=
  match inspected (Gzip.Framing.ofBytes whole) with
  | .error failure => .error failure
  | .ok _ => produced codec whole which

/-
  What is told of a decompression: how it has ended, what
  framing was found, and the output of a success.
-/
structure Account where
  verdict : Verdict
  header : Option String
  footer : Option String
  output : Option Bytes

/- The report of a decompression. -/
def reportOn
    (codec : Codec)
    (options : DecompressionOptions)
    (source : Source)
    (target : Target)
    (disk : Disk) : Report :=
  match target with
  | .file path =>
      (toFile codec options source path disk).report
  | .tape tape =>
      (toTape codec options source tape disk).report

/-
  The account of a decompression.  Its output is the whole
  file at the output path, or as many bytes as are counted
  from where the tape stood.
-/
def account
    (codec : Codec)
    (options : DecompressionOptions)
    (source : Source)
    (target : Target)
    (disk : Disk) : Account :=
  let report := reportOn codec options source target disk
  { verdict := report.verdict
    header := report.snapshot.header
    footer := report.snapshot.footer
    output :=
      if report.success then
        (ending codec options source target disk).output
      else none }

/- The account that the data alone leads to. -/
def expected
    (codec : Codec)
    (which : Algorithm)
    (whole : Bytes) : Account :=
  let found := Gzip.Framing.ofBytes whole
  let outcome := decompressed codec which whole
  { verdict := verdictOn (outcome.map List.length)
    header := (noted found {}).header
    footer := (noted found {}).footer
    output := outcome.toOption }

/- There is never more output than a decoder delivers. -/
theorem produced_fits
    {codec : Codec}
    {whole output : Bytes}
    {which : Algorithm}
    (hProduced : produced codec whole which = .ok output) :
    output.length ≤ most codec whole := by
  have hMade :
      ∀ {origin delivery},
        made codec origin delivery = .ok output →
          output.length = delivery.bytes.length := by
    intro origin delivery hMade
    unfold made at hMade
    split at hMade
    · cases hMade
    · split at hMade
      · cases hMade
      · cases hMade
        rfl
  unfold most
  cases which with
  | direct =>
      rw [hMade hProduced]
      exact Nat.le_max_left _ _
  | withoutCrc =>
      rw [hMade hProduced]
      exact Nat.le_max_right _ _
  | withRetry =>
      unfold produced at hProduced
      dsimp only at hProduced
      split at hProduced
      next hDirect =>
        cases hProduced
        rw [hMade hDirect]
        exact Nat.le_max_left _ _
      next =>
        cases hPlain :
            made codec withoutCrcName
              (codec.inflate (payload whole)) with
        | error failure =>
            rw [hPlain] at hProduced
            cases hProduced
        | ok other =>
            rw [hPlain] at hProduced
            cases hProduced
            rw [hMade hPlain]
            exact Nat.le_max_right _ _

section Accounts

variable {codec : Codec} {options : DecompressionOptions}
variable {source : Source} {target : Target} {disk : Disk}
variable {whole : Bytes}

/- What is told about the report is told about the run. -/
theorem reportOn_eq
    {tried : Bench}
    {outcome : Outcome Nat}
    (hAttempt :
      (attempt codec options).perform
          (begun codec options source target disk) =
        (outcome, tried)) :
    (reportOn codec options source target disk).verdict =
        (run codec options
          (operation codec.mode source target.name) source
          target.sink disk).report.verdict ∧
      (reportOn codec options source target
          disk).snapshot.header =
        tried.report.snapshot.header ∧
      (reportOn codec options source target
          disk).snapshot.footer =
        tried.report.snapshot.footer := by
  have hRun := snapshot_run hAttempt
  cases target with
  | file path => exact ⟨rfl, hRun⟩
  | tape tape =>
      rcases run_stream codec options
          (operation codec.mode source "stream") source tape
          0 disk with
        ⟨-, told, from', hSink, -⟩
      unfold reportOn
      dsimp only
      rw [toTape_eq hSink]
      exact ⟨rfl, hRun⟩

/- The account of a decompression that was not prepared. -/
theorem account_unprepared
    {tried : Bench}
    {failure : Failure}
    (hFails :
      preparation.perform
          (begun codec options source target disk) =
        (.error failure, tried)) :
    account codec options source target disk =
      { verdict := .failed failure
        header := tried.report.snapshot.header
        footer := tried.report.snapshot.footer
        output := none } := by
  have hAttempt := attempt_of_unprepared codec options hFails
  have hPrepares :=
    prepares_preparation
      (begun codec options source target disk)
  rw [hFails] at hPrepares
  have hVerdict :=
    verdict_settle options hPrepares.verdict failure
  rcases reportOn_eq hAttempt with ⟨hSame, hHead, hFoot⟩
  rw [run_of_attempt hAttempt] at hSame
  have hFailed :
      (reportOn codec options source target disk).verdict =
        .failed failure :=
    hSame.trans hVerdict
  unfold account
  dsimp only
  rw [hHead, hFoot, hFailed]
  unfold Report.success
  rw [hFailed]
  rfl

/- The account of one whose algorithm was tried. -/
theorem account_tried
    {ready tried : Bench}
    {outcome : Outcome Nat}
    (hReady :
      preparation.perform
          (begun codec options source target disk) =
        (.ok (), ready))
    (hTried :
      (algorithm codec options.algorithm).perform ready =
        (outcome, tried)) :
    account codec options source target disk =
      { verdict := verdictOn outcome
        header := ready.report.snapshot.header
        footer := ready.report.snapshot.footer
        output :=
          if outcome.isOk then
            Outlet.output true (tried.sink, tried.disk)
          else none } := by
  have hKept :=
    keeps_algorithm snapshot_upheld codec options.algorithm
      ready
  rw [hTried] at hKept
  rcases reportOn_eq
      ((attempt_of_prepared hReady).trans hTried) with
    ⟨hSame, hHead, hFoot⟩
  have hDone := hSame.trans (run_of_tried hReady hTried).1
  unfold account
  dsimp only
  rw [hHead, hFoot, hKept, hDone,
    ending_of_tried hReady hTried]
  unfold Report.success
  rw [hDone]
  cases outcome with
  | ok n => rfl
  | error failure => rfl

/- Both ends are described before the framing is found. -/
theorem noted_begun
    (codec : Codec)
    (options : DecompressionOptions)
    (source : Source)
    (target : Target)
    (disk : Disk)
    (found : Outcome Gzip.Framing) :
    (noted found (begun codec options source target
        disk).report.snapshot).header =
        (noted found {}).header ∧
      (noted found (begun codec options source target
          disk).report.snapshot).footer =
        (noted found {}).footer := by
  cases found with
  | ok framing => exact ⟨rfl, rfl⟩
  | error failure =>
      cases source <;> cases target <;> exact ⟨rfl, rfl⟩

/-
  Whatever the topology of a decompression, its account is
  the one that the data leads to.
-/
theorem account_eq
    (codec : Codec)
    (options : DecompressionOptions)
    (hOffers : source.Offers disk whole)
    (hRange : source.InRange)
    (hTakes : target.Takes source disk (most codec whole))
    (hPermits : disk.trouble.Permits)
    (hOpens : source.Opens disk) :
    account codec options source target disk =
      expected codec options.algorithm whole := by
  rcases prepares_ready codec options hOffers hRange hTakes
      hPermits hOpens with
    ⟨ready, hReady, hSnapshot, hStart⟩
  rcases noted_begun codec options source target disk
      (Gzip.Framing.ofBytes whole) with
    ⟨hHeader, hFooter⟩
  rw [← hSnapshot] at hHeader hFooter
  unfold expected decompressed
  rcases hInspected :
      inspected (Gzip.Framing.ofBytes whole) with
    failure | _
  · rw [hInspected] at hReady
    rw [account_unprepared hReady, hHeader, hFooter]
    rfl
  · rw [hInspected] at hReady
    rcases hStart hInspected with ⟨hStart, hFresh⟩
    rcases algorithm_made codec options.algorithm hStart
        hFresh (Nat.le_refl _) with
      ⟨tried, hTried, hLeft⟩
    rw [account_tried hReady hTried, hHeader, hFooter]
    rcases hProduced :
        produced codec whole options.algorithm with
      failure | output
    · rfl
    · rw [hProduced] at hLeft
      have hBears :
          Outlet.Bears (most codec whole) target.held output
            (tried.sink, tried.disk) :=
        hLeft
      have hOutput :=
        hBears.output (produced_fits hProduced)
      exact
        congrArg
          (Account.mk .succeeded
            (noted (Gzip.Framing.ofBytes whole) {}).header
            (noted (Gzip.Framing.ofBytes whole) {}).footer)
          hOutput

/-
  The four topologies agree.  A file and a tape that stands
  in front of the same data, behind whatever else, are read;
  a file that can be created apart from the input and a tape
  that stands anywhere are written to.  Each account is the
  one that the data and the algorithm lead to, so that the
  verdict, the framing and the output of a success are the
  same, and nothing depends on what is in front of the data.
-/
theorem topologies_agree
    (codec : Codec)
    (options : DecompressionOptions)
    {input out full : Path}
    {made : Disk}
    {place : Location}
    {front data : Bytes}
    {modified : Int}
    {reads writes : Tape}
    (hPermits : disk.trouble.Permits)
    (hOpens : disk.trouble.Opens)
    (hShows : disk.look input = .ok (.file data modified))
    (hSound : reads.Sound)
    (hBytes : reads.bytes = front ++ data)
    (hHere : reads.position = front.length)
    (hShort : (front ++ data).length < 2 ^ 63)
    (hResolves :
      (resolveOutput out).perform disk = (.ok full, made))
    (hAdmits : made.Admits full place)
    (hApart : disk.locate input ≠ .ok place)
    (hServes : writes.Serves)
    (hRoom :
      writes.position + most codec data <
        writes.medium.bound) :
    account codec options (.file input) (.file out) disk =
        expected codec options.algorithm data ∧
      account codec options (.file input) (.tape writes)
          disk =
        expected codec options.algorithm data ∧
      account codec options (.ofTape reads) (.file out)
          disk =
        expected codec options.algorithm data ∧
      account codec options (.ofTape reads) (.tape writes)
          disk =
        expected codec options.algorithm data := by
  have hLength :
      front.length + data.length < 0x8000000000000000 := by
    rw [List.length_append] at hShort
    exact hShort
  have hBound := reads.medium.le_bound
  have hFile : Source.Offers disk (.file input) data :=
    .file hShows (by omega)
  have hFirst : (Source.file input).InRange := nofun
  have hTape : Source.Offers disk (.ofTape reads) data := by
    have hAll :
        Source.Offers disk (.ofTape reads)
          (reads.bytes.drop reads.position) := by
      refine .tape hSound ?_
      rw [hBytes, List.length_append]
      omega
    rw [hBytes, hHere, List.drop_left] at hAll
    exact hAll
  have hSecond : (Source.ofTape reads).InRange := by
    rintro tape ⟨⟩
    rw [hHere]
    omega
  have hCreated :
      ∀ source,
        (∀ path, source = .file path →
          disk.locate path ≠ .ok place) →
        Target.Takes source disk (most codec data)
          (.file out) :=
    fun source hOther => .file hResolves hAdmits hOther
  have hWritten :
      ∀ source,
        Target.Takes source disk (most codec data)
          (.tape writes) :=
    fun source => .tape hServes hRoom
  have hOut :=
    hCreated (.file input) (by rintro path ⟨⟩; exact hApart)
  have hOpened := fun source =>
    Source.opens_of_trouble source hOpens
  exact
    ⟨account_eq codec options hFile hFirst hOut hPermits
        (hOpened _),
      account_eq codec options hFile hFirst (hWritten _)
        hPermits (hOpened _),
      account_eq codec options hTape hSecond
        (hCreated _ nofun) hPermits (hOpened _),
      account_eq codec options hTape hSecond (hWritten _)
        hPermits (hOpened _)⟩

end Accounts

/- A member in a file, and the same behind two other bytes. -/
def filedMember : Disk where
  entries := [(["in"], .file (Gzip.gzip [0x41]) 0)]

def tapedMember : Tape where
  bytes := [7, 7] ++ Gzip.gzip [0x41]
  position := 2

/- A tape that stands behind its end. -/
def shortTape : Tape where
  bytes := [9]
  position := 3

set_option maxRecDepth 100000 in
/- All four deliver the byte in the member. -/
theorem filedMember_agrees :
    let told := account (.standard .blocking) {}
    (expected (.standard .blocking) .withRetry
        (Gzip.gzip [0x41])).output = some [0x41] ∧
      told (.file ⟨"/in"⟩) (.file ⟨"/a/out"⟩) filedMember =
        expected (.standard .blocking) .withRetry
          (Gzip.gzip [0x41]) ∧
      told (.file ⟨"/in"⟩) (.tape shortTape) filedMember =
        expected (.standard .blocking) .withRetry
          (Gzip.gzip [0x41]) ∧
      told (.ofTape tapedMember) (.file ⟨"/a/out"⟩)
          filedMember =
        expected (.standard .blocking) .withRetry
          (Gzip.gzip [0x41]) ∧
      told (.ofTape tapedMember) (.tape shortTape)
          filedMember =
        expected (.standard .blocking) .withRetry
          (Gzip.gzip [0x41]) := by
  have hResolves :
      ((resolveOutput ⟨"/a/out"⟩).perform filedMember).1 =
        .ok ⟨"/a/out"⟩ := by
    decide +kernel
  have hLeads :
      ((resolveOutput ⟨"/a/out"⟩).perform
          filedMember).2.locate ⟨"/a/out"⟩ =
        .ok ["a", "out"] := by
    decide +kernel
  have hFree :
      ((resolveOutput ⟨"/a/out"⟩).perform
          filedMember).2.holdsDirectory ["a", "out"] =
        false := by
    decide +kernel
  have hShows :
      filedMember.look ⟨"/in"⟩ =
        .ok (.file (Gzip.gzip [0x41]) 0) := by
    decide +kernel
  have hBytes :
      tapedMember.bytes = [7, 7] ++ Gzip.gzip [0x41] :=
    rfl
  refine ⟨by decide +kernel, ?_⟩
  exact
    topologies_agree (.standard .blocking) {}
      (fun _ _ => rfl)
      (fun _ _ => ⟨.plain, rfl, Script.plain_isCalm⟩) hShows
      ⟨Script.plain_isCalm, List.nil_prefix⟩ hBytes rfl
      (by decide +kernel) (Prod.ext hResolves rfl)
      ⟨hLeads, hFree, by decide⟩ (by decide +kernel)
      (Tape.serves_of_isCalm Script.plain_isCalm)
      (by decide +kernel)

end Decompression

end ArchiveRescue
