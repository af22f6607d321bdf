import Mathlib
import ArchiveRescue.Proofs.Bookkeeping
import ArchiveRescue.Proofs.OpenFile
import ArchiveRescue.Proofs.Recovery
import ArchiveRescue.Proofs.Source
import ArchiveRescue.Proofs.Wholeness

/-
  Each file of an archive is extracted as a whole or not at
  all.  What a copy has stored and what it holds back are the
  bytes that came from the tape, so that a file that is kept
  has just the bytes behind its header.  One that fails is
  removed, or the log says why it could not be removed.

  Key definitions include:
    * `Trouble.Honest`
    * `Disk.HasFile`
    * `Walk.Tracks`
    * `Walk.Steady`
    * `Walk.Tells`

  Main statements:
    * `Walk.copyUpTo_ok`
    * `Walk.writeFile_ok`
    * `Walk.writeFile_error`
    * `Walk.Steady.after`
    * `Walk.file_whole_or_gone`
    * `Extraction.whole_or_gone_of_openFile`
-/

namespace ArchiveRescue

open Ustar

/-
  A file that is to be removed is never said to be missing
  while it is there.
-/
def Trouble.Honest (trouble : Trouble) : Prop :=
  ∀ turn place,
    trouble.refuses turn (.remove place) ≠ some .missing

------------------------------------------------------------
-- Files That Are Written
------------------------------------------------------------

/- The file at a place holds these bytes. -/
def Disk.HasFile
    (d : Disk)
    (place : Location)
    (data : Bytes) : Prop :=
  ∃ modified, d.node? place = some (.file data modified)

namespace Walk

section Writing

variable {w v : Walk} {place : Location}
variable {data pending : Bytes}

/- What was held back stands at the end when it is written. -/
theorem hasFile_flush
    (hFile : w.disk.HasFile place data)
    (hFlush : w.flush place pending = (.ok (), v)) :
    v.disk.HasFile place (data ++ pending) := by
  rcases hFile with ⟨modified, hNode⟩
  unfold flush at hFlush
  split at hFlush
  next hNone =>
    cases hFlush
    rw [List.isEmpty_iff.mp hNone, List.append_nil]
    exact ⟨modified, hNode⟩
  next =>
    rcases hAppend :
        w.disk.perform (.append place pending) with
      ⟨_ | done, disk⟩
    · rw [hAppend] at hFlush
      cases hFlush
    · rw [hAppend] at hFlush
      cases hFlush
      exact ⟨modified, Disk.node?_of_append hNode hAppend⟩

/- What was read stands behind it or is held back. -/
theorem hasFile_store
    {got held : Bytes}
    (hFile : w.disk.HasFile place data)
    (hStore : w.store place pending got = (.ok held, v)) :
    ∃ done, v.disk.HasFile place done ∧
      done ++ held = data ++ pending ++ got := by
  unfold store at hStore
  split at hStore
  next =>
    cases hStore
    exact ⟨data, hFile, (List.append_assoc _ _ _).symm⟩
  next =>
    split at hStore
    next => cases hStore
    next hFlush =>
      cases hStore
      exact ⟨_, hasFile_flush hFile hFlush, rfl⟩

/- Nothing is held back from a file that is closed well. -/
theorem hasFile_close
    {target : Path}
    (hWriting : Writing target place pending.length w)
    (hFile : w.disk.HasFile place data)
    (hClose : w.close place pending = (.ok (), v)) :
    Writing target place 0 v ∧
      v.disk.HasFile place (data ++ pending) := by
  unfold close at hClose
  split at hClose
  next => cases hClose
  next hFlush =>
    cases hClose
    have hDone :=
      @Writing.flush target place 0 w pending _ hWriting hFlush
    exact ⟨hDone.1, hasFile_flush hFile hFlush⟩

/-
  What a copy that goes well has written: what was there and
  held back, and behind it as much of what came from the tape
  as the cursor has counted, which is no more than is
  declared.
-/
theorem copyUpTo_ok
    {target : Path}
    {fuel : Nat}
    {c read : Cursor}
    (hFuel : w.tape.spare < fuel)
    (hWriting : Writing target place pending.length w)
    (hFile : w.disk.HasFile place data)
    (hCopy :
      copyUpTo place fuel w c pending = (read, .ok (), v)) :
    ∃ more,
      more <+: w.tape.coming ∧
        more.length ≤ c.remaining ∧
        read = c.advance more.length ∧
        Writing target place 0 v ∧
        v.disk.HasFile place (data ++ pending ++ more) := by
  induction fuel generalizing w c pending data with
  | zero => omega
  | succ fuel ih =>
      unfold copyUpTo at hCopy
      split at hCopy
      next =>
        rcases Prod.mk.inj hCopy with ⟨rfl, hClose⟩
        rcases hasFile_close hWriting hFile hClose with
          ⟨hDone, hWhole⟩
        refine
          ⟨[], List.nil_prefix, Nat.zero_le _, rfl, hDone, ?_⟩
        rw [List.append_nil]
        exact hWhole
      next =>
        have hLater := hWriting.ofRead c.nextChunk
        have hChunk :=
          (w.tape.took_readPatiently c.nextChunk).2
        rcases hReply : w.tape.readPatiently c.nextChunk with
          ⟨fault | got, tape⟩
        · rw [hReply] at hCopy
          cases hCopy
        · rw [hReply] at hCopy hLater hChunk
          dsimp only [Tape.taken] at hCopy hLater hChunk
          have hComing := Tape.coming_readPatiently hReply
          have hSpare := Tape.spare_readPatiently hReply
          generalize hRead :
            ({ w with tape := tape } : Walk) = u at hCopy hLater
          have hBefore : u.disk.HasFile place data := by
            rwa [← hRead]
          have hTape : u.tape = tape := by rw [← hRead]
          split at hCopy
          next hEnd =>
            rw [List.isEmpty_iff.mp hEnd] at hLater
            rcases Prod.mk.inj hCopy with ⟨rfl, hClose⟩
            rcases hasFile_close hLater hBefore hClose with
              ⟨hDone, hWhole⟩
            refine
              ⟨[], List.nil_prefix, Nat.zero_le _, rfl, hDone,
                ?_⟩
            rw [List.append_nil]
            exact hWhole
          next hSome =>
            have hMore : got.length ≠ 0 := by
              simpa using hSome
            split at hCopy
            next => cases hCopy
            next held stored hStore =>
              rcases hLater.store hStore with
                ⟨hNext, hKept⟩
              rcases hasFile_store hBefore hStore with
                ⟨done, hStored, hBytes⟩
              rw [hTape] at hKept
              have hLess : stored.tape.spare < fuel := by
                rw [← Tape.length_coming, hKept,
                  Tape.length_coming]
                omega
              rcases ih hLess hNext hStored hCopy with
                ⟨more, hPrefix, hFits, rfl, hDone, hWhole⟩
              refine ⟨got ++ more, ?_, ?_, ?_, hDone, ?_⟩
              · rw [← hComing, ← hKept]
                exact
                  (List.prefix_append_right_inj got).mpr hPrefix
              · rw [Cursor.remaining_advance] at hFits
                unfold Cursor.nextChunk at hChunk
                rw [List.length_append]
                omega
              · rw [Cursor.advance_advance, List.length_append]
              · rw [hBytes] at hWhole
                rw [← List.append_assoc]
                exact hWhole

end Writing

------------------------------------------------------------
-- Files That Are Kept
------------------------------------------------------------

section Settling

variable {w v : Walk} {c read : Cursor}
variable {name : String} {target : Path}

/-
  A new file is empty, and making it adds nothing to what
  comes from the tape.  If it empties the file of the tape
  itself, what was fetched from there is left.
-/
theorem beginFile_ok
    {ready : Walk}
    {place : Location}
    (hUpToDate : w.disk.UpToDate w.tape)
    (hBegin : w.beginFile target = (.ok place, ready)) :
    ready.disk.HasFile place [] ∧
      ready.tape.coming <+: w.tape.coming := by
  have hParents :
      (w.makeParents target).2.tape = w.tape ∧
        (w.makeParents target).2.disk.UpToDate w.tape := by
    unfold makeParents
    split
    next => exact ⟨rfl, hUpToDate⟩
    next parent _ =>
      have hGrown :=
        hUpToDate.grown (w.disk.grows_makeDirectories parent)
      exact ⟨hGrown.refresh_eq, hGrown⟩
  unfold beginFile at hBegin
  split at hBegin
  next => cases hBegin
  next before hMade =>
    rw [hMade] at hParents
    rcases hParents with ⟨hTape, hBefore⟩
    rcases hCreate : before.disk.createFile target with
      ⟨fault | there, made⟩
    · rw [hCreate] at hBegin
      cases hBegin
    · rw [hCreate] at hBegin
      cases hBegin
      rcases Disk.node?_of_createFile hCreate with
        ⟨-, -, -, hNodes⟩
      have hEmpty := (hNodes place).trans (if_pos rfl)
      refine ⟨⟨0, hEmpty⟩, ?_⟩
      dsimp only [onDisk] at hTape ⊢
      rw [hTape]
      by_cases hHere : w.tape.medium = .file (some place)
      · rw [Disk.refresh_of_file hHere hEmpty]
        unfold Tape.coming
        dsimp only
        rw [List.drop_nil, List.append_nil]
        exact List.prefix_append _ _
      · have hSame :=
          hBefore.elsewhere hHere
            (fun there hThere =>
              (hNodes there).trans (if_neg hThere))
        rw [hSame.refresh_eq]

/- What a file that is kept has come to. -/
theorem settleFile_ok
    {copied : Outcome Unit}
    (hSettle :
      w.settleFile c name target copied = (.ok (), v)) :
    copied = .ok () ∧ c.remaining = 0 ∧
      w.ensureNotEmpty target = .ok () ∧
      v.disk = w.disk ∧ v.failures = w.failures ∧
      v.extracted = w.extracted ++ [target] := by
  unfold settleFile at hSettle
  dsimp only at hSettle
  split at hSettle
  next hKept =>
    cases hSettle
    cases copied with
    | error failure => cases hKept
    | ok done =>
        rcases hWhole : complete c with failure | whole
        · rw [hWhole] at hKept
          cases hKept
        · rw [hWhole] at hKept
          refine ⟨rfl, ?_, hKept, rfl, rfl, rfl⟩
          unfold complete at hWhole
          split at hWhole
          next => cases hWhole
          next hNone => exact Nat.eq_zero_of_not_pos hNone
  next => cases hSettle

/-
  A file that is extracted holds as many of the bytes that
  came from the tape as its header declares, and that is at
  least one.
-/
theorem writeFile_ok
    (hUpToDate : w.disk.UpToDate w.tape)
    (hStart : c.consumed = 0)
    (hWrite : w.writeFile c name = (read, .ok (), v)) :
    ∃ target,
      Ustar.target w.directory name w.options.sanitize =
          .ok target ∧
        v.extracted = w.extracted ++ [target] ∧
        v.failures = w.failures ∧
        0 < c.declared ∧
        c.declared ≤ w.tape.coming.length ∧
        v.disk.fileAt? target =
          some (w.tape.coming.take c.declared) := by
  unfold writeFile at hWrite
  split at hWrite
  next => cases hWrite
  next target hTarget =>
    refine ⟨target, hTarget, ?_⟩
    rcases hCopied : w.copy (c.withTarget target) target with
      ⟨later, copied, written⟩
    have hTries := (tries_copy hCopied).1
    rw [hCopied] at hWrite
    rcases Prod.mk.inj hWrite with ⟨-, hSettle⟩
    rcases settleFile_ok hSettle with
      ⟨rfl, hDone, hSome, hDisk, hFailures, hExtracted⟩
    unfold copy at hCopied
    rcases hBegin : w.beginFile target with
      ⟨failure | place, ready⟩
    · rw [hBegin] at hCopied
      cases hCopied
    · rw [hBegin] at hCopied
      dsimp only at hCopied
      have hEnough :
          ready.tape.spare <
            ready.tape.bytes.length +
              ready.tape.ahead.length + 1 := by
        unfold Tape.spare
        omega
      have hWriting :
          Writing target place ([] : Bytes).length ready :=
        writing_beginFile hTarget hBegin
      rcases beginFile_ok hUpToDate hBegin with
        ⟨hEmpty, hFewer⟩
      rcases copyUpTo_ok hEnough hWriting hEmpty hCopied with
        ⟨more, hComing, hFits, rfl, hLast, hHolds⟩
      have hRemaining :
          (c.withTarget target).remaining = c.declared := by
        change c.declared - c.consumed = c.declared
        rw [hStart, Nat.sub_zero]
      rw [Cursor.remaining_advance, hRemaining] at hDone
      rw [hRemaining] at hFits
      have hAll : more.length = c.declared := by omega
      have hPrefix := hComing.trans hFewer
      rcases hHolds with ⟨modified, hNode⟩
      rw [List.nil_append, List.nil_append] at hNode
      have hShows : written.disk.fileAt? target = some more :=
        Disk.fileAt?_eq hLast.aims.leads hNode hLast.plain
      have hLess : 0 < more.length := by
        rcases shows_of_ensureNotEmpty hLast.aims hSome with
          ⟨data, modified, hLook, hData⟩
        unfold Disk.fileAt? at hShows
        rw [hLook] at hShows
        cases hShows
        exact List.length_pos_iff.mpr hData
      refine
        ⟨hExtracted.trans (by rw [hTries.extracted]),
          hFailures.trans hTries.failures, by omega, ?_, ?_⟩
      · rw [← hAll]
        exact hPrefix.length_le
      · rw [hDisk, hShows, ← hAll]
        exact
          congrArg some (List.prefix_iff_eq_take.mp hPrefix)

end Settling

------------------------------------------------------------
-- Files That Are Removed
------------------------------------------------------------

/- What is told of a file that could not be removed. -/
def unremovedText
    (target : Path)
    (fault : Fault) : String :=
  "could not remove partial output " ++
    Failure.quoted target.text ++ ": " ++ fault.text

/- A line about a failure has been logged in between. -/
def Tells
    (w v : Walk)
    (text : String) : Prop :=
  ∃ added,
    v.report.lines = w.report.lines ++ added ∧
      ∃ l ∈ added, l.severity = .error ∧ l.message = text

/- More lines make no difference to that. -/
theorem Tells.within
    {u v w x : Walk}
    {text : String}
    (hTells : Tells v w text)
    (hBefore : u.report.lines <+: v.report.lines)
    (hAfter : w.report.lines <+: x.report.lines) :
    Tells u x text := by
  rcases hTells with ⟨added, hAdded, l, hMem, hLine⟩
  rcases hBefore with ⟨before, hBefore⟩
  rcases hAfter with ⟨after, hAfter⟩
  refine ⟨before ++ added ++ after, ?_, l, ?_, hLine⟩
  · rw [← hAfter, hAdded, ← hBefore]
    simp only [List.append_assoc]
  · exact
      List.mem_append_left _ (List.mem_append_right _ hMem)

/- Either no file is left at a target or the log says why. -/
def Clears
    (target : Path)
    (w v : Walk) : Prop :=
  v.disk.fileAt? target = none ∨
    ∃ fault, Tells w v (unremovedText target fault)

section Removing

variable {w v : Walk} {c read : Cursor} {name : String}

/- What is said to be missing is not there. -/
theorem fileAt?_of_missing
    {d e : Disk}
    {p : Path}
    (hHonest : d.trouble.Honest)
    (hRemove : d.removeFile p = (.error .missing, e)) :
    e.fileAt? p = none := by
  cases hShows : d.fileAt? p with
  | none =>
      have hSame := Disk.removeFile_none hShows
      rw [hRemove] at hSame
      dsimp only at hSame
      rwa [hSame]
  | some data =>
      rcases Disk.removeFile_shown hShows with
        ⟨place, -, -, -, -, hPerform⟩
      rw [hRemove] at hPerform
      unfold Disk.perform at hPerform
      dsimp only at hPerform
      split at hPerform
      next fault hRefused =>
        cases hPerform
        exact absurd hRefused (hHonest _ _)
      next => cases hPerform

/- So a file that failed is cleared away. -/
theorem clears_removePartial
    (hHonest : w.disk.trouble.Honest)
    (target : Path) :
    Clears target w (w.removePartial target) := by
  unfold removePartial
  rcases hRemove : w.disk.removeFile target with
    ⟨reply, disk⟩
  dsimp only
  split
  next => exact .inl (Disk.fileAt?_of_removed hRemove)
  next => exact .inl (fileAt?_of_missing hHonest hRemove)
  next fault _ =>
    exact
      .inr ⟨fault, _, rfl, _, List.mem_singleton_self _, rfl,
        rfl⟩

/- Talk only adds to the log. -/
theorem Chats.log_prefix (hChats : Chats w v) :
    w.report.lines <+: v.report.lines := by
  rcases hChats.lines with ⟨added, hLines, -⟩
  exact ⟨added, hLines.symm⟩

/-
  A file that fails leaves the lists as they are, and where it
  has a target, this is cleared.
-/
theorem writeFile_error
    {source : Failure}
    (hHonest : w.disk.trouble.Honest)
    (hWrite : w.writeFile c name = (read, .error source, v)) :
    v.extracted = w.extracted ∧ v.failures = w.failures ∧
      ∀ target,
        Ustar.target w.directory name w.options.sanitize =
            .ok target →
          Clears target w v := by
  unfold writeFile at hWrite
  split at hWrite
  next hNone =>
    cases hWrite
    refine ⟨rfl, rfl, fun target hTarget => ?_⟩
    rw [hNone] at hTarget
    cases hTarget
  next target hTarget =>
    have hChats := w.chats_copy (c.withTarget target) target
    rcases hCopied : w.copy (c.withTarget target) target with
      ⟨later, copied, written⟩
    have hTries := (tries_copy hCopied).1
    rw [hCopied] at hWrite hChats
    rcases Prod.mk.inj hWrite with ⟨-, hSettle⟩
    have hTrouble : written.disk.trouble.Honest := by
      rw [hTries.disk.settings.trouble]
      exact hHonest
    unfold settleFile at hSettle
    dsimp only at hSettle
    split at hSettle
    next => cases hSettle
    next =>
      cases hSettle
      have hRemoved := written.tries_removePartial target
      refine
        ⟨hRemoved.extracted.trans hTries.extracted,
          hRemoved.failures.trans hTries.failures, ?_⟩
      intro other hOther
      cases hTarget.symm.trans hOther
      rcases clears_removePartial hTrouble target with
        hNone | ⟨fault, hTells⟩
      · exact .inl hNone
      · exact
          .inr ⟨fault,
            hTells.within hChats.log_prefix List.prefix_rfl⟩

end Removing

------------------------------------------------------------
-- Tapes That Are Tracked
------------------------------------------------------------

/-
  Between the walks the tape goes on showing what is in its
  file, and a tape that is on no file of the disk goes on
  holding the same.
-/
structure Tracks (w v : Walk) : Prop where
  upToDate :
    w.disk.UpToDate w.tape → v.disk.UpToDate v.tape
  source :
    (∀ place, w.tape.medium ≠ .file (some place)) →
      w.tape.SameSource v.tape

section Tracking

variable {u v w : Walk}

theorem Tracks.refl (w : Walk) : Tracks w w :=
  ⟨id, fun _ => .refl w.tape⟩

theorem Tracks.trans
    (hFirst : Tracks u v)
    (hSecond : Tracks v w) :
    Tracks u w where
  upToDate hTape := hSecond.upToDate (hFirst.upToDate hTape)
  source hDetached := by
    have hSource := hFirst.source hDetached
    apply hSource.trans
    apply hSecond.source
    rw [hSource.medium]
    exact hDetached

/- Reading and moving the tape is tracked. -/
theorem Tracks.ofTape
    {tape : Tape}
    (hSource : w.tape.SameSource tape) :
    Tracks w { w with tape := tape } :=
  ⟨fun hTape => hTape.of_source hSource, fun _ => hSource⟩

/- So is every change of the disk, as it is seen at once. -/
theorem tracks_onDisk
    (w : Walk)
    (disk : Disk) :
    Tracks w (w.onDisk disk) where
  upToDate _ := disk.upToDate_refresh w.tape
  source hDetached := by
    unfold onDisk
    dsimp only
    rw [disk.refresh_detached hDetached]
    exact .refl w.tape

theorem tracks_copy
    (w : Walk)
    (c : Cursor)
    (target : Path) :
    Tracks w (w.copy c target).2.2 := by
  refine
    related_copy Tracks.refl Tracks.trans ?_ tracks_onDisk w
      c target
  intro u v n hLater
  have hTook := (u.tape.took_readPatiently n).1
  exact (Tracks.ofTape hTook.source).trans hLater

theorem tracks_settleFile
    (w : Walk)
    (c : Cursor)
    (name : String)
    (target : Path)
    (copied : Outcome Unit) :
    Tracks w (w.settleFile c name target copied).2 := by
  have hRemoved := w.tracks_onDisk (w.disk.removeFile target).2
  unfold settleFile
  dsimp only
  split
  · exact { Tracks.refl w with }
  · unfold removePartial
    dsimp only
    split
    · exact hRemoved
    · exact hRemoved
    · exact { hRemoved with }

/- So is the whole content of an entry. -/
theorem tracks_content
    (w : Walk)
    (c : Cursor)
    (header : Header) :
    Tracks w (w.content c header).2.2 := by
  have hFile :
      Tracks w
        ({ w with expected := w.expected + 1 }.writeFile c
          header.path).2.2 := by
    unfold writeFile
    split
    · exact { Tracks.refl w with }
    next target _ =>
      have hCopy :=
        tracks_copy { w with expected := w.expected + 1 }
          (c.withTarget target) target
      exact
        { hCopy.trans (tracks_settleFile _ _ _ target _) with }
  have hDirectory :
      Tracks w (w.makeDirectory header.path).2 := by
    unfold makeDirectory
    split
    · exact .refl w
    next target _ =>
      have hMade :=
        w.tracks_onDisk (w.disk.makeDirectories target).2
      split
      next hTried =>
        rw [hTried] at hMade
        exact hMade
      next hTried =>
        rw [hTried] at hMade
        exact { hMade with }
  unfold content
  split
  · exact hFile
  · exact hDirectory
  · exact { Tracks.refl w with }

/- The seek that leaves an entry puts the tape in step. -/
theorem tracks_skipped
    (w : Walk)
    (goal : Seek) :
    Tracks w (w.skipped (w.tape.seek goal)).1 ∧
      ((w.skipped (w.tape.seek goal)).2 = true →
        (w.skipped (w.tape.seek goal)).1.tape.InStep) := by
  have hMoved := Tracks.ofTape (w.tape.kept_seek goal).source
  rcases hSeek : w.tape.seek goal with
    ⟨fault | position, tape⟩
  · rw [hSeek] at hMoved
    exact ⟨{ hMoved with }, nofun⟩
  · rw [hSeek] at hMoved
    refine ⟨hMoved, fun _ => ?_⟩
    unfold Tape.seek at hSeek
    dsimp only at hSeek
    split at hSeek
    next => cases hSeek
    next =>
      split at hSeek
      next =>
        cases hSeek
        exact List.nil_prefix
      next => cases hSeek

theorem tracks_entry
    (w : Walk)
    (block : Block) :
    Tracks w (w.entry block).1 ∧
      ((w.entry block).2 = true →
        (w.entry block).1.tape.InStep) := by
  have hContent :=
    w.tracks_content
      { directory := w.directory, header? := some block }
      block.header
  unfold entry
  dsimp only
  rcases hDone :
      w.content
        { directory := w.directory, header? := some block }
        block.header with
    ⟨c, outcome, done⟩
  rw [hDone] at hContent
  cases outcome with
  | ok _ =>
      rcases done.tracks_skipped (.fromHere c.skip) with
        ⟨hSkipped, hStep⟩
      exact ⟨hContent.trans hSkipped, hStep⟩
  | error source =>
      have hNoted :
          Tracks w
            (done.entryFailed block.header.path source) :=
        { hContent with }
      rcases
          (done.entryFailed block.header.path
            source).tracks_skipped (.fromHere c.skip) with
        ⟨hSkipped, hStep⟩
      exact ⟨hNoted.trans hSkipped, hStep⟩

/- Looking for a header on is no more than moving. -/
theorem kept_realign
    (w : Walk)
    (block : Block) :
    (w.realign block).disk = w.disk ∧
      w.tape.Kept (w.realign block).tape := by
  unfold realign
  split
  next =>
    unfold giveUp
    split <;> exact ⟨rfl, .refl w.tape⟩
  next junk _ =>
    have hMoved :=
      w.tape.kept_seek (.fromHere (realignment junk))
    rcases hSeek :
        w.tape.seek (.fromHere (realignment junk)) with
      ⟨fault | position, tape⟩
    · rw [hSeek] at hMoved
      exact ⟨rfl, hMoved⟩
    · rw [hSeek] at hMoved
      exact ⟨rfl, hMoved⟩

theorem kept_readBlock (w : Walk) :
    w.readBlock.2.disk = w.disk ∧
      w.tape.Kept w.readBlock.2.tape := by
  have hRead := w.tape.kept_gather blockSize blockSize
  unfold readBlock Tape.readUpTo
  split
  next hReply =>
    rw [hReply] at hRead
    exact ⟨rfl, hRead⟩
  next hReply =>
    rw [hReply] at hRead
    exact ⟨rfl, hRead⟩

/- Such steps are tracked. -/
theorem Tracks.ofKept
    (hDisk : v.disk = w.disk)
    (hKept : w.tape.Kept v.tape) :
    Tracks w v where
  upToDate hTape := by
    rw [hDisk]
    exact hTape.of_source hKept.source
  source _ := hKept.source

end Tracking

------------------------------------------------------------
-- Steady Walks
------------------------------------------------------------

/-
  A walk whose tape shows what is in its file and has fetched
  nothing but what is there.  Whatever else goes wrong on its
  disk, no file is said to be missing that is there.
-/
structure Steady (w : Walk) : Prop where
  upToDate : w.disk.UpToDate w.tape
  inStep : w.tape.InStep
  honest : w.disk.trouble.Honest

/-
  A round that goes on keeps a walk steady.  The disk changes
  in an entry only, and what was fetched before that is
  dropped by the seek behind it.
-/
theorem Steady.round
    {w next : Walk}
    (hSteady : w.Steady)
    (hRound : w.round = (next, true)) :
    next.Steady ∧ Tracks w next := by
  have hHonest : next.disk.trouble.Honest := by
    have hSettings := w.counts_round.settings
    rw [hRound] at hSettings
    rw [hSettings.trouble]
    exact hSteady.honest
  have hMoved : Tracks w next ∧ next.tape.InStep := by
    unfold Walk.round at hRound
    have hKept := w.kept_readBlock
    rcases hRead : w.readBlock with ⟨fault | _ | block, read⟩
    · rw [hRead] at hRound
      cases hRound
    · rw [hRead] at hRound
      cases hRound
    · rw [hRead] at hRound hKept
      dsimp only at hRound hKept
      rcases hKept with ⟨hDisk, hTape⟩
      have hTracks := Tracks.ofKept hDisk hTape
      cases hSight : sight w.options block with
      | blank =>
          rw [hSight] at hRound
          cases hRound
          exact
            ⟨{ hTracks with }, hTape.inStep hSteady.inStep⟩
      | other =>
          rw [hSight] at hRound
          cases hRound
          rcases read.kept_realign block with ⟨hSame, hAgain⟩
          exact
            ⟨hTracks.trans (.ofKept hSame hAgain),
              hAgain.inStep (hTape.inStep hSteady.inStep)⟩
      | header =>
          rw [hSight] at hRound
          dsimp only at hRound
          have hEntry := read.tracks_entry block
          rw [hRound] at hEntry
          exact ⟨hTracks.trans hEntry.1, hEntry.2 rfl⟩
  rcases hMoved with ⟨hTracks, hStep⟩
  exact
    ⟨⟨hTracks.upToDate hSteady.upToDate, hStep, hHonest⟩,
      hTracks⟩

/- So do all rounds of a walk. -/
theorem Steady.after
    {rounds : Nat}
    {w v : Walk}
    (hSteady : w.Steady)
    (hAfter : w.after? rounds = some v) :
    v.Steady ∧ Tracks w v := by
  induction rounds generalizing w with
  | zero =>
      cases hAfter
      exact ⟨hSteady, .refl _⟩
  | succ rounds ih =>
      unfold after? at hAfter
      split at hAfter
      next next hRound =>
        rcases hSteady.round hRound with ⟨hNext, hFirst⟩
        rcases ih hNext hAfter with ⟨hLast, hRest⟩
        exact ⟨hLast, hFirst.trans hRest⟩
      next => cases hAfter

------------------------------------------------------------
-- Entries of Files
------------------------------------------------------------

/- The entry's target is extracted and holds the data. -/
def KeepsWhole
    (w next : Walk)
    (name : String)
    (data : Bytes) : Prop :=
  ∃ target,
    Ustar.target w.directory name w.options.sanitize =
        .ok target ∧
      next.extracted = w.extracted ++ [target] ∧
      next.failures = w.failures ∧
      next.disk.fileAt? target = some data

/- One failure is recorded, and its target is cleared. -/
def FailsClean
    (w next : Walk)
    (name : String) : Prop :=
  ∃ source,
    next.extracted = w.extracted ∧
      next.failures =
        w.failures ++ [.entryFailed name source] ∧
      ∀ target,
        Ustar.target w.directory name w.options.sanitize =
            .ok target →
          Clears target w next

section Entries

variable {w next : Walk} {block : Block}

/- Leaving an entry only adds to the log. -/
theorem skipped_still
    (w : Walk)
    (goal : Seek) :
    let left := (w.skipped (w.tape.seek goal)).1
    left.disk = w.disk ∧ left.extracted = w.extracted ∧
      left.failures = w.failures ∧
      w.report.lines <+: left.report.lines := by
  have hChats := w.chats_skipped (w.tape.seek goal)
  refine ⟨?_, hChats.extracted, hChats.failures,
    hChats.log_prefix⟩
  rcases w.tape.seek goal with ⟨fault | position, tape⟩
  · rfl
  · rfl

/- What becomes of the entry of a regular file. -/
theorem entry_whole_or_gone
    (hUpToDate : w.disk.UpToDate w.tape)
    (hHonest : w.disk.trouble.Honest)
    (hKind : block.header.kind = .file) :
    (1 ≤ block.header.size.toNat ∧
        block.header.size.toNat ≤ w.tape.coming.length ∧
        KeepsWhole w (w.entry block).1 block.header.path
          (w.tape.coming.take block.header.size.toNat)) ∨
      FailsClean w (w.entry block).1 block.header.path := by
  unfold entry content
  dsimp only
  rw [hKind]
  dsimp only
  rcases hWrite :
      Walk.writeFile { w with expected := w.expected + 1 }
        { directory := w.directory, header? := some block }
        block.header.path with
    ⟨c, source | _, done⟩
  · rcases writeFile_error
        (w := { w with expected := w.expected + 1 }) hHonest
        hWrite with
      ⟨hExtracted, hFailures, hClears⟩
    dsimp only
    generalize hNoted :
      done.entryFailed block.header.path source = noted
    rcases noted.skipped_still (.fromHere c.skip) with
      ⟨hDisk, hListed, hFailed, hLog⟩
    have hLines : done.report.lines <+: noted.report.lines := by
      rw [← hNoted]
      exact List.prefix_append _ _
    refine .inr ⟨source, ?_, ?_, ?_⟩
    · rw [hListed, ← hNoted]
      exact hExtracted
    · rw [hFailed, ← hNoted]
      change done.failures ++ _ = _
      rw [hFailures]
    · intro target hTarget
      rcases hClears target hTarget with
        hNone | ⟨fault, hTells⟩
      · left
        rw [hDisk, ← hNoted]
        exact hNone
      · exact
          .inr ⟨fault,
            hTells.within List.prefix_rfl (hLines.trans hLog)⟩
  · rcases writeFile_ok
        (w := { w with expected := w.expected + 1 }) hUpToDate
        rfl hWrite with
      ⟨target, hTarget, hExtracted, hFailures, hSome, hFits,
        hShows⟩
    rcases done.skipped_still (.fromHere c.skip) with
      ⟨hDisk, hListed, hFailed, -⟩
    dsimp only
    refine
      .inl ⟨hSome, hFits, target, hTarget,
        hListed.trans hExtracted, hFailed.trans hFailures, ?_⟩
    rw [hDisk]
    exact hShows

/-
  Where a steady walk finds the header of a regular file,
  this stands at the position of the tape, and what is kept
  are the bytes behind it.
-/
theorem Steady.round_whole_or_gone
    {read : Walk}
    (hSteady : w.Steady)
    (hRead : w.readBlock = (.ok (some block), read))
    (hSight : sight w.options block = .header)
    (hKind : block.header.kind = .file) :
    let position := w.tape.position
    let size := block.header.size.toNat
    let name := block.header.path
    block.bytes =
        Bytes.slice w.tape.bytes position blockSize ∧
      ((1 ≤ size ∧
          position + blockSize + size ≤
            w.tape.bytes.length ∧
          KeepsWhole w w.round.1 name
            (Bytes.slice w.tape.bytes (position + blockSize)
              size)) ∨
        FailsClean w w.round.1 name) := by
  intro position size name
  rcases readBlock_some hRead with ⟨tape, hTook, rfl⟩
  have hLength := block.length_bytes
  have hPrefix := hTook.handed hSteady.inStep
  have hBytes :
      block.bytes =
        Bytes.slice w.tape.bytes position blockSize := by
    rw [List.prefix_iff_eq_take, hLength] at hPrefix
    exact hPrefix
  have hComing :
      tape.coming =
        w.tape.bytes.drop (position + blockSize) := by
    rw [(hTook.inStep hSteady.inStep).coming_eq,
      hTook.source.bytes, hTook.position, hLength]
  have hEntry :=
    entry_whole_or_gone (w := { w with tape := tape })
      (hSteady.upToDate.of_source hTook.source) hSteady.honest
      hKind
  refine ⟨hBytes, ?_⟩
  rw [round_of_header hRead hSight]
  dsimp only at hEntry
  rw [hComing] at hEntry
  rcases hEntry with ⟨hSome, hFits, hKept⟩ | hFails
  · refine .inl ⟨hSome, ?_, hKept⟩
    have hThere := hPrefix.length_le
    rw [List.length_drop] at hFits hThere
    omega
  · exact .inr hFails

/-
  Each file entry is all or nothing.  After any rounds of a
  walk that starts out steady, let the next block be the
  header of a regular file.  It stands at the position of the
  tape, whose bytes are those of the start unless they are
  kept in a file of the disk.  Then the target is extracted
  and holds just the bytes behind the header, as many as it
  declares and at least one.  Or a failure is recorded,
  nothing is extracted, and no file is left at the target
  unless the log says why it could not be removed.
-/
theorem file_whole_or_gone
    {start w read : Walk}
    {rounds : Nat}
    {block : Block}
    (hSteady : start.Steady)
    (hAfter : start.after? rounds = some w)
    (hRead : w.readBlock = (.ok (some block), read))
    (hSight : sight w.options block = .header)
    (hKind : block.header.kind = .file) :
    let position := w.tape.position
    let size := block.header.size.toNat
    let name := block.header.path
    block.bytes =
        Bytes.slice w.tape.bytes position blockSize ∧
      ((∀ place, start.tape.medium ≠ .file (some place)) →
        w.tape.bytes = start.tape.bytes) ∧
      ((1 ≤ size ∧
          position + blockSize + size ≤
            w.tape.bytes.length ∧
          KeepsWhole w w.round.1 name
            (Bytes.slice w.tape.bytes (position + blockSize)
              size)) ∨
        FailsClean w w.round.1 name) := by
  intro position size name
  rcases hSteady.after hAfter with ⟨hNow, hTracks⟩
  rcases hNow.round_whole_or_gone hRead hSight hKind with
    ⟨hBytes, hEither⟩
  exact
    ⟨hBytes,
      fun hDetached => (hTracks.source hDetached).bytes,
      hEither⟩

end Entries

/- A walk to a file of two bytes. -/
def twoBytes : Walk where
  disk := {}
  tape :=
    { bytes := Ustar.archive [.file "a" [0x41, 0x42]] }
  directory := ⟨"/"⟩
  options := {}
  report := { operation := "extract" }

set_option maxRecDepth 100000 in
/- The file is extracted as a whole. -/
theorem twoBytes_whole :
    twoBytes.Steady ∧
      KeepsWhole twoBytes twoBytes.round.1 "a"
        [0x41, 0x42] := by
  have hSteady : twoBytes.Steady :=
    ⟨nofun, List.nil_prefix, nofun⟩
  have hFound :
      twoBytes.readBlock.1 =
        .ok (some
          (Entry.file "a" [0x41, 0x42]).header.toBlock) := by
    decide +kernel
  have hExtracted :
      twoBytes.round.1.extracted = [⟨"/a"⟩] := by
    decide +kernel
  have hName :
      (Entry.file "a"
          [0x41, 0x42]).header.toBlock.header.path =
        "a" := by
    decide +kernel
  have hData :
      Bytes.slice twoBytes.tape.bytes
          (twoBytes.tape.position + blockSize)
          (Entry.file "a"
            [0x41, 0x42]).header.toBlock.header.size.toNat =
        [0x41, 0x42] := by
    decide +kernel
  rcases
      @file_whole_or_gone _ _ _ 0 _ hSteady rfl
        (Prod.ext hFound rfl) (by decide +kernel)
        (by decide +kernel) with
    ⟨-, -, ⟨-, -, hKept⟩ | ⟨source, hNone, -⟩⟩
  · rw [hName, hData] at hKept
    exact ⟨hSteady, hKept⟩
  · rw [hExtracted] at hNone
    cases hNone

end Walk

------------------------------------------------------------
-- Steady Extractions
------------------------------------------------------------

/- A tape that has just been opened shows its file. -/
theorem Disk.upToDate_of_openFile
    {d opened : Disk}
    {p : Path}
    {tape : Tape}
    (hOpen : d.openFile p = (.ok tape, opened)) :
    d.UpToDate tape ∧ tape.InStep := by
  unfold openFile at hOpen
  split at hOpen
  next => cases hOpen
  next place _ =>
    split at hOpen
    next => cases hOpen
    next hDirectory =>
      cases hOpen
      refine ⟨?_, List.nil_prefix⟩
      intro there hMedium
      cases hMedium
      exact .inl hDirectory
    next data modified hFile =>
      split at hOpen
      next => cases hOpen
      next =>
        dsimp only at hOpen
        split at hOpen
        next => cases hOpen
        next =>
          cases hOpen
          refine ⟨?_, List.nil_prefix⟩
          intro there hMedium
          cases hMedium
          exact .inr ⟨modified, hFile⟩

namespace Extraction

/-
  The walk of an extraction starts out steady if the tape that
  is given shows its file.  The output directory that may have
  to be made does not matter.
-/
theorem steady_beginning
    (options : ExtractionOptions)
    (report : Report)
    {tape : Tape}
    (directory : Path)
    {disk : Disk}
    (hUpToDate : disk.UpToDate tape)
    (hStep : tape.InStep)
    (hHonest : disk.trouble.Honest) :
    (beginning options report tape directory disk).Steady := by
  have hStart :=
    trouble_beginning options report tape directory disk
  have hReady :=
    hUpToDate.grown (grows_prepare disk directory)
  unfold beginning at hStart ⊢
  rcases hPrepare : prepare disk directory with
    ⟨failure | found, ready⟩
  · rw [hPrepare] at hReady hStart
    exact ⟨hReady, hStep, hStart ▸ hHonest⟩
  · rw [hPrepare] at hReady hStart
    exact ⟨hReady, hStep, hStart ▸ hHonest⟩

/- So does that of an archive file that can be opened. -/
theorem steady_of_openFile
    (options : ExtractionOptions)
    (report : Report)
    {archive : Path}
    {tape : Tape}
    (directory : Path)
    {disk opened : Disk}
    (hOpen : disk.openFile archive = (.ok tape, opened))
    (hHonest : disk.trouble.Honest) :
    (beginning options report tape directory
      opened).Steady := by
  rcases Disk.upToDate_of_openFile hOpen with
    ⟨hUpToDate, hStep⟩
  have hTicks := disk.ticks_openFile archive
  rw [hOpen] at hTicks
  exact
    steady_beginning options report directory
      (hUpToDate.grown hTicks.grows) hStep
      (hTicks.settings.trouble ▸ hHonest)

/-
  So each file entry of an archive file is all or nothing,
  after any rounds of its extraction.
-/
theorem whole_or_gone_of_openFile
    {options : ExtractionOptions}
    {report : Report}
    {archive directory : Path}
    {tape : Tape}
    {disk opened : Disk}
    {rounds : Nat}
    {w read : Walk}
    {block : Block}
    (hOpen : disk.openFile archive = (.ok tape, opened))
    (hHonest : disk.trouble.Honest)
    (hAfter :
      (beginning options report tape directory
          opened).after? rounds =
        some w)
    (hRead : w.readBlock = (.ok (some block), read))
    (hSight : Walk.sight w.options block = .header)
    (hKind : block.header.kind = .file) :
    let start := w.tape.position + blockSize
    let size := block.header.size.toNat
    (1 ≤ size ∧
        start + size ≤ w.tape.bytes.length ∧
        Walk.KeepsWhole w w.round.1 block.header.path
          (Bytes.slice w.tape.bytes start size)) ∨
      Walk.FailsClean w w.round.1 block.header.path := by
  have hSteady :=
    steady_of_openFile options report directory hOpen hHonest
  have hNow := (hSteady.after hAfter).1
  exact (hNow.round_whole_or_gone hRead hSight hKind).2

end Extraction

end ArchiveRescue
