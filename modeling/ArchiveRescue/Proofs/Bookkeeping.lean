import Mathlib
import ArchiveRescue.Proofs.Retention
import ArchiveRescue.Proofs.Verdict

/-
  The books that a walk keeps: how many files were announced,
  which were extracted, what failed, and the lines about it
  in the log.  A walk is taken apart into the steps between
  which it may be looked at, and what its entries and seeks
  have come to is written down beside it.  The books agree
  with this history after every step.

  Key definitions include:
    * `Walk.Station`
    * `Walk.move`
    * `Walk.Event`
    * `Walk.event?`
    * `Walk.Balances`
    * `Journey`

  Main statements:
    * `Walk.writeFile_cases`
    * `Walk.Balances.move`
    * `Journey.exists_after_run`
    * `Journey.books_balance`
    * `Extraction.balances_run`
-/

namespace ArchiveRescue

open Ustar

------------------------------------------------------------
-- Lines
------------------------------------------------------------

/- How a line begins that tells of an extracted file. -/
def fileMarker : List Char :=
  "extracted '".toList

/- A line that tells of a file that was extracted. -/
def Line.tellsOfFile (l : Line) : Bool :=
  l.severity == .info && fileMarker.isPrefixOf l.message.toList

/- The messages of the lines that tell of files. -/
def Report.extractions (r : Report) : List String :=
  (r.lines.filter Line.tellsOfFile).map Line.message

/- What is told of a file. -/
def extractedText
    (name : String)
    (bytes : Nat) : String :=
  "extracted " ++ Failure.quoted name ++ " (" ++
    toString bytes ++ " byte(s))"

/- This tells of a file. -/
theorem tellsOfFile_extractedText
    (name : String)
    (bytes : Nat)
    (operation : Option String) :
    Line.tellsOfFile
        ⟨.info, extractedText name bytes, operation⟩ =
      true := by
  have hBegins :
      fileMarker <+: (extractedText name bytes).toList := by
    have hMarker :
        fileMarker = "extracted ".toList ++ "'".toList := by
      decide
    unfold extractedText Failure.quoted
    simp only [String.toList_append, List.append_assoc]
    rw [hMarker, ← List.append_assoc]
    exact List.prefix_append _ _
  rw [Line.tellsOfFile, Bool.and_eq_true]
  exact ⟨rfl, List.isPrefixOf_iff_prefix.mpr hBegins⟩

/- Messages that begin otherwise do not. -/
theorem tellsOfFile_eq_false
    {severity : Severity}
    {message : String}
    (operation : Option String)
    (hOther :
      severity ≠ .info ∨ ¬ fileMarker <+: message.toList) :
    Line.tellsOfFile ⟨severity, message, operation⟩ =
      false := by
  rw [Line.tellsOfFile, Bool.and_eq_false_iff]
  rcases hOther with hSeverity | hMessage
  · exact .inl (beq_eq_false_iff_ne.mpr hSeverity)
  · right
    rw [Bool.eq_false_iff]
    exact fun hBegins =>
      hMessage (List.isPrefixOf_iff_prefix.mp hBegins)

/-
  The line about the whole archive does not: a digit stands
  where the name of a file would begin.
-/
theorem summary_other (m n : Nat) :
    ¬ fileMarker <+:
      ("extracted " ++ toString m ++ " of " ++ toString n ++
        " file(s)").toList := by
  have hMarker :
      fileMarker = "extracted ".toList ++ ['\''] := by
    decide
  have hDigits : (toString m).toList = Nat.toDigits 10 m := by
    rw [Nat.toString_eq_ofList_toDigits, String.toList_ofList]
  simp only [String.toList_append, List.append_assoc]
  rw [hMarker, hDigits, List.prefix_append_right_inj]
  have hDigit := @Nat.isDigit_of_mem_toDigits 10 m
  cases hSome : Nat.toDigits 10 m with
  | nil => exact absurd hSome (Nat.toDigits_ne_nil)
  | cons d rest =>
      intro hBegins
      rw [List.cons_append, List.cons_prefix_cons] at hBegins
      have hQuote := hDigit (by decide) (by decide)
        (hSome ▸ List.mem_cons_self)
      rw [← hBegins.1] at hQuote
      exact absurd hQuote (by decide)

/- Neither does the line about junk. -/
theorem junk_other (junk position : Nat) :
    ¬ fileMarker <+:
      (Walk.foundText junk position).toList := by
  have hMarker :
      fileMarker = 'e' :: "xtracted '".toList := by
    decide
  have hSkipped :
      "skipped ".toList = 's' :: "kipped ".toList := by
    decide
  unfold Walk.foundText
  simp only [String.toList_append, List.append_assoc]
  rw [hMarker, hSkipped, List.cons_append,
    List.cons_prefix_cons]
  exact fun hBegins => absurd hBegins.1 (by decide)

namespace Walk

------------------------------------------------------------
-- Talk
------------------------------------------------------------

/-
  Between the walks nothing has been counted, and no line
  that was logged tells of a file.
-/
structure Chats (w v : Walk) : Prop where
  expected : v.expected = w.expected
  extracted : v.extracted = w.extracted
  failures : v.failures = w.failures
  lines :
    ∃ added,
      v.report.lines = w.report.lines ++ added ∧
        ∀ l ∈ added, l.tellsOfFile = false

section Talking

variable {u v w : Walk}

theorem Chats.refl (w : Walk) : Chats w w :=
  ⟨rfl, rfl, rfl, [], (List.append_nil _).symm, nofun⟩

theorem Chats.trans
    (hFirst : Chats u v)
    (hSecond : Chats v w) :
    Chats u w := by
  rcases hFirst.lines with ⟨first, hLines, hFirstOther⟩
  rcases hSecond.lines with ⟨second, hMore, hSecondOther⟩
  refine
    ⟨hSecond.expected.trans hFirst.expected,
      hSecond.extracted.trans hFirst.extracted,
      hSecond.failures.trans hFirst.failures,
      first ++ second, ?_, ?_⟩
  · rw [hMore, hLines, List.append_assoc]
  · intro l hMem
    rcases List.mem_append.mp hMem with hOld | hNew
    · exact hFirstOther l hOld
    · exact hSecondOther l hNew

/- What is told may be decided about too. -/
theorem Chats.tell
    (hChats : Chats w v)
    {change : Report → Report}
    {severity : Severity}
    {message : String}
    (hLines :
      ∀ r, (change r).lines = (r.log severity message).lines)
    (hOther :
      severity ≠ .info ∨ ¬ fileMarker <+: message.toList) :
    Chats w (v.telling change) := by
  refine hChats.trans ⟨rfl, rfl, rfl, _, hLines v.report, ?_⟩
  intro l hMem
  rw [List.mem_singleton] at hMem
  rw [hMem]
  exact tellsOfFile_eq_false _ hOther

theorem Chats.line
    (hChats : Chats w v)
    {severity : Severity}
    {message : String}
    (hOther :
      severity ≠ .info ∨ ¬ fileMarker <+: message.toList) :
    Chats w (v.telling (·.log severity message)) :=
  hChats.tell (fun _ => rfl) hOther

theorem Chats.fail
    (hChats : Chats w v)
    (failure : Failure) :
    Chats w (v.telling (·.fail failure)) := by
  have hLines : ∀ r : Report,
      (r.fail failure).lines =
        (r.log .error failure.message).lines := by
    intro r
    unfold Report.fail
    dsimp only
    split <;> rfl
  exact hChats.tell hLines (.inl nofun)

/- The tape and the disk make no difference. -/
theorem chats_copy
    (w : Walk)
    (c : Cursor)
    (target : Path) :
    Chats w (w.copy c target).2.2 :=
  related_copy Chats.refl Chats.trans
    (fun _ hChats => { hChats with })
    (fun v _ => { Chats.refl v with }) w c target

theorem chats_removePartial
    (w : Walk)
    (target : Path) :
    Chats w (w.removePartial target) := by
  have hRemoved :
      Chats w (w.onDisk (w.disk.removeFile target).2) :=
    { Chats.refl w with }
  unfold removePartial
  dsimp only
  split
  · exact hRemoved
  · exact hRemoved
  · exact hRemoved.line (.inl nofun)

theorem chats_makeDirectory
    (w : Walk)
    (name : String) :
    Chats w (w.makeDirectory name).2 := by
  unfold makeDirectory
  split
  · exact .refl w
  · split
    · exact { Chats.refl w with }
    next disk _ =>
      have hMade : Chats w (w.onDisk disk) :=
        { Chats.refl w with }
      exact hMade.line (.inl nofun)

theorem chats_readBlock (w : Walk) :
    Chats w w.readBlock.2 := by
  unfold readBlock
  split <;> exact { Chats.refl w with }

/- So a seek that leaves an entry counts nothing. -/
theorem chats_skipped
    (w : Walk)
    (reply : Except Fault Nat × Tape) :
    Chats w (w.skipped reply).1 := by
  have hRead : Chats w { w with tape := reply.2 } :=
    { Chats.refl w with }
  unfold skipped
  split
  · exact hRead
  · exact hRead.fail _

theorem chats_giveUp
    (w : Walk)
    (block : Block) :
    Chats w (w.giveUp block) := by
  unfold giveUp
  split
  · exact (Chats.refl w).line (.inl nofun)
  · exact (Chats.refl w).line (.inl nofun)

end Talking

/-
  How a regular file is settled: it fails, and nothing is
  counted, or it is counted with one line that tells of it.
-/
theorem writeFile_cases
    {w v : Walk}
    {c read : Cursor}
    {name : String}
    {outcome : Outcome Unit}
    (hWrite : w.writeFile c name = (read, outcome, v)) :
    ((∃ source, outcome = .error source) ∧ Chats w v) ∨
      ∃ target written,
        Ustar.target w.directory name w.options.sanitize =
            .ok target ∧
          outcome = .ok () ∧ Chats w written ∧
          v = { written.telling
            (·.info (extractedText name read.consumed)) with
              extracted := written.extracted ++ [target] } := by
  unfold writeFile at hWrite
  split at hWrite
  next source _ =>
    cases hWrite
    exact .inl ⟨⟨source, rfl⟩, .refl w⟩
  next target hTarget =>
    have hCopy := w.chats_copy (c.withTarget target) target
    rcases hCopied : w.copy (c.withTarget target) target with
      ⟨later, copied, written⟩
    rw [hCopied] at hWrite hCopy
    dsimp only at hWrite hCopy
    unfold settleFile at hWrite
    dsimp only at hWrite
    split at hWrite
    · cases hWrite
      exact .inr ⟨target, written, hTarget, rfl, hCopy, rfl⟩
    next source _ =>
      cases hWrite
      exact
        .inl ⟨⟨source, rfl⟩,
          hCopy.trans (written.chats_removePartial target)⟩

------------------------------------------------------------
-- Stations
------------------------------------------------------------

/-
  Where a walk can be between two steps: in front of a block,
  at an accepted header, at a block that is not accepted, or
  at its end.
-/
inductive Station where
  | awaiting
  | parsing (block : Block)
  | realigning (block : Block)
  | done
  deriving DecidableEq

/- Where a round ends that goes on, or does not. -/
def Station.behind : Bool → Station
| true => .awaiting
| false => .done

/- Make one step. -/
def move (w : Walk) : Station → Walk × Station
| .awaiting =>
    match w.readBlock with
    | (.error fault, tried) =>
        (tried.endWith "tar read" fault, .done)
    | (.ok none, tried) =>
        (tried.telling (·.debug "end of input"), .done)
    | (.ok (some block), read) =>
        match sight w.options block with
        | .blank =>
            (read.telling (·.debug "skipping zero block"),
              .awaiting)
        | .header => (read, .parsing block)
        | .other => (read, .realigning block)
| .parsing block =>
    let (next, goesOn) := w.entry block
    (next, .behind goesOn)
| .realigning block => (w.realign block, .awaiting)
| .done => (w, .done)

------------------------------------------------------------
-- Events
------------------------------------------------------------

/- What the entries and the seeks of a walk come to. -/
inductive Event where
  | extracted (name : String) (target : Path) (bytes : Nat)
  | fileFailed (name : String) (source : Failure)
  | directoryFailed (name : String) (source : Failure)
  | realignmentFailed (junk : Nat) (source : Failure)
  deriving DecidableEq, Repr

namespace Event

/- Whether it is the failure of a regular file. -/
def failsFile : Event → Bool
| .fileFailed .. => true
| _ => false

/- The file that was extracted. -/
def target? : Event → Option Path
| .extracted _ target _ => some target
| _ => none

/- What is told of it. -/
def text? : Event → Option String
| .extracted name _ bytes => some (extractedText name bytes)
| _ => none

/- The failure that is recorded. -/
def failure? : Event → Option Failure
| .extracted .. => none
| .fileFailed name source
| .directoryFailed name source =>
    some (.entryFailed name source)
| .realignmentFailed junk source =>
    some (.realignmentFailed junk source)

end Event

/-
  What a step comes to, by the outcome of the entry's content
  or by the reply to the seek.
-/
def event? (w : Walk) : Station → Option Event
| .parsing block =>
    let start : Cursor :=
      { directory := w.directory, header? := some block }
    let name := block.header.path
    let (read, outcome, _) := w.content start block.header
    match block.header.kind, outcome with
    | .file, .ok () =>
        (Ustar.target w.directory name
            w.options.sanitize).toOption.map
          (fun target => .extracted name target read.consumed)
    | .file, .error source => some (.fileFailed name source)
    | .directory, .error source =>
        some (.directoryFailed name source)
    | _, _ => none
| .realigning block =>
    match block.junkOffset? with
    | none => none
    | some junk =>
        match (w.tape.seek (.fromHere (realignment junk))).1 with
        | .ok _ => none
        | .error fault =>
            some (.realignmentFailed junk
              (.faulted "tar realignment" fault))
| _ => none

------------------------------------------------------------
-- Balanced Books
------------------------------------------------------------

/-
  The books of a walk agree with its history.  Each announced
  file was extracted or failed, the files and the failures
  are those of the events, in order, each failure has its
  line, and each file has just one.
-/
structure Balances
    (history : List Event)
    (w : Walk) : Prop where
  expected :
    w.expected =
      w.extracted.length + history.countP Event.failsFile
  extracted : w.extracted = history.filterMap Event.target?
  failures : w.failures = history.filterMap Event.failure?
  errors :
    (w.failures.map Failure.message).Sublist w.report.errors
  told : w.report.extractions = history.filterMap Event.text?
  once : w.report.extractions.length = w.extracted.length

section Balancing

variable {history : List Event} {w v : Walk}

/- Talk leaves the books as they are. -/
theorem Balances.chats
    (hBooks : Balances history w)
    (hChats : Chats w v) :
    Balances history v := by
  rcases hChats.lines with ⟨added, hLines, hOther⟩
  have hErrors : w.report.errors.Sublist v.report.errors := by
    unfold Report.errors
    rw [hLines, List.filter_append, List.map_append]
    exact List.sublist_append_left _ _
  have hTold : v.report.extractions = w.report.extractions := by
    have hNone : added.filter Line.tellsOfFile = [] := by
      rw [List.filter_eq_nil_iff]
      intro l hMem
      rw [hOther l hMem]
      exact Bool.false_ne_true
    unfold Report.extractions
    rw [hLines, List.filter_append, hNone, List.append_nil]
  constructor
  case expected =>
    rw [hChats.expected, hChats.extracted]
    exact hBooks.expected
  case extracted => exact hChats.extracted.trans hBooks.extracted
  case failures => exact hChats.failures.trans hBooks.failures
  case errors =>
    rw [hChats.failures]
    exact hBooks.errors.trans hErrors
  case told => exact hTold.trans hBooks.told
  case once =>
    rw [hTold, hChats.extracted]
    exact hBooks.once

/- So does an announcement, until it is counted. -/
theorem Balances.unannounced
    {announced : Nat}
    (hBooks : Balances history w)
    (hChats : Chats { w with expected := announced } v) :
    Balances history { v with expected := w.expected } :=
  hBooks.chats
    ⟨rfl, hChats.extracted, hChats.failures, hChats.lines⟩

/-
  A failure that does not end the walk is entered, after talk
  in which a regular file may have been announced.
-/
theorem Balances.survive
    (hBooks : Balances history w)
    {e : Event}
    {failure : Failure}
    (hFailure : e.failure? = some failure)
    (hChats :
      Chats
        { w with
          expected :=
            w.expected + [e].countP Event.failsFile }
        v) :
    Balances (history ++ [e]) (v.survive failure) := by
  have hKept := hBooks.unannounced hChats
  have hSilent : e.target? = none ∧ e.text? = none := by
    cases e with
    | extracted => cases hFailure
    | _ => exact ⟨rfl, rfl⟩
  have hTold :
      (v.survive failure).report.extractions =
        v.report.extractions := by
    have hOther :=
      @tellsOfFile_eq_false .error failure.message
        (some v.report.operation) (.inl nofun)
    unfold Report.extractions
    dsimp only [Walk.survive, telling, Report.error, Report.log]
    rw [List.filter_append, List.filter_cons, hOther]
    simp
  constructor
  case expected =>
    have hBefore := hKept.expected
    dsimp only at hBefore
    calc
      v.expected
        = w.expected + [e].countP Event.failsFile :=
            hChats.expected
      _ = v.extracted.length +
            (history ++ [e]).countP Event.failsFile := by
            rw [hBefore, List.countP_append, Nat.add_assoc]
  case extracted =>
    rw [List.filterMap_append, List.filterMap_cons,
      hSilent.1, List.filterMap_nil, List.append_nil]
    exact hKept.extracted
  case failures =>
    rw [List.filterMap_append, List.filterMap_cons, hFailure,
      List.filterMap_nil]
    exact congrArg (· ++ [failure]) hKept.failures
  case errors =>
    have hErrors :=
      v.report.errors_log .error failure.message
    rw [if_pos rfl] at hErrors
    change ((v.failures ++ [failure]).map
      Failure.message).Sublist
        (v.report.log .error failure.message).errors
    rw [hErrors, List.map_append]
    exact hKept.errors.append (List.Sublist.refl _)
  case told =>
    rw [hTold, List.filterMap_append, List.filterMap_cons,
      hSilent.2, List.filterMap_nil, List.append_nil]
    exact hKept.told
  case once =>
    rw [hTold]
    exact hKept.once

/- And so is a file that was extracted. -/
theorem Balances.extract
    (hBooks : Balances history w)
    (name : String)
    (target : Path)
    (bytes : Nat)
    (hChats :
      Chats { w with expected := w.expected + 1 } v) :
    Balances (history ++ [.extracted name target bytes])
      { v.telling (·.info (extractedText name bytes)) with
        extracted := v.extracted ++ [target] } := by
  have hKept := hBooks.unannounced hChats
  have hTold :
      (v.report.info (extractedText name bytes)).extractions =
        v.report.extractions ++ [extractedText name bytes] := by
    have hTells :=
      tellsOfFile_extractedText name bytes
        (some v.report.operation)
    unfold Report.extractions
    dsimp only [Report.info, Report.log]
    rw [List.filter_append, List.filter_cons, hTells]
    simp
  have hErrors :=
    v.report.errors_log .info (extractedText name bytes)
  rw [if_neg nofun] at hErrors
  constructor
  case expected =>
    have hBefore := hKept.expected
    have hAnnounced := hChats.expected
    dsimp only [telling] at hBefore hAnnounced ⊢
    rw [hAnnounced, hBefore, List.length_append,
      List.countP_append]
    simp [Event.failsFile]
    omega
  case extracted =>
    rw [List.filterMap_append]
    exact congrArg (· ++ [target]) hKept.extracted
  case failures =>
    rw [List.filterMap_append]
    exact hKept.failures.trans (List.append_nil _).symm
  case errors =>
    have hBefore := hKept.errors
    change (v.failures.map Failure.message).Sublist
      (v.report.log .info (extractedText name bytes)).errors
    rw [hErrors]
    exact hBefore
  case told =>
    rw [List.filterMap_append]
    refine hTold.trans ?_
    exact congrArg (· ++ [extractedText name bytes]) hKept.told
  case once =>
    have hBefore := hKept.once
    dsimp only [telling] at hBefore ⊢
    rw [hTold, List.length_append, List.length_append, hBefore]
    rfl

/- The books stay balanced over an entry. -/
theorem Balances.entry
    (hBooks : Balances history w)
    (block : Block) :
    Balances (history ++ (w.event? (.parsing block)).toList)
      (w.entry block).1 := by
  unfold Walk.entry event?
  dsimp only
  unfold content
  cases hKind : block.header.kind with
  | file =>
      dsimp only
      rcases hWrite :
          Walk.writeFile { w with expected := w.expected + 1 }
            { directory := w.directory, header? := some block }
            block.header.path with
        ⟨read, outcome, v⟩
      dsimp only
      rcases writeFile_cases hWrite with
        ⟨⟨source, rfl⟩, hChats⟩ |
          ⟨target, written, hTarget, rfl, hChats, rfl⟩
      · have hFailed :=
          hBooks.survive
            (e := .fileFailed block.header.path source)
            rfl hChats
        exact hFailed.chats (chats_skipped _ _)
      · dsimp only at hTarget ⊢
        rw [hTarget]
        have hDone :=
          hBooks.extract block.header.path target
            read.consumed hChats
        exact hDone.chats (chats_skipped _ _)
  | directory =>
      have hMade := w.chats_makeDirectory block.header.path
      rcases hMake : w.makeDirectory block.header.path with
        ⟨outcome, v⟩
      rw [hMake] at hMade
      dsimp only at hMade ⊢
      cases outcome with
      | ok _ =>
          rw [Option.toList_none, List.append_nil]
          exact hBooks.chats
            (hMade.trans (chats_skipped _ _))
      | error source =>
          have hFailed :=
            hBooks.survive
              (e := .directoryFailed block.header.path source)
              rfl hMade
          exact hFailed.chats (chats_skipped _ _)
  | other flag =>
      dsimp only
      rw [Option.toList_none, List.append_nil]
      have hPassed :
          Chats w
            (w.passOver block.header.path flag
              block.header.size.toNat) :=
        (Chats.refl w).line (.inl nofun)
      exact hBooks.chats (hPassed.trans (chats_skipped _ _))

/- And over a seek to a header further on. -/
theorem Balances.realign
    (hBooks : Balances history w)
    (block : Block) :
    Balances (history ++ (w.event? (.realigning block)).toList)
      (w.realign block) := by
  unfold Walk.realign event?
  dsimp only
  cases hJunk : block.junkOffset? with
  | none =>
      dsimp only
      rw [Option.toList_none, List.append_nil]
      exact hBooks.chats (w.chats_giveUp block)
  | some junk =>
      dsimp only
      rcases hSeek :
          w.tape.seek (.fromHere (realignment junk)) with
        ⟨fault | position, tape⟩
      · exact
          hBooks.survive
            (e := .realignmentFailed junk
              (.faulted "tar realignment" fault))
            rfl { Chats.refl w with }
      · dsimp only [realigned]
        rw [Option.toList_none, List.append_nil]
        have hRead : Chats w { w with tape := tape } :=
          { Chats.refl w with }
        exact hBooks.chats
          (hRead.line (.inr (junk_other junk position)))

/- So they stay balanced over every step. -/
theorem Balances.move
    (hBooks : Balances history w)
    (station : Station) :
    Balances (history ++ (w.event? station).toList)
      (w.move station).1 := by
  have hRead := w.chats_readBlock
  cases station with
  | awaiting =>
      change Balances (history ++ []) _
      rw [List.append_nil]
      unfold Walk.move
      rcases hBlock : w.readBlock with
        ⟨fault | _ | block, read⟩
      · rw [hBlock] at hRead
        exact hBooks.chats (hRead.fail _)
      · rw [hBlock] at hRead
        exact hBooks.chats (hRead.line (.inl nofun))
      · rw [hBlock] at hRead
        dsimp only
        cases sight w.options block with
        | blank =>
            exact hBooks.chats (hRead.line (.inl nofun))
        | header => exact hBooks.chats hRead
        | other => exact hBooks.chats hRead
  | parsing block => exact hBooks.entry block
  | realigning block => exact hBooks.realign block
  | done =>
      change Balances (history ++ []) w
      rw [List.append_nil]
      exact hBooks

/- Deciding about a walk only adds talk. -/
theorem chats_conclude
    (w : Walk)
    (directory : Path)
    (created : Bool) :
    Chats w (Extraction.conclude w directory created) := by
  have hFailed :
      Chats w
        (w.telling (·.fail (.nothingExtracted w.expected))) :=
    (Chats.refl w).fail _
  unfold Extraction.conclude
  split
  · unfold Extraction.withdraw
    split
    · split
      · exact { hFailed with }
      next disk _ =>
        have hRemoved :
            Chats w
              { w.telling
                  (·.fail (.nothingExtracted w.expected)) with
                disk := disk } :=
          { hFailed with }
        exact hRemoved.line (.inl nofun)
    · exact hFailed
  · have hLines : ∀ (r : Report) (message : String),
        (r.info message).succeed.lines =
          (r.log .info message).lines := by
      intro r message
      unfold Report.succeed
      split <;> rfl
    exact
      (Chats.refl w).tell (fun r => hLines r _)
        (.inr (summary_other w.extracted.length w.expected))

end Balancing

/- A walk that has counted nothing and logged nothing yet. -/
structure IsFresh (w : Walk) : Prop where
  expected : w.expected = 0
  extracted : w.extracted = []
  failures : w.failures = []
  lines : w.report.lines = []

/- Its books are empty. -/
theorem IsFresh.balances
    {w : Walk}
    (hFresh : w.IsFresh) :
    Balances [] w := by
  have hTold : w.report.extractions = [] := by
    unfold Report.extractions
    rw [hFresh.lines]
    rfl
  constructor
  case expected => rw [hFresh.expected, hFresh.extracted]; rfl
  case extracted => exact hFresh.extracted
  case failures => exact hFresh.failures
  case errors =>
    rw [hFresh.failures]
    exact List.nil_sublist _
  case told => exact hTold
  case once => rw [hTold, hFresh.extracted]; rfl

end Walk

------------------------------------------------------------
-- Journeys
------------------------------------------------------------

/- A walk at a station, and what has happened on the way. -/
structure Journey where
  walk : Walk
  station : Walk.Station := .awaiting
  history : List Walk.Event := []

namespace Journey

open Walk

/- Make one step. -/
def step (j : Journey) : Journey :=
  let (walk, station) := j.walk.move j.station
  ⟨walk, station,
    j.history ++ (j.walk.event? j.station).toList⟩

/- Make so many steps. -/
def after : Nat → Journey → Journey
| 0, j => j
| steps + 1, j => after steps j.step

/- Steps one after another. -/
theorem after_add
    (first second : Nat)
    (j : Journey) :
    j.after (first + second) = (j.after first).after second := by
  induction first generalizing j with
  | zero => rw [Nat.zero_add]; rfl
  | succ first ih =>
      rw [Nat.succ_add]
      exact ih j.step

/- Nothing happens in looking for a header. -/
theorem step_awaiting
    (w : Walk)
    (history : List Event) :
    step ⟨w, .awaiting, history⟩ =
      ⟨(w.move .awaiting).1, (w.move .awaiting).2,
        history⟩ :=
  congrArg
    (Journey.mk (w.move .awaiting).1 (w.move .awaiting).2)
    (List.append_nil history)

/-
  A round is one step or two: a second one is made for a
  block that is a header or might hide one.
-/
theorem exists_after_round
    (w : Walk)
    (history : List Event) :
    ∃ steps later,
      after steps ⟨w, .awaiting, history⟩ =
        ⟨w.round.1, .behind w.round.2, later⟩ := by
  have hFirst := step_awaiting w history
  unfold Walk.round
  unfold Walk.move at hFirst
  dsimp only at hFirst
  rcases hRead : w.readBlock with ⟨fault | _ | block, read⟩
  · rw [hRead] at hFirst
    exact ⟨1, history, hFirst⟩
  · rw [hRead] at hFirst
    exact ⟨1, history, hFirst⟩
  · rw [hRead] at hFirst
    dsimp only at hFirst ⊢
    cases hSight : sight w.options block with
    | blank =>
        rw [hSight] at hFirst
        exact ⟨1, history, hFirst⟩
    | other =>
        rw [hSight] at hFirst
        exact ⟨2, _, congrArg step hFirst⟩
    | header =>
        rw [hSight] at hFirst
        exact ⟨2, _, congrArg step hFirst⟩

/- So what a walk comes to is come to in steps. -/
theorem exists_after_run
    {fuel : Nat}
    {w last : Walk}
    (hRun : w.run? fuel = some last)
    (history : List Event) :
    ∃ steps later,
      after steps ⟨w, .awaiting, history⟩ =
        ⟨last, .done, later⟩ := by
  induction fuel generalizing w history with
  | zero => cases hRun
  | succ fuel ih =>
      rcases exists_after_round w history with
        ⟨first, between, hFirst⟩
      unfold run? at hRun
      rcases hRound : w.round with ⟨next, _ | _⟩
      · rw [hRound] at hRun hFirst
        cases hRun
        exact ⟨first, between, hFirst⟩
      · rw [hRound] at hRun hFirst
        rcases ih hRun between with ⟨second, later, hSecond⟩
        refine ⟨first + second, later, ?_⟩
        rw [after_add, hFirst]
        exact hSecond

/- Balanced books stay balanced on the way. -/
theorem balances_after
    {j : Journey}
    (hBooks : Balances j.history j.walk)
    (steps : Nat) :
    Balances (j.after steps).history (j.after steps).walk := by
  induction steps generalizing j with
  | zero => exact hBooks
  | succ steps ih => exact ih (hBooks.move j.station)

/-
  The books of a walk that begins with empty ones agree with
  its history after every step, whatever the archive holds and
  whatever goes wrong.  They still do when a walk that has
  ended is decided about.
-/
theorem books_balance
    {start : Walk}
    (hFresh : start.IsFresh) :
    (∀ steps,
        let j := after steps { walk := start }
        Balances j.history j.walk) ∧
      ∀ fuel last, start.run? fuel = some last →
        ∃ steps,
          let j := after steps { walk := start }
          j.walk = last ∧ j.station = .done ∧
            ∀ directory created,
              Balances j.history
                (Extraction.conclude last directory
                  created) := by
  have hBooks : ∀ steps,
      let j := after steps { walk := start }
      Balances j.history j.walk :=
    balances_after hFresh.balances
  refine ⟨hBooks, ?_⟩
  intro fuel last hRun
  rcases exists_after_run hRun [] with ⟨steps, later, hLast⟩
  have hDone := hBooks steps
  refine ⟨steps, ?_⟩
  rw [hLast] at hDone ⊢
  exact
    ⟨rfl, rfl, fun directory created =>
      hDone.chats (chats_conclude last directory created)⟩

/- A walk to a file that holds something and an empty one. -/
def filledAndEmpty : Walk where
  disk := {}
  tape :=
    { bytes := Ustar.archive [.file "a" [0x41], .file "b" []] }
  directory := ⟨"/"⟩
  options := {}
  report := { operation := "extract" }

set_option maxRecDepth 100000 in
/- The first is extracted, and the second fails. -/
theorem filledAndEmpty_balances :
    let j := after 4 { walk := filledAndEmpty }
    j.walk.expected = 2 ∧
      j.walk.extracted.length = 1 ∧
      j.history.countP Event.failsFile = 1 ∧
      Balances j.history j.walk := by
  intro j
  have hFresh : filledAndEmpty.IsFresh := ⟨rfl, rfl, rfl, rfl⟩
  have hBooks := (books_balance hFresh).1 4
  have hCounts :
      j.walk.expected = 2 ∧ j.walk.extracted.length = 1 := by
    decide +kernel
  have hExpected : j.walk.expected =
      j.walk.extracted.length +
        j.history.countP Event.failsFile :=
    hBooks.expected
  rcases hCounts with ⟨hTwo, hOne⟩
  exact ⟨hTwo, hOne, by omega, hBooks⟩

end Journey

------------------------------------------------------------
-- Whole Extractions
------------------------------------------------------------

namespace Extraction

section Runs

variable {options : ExtractionOptions} {report : Report}
variable {tape : Tape} {directory : Path} {disk : Disk}
variable {found : Path × Bool}

/-
  The walk of an extraction that nothing has been logged of
  yet is a fresh one, unless its output directory cannot be
  used.  In this case it is not walked.
-/
theorem isFresh_beginning
    (hPrepared : (prepare disk directory).1 = .ok found)
    (hLines : report.lines = []) :
    (beginning options report tape directory
      disk).IsFresh := by
  unfold beginning
  rcases hPrepare : prepare disk directory with
    ⟨failure | ready, later⟩
  · rw [hPrepare] at hPrepared
    cases hPrepared
  · exact ⟨rfl, rfl, rfl, hLines⟩

/-
  The result of a whole extraction agrees with the history of
  its walk, from the first step to the last.
-/
theorem balances_run
    {fuel : Nat}
    {x : Extracted}
    (hPrepared : (prepare disk directory).1 = .ok found)
    (hLines : report.lines = [])
    (hRun :
      run? .blocking fuel options report tape directory disk =
        some x) :
    ∃ steps,
      let start :=
        beginning options report tape directory disk
      let j := Journey.after steps { walk := start }
      j.station = .done ∧
        x.result.expected =
          x.result.extracted.length +
            j.history.countP Walk.Event.failsFile ∧
        x.result.extracted =
          j.history.filterMap Walk.Event.target? ∧
        x.result.failures =
          j.history.filterMap Walk.Event.failure? ∧
        (x.result.failures.map Failure.message).Sublist
          x.result.report.errors ∧
        x.result.report.extractions =
          j.history.filterMap Walk.Event.text? := by
  have hFresh : (beginning options report tape directory
      disk).IsFresh :=
    isFresh_beginning hPrepared hLines
  have hWalk :
      ∃ last,
        (beginning options report tape directory disk).run?
            fuel =
          some last ∧
        finish last found.1 found.2 = x := by
    unfold run? at hRun
    unfold beginning
    rcases hPrepare : prepare disk directory with
      ⟨failure | ready, later⟩
    · rw [hPrepare] at hPrepared
      cases hPrepared
    · rw [hPrepare] at hPrepared hRun
      cases hPrepared
      exact Option.map_eq_some_iff.mp hRun
  rcases hWalk with ⟨last, hLast, rfl⟩
  generalize
    beginning options report tape directory disk = start
    at hFresh hLast ⊢
  rcases Journey.exists_after_run hLast [] with
    ⟨steps, later, hSteps⟩
  have hBooks :=
    @Journey.balances_after { walk := start } hFresh.balances
      steps
  refine ⟨steps, ?_⟩
  dsimp only
  rw [hSteps] at hBooks ⊢
  have hDone :=
    hBooks.chats (Walk.chats_conclude last found.1 found.2)
  exact
    ⟨rfl, hDone.expected, hDone.extracted, hDone.failures,
      hDone.errors, hDone.told⟩

end Runs

end Extraction

end ArchiveRescue
