import Mathlib
import ArchiveRescue.Proofs.ArchiveOnDisk
import ArchiveRescue.Proofs.BytesRead
import ArchiveRescue.Proofs.Retention

/-
  Tapes that are kept on a file of a disk that changes, and
  how much there is left to read from them.  A walk that
  writes to the very file that it reads comes to an end, as
  the tape has gone by all that it can write.

  Key definitions include:
    * `Script.AlwaysReads`
    * `Disk.UpToDate`
    * `Tape.coming`
    * `Tape.spare`
    * `Walk.Readable`
    * `Walk.Writing`

  Main statements:
    * `Tape.readPatiently_ne_interrupted`
    * `Tape.coming_readPatiently`
    * `Walk.writing_beginFile`
    * `Walk.Writing.store`
    * `Walk.letGo_refused`
-/

namespace ArchiveRescue

open Ustar

------------------------------------------------------------
-- Tapes on Changing Disks
------------------------------------------------------------

/- No read is refused for good. -/
def Script.AlwaysReads (s : Script) : Prop :=
  ∀ history position wanted fault,
    s.reply history (.read position wanted) = .refuse fault →
      fault = .interrupted

namespace Disk

/- A tape that is a file of the disk has seen its bytes. -/
def UpToDate
    (d : Disk)
    (t : Tape) : Prop :=
  ∀ place, t.medium = .file (some place) →
    d.node? place = some .directory ∨
      ∃ modified,
        d.node? place = some (.file t.bytes modified)

section Refreshing

variable {d e : Disk} {t u : Tape} {place : Location}

/- A tape that is kept on a file sees what is in it. -/
theorem refresh_of_file
    {data : Bytes}
    {modified : Int}
    (hMedium : t.medium = .file (some place))
    (hFile : d.node? place = some (.file data modified)) :
    d.refresh t = { t with bytes := data } := by
  unfold refresh
  split
  next there hThere =>
    cases hMedium.symm.trans hThere
    rw [hFile]
  next hNone => exact absurd hMedium (hNone place)

/- What a change of the disk can do to a tape. -/
theorem refresh_cases
    (d : Disk)
    (t : Tape) :
    (∃ data, d.refresh t = { t with bytes := data }) ∨
      d.refresh t = { t with medium := .file none } := by
  unfold refresh
  split
  · split
    next data _ _ => exact .inl ⟨data, rfl⟩
    next => exact .inl ⟨t.bytes, rfl⟩
    next => exact .inr rfl
  · exact .inl ⟨t.bytes, rfl⟩

/- A tape is not put on another file. -/
theorem medium_of_refresh
    (hMedium : (d.refresh t).medium = .file (some place)) :
    t.medium = .file (some place) := by
  rcases d.refresh_cases t with ⟨data, hBytes⟩ | hGone
  · rwa [hBytes] at hMedium
  · rw [hGone] at hMedium
    cases hMedium

/- A change is seen once. -/
theorem upToDate_refresh
    (d : Disk)
    (t : Tape) :
    d.UpToDate (d.refresh t) := by
  intro place hMedium
  have hBefore := medium_of_refresh hMedium
  unfold refresh at hMedium ⊢
  rw [hBefore] at hMedium ⊢
  dsimp only at hMedium ⊢
  split
  next data modified hFile => exact .inr ⟨modified, hFile⟩
  next hDirectory => exact .inl hDirectory
  next hNone =>
    rw [hNone] at hMedium
    cases hMedium

namespace UpToDate

/- There is nothing more to see then. -/
theorem refresh_eq (hUpToDate : d.UpToDate t) :
    d.refresh t = t := by
  unfold refresh
  split
  next place hMedium =>
    rcases hUpToDate place hMedium with
      hDirectory | ⟨modified, hFile⟩
    · rw [hDirectory]
    · rw [hFile]
  next => rfl

/- Reading and moving the tape makes no difference. -/
theorem of_source
    (hUpToDate : d.UpToDate t)
    (hSource : t.SameSource u) :
    d.UpToDate u := by
  intro place hMedium
  rw [hSource.bytes]
  exact hUpToDate place (hSource.medium ▸ hMedium)

/- Neither do changes that only add to the disk. -/
theorem grown
    (hUpToDate : d.UpToDate t)
    (hGrows : d.Grows e) :
    e.UpToDate t := by
  intro place hMedium
  rcases hUpToDate place hMedium with
    hDirectory | ⟨modified, hFile⟩
  · exact .inl (hGrows.nodes place _ hDirectory)
  · exact .inr ⟨modified, hGrows.nodes place _ hFile⟩

/- Neither do changes of another file. -/
theorem elsewhere
    (hUpToDate : d.UpToDate t)
    (hElse : t.medium ≠ .file (some place))
    (hNodes :
      ∀ there, there ≠ place →
        e.node? there = d.node? there) :
    e.UpToDate t := by
  intro there hMedium
  rw [hNodes]
  · exact hUpToDate there hMedium
  · rintro rfl
    exact hElse hMedium

end UpToDate

end Refreshing

end Disk

------------------------------------------------------------
-- What Is Left to Read
------------------------------------------------------------

namespace Tape

/- The bytes that a tape can hand out before it ends. -/
def coming (t : Tape) : Bytes :=
  t.ahead ++ t.bytes.drop (t.position + t.ahead.length)

/- How many bytes a tape can hand out before it ends. -/
def spare (t : Tape) : Nat :=
  t.ahead.length +
    (t.bytes.length - (t.position + t.ahead.length))

theorem length_coming (t : Tape) :
    t.coming.length = t.spare := by
  unfold coming spare
  rw [List.length_append, List.length_drop]

/- What comes on a tape in step is what stands on it. -/
theorem InStep.coming_eq
    {t : Tape}
    (hStep : t.InStep) :
    t.coming = t.bytes.drop t.position := by
  rcases hStep with ⟨rest, hRest⟩
  unfold coming
  rw [← List.drop_drop, ← hRest, List.drop_left]

/- What is handed out is no longer there to hand out. -/
theorem coming_handOut
    (t : Tape)
    (fetched : Bytes)
    (n : Nat) :
    (t.handOut fetched n).1 ++ (t.handOut fetched n).2.coming =
      fetched ++ t.bytes.drop (t.position + fetched.length) := by
  have hLength :
      (fetched.take n).length + (fetched.drop n).length =
        fetched.length := by
    rw [← List.length_append, List.take_append_drop]
  unfold handOut coming
  dsimp only
  rw [Nat.add_assoc, hLength, ← List.append_assoc,
    List.take_append_drop]

theorem coming_read
    (t : Tape)
    (n : Nat) :
    taken (t.read n).1 ++ (t.read n).2.coming = t.coming := by
  unfold read
  by_cases hAhead : t.ahead.isEmpty
  · rw [if_pos hAhead]
    rw [List.isEmpty_iff] at hAhead
    unfold fetch
    have hTold :=
      t.ask_told (.read t.position (max n t.medium.window))
    rcases hAsk :
        t.ask (.read t.position (max n t.medium.window)) with
      ⟨reply, told⟩
    rw [hAsk] at hTold
    rcases hTold with ⟨hSource, hPosition, hSame⟩
    cases reply with
    | refuse fault =>
        dsimp only [taken]
        unfold coming
        rw [hSource.bytes, hPosition, hSame]
        rfl
    | proceed most =>
        have hGiven := told.coming_handOut
          (Bytes.slice t.bytes t.position
            (min (max n t.medium.window) (max most 1))) n
        dsimp only [taken]
        rw [hGiven, hSource.bytes, hPosition]
        unfold coming Bytes.slice
        rw [hAhead, List.nil_append, List.length_nil,
          Nat.add_zero, ← List.drop_drop, List.length_take,
          List.take_eq_take_min]
        exact List.take_append_drop _ _
  · rw [if_neg hAhead]
    exact t.coming_handOut t.ahead n

theorem coming_readTrying
    (tries : Nat)
    (t : Tape)
    (n : Nat) :
    taken (readTrying tries t n).1 ++
        (readTrying tries t n).2.coming =
      t.coming := by
  induction tries generalizing t with
  | zero => exact t.coming_read n
  | succ tries ih =>
      have hRead := t.coming_read n
      unfold readTrying
      split
      next told hFault =>
        rw [hFault] at hRead
        rw [ih told]
        exact hRead
      next => exact hRead

theorem coming_readPatiently
    {t u : Tape}
    {n : Nat}
    {got : Bytes}
    (hRead : t.readPatiently n = (.ok got, u)) :
    got ++ u.coming = t.coming := by
  have hComing := coming_readTrying t.patience t n
  change taken (t.readPatiently n).1 ++
    (t.readPatiently n).2.coming = t.coming at hComing
  rw [hRead] at hComing
  exact hComing

/- So reads that hand out something come to an end. -/
theorem spare_readPatiently
    {t u : Tape}
    {n : Nat}
    {got : Bytes}
    (hRead : t.readPatiently n = (.ok got, u)) :
    u.spare + got.length = t.spare := by
  rw [← t.length_coming, ← u.length_coming,
    ← coming_readPatiently hRead, List.length_append,
    Nat.add_comm]

------------------------------------------------------------
-- Interruptions
------------------------------------------------------------

/- A call that is refused was refused by the script. -/
theorem ask_refuse
    {t told : Tape}
    {call : Call}
    {fault : Fault}
    (hAsk : t.ask call = (.refuse fault, told)) :
    t.script.reply t.history call = .refuse fault ∧
      (fault = .interrupted → told.patience < t.patience) := by
  unfold ask at hAsk
  dsimp only at hAsk
  split at hAsk
  next hReply =>
    split at hAsk
    next hPatience =>
      cases hAsk
      refine ⟨hReply, fun _ => ?_⟩
      unfold patience
      dsimp only
      omega
    next => cases hAsk
  next hOther =>
    have hReply : t.script.reply t.history call =
        .refuse fault :=
      congrArg Prod.fst hAsk
    refine ⟨hReply, ?_⟩
    rintro rfl
    exact (hOther hReply).elim

theorem ask_of_read
    {t u : Tape}
    {n : Nat}
    {fault : Fault}
    (hRead : t.read n = (.error fault, u)) :
    t.ask (.read t.position (max n t.medium.window)) =
      (.refuse fault, u) := by
  unfold read fetch at hRead
  rcases hAsk :
      t.ask (.read t.position (max n t.medium.window)) with
    ⟨reply, told⟩
  rw [hAsk] at hRead
  split at hRead
  next =>
    cases reply with
    | refuse fault =>
        cases hRead
        rfl
    | proceed most => cases hRead
  next => cases hRead

/- So patient reads are never interrupted. -/
theorem readTrying_ne_interrupted
    {tries : Nat}
    {t : Tape}
    (hTries : t.patience ≤ tries)
    (n : Nat) :
    (readTrying tries t n).1 ≠ .error .interrupted := by
  induction tries generalizing t with
  | zero =>
      unfold readTrying
      rcases hRead : t.read n with ⟨reply, told⟩
      rintro ⟨⟩
      have hLess := (ask_refuse (ask_of_read hRead)).2 rfl
      omega
  | succ tries ih =>
      unfold readTrying
      split
      next told hFault =>
        have hLess := (ask_refuse (ask_of_read hFault)).2 rfl
        exact ih (by omega)
      next hOther =>
        intro hReply
        exact hOther _ (Prod.ext hReply rfl)

theorem readPatiently_ne_interrupted
    (t : Tape)
    (n : Nat) :
    (t.readPatiently n).1 ≠ .error .interrupted :=
  readTrying_ne_interrupted (Nat.le_refl _) n

/- Reads that can only be interrupted go through. -/
theorem readTrying_error
    {tries : Nat}
    {t u : Tape}
    {n : Nat}
    {fault : Fault}
    (hScript : t.script.AlwaysReads)
    (hRead : readTrying tries t n = (.error fault, u)) :
    fault = .interrupted := by
  induction tries generalizing t with
  | zero =>
      exact hScript _ _ _ _ (ask_refuse (ask_of_read hRead)).1
  | succ tries ih =>
      have hSource := (t.took_read n).1.source
      unfold readTrying at hRead
      split at hRead
      next told hFault =>
        rw [hFault] at hSource
        exact ih (hSource.script ▸ hScript) hRead
      next =>
        exact
          hScript _ _ _ _ (ask_refuse (ask_of_read hRead)).1

theorem readPatiently_ok_of_always
    {t : Tape}
    (hScript : t.script.AlwaysReads)
    (n : Nat) :
    ∃ got u, t.readPatiently n = (.ok got, u) := by
  rcases hRead : t.readPatiently n with ⟨reply, u⟩
  cases reply with
  | ok got => exact ⟨got, u, rfl⟩
  | error fault =>
      have hInterrupted := t.readPatiently_ne_interrupted n
      rw [hRead] at hInterrupted
      exact
        absurd
          (congrArg Except.error
            (readTrying_error hScript hRead))
          hInterrupted

end Tape

namespace Walk

------------------------------------------------------------
-- Files That Are Read
------------------------------------------------------------

/- No entry leads to the place. -/
def Avoids
    (w : Walk)
    (place : Location) : Prop :=
  ∀ name target,
    Ustar.target w.directory name w.options.sanitize =
        .ok target →
      target.Misses place

/-
  A regular file that is read as the tape is never refused
  for good, or it is not in the way of the walk.
-/
def Readable (w : Walk) : Prop :=
  ∀ place, w.tape.medium = .file (some place) →
    w.disk.node? place = some .directory ∨
      w.tape.script.AlwaysReads ∨
      w.Avoids place

namespace Readable

variable {w : Walk}

/- A tape that was read or moved is as readable. -/
theorem onTape
    {tape : Tape}
    (hReads : w.Readable)
    (hSource : w.tape.SameSource tape) :
    Readable { w with tape := tape } := by
  intro place hMedium
  dsimp only
  rw [hSource.script]
  exact hReads place (hSource.medium ▸ hMedium)

/- So is one on a disk that keeps its directories. -/
theorem onDisk
    {disk : Disk}
    (hReads : w.Readable)
    (hKept :
      ∀ place, w.disk.node? place = some .directory →
        disk.node? place = some .directory) :
    (w.onDisk disk).Readable := by
  intro place hMedium
  have hScript :
      (disk.refresh w.tape).script = w.tape.script := by
    rcases disk.refresh_cases w.tape with
      ⟨data, hBytes⟩ | hGone
    · rw [hBytes]
    · rw [hGone]
  unfold Walk.onDisk
  dsimp only
  rw [hScript]
  exact
    (hReads place (Disk.medium_of_refresh hMedium)).imp_left
      (hKept place)

end Readable

------------------------------------------------------------
-- Files That Are Written
------------------------------------------------------------

/-
  The walk writes the file of the target, and so many bytes
  of it are held back.  If the tape is kept on that file, it
  has gone by all that can be written to it.
-/
structure Writing
    (target : Path)
    (place : Location)
    (held : Nat)
    (w : Walk) : Prop where
  named :
    ∃ name,
      Ustar.target w.directory name w.options.sanitize =
        .ok target
  aims : Disk.Aims target place w.disk
  plain : target.endsWithSlash = false
  upToDate : w.disk.UpToDate w.tape
  behind :
    w.tape.medium = .file (some place) →
      w.tape.bytes.length + held ≤ w.tape.position

/- It starts with a new file. -/
theorem writing_beginFile
    {w ready : Walk}
    {name : String}
    {target : Path}
    {place : Location}
    (hTarget :
      Ustar.target w.directory name w.options.sanitize =
        .ok target)
    (hBegin : w.beginFile target = (.ok place, ready)) :
    Writing target place 0 ready := by
  rcases tries_beginFile hBegin with ⟨hTries, hAims⟩
  have hNamed :
      Ustar.target ready.directory name
          ready.options.sanitize = .ok target := by
    rw [hTries.directory, hTries.options]
    exact hTarget
  unfold beginFile at hBegin
  split at hBegin
  next => cases hBegin
  next before _ =>
    rcases hCreate : before.disk.createFile target with
      ⟨reply, made⟩
    rw [hCreate] at hBegin
    cases reply with
    | error fault => cases hBegin
    | ok there =>
        cases hBegin
        rcases Disk.node?_of_createFile hCreate with
          ⟨-, -, hPlain, hNodes⟩
        refine
          ⟨⟨name, hNamed⟩, hAims place rfl, hPlain,
            made.upToDate_refresh before.tape, ?_⟩
        intro hMedium
        have hBefore := Disk.medium_of_refresh hMedium
        unfold onDisk
        dsimp only
        rw [Disk.refresh_of_file hBefore
          ((hNodes place).trans (if_pos rfl))]
        exact Nat.zero_le _

namespace Writing

variable {target : Path} {place : Location} {held : Nat}
variable {w : Walk} {pending : Bytes}

/- What is read is held back first. -/
theorem ofRead
    (hWriting : Writing target place held w)
    (n : Nat) :
    Writing target place
      (held +
        (Tape.taken (w.tape.readPatiently n).1).length)
      { w with tape := (w.tape.readPatiently n).2 } := by
  have hTook := (w.tape.took_readPatiently n).1
  refine
    ⟨hWriting.named, hWriting.aims, hWriting.plain,
      hWriting.upToDate.of_source hTook.source, ?_⟩
  intro hMedium
  have hBehind :=
    hWriting.behind (hTook.source.medium.symm.trans hMedium)
  dsimp only
  rw [hTook.source.bytes, hTook.position]
  omega

/- Writing it takes the file as far as it was read. -/
theorem flush
    {written : Walk}
    (hWriting :
      Writing target place (pending.length + held) w)
    (hFlush : w.flush place pending = (.ok (), written)) :
    Writing target place held written ∧
      written.tape.coming = w.tape.coming := by
  unfold Walk.flush at hFlush
  split at hFlush
  next hEmpty =>
    cases hFlush
    rw [List.isEmpty_iff.mp hEmpty, List.length_nil,
      Nat.zero_add] at hWriting
    exact ⟨hWriting, rfl⟩
  next =>
    rcases hAppend :
        w.disk.perform (.append place pending) with
      ⟨reply, disk⟩
    have hAims := (Disk.spares_append hWriting.aims pending).2
    rw [hAppend] at hFlush hAims
    cases reply with
    | error fault => cases hFlush
    | ok done =>
      cases hFlush
      unfold onDisk
      by_cases hHere : w.tape.medium = .file (some place)
      · -- The tape sees what is written, all behind it.
        have hBehind := hWriting.behind hHere
        rcases hWriting.upToDate place hHere with
          hDirectory | ⟨modified, hFile⟩
        · rcases hWriting.aims.file with
            ⟨data, modified, hFile⟩
          rw [hFile] at hDirectory
          cases hDirectory
        · have hSeen := Disk.refresh_of_file hHere
            (Disk.node?_of_append hFile hAppend)
          refine
            ⟨⟨hWriting.named, hAims, hWriting.plain,
              disk.upToDate_refresh w.tape, ?_⟩, ?_⟩
          · intro _
            dsimp only
            rw [hSeen]
            dsimp only
            rw [List.length_append]
            omega
          · dsimp only
            rw [hSeen]
            unfold Tape.coming
            dsimp only
            rw [List.drop_eq_nil_of_le (by
                rw [List.length_append]
                omega),
              List.drop_eq_nil_of_le (by omega)]
      · have hNodes : ∀ there, there ≠ place →
            disk.node? there = w.disk.node? there := by
          intro there hThere
          have hNode :=
            w.disk.node?_append_of_ne place pending hThere
          rwa [hAppend] at hNode
        have hSame :=
          hWriting.upToDate.elsewhere hHere hNodes
        dsimp only
        rw [hSame.refresh_eq]
        exact
          ⟨⟨hWriting.named, hAims, hWriting.plain, hSame,
            fun hMedium => absurd hMedium hHere⟩, rfl⟩

/- So does storing, with what is held back afterwards. -/
theorem store
    {stored : Walk}
    {got held : Bytes}
    (hWriting :
      Writing target place (pending.length + got.length) w)
    (hStore :
      w.store place pending got = (.ok held, stored)) :
    Writing target place held.length stored ∧
      stored.tape.coming = w.tape.coming := by
  unfold Walk.store at hStore
  split at hStore
  next =>
    cases hStore
    rw [List.length_append]
    exact ⟨hWriting, rfl⟩
  next =>
    split at hStore
    next => cases hStore
    next written hFlush =>
      cases hStore
      exact hWriting.flush hFlush

/- A tape whose reads fail is not kept on the file. -/
theorem elsewhere
    {n : Nat}
    {fault : Fault}
    {tape : Tape}
    (hWriting : Writing target place held w)
    (hReads : w.Readable)
    (hRead : w.tape.readPatiently n = (.error fault, tape)) :
    w.tape.medium ≠ .file (some place) := by
  intro hMedium
  rcases hReads place hMedium with
    hDirectory | hAlways | hAvoids
  · rcases hWriting.aims.file with ⟨data, modified, hFile⟩
    rw [hFile] at hDirectory
    cases hDirectory
  · rcases Tape.readPatiently_ok_of_always hAlways n with
      ⟨got, u, hOk⟩
    rw [hRead] at hOk
    cases hOk
  · rcases hWriting.named with ⟨name, hTarget⟩
    exact hAvoids name target hTarget w.disk
      hWriting.aims.leads

end Writing

/-
  What is refused once is refused again.  Letting go of the
  file then changes nothing but how often it was tried.
-/
theorem letGo_refused
    {w tried : Walk}
    {place : Location}
    {pending : Bytes}
    {failure : Failure}
    (hSteady : w.disk.trouble.Steady)
    (hFlush :
      w.flush place pending = (.error failure, tried)) :
    tried.letGo place pending =
      { tried with
        disk :=
          { tried.disk with
            turns := tried.disk.turns + 1 } } := by
  unfold flush at hFlush
  split at hFlush
  next => cases hFlush
  next hSome =>
    rcases hReply :
        w.disk.trouble.refuses w.disk.turns
          (.append place pending) with _ | fault
    · rw [Disk.perform_allowed hReply] at hFlush
      cases hFlush
    · have hPerform :
          ∀ d : Disk, d.trouble = w.disk.trouble →
            d.perform (.append place pending) =
              (.error fault,
                { d with turns := d.turns + 1 }) := by
        intro d hTrouble
        refine Disk.perform_refused ?_
        rw [hTrouble, hSteady w.disk.turns d.turns, hReply]
      rw [hPerform w.disk rfl] at hFlush
      dsimp only at hFlush
      generalize hTicked :
        ({ w.disk with turns := w.disk.turns + 1 } : Disk) =
          ticked at hFlush
      have hTrouble : ticked.trouble = w.disk.trouble := by
        rw [← hTicked]
      cases hFlush
      have hSeen :
          Disk.UpToDate { ticked with turns := ticked.turns + 1 }
            (ticked.refresh w.tape) :=
        ticked.upToDate_refresh w.tape
      unfold letGo flush
      rw [if_neg hSome]
      dsimp only [onDisk]
      rw [hPerform ticked hTrouble]
      dsimp only
      rw [hSeen.refresh_eq]

end Walk

end ArchiveRescue
