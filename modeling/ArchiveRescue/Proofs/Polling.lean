import Mathlib
import ArchiveRescue.Extraction
import ArchiveRescue.Proofs.Retention
import ArchiveRescue.Proofs.Twins

/-
  A task that is polled does what a walk does that waits, as
  long as the disk takes every chunk of a file that is read.
  Each round of the walk is matched by some polls of the task
  that end where the round ends, with a twin of the walk.

  Key definitions include:
    * `Walk.StoresAll`
    * `Task.Reaches`
    * `Task.Leads`
    * `Task.Settles`
    * `Task.Follows`

  Main statements:
    * `Task.leads_readPatiently`
    * `Task.leads_readBlock`
    * `Task.settles_copyUpTo`
    * `Task.follows_entry`
    * `Task.follows_round`
    * `Task.reaches_run`
    * `Task.exists_run`
-/

namespace ArchiveRescue

open Ustar

------------------------------------------------------------
-- Walks That Store All They Read
------------------------------------------------------------

namespace Walk

/-
  The disk refuses no chunk that is read for a file while
  the walk goes on.  What is left at the end of a file may be
  refused.
-/
def StoresAll (w : Walk) : Prop :=
  ∀ rounds v block read,
    w.after? rounds = some v →
      v.readBlock = (.ok (some block), read) →
        sight v.options block = .header →
          read.refusedChunk block = []

/- So it is after a round. -/
theorem StoresAll.next
    {w next : Walk}
    (hStores : w.StoresAll)
    (hRound : w.round = (next, true)) :
    next.StoresAll := by
  intro rounds v block read hAfter
  refine hStores (rounds + 1) v block read ?_
  unfold after?
  rw [hRound]
  exact hAfter

/- A disk that refuses no writing takes every chunk. -/
theorem storesAll_of_keepsWriting
    {w : Walk}
    (hDisk : w.disk.trouble.KeepsWriting) :
    w.StoresAll := by
  intro rounds v block read hAfter hRead _
  induction rounds generalizing w with
  | zero =>
      cases hAfter
      apply refusedChunk_eq_nil
      rw [(passed_readBlock hRead).settings.trouble]
      exact hDisk
  | succ rounds ih =>
      unfold after? at hAfter
      split at hAfter
      next next hRound =>
        have hKept := w.counts_round.settings
        rw [hRound] at hKept
        refine ih ?_ hAfter
        rw [hKept.trouble]
        exact hDisk
      next => cases hAfter

end Walk

namespace Task

------------------------------------------------------------
-- Polls
------------------------------------------------------------

/- Some polls lead from the first task to the second. -/
def Reaches (s t : Task) : Prop :=
  ∃ polls, poll^[polls] s = t

/- At least one poll does. -/
def Leads (s t : Task) : Prop :=
  s.poll.Reaches t

section Polls

variable {s t u : Task}

/- No poll at all leads nowhere else. -/
theorem Reaches.refl (s : Task) : Reaches s s :=
  ⟨0, rfl⟩

/- Polls can be chained. -/
theorem Reaches.trans
    (hFirst : Reaches s t)
    (hSecond : Reaches t u) :
    Reaches s u := by
  rcases hFirst with ⟨polls, rfl⟩
  rcases hSecond with ⟨more, rfl⟩
  exact ⟨more + polls, Function.iterate_add_apply _ _ _ _⟩

theorem Leads.poll (s : Task) : Leads s s.poll :=
  .refl _

theorem Leads.reaches
    (hLeads : Leads s t) :
    Reaches s t := by
  rcases hLeads with ⟨polls, hPolls⟩
  exact ⟨polls + 1, hPolls⟩

theorem Leads.trans
    (hFirst : Leads s t)
    (hSecond : Reaches t u) :
    Leads s u :=
  Reaches.trans hFirst hSecond

/- A task that has finished stays as it is. -/
theorem iterate_finished
    (polls : Nat)
    (w : Walk) :
    poll^[polls] ⟨w, .finished⟩ = ⟨w, .finished⟩ :=
  Function.iterate_fixed rfl polls

/- So there is one way to finish at the most. -/
theorem Reaches.unique
    {w v : Walk}
    (hFirst : Reaches s ⟨w, .finished⟩)
    (hSecond : Reaches s ⟨v, .finished⟩) :
    w = v := by
  rcases hFirst with ⟨polls, hFirst⟩
  rcases hSecond with ⟨more, hSecond⟩
  have hLater : poll^[more + polls] s = ⟨w, .finished⟩ := by
    rw [Function.iterate_add_apply, hFirst,
      iterate_finished]
  rw [Nat.add_comm, Function.iterate_add_apply, hSecond,
    iterate_finished] at hLater
  cases hLater
  rfl

/- A run is a series of polls that finishes. -/
theorem run?_iff_reaches
    {w : Walk} :
    (∃ fuel, Task.run? fuel s = some w) ↔
      Reaches s ⟨w, .finished⟩ := by
  constructor
  · rintro ⟨fuel, hRun⟩
    induction fuel generalizing s with
    | zero => cases hRun
    | succ fuel ih =>
        unfold Task.run? at hRun
        split at hRun
        next hPhase =>
          cases hRun
          rcases s with ⟨walk, phase⟩
          cases hPhase
          exact .refl _
        next => exact Leads.reaches (ih hRun)
  · rintro ⟨polls, hPolls⟩
    induction polls generalizing s with
    | zero =>
        cases hPolls
        exact ⟨1, rfl⟩
    | succ polls ih =>
        rcases ih hPolls with ⟨fuel, hRun⟩
        refine ⟨fuel + 1, ?_⟩
        unfold Task.run?
        split
        next hPhase =>
          rcases s with ⟨walk, phase⟩
          cases hPhase
          have hSame := iterate_finished (polls + 1) walk
          rw [hPolls] at hSame
          cases hSame
          rfl
        next => exact hRun

end Polls

------------------------------------------------------------
-- Patience
------------------------------------------------------------

/-
  A task that takes the same call again when it was
  interrupted reads as patiently as a walk that waits.
-/
theorem leads_readPatiently
    (task : Tape → Task)
    (answer : Tape → Except Fault Bytes → Task)
    {n : Nat}
    (hPoll :
      ∀ tape,
        (task tape).poll =
          answer (tape.read n).2 (tape.read n).1)
    (hAgain :
      ∀ tape, answer tape (.error .interrupted) = task tape)
    (tape : Tape) :
    Leads (task tape)
      (answer (tape.readPatiently n).2
        (tape.readPatiently n).1) := by
  unfold Tape.readPatiently
  generalize tape.patience = tries
  induction tries generalizing tape with
  | zero =>
      unfold Tape.readTrying
      rw [← hPoll]
      exact .poll _
  | succ tries ih =>
      unfold Tape.readTrying
      split
      next told hFault =>
        have hPolled := hPoll tape
        rw [hFault] at hPolled
        have hTold : (task tape).poll = task told :=
          hPolled.trans (hAgain told)
        unfold Leads
        rw [hTold]
        exact (ih told).reaches
      next =>
        rw [← hPoll]
        exact .poll _

------------------------------------------------------------
-- Blocks
------------------------------------------------------------

/- A fault that is no interruption ends the collecting. -/
theorem collect_error
    (w : Walk)
    (got : Bytes)
    {fault : Fault}
    (hFault : fault ≠ .interrupted) :
    collect w got (.error fault) =
      ⟨w.endWith "tar read" fault, .finished⟩ := by
  unfold collect
  split
  next hSame =>
    cases hSame
    exact absurd rfl hFault
  next hSame =>
    cases hSame
    rfl
  next hSame => cases hSame

/- What follows when a block was read, or was not. -/
def receive
    (w : Walk) : Except Fault Bytes → Task
| .error fault => ⟨w.endWith "tar read" fault, .finished⟩
| .ok got =>
    if got.length = blockSize then classify w (.ofBytes got)
    else ⟨w.telling (·.debug "end of input"), .finished⟩

theorem receive_whole
    (w : Walk)
    {got : Bytes}
    (hLength : got.length = blockSize) :
    receive w (.ok got) = classify w (.ofBytes got) :=
  if_pos hLength

theorem receive_short
    (w : Walk)
    {got : Bytes}
    (hLength : got.length ≠ blockSize) :
    receive w (.ok got) =
      ⟨w.telling (·.debug "end of input"), .finished⟩ :=
  if_neg hLength

/- Nothing is gathered where nothing is wanted. -/
theorem gather_zero
    (fuel : Nat)
    (t : Tape) :
    Tape.gather fuel t 0 = (.ok [], t) := by
  cases fuel with
  | zero => rfl
  | succ fuel => rfl

/- What is missing of a block is read patiently. -/
theorem leads_collecting
    {n : Nat}
    {got : Bytes}
    (w : Walk)
    (hWanted : blockSize - got.length = n) :
    Leads ⟨w, .collecting got⟩
      (collect
        { w with tape := (w.tape.readPatiently n).2 } got
        (w.tape.readPatiently n).1) := by
  refine leads_readPatiently
    (fun tape => ⟨{ w with tape := tape }, .collecting got⟩)
    (fun tape => collect { w with tape := tape } got) ?_ ?_
    w.tape
  · intro tape
    unfold Task.poll
    dsimp only
    rw [hWanted]
  · exact fun _ => rfl

/-
  The rest of a block is collected as it is gathered.  The
  induction is on the reads that are left; each of them is
  made by as many polls as it takes.
-/
theorem leads_gather
    {fuel n : Nat}
    {w : Walk}
    {got : Bytes}
    (hLength : got.length + n = blockSize)
    (hFuel : n ≤ fuel)
    (hMore : 0 < n) :
    Leads ⟨w, .collecting got⟩
      (receive
        { w with tape := (Tape.gather fuel w.tape n).2 }
        ((Tape.gather fuel w.tape n).1.map (got ++ ·))) := by
  induction fuel generalizing w n got with
  | zero => omega
  | succ fuel ih =>
      have hWanted : blockSize - got.length = n := by omega
      have hRead := leads_collecting w hWanted
      have hTook := w.tape.took_readPatiently n
      have hPatient := w.tape.readPatiently_ne_interrupted n
      unfold Tape.gather
      rw [if_neg (Nat.ne_of_gt hMore)]
      rcases hReply : w.tape.readPatiently n with
        ⟨reply, told⟩
      rw [hReply] at hRead hTook hPatient
      cases reply with
      | error fault =>
          rw [collect_error] at hRead
          · exact hRead
          · rintro rfl
            exact hPatient rfl
      | ok more =>
          have hFits : more.length ≤ n := hTook.2
          dsimp only at hRead ⊢
          unfold collect at hRead
          dsimp only at hRead
          by_cases hEmpty : more.isEmpty
          · rw [if_pos hEmpty] at hRead ⊢
            have hShort : (got ++ []).length ≠ blockSize := by
              rw [List.append_nil]
              omega
            dsimp only [Except.map]
            rw [receive_short _ hShort]
            exact hRead
          · rw [if_neg hEmpty] at hRead ⊢
            have hSome : more.length ≠ 0 := by
              simpa using hEmpty
            by_cases hShort : (got ++ more).length < blockSize
            · rw [if_pos hShort] at hRead
              rw [List.length_append] at hShort
              have hRest :
                  (got ++ more).length + (n - more.length) =
                    blockSize := by
                rw [List.length_append]
                omega
              have hLater :=
                (ih (w := { w with tape := told }) hRest
                  (by omega) (by omega)).reaches
              dsimp only at hLater
              refine hRead.trans ?_
              rcases hGather :
                  Tape.gather fuel told (n - more.length) with
                ⟨others, later⟩
              rw [hGather] at hLater
              cases others with
              | error fault => exact hLater
              | ok rest =>
                  dsimp only [Except.map] at hLater ⊢
                  rw [List.append_assoc] at hLater
                  exact hLater
            · rw [if_neg hShort] at hRead
              rw [List.length_append] at hShort
              have hWhole :
                  (got ++ (more ++ [])).length = blockSize := by
                rw [List.append_nil, List.length_append]
                omega
              have hDone : n - more.length = 0 := by omega
              rw [hDone, gather_zero]
              dsimp only [Except.map]
              rw [receive_whole _ hWhole, List.append_nil]
              exact hRead

/- A walk that waits reads the same block. -/
theorem leads_readBlock (w : Walk) :
    Leads ⟨w, .collecting []⟩
      (match w.readBlock with
      | (.error fault, tried) =>
          ⟨tried.endWith "tar read" fault, .finished⟩
      | (.ok none, tried) =>
          ⟨tried.telling (·.debug "end of input"), .finished⟩
      | (.ok (some block), read) => classify read block) := by
  have hNone : ([] : Bytes).length + blockSize = blockSize :=
    Nat.zero_add blockSize
  have hGather :=
    leads_gather (w := w) hNone (Nat.le_refl blockSize)
      (by decide)
  unfold Walk.readBlock Tape.readUpTo
  rcases hReply : Tape.gather blockSize w.tape blockSize with
    ⟨reply, tape⟩
  rw [hReply] at hGather
  cases reply with
  | error fault => exact hGather
  | ok got =>
      dsimp only [Except.map, List.nil_append]
        at hGather ⊢
      by_cases hLength : got.length = blockSize
      · rw [receive_whole _ hLength] at hGather
        rw [if_pos hLength]
        exact hGather
      · rw [receive_short _ hLength] at hGather
        rw [if_neg hLength]
        exact hGather

------------------------------------------------------------
-- Files
------------------------------------------------------------

/-
  The task reaches the point at which it leaves an entry, for
  which the walk that waits has come to a result.
-/
def Settles
    (trouble : Trouble)
    (s : Task)
    (name : String)
    (x : Cursor × Outcome Unit × Walk) : Prop :=
  ∃ loose settled,
    Walk.Twins trouble loose x.2.2 settled ∧
      s.Reaches (leave settled x.1 name x.2.1)

/- Settle a file that was copied. -/
def settleCopy
    (name : String)
    (target : Path)
    (x : Cursor × Outcome Unit × Walk) :
    Cursor × Outcome Unit × Walk :=
  (x.1, x.2.2.settleFile x.1 name target x.2.1)

section Files

variable {trouble : Trouble} {loose : Location → Prop}
variable {w v : Walk} {target : Path} {place : Location}
variable {name : String} {pending : Bytes}

/- Polls before that make no difference. -/
theorem Settles.of_reaches
    {s t : Task}
    {x : Cursor × Outcome Unit × Walk}
    (hReaches : Reaches s t)
    (hSettles : Settles trouble t name x) :
    Settles trouble s name x := by
  rcases hSettles with ⟨loose, settled, hTwins, hLater⟩
  exact ⟨loose, settled, hTwins, hReaches.trans hLater⟩

/- A copy that both settle alike is settled. -/
theorem settles_close
    {copied : Outcome Unit}
    {c : Cursor}
    (hSettle :
      Walk.TwinsAfter trouble loose
        (w.settleFile c name target copied)
        (v.settleFile c name target copied))
    (place : Location)
    (pending : Bytes) :
    Settles trouble
      (close v ⟨name, target, place, c, pending, none⟩ copied)
      name
      (settleCopy name target (c, copied, w)) := by
  rcases hSettle with ⟨hSame, hLater⟩
  refine ⟨loose, _, hLater, ?_⟩
  unfold close settleCopy
  dsimp only
  rw [hSame]
  exact .refl _

/- So is one that has failed for both. -/
theorem settles_failed
    (hTwins : Walk.Twins trouble loose w v)
    (c : Cursor)
    (failure : Failure)
    (place : Location)
    (pending : Bytes) :
    Settles trouble
      (close v ⟨name, target, place, c, pending, none⟩
        (.error failure)) name
      (settleCopy name target (c, .error failure, w)) :=
  settles_close (hTwins.settleFile_error c name failure)
    place pending

/- Both write what is held back before. -/
theorem settles_closeWritten
    (hTwins : Walk.Twins trouble loose w v)
    (hTight : ¬ loose place)
    (hWriting :
      Walk.Writing target place pending.length w)
    (c : Cursor) :
    Settles trouble
      (closeWritten v ⟨name, target, place, c, pending, none⟩)
      name
      (settleCopy name target (c, w.close place pending)) := by
  have hFills :
      Walk.Fills target place w (w.close place pending).2 :=
    Walk.related_close .trans
      (fun u held => u.fills_flush target place held) w
      pending
  have hAims := (hFills hWriting.aims).2
  rcases hTwins.close hTight hWriting.aims pending with
    ⟨hSame, hClosed⟩
  unfold closeWritten
  dsimp only
  rw [hSame]
  exact
    settles_close
      (hClosed.settleFile c name
        (fun _ => hClosed.disk.fileSize_eq hAims.leads hTight))
      place pending

/- A fault that is no interruption ends the copy. -/
theorem copy_error
    (w : Walk)
    (file : Copying)
    {fault : Fault}
    (hFault : fault ≠ .interrupted) :
    copy w file (.error fault) =
      close w file (.error (.faulted "tar read" fault)) := by
  unfold copy
  split
  next hSame =>
    cases hSame
    exact absurd rfl hFault
  next hSame =>
    cases hSame
    rfl
  next hSame => cases hSame

/- A copy that is due a chunk reads it patiently. -/
theorem leads_copying
    {n : Nat}
    (w : Walk)
    (file : Copying)
    (hChunk : file.cursor.nextChunk = n)
    (hMore : n ≠ 0) :
    Leads ⟨w, .copying file⟩
      (copy
        { w with tape := (w.tape.readPatiently n).2 } file
        (w.tape.readPatiently n).1) := by
  subst hChunk
  refine leads_readPatiently
    (fun tape => ⟨{ w with tape := tape }, .copying file⟩)
    (fun tape => copy { w with tape := tape } file) ?_ ?_
    w.tape
  · intro tape
    unfold Task.poll
    dsimp only
    rw [if_neg hMore]
  · exact fun _ => rfl

/-
  A tape that cannot be read ends the copy.  Only the walk
  lets go of the file first, which is removed next.
-/
theorem settles_readFault
    {n : Nat}
    {fault : Fault}
    {tape : Tape}
    (hTwins : Walk.Twins trouble loose w v)
    (hTight : ¬ loose place)
    (hWriting :
      Walk.Writing target place pending.length w)
    (hSmall : pending.length ≤ Walk.bufferSize)
    (hReply :
      w.tape.readPatiently n = (.error fault, tape))
    (c : Cursor) :
    Settles trouble
      (copy { v with tape := tape }
        ⟨name, target, place, c, pending, none⟩
        (.error fault)) name
      (settleCopy name target
        (c, .error (.faulted "tar read" fault),
          { w with tape := tape }.letGo place pending)) := by
  have hPatient := w.tape.readPatiently_ne_interrupted n
  have hTook := (w.tape.took_readPatiently n).1
  have hLater := hWriting.ofRead n
  rw [hReply] at hPatient hTook hLater
  have hMoved := hTwins.onTape hTook.source
  have hElse :
      { w with tape := tape }.tape.medium ≠
        .file (some place) := by
    dsimp only
    rw [hTook.source.medium]
    exact hWriting.elsewhere hTwins.reads hReply
  rcases hMoved.settleFile_letGo hTight hLater hElse hSmall c
      name (.faulted "tar read" fault) with ⟨other, hSettle⟩
  rw [copy_error]
  · exact settles_close hSettle place pending
  · rintro rfl
    exact hPatient rfl

/- A chunk that a walk can store is stored by the task. -/
theorem store_ok
    {stored : Walk}
    {got held : Bytes}
    (hStore :
      w.store place pending got = (.ok held, stored))
    (name : String)
    (target : Path)
    (c : Cursor) :
    store w ⟨name, target, place, c, pending, none⟩ got =
      (.ok
        ⟨name, target, place, c.advance got.length, held,
          none⟩,
        stored) := by
  unfold Walk.store at hStore
  unfold store
  by_cases hFits :
    pending.length + got.length ≤ Walk.bufferSize
  · rw [if_pos hFits] at hStore ⊢
    cases hStore
    rfl
  · rw [if_neg hFits] at hStore ⊢
    rcases hFlush : w.flush place pending with
      ⟨result, flushed⟩
    rw [hFlush] at hStore
    cases result with
    | error failure => cases hStore
    | ok =>
        cases hStore
        rfl

/- Then no more is held back than there is room for. -/
theorem length_stored
    {stored : Walk}
    {got held : Bytes}
    (hStore :
      w.store place pending got = (.ok held, stored))
    (hGot : got.length ≤ blockSize) :
    held.length ≤ Walk.bufferSize := by
  unfold Walk.store at hStore
  split at hStore
  next hFits =>
    cases hStore
    rw [List.length_append]
    exact hFits
  next =>
    split at hStore
    next => cases hStore
    next =>
      cases hStore
      exact hGot.trans (by decide)

/-
  A chunk that a walk stores, its twin stores too.  The file
  can be written on, and as much is left to be read.
-/
theorem copying_chunk
    {stored : Walk}
    {got held : Bytes}
    (hTwins : Walk.Twins trouble loose w v)
    (hTight : ¬ loose place)
    (hWriting :
      Walk.Writing target place
        (pending.length + got.length) w)
    (hStore :
      w.store place pending got = (.ok held, stored))
    (name : String)
    (c : Cursor) :
    ∃ stored',
      store v ⟨name, target, place, c, pending, none⟩ got =
          (.ok
            ⟨name, target, place, c.advance got.length, held,
              none⟩,
            stored') ∧
        Walk.Twins trouble loose stored stored' ∧
        Walk.Writing target place held.length stored ∧
        stored.tape.spare = w.tape.spare := by
  have hSame :=
    hTwins.store hTight hWriting.aims pending got
  rcases hOther : v.store place pending got with
    ⟨result, stored'⟩
  rw [hStore, hOther] at hSame
  rcases hSame with ⟨rfl, hStored⟩
  rcases hWriting.store hStore with ⟨hOpen, hKept⟩
  refine
    ⟨stored', store_ok hOther name target c, hStored, hOpen,
      ?_⟩
  rw [← Tape.length_coming, ← Tape.length_coming, hKept]

/-
  The copy is polled as it is made.  The induction is on the
  reads that are left; there are enough of them, as each one
  uses up some of what the tape can hand out.  No chunk that
  was read may be refused: a walk that waits would leave the
  file at once, and a task goes on with it.
-/
theorem settles_copyUpTo
    {fuel : Nat}
    (hTwins : Walk.Twins trouble loose w v)
    (hTight : ¬ loose place)
    (hWriting :
      Walk.Writing target place pending.length w)
    (hSmall : pending.length ≤ Walk.bufferSize)
    (hFuel : w.tape.spare < fuel)
    {c : Cursor}
    (hStores :
      Walk.refusedUpTo place fuel w c pending = []) :
    Settles trouble
      ⟨v, .copying ⟨name, target, place, c, pending, none⟩⟩
      name
      (settleCopy name target
        (Walk.copyUpTo place fuel w c pending)) := by
  induction fuel generalizing w v c pending with
  | zero => omega
  | succ fuel ih =>
      unfold Walk.copyUpTo
      unfold Walk.refusedUpTo at hStores
      by_cases hChunk : c.nextChunk = 0
      · rw [if_pos hChunk]
        refine .of_reaches (Leads.poll _).reaches ?_
        unfold Task.poll
        dsimp only
        rw [if_pos hChunk]
        exact settles_closeWritten hTwins hTight hWriting c
      · rw [if_neg hChunk] at hStores ⊢
        have hRead :=
          leads_copying v
            ⟨name, target, place, c, pending, none⟩ rfl hChunk
        refine .of_reaches hRead.reaches ?_
        rw [hTwins.tape_eq]
        have hTook := w.tape.took_readPatiently c.nextChunk
        have hLater := hWriting.ofRead c.nextChunk
        rcases hReply : w.tape.readPatiently c.nextChunk with
          ⟨reply, tape⟩
        rw [hReply] at hTook hLater hStores
        cases reply with
        | error fault =>
            exact
              settles_readFault hTwins hTight hWriting hSmall
                hReply c
        | ok got =>
            have hMoved := hTwins.onTape hTook.1.source
            unfold copy
            dsimp only [Tape.taken] at hLater hStores ⊢
            by_cases hEnd : got.isEmpty
            · rw [if_pos hEnd, if_pos hEnd]
              rw [List.isEmpty_iff.mp hEnd] at hLater
              exact settles_closeWritten hMoved hTight hLater c
            · rw [if_neg hEnd] at hStores
              rw [if_neg hEnd, if_neg hEnd]
              have hSpare := Tape.spare_readPatiently hReply
              have hSome : got.length ≠ 0 := by
                simpa using hEnd
              rcases hFirst :
                  { w with tape := tape }.store place pending
                    got with ⟨result, stored⟩
              rw [hFirst] at hStores ⊢
              cases result with
              | error failure =>
                  exact absurd hStores (by simpa using hEnd)
              | ok held =>
                  rcases
                      copying_chunk hMoved hTight hLater
                        hFirst name c with
                    ⟨stored', hOther, hStored, hOpen, hSame⟩
                  dsimp only at hSame
                  rw [hOther]
                  have hLess : stored.tape.spare < fuel := by
                    omega
                  have hShort : got.length ≤ blockSize :=
                    hTook.2.trans (Nat.min_le_right _ _)
                  exact
                    ih hStored hOpen
                      (length_stored hFirst hShort) hLess
                      hStores

/- So is the whole file of an entry. -/
theorem settles_openFile
    (hTwins : Walk.Twins trouble loose w v)
    {c : Cursor}
    {name : String}
    (hStores :
      ∀ target,
        Ustar.target w.directory name w.options.sanitize =
            .ok target →
          w.refusedCopy (c.withTarget target) target = []) :
    Settles trouble (openFile v c name) name
      (w.writeFile c name) := by
  unfold openFile Walk.writeFile
  rw [hTwins.target_eq]
  cases hTarget :
      Ustar.target w.directory name w.options.sanitize with
  | error failure => exact ⟨loose, v, hTwins, .refl _⟩
  | ok target =>
      rcases hTwins.beginFile target with
        ⟨tight, hTight, hBegin⟩
      have hStored := hStores target hTarget
      unfold Walk.refusedCopy at hStored
      unfold Walk.copy
      rcases hFirst : w.beginFile target with ⟨begun, ready⟩
      rcases hOther : v.beginFile target with
        ⟨begun', ready'⟩
      rw [hFirst] at hTight hStored
      rw [hFirst, hOther] at hBegin
      rcases hBegin with ⟨rfl, hReady⟩
      dsimp only
      rw [hFirst, hOther]
      cases begun' with
      | error failure =>
          exact
            settles_failed hReady (c.withTarget target) failure
              [] []
      | ok place =>
          have hEnough :
              ready.tape.spare <
                ready.tape.bytes.length +
                  ready.tape.ahead.length + 1 := by
            unfold Tape.spare
            omega
          have hWriting :
              Walk.Writing target place ([] : Bytes).length
                ready :=
            Walk.writing_beginFile hTarget hFirst
          exact
            settles_copyUpTo hReady (hTight place rfl) hWriting
              (Nat.zero_le _) hEnough hStored

end Files

------------------------------------------------------------
-- Entries
------------------------------------------------------------

/- What is done next when a round goes on, or does not. -/
def phaseAfter (goesOn : Bool) : Phase :=
  if goesOn then .collecting [] else .finished

/- The task reaches the point to which a walk has come. -/
def Follows
    (trouble : Trouble)
    (s : Task)
    (x : Walk × Bool) : Prop :=
  ∃ loose next,
    Walk.Twins trouble loose x.1 next ∧
      s.Reaches ⟨next, phaseAfter x.2⟩

section Entries

variable {trouble : Trouble} {loose : Location → Prop}
variable {w v : Walk}

/- Polls before that make no difference. -/
theorem Follows.of_reaches
    {s t : Task}
    {x : Walk × Bool}
    (hReaches : Reaches s t)
    (hFollows : Follows trouble t x) :
    Follows trouble s x := by
  rcases hFollows with ⟨loose, next, hTwins, hLater⟩
  exact ⟨loose, next, hTwins, hReaches.trans hLater⟩

/- What an entry holds is extracted by both. -/
theorem settles_content
    {block : Block}
    (hTwins : Walk.Twins trouble loose w v)
    (hStores : w.refusedChunk block = []) :
    Settles trouble (beginEntry v block) block.header.path
      (w.content
        { directory := w.directory, header? := some block }
        block.header) := by
  have hStart :
      ({ directory := v.directory
         header? := some block } : Cursor) =
        { directory := w.directory
          header? := some block } := by
    rcases hTwins.rest with ⟨disk, rfl⟩
    rfl
  unfold beginEntry Walk.content
  unfold Walk.refusedChunk at hStores
  dsimp only
  rw [hStart]
  cases hKind : block.header.kind with
  | file =>
      refine settles_openFile hTwins.expecting ?_
      intro target hTarget
      rw [hKind] at hStores
      dsimp only at hStores hTarget
      rw [hTarget] at hStores
      exact hStores
  | directory =>
      rcases hTwins.makeDirectory block.header.path with
        ⟨hSame, hMade⟩
      dsimp only
      rw [hSame]
      exact
        ⟨loose, (v.makeDirectory block.header.path).2, hMade,
          .refl _⟩
  | other flag =>
      have hPassed :
          Walk.Twins trouble loose
            (w.passOver block.header.path flag
              block.header.size.toNat)
            (v.passOver block.header.path flag
              block.header.size.toNat) :=
        hTwins.telling _
      exact ⟨loose, _, hPassed, .refl _⟩

/- Then both seek to what follows the entry. -/
theorem follows_skipped
    (hTwins : Walk.Twins trouble loose w v)
    (c : Cursor) :
    Follows trouble ⟨v, .skipping c⟩
      (w.skipped (w.tape.seek (.fromHere c.skip))) := by
  rcases hTwins.skipped (.fromHere c.skip) with
    ⟨hSame, hNext⟩
  have hPoll :
      (⟨v, .skipping c⟩ : Task).poll =
        ⟨(v.skipped (v.tape.seek (.fromHere c.skip))).1,
          phaseAfter
            (v.skipped
              (v.tape.seek (.fromHere c.skip))).2⟩ := by
    unfold Task.poll
    dsimp only
    rcases v.skipped (v.tape.seek (.fromHere c.skip)) with
      ⟨next, goesOn⟩
    cases goesOn with
    | true => rfl
    | false => rfl
  refine ⟨loose, _, hNext, ?_⟩
  rw [← hSame, ← hPoll]
  exact (Leads.poll _).reaches

theorem follows_entry
    {block : Block}
    (hTwins : Walk.Twins trouble loose w v)
    (hStores : w.refusedChunk block = []) :
    Follows trouble (beginEntry v block) (w.entry block) := by
  rcases settles_content hTwins hStores with
    ⟨other, settled, hSettled, hReaches⟩
  refine .of_reaches hReaches ?_
  unfold Walk.entry
  dsimp only
  rcases hContent :
      w.content
        { directory := w.directory, header? := some block }
        block.header with ⟨c, outcome, done⟩
  rw [hContent] at hSettled
  cases outcome with
  | ok _ => exact follows_skipped hSettled c
  | error source =>
      exact
        follows_skipped
          (hSettled.survive
            (.entryFailed block.header.path source)) c

/- Both look for a header inside a block in the same way. -/
theorem follows_realign
    (hTwins : Walk.Twins trouble loose w v)
    (block : Block) :
    Follows trouble
      (match block.junkOffset? with
        | none => ⟨v.giveUp block, .collecting []⟩
        | some junk => ⟨v, .realigning junk⟩)
      (w.realign block, true) := by
  unfold Walk.realign
  cases block.junkOffset? with
  | none => exact ⟨loose, _, hTwins.giveUp block, .refl _⟩
  | some junk =>
      exact
        ⟨loose, _,
          hTwins.realigned junk (.fromHere (realignment junk)),
          (Leads.poll _).reaches⟩

------------------------------------------------------------
-- Rounds
------------------------------------------------------------

/- What both log makes no difference. -/
theorem follows_telling
    (hTwins : Walk.Twins trouble loose w v)
    (change : Report → Report)
    (goesOn : Bool) :
    Follows trouble ⟨v.telling change, phaseAfter goesOn⟩
      (w.telling change, goesOn) :=
  ⟨loose, _, hTwins.telling change, .refl _⟩

/- So a round of the walk takes the task some polls. -/
theorem follows_round
    (hTwins : Walk.Twins trouble loose w v)
    (hStores : w.StoresAll) :
    Follows trouble
      (⟨v, .collecting []⟩ : Task).poll w.round := by
  have hRead := hTwins.readBlock
  refine .of_reaches (leads_readBlock v) ?_
  unfold Walk.round
  rcases hFirst : w.readBlock with ⟨reply, read⟩
  rcases hOther : v.readBlock with ⟨reply', read'⟩
  rw [hFirst, hOther] at hRead
  rcases hRead with ⟨hSame, hRead⟩
  dsimp only at hSame hRead
  subst hSame
  rcases reply' with fault | _ | block
  · exact follows_telling hRead _ false
  · exact follows_telling hRead _ false
  · have hOptions : read'.options = w.options := by
      rcases hRead.rest with ⟨disk, rfl⟩
      exact (Walk.passed_readBlock hFirst).options
    unfold classify
    dsimp only
    rw [hOptions]
    cases hSight : Walk.sight w.options block with
    | blank => exact follows_telling hRead _ true
    | header =>
        exact
          follows_entry hRead
            (hStores 0 w block read rfl hFirst hSight)
    | other => exact follows_realign hRead block

/- A walk that ends is followed to its end. -/
theorem reaches_run
    {fuel : Nat}
    {last : Walk}
    (hTwins : Walk.Twins trouble loose w v)
    (hStores : w.StoresAll)
    (hRun : w.run? fuel = some last) :
    ∃ other last',
      Walk.Twins trouble other last last' ∧
        Reaches ⟨v, .collecting []⟩ ⟨last', .finished⟩ := by
  induction fuel generalizing w v loose with
  | zero => cases hRun
  | succ fuel ih =>
      rcases follows_round hTwins hStores with
        ⟨other, next, hNext, hReaches⟩
      unfold Walk.run? at hRun
      rcases hRound : w.round with ⟨after, goesOn⟩
      rw [hRound] at hRun hNext hReaches
      cases goesOn with
      | true =>
          rcases ih hNext (hStores.next hRound) hRun with
            ⟨later, last', hLast, hLater⟩
          exact
            ⟨later, last', hLast,
              (Leads.trans hReaches hLater).reaches⟩
      | false =>
          cases hRun
          exact ⟨other, next, hNext, Leads.reaches hReaches⟩

/-
  A task that finishes has followed a walk that ends.  The
  induction is on the polls that are left, of which each
  round takes at least one.
-/
theorem exists_run
    {u : Walk}
    (hTwins : Walk.Twins trouble loose w v)
    (hStores : w.StoresAll)
    (hReaches :
      Reaches ⟨v, .collecting []⟩ ⟨u, .finished⟩) :
    ∃ fuel, (w.run? fuel).isSome := by
  rcases hReaches with ⟨polls, hPolls⟩
  induction polls using Nat.strong_induction_on
    generalizing w v loose with
  | _ polls ih =>
      rcases follows_round hTwins hStores with
        ⟨other, next, hNext, round, hRound⟩
      rcases hWalk : w.round with ⟨after, goesOn⟩
      rw [hWalk] at hNext hRound
      cases goesOn with
      | false =>
          refine ⟨1, ?_⟩
          unfold Walk.run?
          rw [hWalk]
          rfl
      | true =>
          change poll^[round + 1] ⟨v, .collecting []⟩ = _
            at hRound
          by_cases hMore : round + 1 ≤ polls
          · rcases Nat.exists_eq_add_of_le' hMore with
              ⟨left, rfl⟩
            rw [Function.iterate_add_apply, hRound] at hPolls
            rcases ih left (by omega) hNext
                (hStores.next hWalk) hPolls with ⟨fuel, hRun⟩
            refine ⟨fuel + 1, ?_⟩
            unfold Walk.run?
            rw [hWalk]
            exact hRun
          · -- The task was finished before the round was.
            rcases Nat.exists_eq_add_of_le'
                (Nat.le_of_not_le hMore) with ⟨left, hLeft⟩
            rw [hLeft, Function.iterate_add_apply, hPolls,
              iterate_finished] at hRound
            cases hRound

end Entries

end Task

end ArchiveRescue
