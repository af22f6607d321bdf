import Mathlib
import ArchiveRescue.Outcome

/-
  How stages are performed: one equation for each way to put
  a stage together, what a stage keeps of the state that it
  begins with, and what it makes of two states that differ in
  nothing it can tell.

  Key definitions include:
    * `Stage.Keeps`
    * `Stage.Respects`
    * `Stage.Lifts`

  Main statements:
    * `Stage.perform_bind_ok`
    * `Stage.perform_bind_error`
    * `Stage.Keeps.bind`
    * `Stage.Respects.bind`
    * `Stage.Lifts.bind`
-/

namespace ArchiveRescue

namespace Stage

variable {σ τ α β : Type}

------------------------------------------------------------
-- Equations
------------------------------------------------------------

@[simp]
theorem perform_mk
    (outcome : Outcome α)
    (state : σ) :
    perform (ExceptT.mk (pure outcome) : Stage σ α) state =
      (outcome, state) :=
  rfl

@[simp]
theorem perform_ofStep
    (step : σ → Outcome α × σ)
    (state : σ) :
    (ofStep step).perform state = step state :=
  rfl

@[simp]
theorem perform_focus
    (get : τ → σ)
    (set : τ → σ → τ)
    (stage : Stage σ α)
    (whole : τ) :
    (focus get set stage).perform whole =
      ((stage.perform (get whole)).1,
        set whole (stage.perform (get whole)).2) :=
  rfl

/- The rest is performed after a stage that succeeds. -/
theorem perform_bind_ok
    {stage : Stage σ α}
    {state later : σ}
    {value : α}
    (hStage : stage.perform state = (.ok value, later))
    (rest : α → Stage σ β) :
    (stage >>= rest).perform state =
      (rest value).perform later := by
  unfold perform at hStage ⊢
  rw [ExceptT.run_bind, StateT.run_bind, hStage]
  rfl

/- A stage that fails is the last one. -/
theorem perform_bind_error
    {stage : Stage σ α}
    {state later : σ}
    {failure : Failure}
    (hStage : stage.perform state = (.error failure, later))
    (rest : α → Stage σ β) :
    (stage >>= rest).perform state =
      (.error failure, later) := by
  unfold perform at hStage ⊢
  rw [ExceptT.run_bind, StateT.run_bind, hStage]
  rfl

/- Where both succeeded, the first has come before the rest. -/
theorem bind_ok_cases
    {stage : Stage σ α}
    {rest : α → Stage σ β}
    {state later : σ}
    {value : β}
    (hBind :
      (stage >>= rest).perform state = (.ok value, later)) :
    ∃ first between,
      stage.perform state = (.ok first, between) ∧
        (rest first).perform between = (.ok value, later) := by
  rcases hStage : stage.perform state with ⟨outcome, between⟩
  cases outcome with
  | ok first =>
      rw [perform_bind_ok hStage] at hBind
      exact ⟨first, between, rfl, hBind⟩
  | error failure =>
      rw [perform_bind_error hStage] at hBind
      cases hBind

/- A stage that ends with a value made from another. -/
theorem perform_bind_pure
    (stage : Stage σ α)
    (make : α → β)
    (state : σ) :
    (stage >>= fun value => pure (make value)).perform state =
      ((stage.perform state).1.map make,
        (stage.perform state).2) := by
  rcases hStage : stage.perform state with ⟨outcome, later⟩
  cases outcome with
  | ok value => exact perform_bind_ok hStage _
  | error failure => exact perform_bind_error hStage _

/- Looking at the state comes before the rest. -/
@[simp]
theorem perform_get_bind
    (rest : σ → Stage σ β)
    (state : σ) :
    ((get : Stage σ σ) >>= rest).perform state =
      (rest state).perform state :=
  rfl

/- A change of the state comes before the rest. -/
@[simp]
theorem perform_modify_bind
    (change : σ → σ)
    (rest : PUnit → Stage σ β)
    (state : σ) :
    ((modify change : Stage σ PUnit) >>= rest).perform state =
      (rest ⟨⟩).perform (change state) :=
  rfl

/- A stage that succeeds is not tried again. -/
theorem perform_tryCatch_ok
    {stage : Stage σ α}
    {state later : σ}
    {value : α}
    (hStage : stage.perform state = (.ok value, later))
    (other : Failure → Stage σ α) :
    (tryCatch stage other).perform state =
      (.ok value, later) := by
  unfold perform at hStage ⊢
  rw [ExceptT.run_tryCatch, StateT.run_bind, hStage]
  rfl

/- Another stage goes on from where one has failed. -/
theorem perform_tryCatch_error
    {stage : Stage σ α}
    {state later : σ}
    {failure : Failure}
    (hStage : stage.perform state = (.error failure, later))
    (other : Failure → Stage σ α) :
    (tryCatch stage other).perform state =
      (other failure).perform later := by
  unfold perform at hStage ⊢
  rw [ExceptT.run_tryCatch, StateT.run_bind, hStage]
  rfl

/- Wrapping failures does nothing else. -/
theorem perform_adapt
    (wrap : Failure → Failure)
    (stage : Stage σ α)
    (state : σ) :
    perform (ExceptT.adapt wrap stage : Stage σ α) state =
      ((stage.perform state).1.mapError wrap,
        (stage.perform state).2) :=
  rfl

/- Watching a stage does not change how it ends. -/
theorem perform_observed
    (stage : Stage σ α)
    (onSuccess : σ → α → σ)
    (onFailure : σ → Failure → σ)
    (state : σ) :
    (stage.observed onSuccess onFailure).perform state =
      ((stage.perform state).1,
        (stage.perform state).1.fold
          (onFailure (stage.perform state).2)
          (onSuccess (stage.perform state).2)) :=
  rfl

------------------------------------------------------------
-- What Stages Keep
------------------------------------------------------------

/- A stage leaves a state that is related to the first one. -/
def Keeps
    (relation : σ → σ → Prop)
    (stage : Stage σ α) : Prop :=
  ∀ state, relation state (stage.perform state).2

namespace Keeps

variable {relation : σ → σ → Prop} {stage : Stage σ α}

/- So do two stages one after the other. -/
theorem bind
    {rest : α → Stage σ β}
    (hStage : Keeps relation stage)
    (hRest : ∀ value, Keeps relation (rest value))
    (hTrans :
      ∀ {a b c}, relation a b → relation b c → relation a c) :
    Keeps relation (stage >>= rest) := by
  intro state
  have hFirst := hStage state
  rcases hPerform : stage.perform state with
    ⟨outcome, later⟩
  rw [hPerform] at hFirst
  cases outcome with
  | ok value =>
      rw [perform_bind_ok hPerform]
      exact hTrans hFirst (hRest value later)
  | error failure =>
      rw [perform_bind_error hPerform]
      exact hFirst

/- So does trying another stage after a failure. -/
theorem tryCatch
    {other : Failure → Stage σ α}
    (hStage : Keeps relation stage)
    (hOther : ∀ failure, Keeps relation (other failure))
    (hTrans :
      ∀ {a b c}, relation a b → relation b c → relation a c) :
    Keeps relation
      (MonadExcept.tryCatch stage other : Stage σ α) := by
  intro state
  have hFirst := hStage state
  rcases hPerform : stage.perform state with
    ⟨outcome, later⟩
  rw [hPerform] at hFirst
  cases outcome with
  | ok value =>
      rw [perform_tryCatch_ok hPerform]
      exact hFirst
  | error failure =>
      rw [perform_tryCatch_error hPerform]
      exact hTrans hFirst (hOther failure later)

/- Noting the outcome keeps what the notes keep. -/
theorem observed
    {onSuccess : σ → α → σ}
    {onFailure : σ → Failure → σ}
    (hStage : Keeps relation stage)
    (hSuccess :
      ∀ state value, relation state (onSuccess state value))
    (hFailure :
      ∀ state failure,
        relation state (onFailure state failure))
    (hTrans :
      ∀ {a b c}, relation a b → relation b c → relation a c) :
    Keeps relation (stage.observed onSuccess onFailure) := by
  intro state
  have hFirst := hStage state
  rw [perform_observed]
  rcases hPerform : stage.perform state with
    ⟨outcome, later⟩
  rw [hPerform] at hFirst
  cases outcome with
  | ok value => exact hTrans hFirst (hSuccess later value)
  | error failure =>
      exact hTrans hFirst (hFailure later failure)

/- A stage on a part keeps what it keeps of the part. -/
theorem focus
    {get : τ → σ}
    {set : τ → σ → τ}
    {whole : τ → τ → Prop}
    (hStage : Keeps relation stage)
    (hPart :
      ∀ state part, relation (get state) part →
        whole state (set state part)) :
    Keeps whole (focus get set stage) := by
  intro state
  exact hPart state _ (hStage (get state))

end Keeps

------------------------------------------------------------
-- What Stages Cannot Tell
------------------------------------------------------------

/- From related states a stage ends alike. -/
def Respects
    (relation : σ → σ → Prop)
    (stage : Stage σ α) : Prop :=
  ∀ one other, relation one other →
    (stage.perform other).1 = (stage.perform one).1 ∧
      relation (stage.perform one).2 (stage.perform other).2

namespace Respects

variable {relation : σ → σ → Prop} {stage : Stage σ α}

/- So do two stages one after the other. -/
theorem bind
    {rest : α → Stage σ β}
    (hStage : Respects relation stage)
    (hRest : ∀ value, Respects relation (rest value)) :
    Respects relation (stage >>= rest) := by
  intro one other hRelated
  rcases hOne : stage.perform one with ⟨outcome, later⟩
  rcases hOther : stage.perform other with ⟨also, later'⟩
  have hFirst := hStage one other hRelated
  rw [hOne, hOther] at hFirst
  rcases hFirst with ⟨rfl, hLater⟩
  cases also with
  | ok value =>
      rw [perform_bind_ok hOne, perform_bind_ok hOther]
      exact hRest value later later' hLater
  | error failure =>
      rw [perform_bind_error hOne, perform_bind_error hOther]
      exact ⟨rfl, hLater⟩

/- So does noting the outcome. -/
theorem observed
    {onSuccess : σ → α → σ}
    {onFailure : σ → Failure → σ}
    (hStage : Respects relation stage)
    (hSuccess :
      ∀ one other value, relation one other →
        relation (onSuccess one value)
          (onSuccess other value))
    (hFailure :
      ∀ one other failure, relation one other →
        relation (onFailure one failure)
          (onFailure other failure)) :
    Respects relation
      (stage.observed onSuccess onFailure) := by
  intro one other hRelated
  have hStaged := hStage one other hRelated
  rw [perform_observed, perform_observed]
  rcases hOne : stage.perform one with ⟨outcome, later⟩
  rcases hOther : stage.perform other with ⟨also, later'⟩
  rw [hOne, hOther] at hStaged
  rcases hStaged with ⟨rfl, hLater⟩
  refine ⟨rfl, ?_⟩
  cases also with
  | ok value => exact hSuccess later later' value hLater
  | error failure =>
      exact hFailure later later' failure hLater

/- So does a stage on parts that are the same. -/
theorem focus
    {get : τ → σ}
    {set : τ → σ → τ}
    {whole : τ → τ → Prop}
    (hStage : Respects relation stage)
    (hGet :
      ∀ one other, whole one other →
        relation (get one) (get other))
    (hSet :
      ∀ one other part part', whole one other →
        relation part part' →
        whole (set one part) (set other part')) :
    Respects whole (Stage.focus get set stage) := by
  intro one other hRelated
  rcases hStage (get one) (get other)
      (hGet one other hRelated) with
    ⟨hSame, hLater⟩
  exact ⟨hSame, hSet one other _ _ hRelated hLater⟩

/- So does a change that keeps the relation. -/
theorem of_modify
    {change : σ → σ}
    (hChange :
      ∀ one other, relation one other →
        relation (change one) (change other)) :
    Respects relation (modify change : Stage σ PUnit) := by
  intro one other hRelated
  exact ⟨rfl, hChange one other hRelated⟩

/- So does every stage from equal states. -/
theorem of_eq (stage : Stage σ α) :
    Respects (· = ·) stage := by
  rintro one _ rfl
  exact ⟨rfl, rfl⟩

end Respects

------------------------------------------------------------
-- What Stages Lift
------------------------------------------------------------

/-
  A stage that succeeds from a state also succeeds from every
  state related to it, with the same value.
-/
def Lifts
    (relation : σ → σ → Prop)
    (stage : Stage σ α) : Prop :=
  ∀ one other value later, relation one other →
    stage.perform one = (.ok value, later) →
    ∃ later',
      stage.perform other = (.ok value, later') ∧
        relation later later'

/- What cannot tell two states apart does so. -/
theorem Respects.lifts
    {relation : σ → σ → Prop}
    {stage : Stage σ α}
    (hStage : Respects relation stage) :
    Lifts relation stage := by
  intro one other value later hRelated hOne
  have hSame := hStage one other hRelated
  rw [hOne] at hSame
  exact
    ⟨(stage.perform other).2, Prod.ext hSame.1 rfl, hSame.2⟩

namespace Lifts

variable {relation : σ → σ → Prop} {stage : Stage σ α}

/- So do two stages one after the other. -/
theorem bind
    {rest : α → Stage σ β}
    (hStage : Lifts relation stage)
    (hRest : ∀ value, Lifts relation (rest value)) :
    Lifts relation (stage >>= rest) := by
  intro one other value later hRelated hBoth
  rcases bind_ok_cases hBoth with
    ⟨first, between, hFirst, hLater⟩
  rcases hStage one other first between hRelated hFirst with
    ⟨between', hOther, hBetween⟩
  rcases hRest first between between' value later hBetween
      hLater with
    ⟨later', hLast, hRelates⟩
  refine ⟨later', ?_, hRelates⟩
  rw [perform_bind_ok hOther, hLast]

/- So does a stage on related parts. -/
theorem focus
    {get : τ → σ}
    {set : τ → σ → τ}
    {whole : τ → τ → Prop}
    (hStage : Lifts relation stage)
    (hGet :
      ∀ one other, whole one other →
        relation (get one) (get other))
    (hSet :
      ∀ one other part part', whole one other →
        relation part part' →
        whole (set one part) (set other part')) :
    Lifts whole (Stage.focus get set stage) := by
  intro one other value later hRelated hOne
  rw [perform_focus] at hOne
  rcases hPart : stage.perform (get one) with
    ⟨outcome, part⟩
  rw [hPart] at hOne
  cases hOne
  rcases hStage _ _ value part (hGet one other hRelated)
      hPart with
    ⟨part', hOther, hParts⟩
  refine ⟨_, ?_, hSet one other part part' hRelated hParts⟩
  rw [perform_focus, hOther]

end Lifts

end Stage

end ArchiveRescue
