import ArchiveRescue.Failure

/-
  This file defines the outcomes of steps, the ways to watch
  and to collapse them, and the stages that operations are
  made of.  A stage works on a state, which it keeps also
  when it fails.

  Key definitions include:
    * `Outcome`
    * `Outcome.tap`
    * `Outcome.tapWith`
    * `Outcome.fold`
    * `Outcome.ofFault`
    * `Attempt`
    * `Attempt.guarded`
    * `Stage`
    * `Stage.observed`
-/

namespace ArchiveRescue

------------------------------------------------------------
-- Outcomes
------------------------------------------------------------

/- A step ends with a value or with a failure. -/
abbrev Outcome (α : Type) :=
  Except Failure α

namespace Outcome

variable {α β σ : Type}

/- Collapse both kinds of outcome into one value. -/
def fold
    (outcome : Outcome α)
    (onFailure : Failure → β)
    (onSuccess : α → β) : β :=
  match outcome with
  | .error failure => onFailure failure
  | .ok value => onSuccess value

/-
  Update a state from an outcome and hand the outcome on
  unchanged.
-/
def tapWith
    (outcome : Outcome α)
    (state : σ)
    (onSuccess : σ → α → σ)
    (onFailure : σ → Failure → σ) : Outcome α × σ :=
  (outcome, outcome.fold (onFailure state) (onSuccess state))

/-
  Append a note about an outcome to notes taken so far, and
  hand the outcome on unchanged.
-/
def tap
    (outcome : Outcome α)
    (notes : List String)
    (onSuccess : α → String)
    (onFailure : Failure → String) :
    Outcome α × List String :=
  outcome.tapWith notes
    (fun taken value => taken ++ [onSuccess value])
    (fun taken failure => taken ++ [onFailure failure])

/- Report a fault as a failure of the step named `origin`. -/
def ofFault
    (origin : String)
    (result : Except Fault α) : Outcome α :=
  result.mapError (.faulted origin)

end Outcome

------------------------------------------------------------
-- Guarded Steps
------------------------------------------------------------

/-
  A step either ends or panics.  The payload of a panic may
  have no words.
-/
inductive Attempt (α : Type) where
  | ended (outcome : Outcome α)
  | panicked (payload : Option String)

namespace Attempt

variable {α : Type}

/- Turn a panic of the step named `origin` into a failure. -/
def guarded
    (origin : String) : Attempt α → Outcome α
| .ended outcome => outcome
| .panicked payload =>
    let words := payload.getD "unknown panic payload"
    .error (.faulted origin (.panicked words))

end Attempt

------------------------------------------------------------
-- Stages
------------------------------------------------------------

/- A step that works on a state. -/
abbrev Stage (σ α : Type) :=
  ExceptT Failure (StateM σ) α

namespace Stage

variable {σ τ α : Type}

/- A stage given by its effect on the state. -/
def ofStep
    (step : σ → Outcome α × σ) : Stage σ α :=
  ExceptT.mk (StateT.mk (fun state => step state))

/- Run a stage from a state. -/
def perform
    (stage : Stage σ α)
    (state : σ) : Outcome α × σ :=
  StateT.run (ExceptT.run stage) state

/- Stop with a failure. -/
def fail (failure : Failure) : Stage σ α :=
  throw failure

/- Report a fault as a failure of the step named `origin`. -/
def ofFault
    (origin : String)
    (result : Except Fault α) : Stage σ α :=
  ExceptT.mk (pure (Outcome.ofFault origin result))

/- Run a stage on a part of a larger state. -/
def focus
    (get : τ → σ)
    (set : τ → σ → τ)
    (stage : Stage σ α) : Stage τ α :=
  ofStep (fun whole =>
    let (outcome, part) := stage.perform (get whole)
    (outcome, set whole part))

/- Note the outcome of a stage in its state. -/
def observed
    (stage : Stage σ α)
    (onSuccess : σ → α → σ)
    (onFailure : σ → Failure → σ) : Stage σ α :=
  ofStep (fun start =>
    let (outcome, final) := stage.perform start
    outcome.tapWith final onSuccess onFailure)

end Stage

end ArchiveRescue
