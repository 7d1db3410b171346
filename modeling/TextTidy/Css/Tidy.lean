import TextTidy.Log
import TextTidy.Css.Comment
import TextTidy.Css.Compact
import TextTidy.Css.Correction
import TextTidy.Css.Outcome
import TextTidy.Css.Validation

/-!
# Tidying a stylesheet

Comments go first. A valid stylesheet is then compacted; an invalid one gets one correction and, if
it is valid after that, is compacted too. A stylesheet that stays invalid is never compacted, not
even in part. `attempt` takes these decisions; the outcome and the log are two views of what it
returns.
-/

namespace TextTidy.Css

/-- What one attempt at a stylesheet came to, with the verdicts that led there. -/
inductive Attempt where
  | empty
  | valid (css : Text) (verdict : Validation)
  | repaired (first : Validation) (correction : Correction) (second : Validation)
  | beyondRepair (first : Validation) (correction : Correction)

/-- Validates a stylesheet and, if need be, corrects it once and validates it again. -/
def attempt (raw : Text) : Attempt :=
  if raw.isBlank then .empty
  else
    let css := stripComments raw
    let first := validate css
    if first.isValid then .valid css first
    else
      let correction := correct css
      let second := validate correction.text
      if second.isValid then .repaired first correction second else .beyondRepair first correction

/-- Why there is no compact stylesheet. -/
inductive Failure where
  | emptyInput
  | unsound (reason : Unsound)
deriving DecidableEq, Repr

/-- The wording of a failure. -/
def Failure.message : Failure → String
  | emptyInput => "CSS input is empty"
  | unsound reason => reason.message

namespace Attempt

/-- The outcome of a successful attempt, or why it failed. A stylesheet beyond repair fails with the
    errors of its first validation. -/
def result : Attempt → Except Failure Outcome
  | empty => .error .emptyInput
  | valid css verdict => .ok ⟨.minified, compact css, [], verdict.warnings, []⟩
  | repaired _ correction second =>
    .ok ⟨.correctedAndMinified, compact correction.text, correction.fixes, second.warnings, []⟩
  | beyondRepair first _ =>
    .error (.unsound ⟨first.diagnostics.filter Diagnostic.isError⟩)

end Attempt

/-- The outcome for a stylesheet that can be compacted, or why it cannot. -/
def tidy? (raw : Text) : Except Failure Outcome := (attempt raw).result

/-- The outcome of a failure. -/
def Failure.outcome : Failure → Outcome
  | emptyInput => .ofKind .emptyInput
  | unsound reason => ⟨.rejected, [], [], [], reason.errors⟩

/-- The outcome for a stylesheet; failures are outcomes too. -/
def tidy (raw : Text) : Outcome :=
  match tidy? raw with
  | .ok outcome => outcome
  | .error failure => failure.outcome

/-! ## The log -/

/-- The stages that the work passes through. -/
inductive Stage where
  | idle
  | commentsStripped
  | validating
  | valid
  | correcting
  | revalidating
  | minified
  | rejected
deriving DecidableEq, Repr

/-- The name of a stage. -/
def Stage.name : Stage → String
  | idle => "idle"
  | commentsStripped => "comments_stripped"
  | validating => "validating"
  | valid => "valid"
  | correcting => "correcting"
  | revalidating => "revalidating"
  | minified => "minified"
  | rejected => "rejected"

/-- Something worth telling about the work on a stylesheet. -/
inductive Event where
  | entered (stage : Stage)
  | invalid (errors : List String)
  | fixed (fix : String)
  | gaveUp

/-- The log record of an event. -/
def Event.record : Event → LogRecord
  | entered stage => ⟨.debug, "textsmith.css.pipeline", "CSS pipeline stage: " ++ stage.name⟩
  | invalid errors =>
    ⟨.info, "textsmith.css.pipeline", "CSS failed validation: " ++ String.intercalate "; " errors⟩
  | fixed fix => ⟨.info, "textsmith.css.corrector", "Auto-correction: " ++ fix⟩
  | gaveUp => ⟨.info, "textsmith.css.pipeline", "CSS rejected after auto-correction"⟩

/-- The events up to the second validation of a stylesheet that needed correction. -/
def correctionEvents (first : Validation) (correction : Correction) : List Event :=
  [.entered .idle, .entered .commentsStripped, .entered .validating, .invalid first.errors,
    .entered .correcting] ++ correction.fixes.map .fixed ++ [.entered .revalidating]

/-- The events of an attempt, in order. -/
def Attempt.events : Attempt → List Event
  | empty => [.entered .idle]
  | valid _ _ =>
    [.entered .idle, .entered .commentsStripped, .entered .validating, .entered .valid,
      .entered .minified]
  | repaired first correction _ => correctionEvents first correction ++ [.entered .minified]
  | beyondRepair first correction =>
    correctionEvents first correction ++ [.entered .rejected, .gaveUp]

/-- The log of the work on a stylesheet. -/
def tidyLog (raw : Text) : List LogRecord := (attempt raw).events.map Event.record

end TextTidy.Css
