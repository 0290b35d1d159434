import ExtensiveForm.SequenceForm.Build
import ExtensiveForm.SequenceTree.Realization
import ExtensiveForm.ExpectedValue
import ExtensiveForm.Text.Quoted

set_option autoImplicit false

namespace ExtensiveForm

open Text (Named listed)

variable {L A : Type} [Named L] [Named A]

def Violation.message : Violation L A → String
  | breach b => b.message
  | actionMismatch seat label frozen found =>
    "Information set " ++ Named.name label ++ " of " ++ seat.text ++ " presents actions "
      ++ listed found ++ " but " ++ listed frozen ++ " were frozen at discovery"
  | parentMismatch seat label =>
    "Information set " ++ Named.name label ++ " of " ++ seat.text
      ++ " re-entered from a different own sequence (perfect recall broken)"

def invalidValue (what : String) : String := "Invalid value: " ++ what

def BuildFault.message : BuildFault L A → String
  | violation v => v.message
  | strayPayoff => invalidValue "A payoff belongs to no information set"

def StrategyFault.message (subject place : String) : StrategyFault → String
  | missing => "No strategy" ++ subject ++ " at " ++ place
  | length given actions =>
    s!"Strategy{subject} at {place} has {given} probabilities for {actions} actions"

def ValuationFault.message : ValuationFault L → String
  | breach b => b.message
  | strategy seat label fault =>
    invalidValue (fault.message (" for " ++ seat.text) (Named.name label))

def outOfBoundsMessage : String := "An index points nowhere"

def PlanFault.message : PlanFault L → String
  | strategy label fault => invalidValue (fault.message "" (Named.name label))
  | outOfBounds => invalidValue outOfBoundsMessage

def PlayFault.message : PlayFault → String
  | form fault => invalidValue fault.message
  | lengths x y m n =>
    invalidValue s!"Realization plans have lengths {x} and {y}, expected {m} and {n}"
  | outOfBounds => invalidValue outOfBoundsMessage

end ExtensiveForm
