import SolutionPlan.Path
import SolutionPlan.Table

/-!
# Targets

A target claims sources by their extension, may run a custom build step on each of them, and may
generate further sources from them. Extensions are told apart without regard to ASCII case.
-/

namespace SolutionPlan

/-! ## Build steps -/

structure StepOptions where
  command : Option String
  message : Option String
  outputs : Option String
  inputs : Option String
  link : Option Bool
  content : Option Bool
deriving DecidableEq, Repr

def StepOptions.empty : StepOptions := ⟨none, none, none, none, none, none⟩

def StepOptions.inherit (own parent : StepOptions) : StepOptions where
  command := own.command <|> parent.command
  message := own.message <|> parent.message
  outputs := own.outputs <|> parent.outputs
  inputs := own.inputs <|> parent.inputs
  link := own.link <|> parent.link
  content := own.content <|> parent.content

structure BuildStep where
  shared : Option StepOptions
  configurations : Table StepOptions
deriving DecidableEq, Repr

/-- What the step does in a configuration: its own options, then the shared ones. -/
def BuildStep.resolved (step : BuildStep) (configuration : String) : StepOptions :=
  let own := (step.configurations.get? configuration).getD .empty
  match step.shared with
  | some shared => own.inherit shared
  | none => own

/-! ## Targets -/

structure Generator where
  template : String
  filter : Option String
deriving DecidableEq, Repr

structure Target where
  name : String
  extensions : List String
  definition : Option Path
  step : Option BuildStep
  generators : List Generator
deriving DecidableEq, Repr

namespace Target

def named (name : String) : Target := ⟨name, [], none, none, []⟩

def claims (t : Target) (ext : String) : Bool :=
  t.extensions.any fun claimed => Text.sameIgnoringCase claimed ext

/-- Blanks around an extension and dots in front of it do not count. -/
def addExtension (t : Target) (text : String) : Target :=
  let written := String.ofList ((Text.trim text.toList).dropWhile (· == '.'))
  if written = "" ∨ t.claims written then t
  else { t with extensions := t.extensions ++ [written] }

end Target

end SolutionPlan
