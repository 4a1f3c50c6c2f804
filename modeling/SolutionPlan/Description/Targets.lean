import SolutionPlan.Description.Node
import SolutionPlan.Solution.Basic

/-!
# Targets in a description

A `targets` element gives extensions to the four predefined targets and describes custom ones. The
predefined targets come in a fixed order, whatever the order of their elements.
-/

namespace SolutionPlan

def predefinedTargets : List (String × String) :=
  [("compile", "ClCompile"), ("include", "ClInclude"), ("none", "None"), ("text", "Text")]

/-! ## Build steps -/

def switch? (e : Node) (name : String) : Logged (Option Bool) :=
  match e.first? name with
  | none => pure none
  | some child =>
      let value := Text.trimmed child.text
      match parseBool? value with
      | some b => pure (some b)
      | none => do
          Logged.report (.invalidSwitch value name)
          pure none

def readStepOptions (e : Node) : Logged StepOptions := do
  let text (name : String) := (e.first? name).map Node.text
  let link ← switch? e "link"
  let content ← switch? e "content"
  pure ⟨text "command", text "message", text "outputs", text "inputs", link, content⟩

def readStepBlock (target : String) (step : BuildStep) (e : Node) : Logged BuildStep :=
  match e.attribute? "name" with
  | none => do
      Logged.report (.stepWithoutConfiguration target)
      pure step
  | some name => do
      let options ← readStepOptions e
      pure { step with configurations := step.configurations.put name options }

def readStep (target : String) (e : Node) : Logged BuildStep := do
  let shared ← (e.first? "shared").toList.mapM readStepOptions
  let blocks := e.children.filter fun b => b.name == "configuration" || b.name == "configurations"
  blocks.foldlM (readStepBlock target) ⟨shared.head?, []⟩

/-! ## Targets -/

private def addExtensions (t : Target) (es : List Node) : Target :=
  es.foldl (fun t e => t.addExtension e.text) t

private def generatorOf (e : Node) : Generator := ⟨Text.trimmed e.text, e.attribute? "filter"⟩

/-- A custom target without child elements is given its extension as text. -/
def readCustomTarget (e : Node) (s : Solution) : Logged Solution :=
  match e.attribute? "name" with
  | none => do
      Logged.report .targetWithoutName
      pure s
  | some name =>
      let define (t : Target) : Target :=
        match e.attribute? "definition" with
        | some definition => { t with definition := some (e.resolve definition) }
        | none => t
      if e.children.isEmpty then
        pure (s.updateTarget name fun t => (define t).addExtension e.text)
      else do
        let steps ← (e.first? "build").toList.mapM (readStep name)
        pure (s.updateTarget name fun t =>
          let t := addExtensions (define t) (e.named "extension")
          { t with
            generators := t.generators ++ (e.named "generate").map generatorOf
            step := steps.head? <|> t.step })

def readPredefined (e : Node) (s : Solution) (entry : String × String) : Solution :=
  match e.named entry.1 with
  | [] => s
  | found => s.updateTarget entry.2 fun t => addExtensions t found

def readTargets (e : Node) (s : Solution) : Logged Solution :=
  match e.first? "targets" with
  | none => pure s
  | some targets =>
      targets.readLayers
        (fun layer s =>
          (layer.named "custom").foldlM (fun s custom => readCustomTarget custom s)
            (predefinedTargets.foldl (readPredefined layer) s))
        s

end SolutionPlan
