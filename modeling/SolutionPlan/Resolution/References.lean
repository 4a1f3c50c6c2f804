import SolutionPlan.Diagnostics
import SolutionPlan.Solution.Basic

/-!
# References

Every reference and dependency is resolved to the place of the first project of the name it gives.
-/

namespace SolutionPlan.Solution

def resolveReference (names : List String) (project : String) (r : Reference) :
    Logged Reference := do
  let resolved := names.findIdx? fun name => name == r.project
  if resolved.isNone then Logged.report (.unknownReference project r.project)
  pure { r with resolved := resolved }

def resolveIn (names : List String) (p : Project) : Logged Project := do
  let references ← p.references.mapM (resolveReference names p.name)
  pure { p with references := references }

def resolveReferences (s : Solution) : Logged Solution := do
  let projects ← s.projects.mapM (resolveIn (s.projects.map Project.name))
  pure { s with projects := projects }

end SolutionPlan.Solution
