import SolutionPlan.Description.Solutions
import SolutionPlan.Report
import SolutionPlan.Resolution.Basic

/-!
# Builds

Reading a description and resolving its solutions. Errors recorded on the way end the build, those
of reading before anything is resolved.
-/

namespace SolutionPlan

structure Build where
  description : Description
  problems : List Problem

def Description.resolve (d : Description) : Logged Description := do
  let solutions ← d.solutions.mapM Solution.resolve
  pure { d with solutions := solutions }

def build (fs : FileSystem) (workingDirectory path : Path) (bindings : List (String × String)) :
    Except BuildError Build := do
  let read ← Description.read fs workingDirectory path bindings
  if read.errorCount > 0 then .error (.aborted read.errorCount)
  else
    let resolved := do
      let description ← read
      description.resolve
    if resolved.errorCount > 0 then .error (.aborted resolved.errorCount)
    else .ok ⟨resolved.value, resolved.problems⟩

end SolutionPlan
