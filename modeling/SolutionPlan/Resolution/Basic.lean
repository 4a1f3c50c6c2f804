import SolutionPlan.Resolution.Classification
import SolutionPlan.Resolution.Directories
import SolutionPlan.Resolution.Generation
import SolutionPlan.Resolution.References

/-!
# Resolution

A solution as it was read becomes one in which references point to projects, configurations have
inherited, every source has a target and generated sources are added. Only authored projects change.
-/

namespace SolutionPlan

/-- An authored project under the profile and the targets of its solution. -/
def Project.resolve (p : Project) (profile : Profile) (targets : List Target) :
    Logged Project := do
  let p := { p with profile := p.profile.inheritFrom profile }
  let p ← p.classify targets false
  let p ← p.generate targets
  let p ← p.classify targets true
  p.buildDirectories

def Solution.resolve (s : Solution) : Logged Solution := do
  let s ← s.resolveReferences
  let profile := s.profile.applyShared
  let projects ← s.projects.mapM fun p =>
    if p.external then pure p else p.resolve profile s.targets
  pure { s with profile := profile, projects := projects }

end SolutionPlan
