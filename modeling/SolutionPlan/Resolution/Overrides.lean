import SolutionPlan.Solution.Basic

/-!
# Overrides of single files

What the file rules of a project and of its solution say about one source, configuration by
configuration. A rule is matched against the path relative to where its owner's sources lie.
-/

namespace SolutionPlan

/-- Empty configurations with the project's names, filled by the matching rules of the project and
then of the solution. -/
def sourceConfigurations (s : Solution) (p : Project) (source : Path) : ConfigurationSet :=
  let names : ConfigurationSet := ⟨p.profile.base.names.map .named, none, false⟩
  s.profile.mergeMatching (source.relativeTo s.directory).toSlash
    (p.profile.mergeMatching (source.relativeTo p.sourceRoot).toSlash names)

def ConfigurationSet.hasOverrides (s : ConfigurationSet) : Bool :=
  s.configurations.any fun c => !c.isEmpty

def overriddenSources (s : Solution) (p : Project) : List Source :=
  p.sources.filter fun source => (sourceConfigurations s p source.path).hasOverrides

end SolutionPlan
