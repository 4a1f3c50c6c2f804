import SolutionPlan.Diagnostics
import SolutionPlan.Solution.Basic

/-!
# Classification

Every target in turn claims the sources with its extensions. The first claim holds and later ones
are recorded; a source that no target claims falls to the first target.
-/

namespace SolutionPlan.Project

structure Candidate where
  path : Path
  ext : String
deriving DecidableEq, Repr

def candidates (p : Project) (generated : Bool) : List Candidate :=
  (p.sources.filter fun s => s.generated == generated && s.target.isNone).map fun s =>
    ⟨s.path, s.path.extension?.getD ""⟩

def targetName (targets : List Target) (i : Nat) : String :=
  (targets[i]?.map Target.name).getD ""

def claim (targets : List Target) (target : Target) (i : Nat) (p : Project) (c : Candidate) :
    Logged Project :=
  if target.claims c.ext then
    match p.assignTarget c.path i with
    | .ok p => pure p
    | .error kept => do
        if kept ≠ i then
          Logged.report (.severalTargets c.path (targetName targets kept) target.name)
        pure p
  else pure p

/-- A candidate without a target falls to the first one. -/
def claimRest (targets : List Target) (p : Project) (c : Candidate) : Logged Project :=
  match p.assignTarget c.path 0 with
  | .ok assigned => do
      Logged.report (.noTarget c.path p.name (targetName targets 0))
      pure assigned
  | .error _ => pure p

/-- Gives a target to every source without one that is generated or not, as the flag says. -/
def classify (p : Project) (targets : List Target) (generated : Bool) : Logged Project := do
  let found := p.candidates generated
  let claimed ← targets.zipIdx.foldlM
    (fun p (target, i) => found.foldlM (claim targets target i) p) p
  found.foldlM (claimRest targets) claimed

end SolutionPlan.Project
