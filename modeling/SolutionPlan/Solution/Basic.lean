import SolutionPlan.Solution.Project
import SolutionPlan.Solution.Target

/-!
# Solutions

A solution names its platforms, targets and folders, holds the profile that its projects inherit,
and lists the projects. Its first target always is the one for sources that nothing else claims.
-/

namespace SolutionPlan

structure Folder where
  name : String
  parent : Option Nat
deriving DecidableEq, Repr

structure Solution where
  name : String
  path : Path
  directory : Path
  platforms : List String
  targets : List Target
  profile : Profile
  macros : Table String
  folders : List Folder
  projects : List Project
deriving DecidableEq

namespace Solution

def restTarget : String := "None"

def named (name : String) (path directory : Path) : Solution where
  name := name
  path := path
  directory := directory
  platforms := []
  targets := [.named restTarget]
  profile := .empty
  macros := []
  folders := []
  projects := []

def addPlatform (s : Solution) (platform : String) : Solution :=
  if s.platforms.contains platform then s else { s with platforms := s.platforms ++ [platform] }

def targetIndex? (s : Solution) (name : String) : Option Nat :=
  s.targets.findIdx? fun t => t.name == name

def target? (s : Solution) (name : String) : Option Target :=
  s.targets.find? fun t => t.name == name

def ensureTarget (s : Solution) (name : String) : Solution :=
  if (s.target? name).isSome then s else { s with targets := s.targets ++ [.named name] }

def updateTarget (s : Solution) (name : String) (f : Target → Target) : Solution :=
  let s := s.ensureTarget name
  { s with targets := modifyFirst (fun t => t.name == name) f s.targets }

def addFolder (s : Solution) (f : Folder) : Solution := { s with folders := s.folders ++ [f] }

def addProject (s : Solution) (p : Project) : Solution := { s with projects := s.projects ++ [p] }

def projectIndex? (s : Solution) (name : String) : Option Nat :=
  s.projects.findIdx? fun p => p.name == name

def modifyProject (s : Solution) (i : Nat) (f : Project → Project) : Solution :=
  { s with projects := s.projects.modify i f }

def configurationPlatforms (s : Solution) : List String :=
  s.profile.base.names.flatMap fun c => s.platforms.map fun p => c ++ "|" ++ p

/-- The solution with an identifier for every project that has none, by the project's place. -/
def identify (s : Solution) (fresh : Nat → Guid) : Solution :=
  { s with
    projects := s.projects.mapIdx fun i p => { p with guid := p.guid <|> some (fresh i) } }

end Solution

end SolutionPlan
