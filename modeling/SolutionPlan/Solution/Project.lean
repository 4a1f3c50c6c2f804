import SolutionPlan.Configuration.Profile
import SolutionPlan.Solution.Kind
import SolutionPlan.Table

/-!
# Projects

A project holds sources, each under its own path and owned by one of the project's filters.
Including a path again only changes its filter, and a filter can exclude no source but its own.
-/

namespace SolutionPlan

/-! ## Filters -/

structure SubFilter where
  name : String
  directory : String
deriving DecidableEq, Repr

structure Filter where
  name : String
  root : Path
  directories : Bool
  subFilters : List SubFilter
deriving DecidableEq, Repr

namespace Filter

def rooted (name : String) (root : Path) : Filter := ⟨name, root, false, []⟩

def rootWithSeparator (f : Filter) : String :=
  let root := f.root.toSlash
  if root.toList.getLast? = some '/' then root else root ++ "/"

def subFilterIndex? (f : Filter) (directory : String) : Option Nat :=
  f.subFilters.findIdx? fun s => s.directory == directory

def ensureSubFilter (f : Filter) (directory : String) : Nat × Filter :=
  match f.subFilterIndex? directory with
  | some i => (i, f)
  | none =>
      let shown := String.ofList (Text.replaceChar '/' '\\' directory.toList)
      (f.subFilters.length,
        { f with subFilters := f.subFilters ++ [⟨f.name ++ "\\" ++ shown, directory⟩] })

end Filter

/-! ## Sources and references -/

/-- A file of a project. Filter, target and sub-filter are places in the lists of the project, the
solution and the filter. -/
structure Source where
  path : Path
  filter : Nat
  target : Option Nat
  generated : Bool
  subFilter : Option Nat
deriving DecidableEq, Repr

inductive ReferenceKind where
  | reference
  | dependency
deriving DecidableEq, Repr

structure Reference where
  project : String
  kind : ReferenceKind
  settings : List (String × String)
  resolved : Option Nat
deriving DecidableEq, Repr

/-! ## Projects -/

/-- An authored project has no identifier until one is given to it; an external one brings its
own. -/
structure Project where
  name : String
  kind : ProjectKind
  path : Path
  sourceRoot : Path
  folder : Option Nat
  filters : List Filter
  sources : List Source
  profile : Profile
  macros : Table String
  references : List Reference
  guid : Option Guid
  external : Bool
deriving DecidableEq

namespace Project

def authored (name : String) (kind : ProjectKind) (path sourceRoot : Path) : Project where
  name := name
  kind := kind
  path := path
  sourceRoot := sourceRoot
  folder := none
  filters := []
  sources := []
  profile := .empty
  macros := []
  references := []
  guid := none
  external := false

/-- A project that exists already. Its sources are not known. -/
def ofExternal (name : String) (kind : ProjectKind) (path : Path) (guid : Guid) : Project :=
  { authored name kind path path.parentOrEmpty with guid := some guid, external := true }

def directory (p : Project) : Path := p.path.parentOrEmpty

def addFilter (p : Project) (f : Filter) : Project := { p with filters := p.filters ++ [f] }

def findFilter? (p : Project) (name : String) : Option Nat :=
  p.filters.findIdx? fun f => Text.sameIgnoringCase f.name name

/-! ### Sources -/

def findSource? (p : Project) (path : Path) : Option Source :=
  p.sources.find? fun s => s.path.same path

def hasSource (p : Project) (path : Path) : Bool := (p.findSource? path).isSome

def modifySource (p : Project) (path : Path) (f : Source → Source) : Project :=
  { p with sources := modifyFirst (fun s => s.path.same path) f p.sources }

def insertSource (p : Project) (path : Path) (filter : Nat) (generated : Bool) : Project :=
  if p.hasSource path then p.modifySource path fun s => { s with filter := filter }
  else { p with sources := p.sources ++ [⟨path, filter, none, generated, none⟩] }

def includeSource (p : Project) (path : Path) (filter : Nat) : Project :=
  p.insertSource path filter false

def owns (p : Project) (filter : Nat) (path : Path) : Bool :=
  (p.findSource? path).any fun s => s.filter == filter

def exclude (p : Project) (path : Path) (filter : Nat) : Project :=
  if p.owns filter path then { p with sources := p.sources.eraseP fun s => s.path.same path }
  else p

def filterSources (p : Project) (filter : Nat) : List Source :=
  p.sources.filter fun s => s.filter == filter

def targetSources (p : Project) (target : Nat) : List Source :=
  p.sources.filter fun s => s.target == some target

/-- Gives the source a target, unless it has one, which is then the answer. -/
def assignTarget (p : Project) (path : Path) (target : Nat) : Except Nat Project :=
  match p.findSource? path with
  | none => .ok p
  | some s =>
      match s.target with
      | some existing => .error existing
      | none => .ok (p.modifySource path fun s => { s with target := some target })

end Project

end SolutionPlan
