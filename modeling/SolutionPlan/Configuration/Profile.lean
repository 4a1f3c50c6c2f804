import SolutionPlan.Configuration.Inheritance
import SolutionPlan.Glob.Match

/-!
# Profiles

What a solution or a project says about its configurations: a set of them for everything, and one
set for each file pattern. A description fills a profile write by write; a file's own
configurations come from the rules whose pattern matches it.
-/

namespace SolutionPlan

/-! ## File patterns -/

structure FilePattern where
  text : String
  tokens : List Glob.Token
deriving DecidableEq, Repr

namespace FilePattern

def withSlashes (text : String) : String :=
  String.ofList (Text.replaceChar '\\' '/' text.toList)

/-- Either kind of slash separates the components of a pattern and of a path. -/
def compile (text : String) : Except Glob.PatternError FilePattern :=
  (Glob.compile (withSlashes text)).map fun tokens => ⟨text, tokens⟩

def accepts (p : FilePattern) (path : String) : Bool :=
  Glob.accepts .sensitive p.tokens (withSlashes path).toList

end FilePattern

/-! ## Profiles -/

structure FileRule where
  pattern : FilePattern
  overrides : ConfigurationSet
deriving DecidableEq

structure Profile where
  base : ConfigurationSet
  rules : List FileRule
deriving DecidableEq

/-- A configuration of a profile: one for everything, or one for the files of a pattern. -/
structure Place where
  rule : Option FilePattern
  slot : Slot
deriving DecidableEq

structure Write where
  place : Place
  edit : Edit
deriving DecidableEq

namespace Profile

def empty : Profile := ⟨.empty, []⟩

def hasRule (p : Profile) (pattern : FilePattern) : Bool :=
  p.rules.any fun r => r.pattern.text == pattern.text

/-- The profile with a rule for this pattern; patterns are told apart by their text. -/
def ensureRule (p : Profile) (pattern : FilePattern) : Profile :=
  if p.hasRule pattern then p else { p with rules := p.rules ++ [⟨pattern, .empty⟩] }

def overrides (p : Profile) (pattern : FilePattern) : ConfigurationSet :=
  ((p.rules.find? fun r => r.pattern.text == pattern.text).map FileRule.overrides).getD .empty

def updateSet (p : Profile) (rule : Option FilePattern) (f : ConfigurationSet → ConfigurationSet) :
    Profile :=
  match rule with
  | none => { p with base := f p.base }
  | some pattern =>
      let p := p.ensureRule pattern
      { p with
        rules := modifyFirst (fun r => r.pattern.text == pattern.text)
          (fun r => { r with overrides := f r.overrides }) p.rules }

def set (p : Profile) : Option FilePattern → ConfigurationSet
  | none => p.base
  | some pattern => p.overrides pattern

def write (p : Profile) (w : Write) : Profile :=
  p.updateSet w.place.rule fun s => s.update w.place.slot fun c => c.edit w.edit

def writeAll (p : Profile) (writes : List Write) : Profile := writes.foldl write p

/-! ## Resolution -/

def applyRules (rules : List FileRule) : List FileRule :=
  rules.map fun r => { r with overrides := r.overrides.applyShared }

def applyShared (p : Profile) : Profile := ⟨p.base.applyShared, applyRules p.rules⟩

/-- A project's profile under the profile of its solution. Rules are not inherited. -/
def inheritFrom (p solution : Profile) : Profile :=
  ⟨p.base.inheritFrom solution.base, applyRules p.rules⟩

/-- Merges the configurations of the rules that match the path, in the order of the rules. -/
def mergeMatching (p : Profile) (path : String) (s : ConfigurationSet) : ConfigurationSet :=
  (p.rules.filter fun r => r.pattern.accepts path).foldl (fun s r => s.mergeFrom r.overrides) s

end Profile

end SolutionPlan
