import SolutionPlan.FileSystem.Basic
import SolutionPlan.Setting.Registry
import SolutionPlan.Xml.Character

/-!
# Problems

Everything that can be said about a description while it is read and resolved. Each problem is an
error, which keeps the build from succeeding, or a warning, and has one message.
-/

namespace SolutionPlan

inductive Severity where
  | error
  | warning
deriving DecidableEq, Repr

def Severity.label : Severity → String
  | error => "error"
  | warning => "warning"

inductive Problem where
  | solutionWithoutName
  | unknownPlatform (text : String)
  | importWithoutFile
  | importCycle (document : Path)
  | unreadable (document : Path) (e : ReadError)
  | malformedImport (document : Path) (e : Xml.Malformed)
  | invalidFlag (value label tag : String) (fallback : Bool)
  | folderWithoutName
  | projectWithoutName
  | unknownProjectType (kind project : String)
  | referenceWithoutProject (project : String)
  | dependencyWithoutProject (project : String)
  | filterWithoutName (project : String)
  | patternMissing (tag filter : String)
  | noMatch (files : String) (directory : Path)
  | unusablePattern (files : String) (root : Path) (e : Glob.PatternError)
  | unknownExtension (external : Path)
  | malformedExternal (external : Path) (e : Xml.Malformed)
  | unidentifiedExternal (external : Path)
  | configurationWithoutName (owner : String)
  | invalidRule (files : String) (e : Glob.PatternError)
  | invalidSwitch (value name : String)
  | unknownSetting (scope : Scope) (name : String)
  | invalidBool (value name : String)
  | invalidChoice (value name : String) (choices : List String)
  | unknownWarningLevel (value : String)
  | targetWithoutName
  | stepWithoutConfiguration (target : String)
  | unknownReference (project referenced : String)
  | severalTargets (source : Path) (kept other : String)
  | noTarget (source : Path) (project target : String)
  | missingFilter (filter project : String)
  | outsideRoot (filter : String) (source root : Path)
deriving DecidableEq, Repr

namespace Problem

def severity : Problem → Severity
  | invalidFlag .. | noMatch .. | invalidBool .. | unknownWarningLevel .. | severalTargets ..
  | noTarget .. | missingFilter .. | outsideRoot .. => .warning
  | _ => .error

def message : Problem → String
  | solutionWithoutName => "Missing name for solution"
  | unknownPlatform text => s!"Unknown platform {text}"
  | importWithoutFile => "Import without a file attribute"
  | importCycle document => s!"Import cycle: {document.text} imports itself"
  | unreadable document e => s!"Could not load {document.text}: {e.message}"
  | malformedImport document e => s!"Failed to parse {document.text}: {e.message}"
  | invalidFlag value label tag fallback =>
      s!"Invalid value '{value}' for attribute {label} of <{tag}>, using {fallback}"
  | folderWithoutName => "Missing name for folder"
  | projectWithoutName => "Missing name for project"
  | unknownProjectType kind project => s!"Unknown type {kind} for project {project}"
  | referenceWithoutProject project => s!"Reference without a project attribute in {project}"
  | dependencyWithoutProject project => s!"Dependency without a project attribute in {project}"
  | filterWithoutName project => s!"Missing name for filter in project {project}"
  | patternMissing tag filter => s!"<{tag}> without a files attribute in filter {filter}"
  | noMatch files directory =>
      s!"No match for filter {files}: directory not found: {directory.text}"
  | unusablePattern files root e =>
      s!"Failed to expand {files} under {root.text}: Glob pattern error: {e.message}"
  | unknownExtension external =>
      s!"External project {external.text} has unknown extension. Can't include"
  | malformedExternal external e =>
      s!"Can't open external project {external.text}: {e.message}"
  | unidentifiedExternal external => s!"Failed to parse project {external.text}"
  | configurationWithoutName owner => s!"Missing name for configuration in {owner}"
  | invalidRule files e => s!"Invalid file pattern '{files}': Glob pattern error: {e.message}"
  | invalidSwitch value name => s!"Invalid value '{value}' for {name}, expected true or false"
  | unknownSetting scope name =>
      s!"{name} is not a valid {scope.label} option (or is not supported yet)"
  | invalidBool value name => s!"Invalid boolean value '{value}' for {name}, using false"
  | invalidChoice value name choices =>
      let listed := String.intercalate ", " choices
      s!"'{value}' is not a valid {name} value. Possible values are: {listed}"
  | unknownWarningLevel value => s!"Unknown warning level '{value}', using Level1"
  | targetWithoutName => "Missing name for custom target"
  | stepWithoutConfiguration target =>
      s!"Missing configuration name in build step of target {target}"
  | unknownReference project referenced =>
      s!"Project {project} references unknown project {referenced}"
  | severalTargets source kept other =>
      s!"Source {source.text} matches both {kept} and {other}, keeping {kept}"
  | noTarget source project target =>
      s!"No target for source {source.text} in project {project}, using {target}"
  | missingFilter filter project =>
      s!"Filter {filter} for generated sources does not exist in project {project}, creating it"
  | outsideRoot filter source root =>
      s!"Root path for filter {filter} is not specific enough. " ++
        s!"File {source.text} is outside {root.text}"

end Problem

end SolutionPlan
