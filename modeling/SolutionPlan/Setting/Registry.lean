import SolutionPlan.Text.Basic

/-!
# Registered settings

The settings that a configuration can give, each with its scope and the kind of its values. Names
are looked up without regard to ASCII case, within one scope.
-/

namespace SolutionPlan

inductive Scope where
  | project
  | compile
  | link
deriving DecidableEq, Repr

/-- How messages name the scope. -/
def Scope.label : Scope → String
  | project => "configuration"
  | compile => "compile"
  | link => "link"

/-- The kind of a setting's values; a choice falls back to its first value. -/
inductive SettingKind where
  | bool
  | choice (first : String) (others : List String)
  | warningLevel
  | text
  | list
deriving DecidableEq, Repr

structure Setting where
  scope : Scope
  name : String
  kind : SettingKind
deriving DecidableEq, Repr

def registry : Vector Setting 28 := #v[
  ⟨.project, "ConfigurationType", .choice "Application" ["StaticLibrary", "DynamicLibrary"]⟩,
  ⟨.project, "UseDebugLibraries", .bool⟩,
  ⟨.project, "PlatformToolset", .choice "v120" ["v140", "v141", "v142", "v143"]⟩,
  ⟨.project, "WholeProgramOptimization", .bool⟩,
  ⟨.project, "CharacterSet", .choice "NotSet" ["Unicode", "MultiByte"]⟩,
  ⟨.project, "IntDir", .text⟩,
  ⟨.project, "OutDir", .text⟩,
  ⟨.compile, "WarningLevel", .warningLevel⟩,
  ⟨.compile, "DebugInformationFormat",
    .choice "None" ["ProgramDatabase", "EditAndContinue", "OldStyle"]⟩,
  ⟨.compile, "Optimization", .choice "Disabled" ["MaxSpeed", "MinSpace", "Full"]⟩,
  ⟨.compile, "FunctionLevelLinking", .bool⟩,
  ⟨.compile, "IntrinsicFunctions", .bool⟩,
  ⟨.compile, "AdditionalIncludeDirectories", .list⟩,
  ⟨.compile, "PreprocessorDefinitions", .list⟩,
  ⟨.compile, "PrecompiledHeader", .bool⟩,
  ⟨.compile, "SDLCheck", .bool⟩,
  ⟨.compile, "MultiProcessorCompilation", .bool⟩,
  ⟨.compile, "MinimalRebuild", .bool⟩,
  ⟨.compile, "CompileAsManaged", .bool⟩,
  ⟨.compile, "FavorSizeOrSpeed", .choice "Neither" ["Speed", "Size"]⟩,
  ⟨.compile, "TreatWarningAsError", .bool⟩,
  ⟨.compile, "ObjectFileName", .text⟩,
  ⟨.compile, "ExceptionHandling", .bool⟩,
  ⟨.link, "SubSystem", .choice "Console" ["Windows"]⟩,
  ⟨.link, "GenerateDebugInformation", .bool⟩,
  ⟨.link, "EnableCOMDATFolding", .bool⟩,
  ⟨.link, "OptimizeReferences", .bool⟩,
  ⟨.link, "AdditionalDependencies", .list⟩]

/-- A registered setting, by its place in the registry. -/
abbrev SettingKey := Fin 28

namespace SettingKey

def setting (key : SettingKey) : Setting := registry.get key

def scope (key : SettingKey) : Scope := key.setting.scope

def name (key : SettingKey) : String := key.setting.name

def kind (key : SettingKey) : SettingKind := key.setting.kind

def all : List SettingKey := List.finRange 28

def ofScope (scope : Scope) : List SettingKey := all.filter fun key => key.scope == scope

def lookup? (scope : Scope) (name : String) : Option SettingKey :=
  (ofScope scope).find? fun key => Text.sameIgnoringCase key.name name

end SettingKey

end SolutionPlan
