import SolutionPlan.Guid

/-!
# Platforms and project kinds

The platforms that a solution can be built for, and the kinds of projects with their type
identifiers.
-/

namespace SolutionPlan

def platforms : List String := ["Win32", "x64", "ARM", "Any CPU"]

/-- The platform of that name; `x86` is another name of the first one. -/
def platform? (text : String) : Option String :=
  let name := Text.trimmed text
  (platforms.find? fun p => Text.sameIgnoringCase p name) <|>
    (if Text.sameIgnoringCase name "x86" then some "Win32" else none)

inductive ProjectKind where
  | cpp
  | csharp
deriving DecidableEq, Repr

namespace ProjectKind

def ofType? (text : String) : Option ProjectKind :=
  if text = "c++" ∨ text = "cpp" then some cpp
  else if text = "c#" then some csharp
  else none

def ofExtension? (text : String) : Option ProjectKind :=
  if text = "vcxproj" then some cpp
  else if text = "csproj" then some csharp
  else none

def label : ProjectKind → String
  | cpp => "c++"
  | csharp => "c#"

def typeGuid : ProjectKind → Guid
  | cpp => .ofNat 0x8BC9CEB88B4A11D08D1100A0C91BC942
  | csharp => .ofNat 0xFAE04EC0301F11D3BF4B00C04F79EFBC

end ProjectKind

def folderTypeGuid : Guid := .ofNat 0x2150E3338FDC42A394741A3956D46DE8

end SolutionPlan
