import SolutionPlan.Diagnostics
import SolutionPlan.Setting.Registry
import SolutionPlan.Text.Digits

/-!
# Values of settings

A value is read from its text by the kind of its setting, with a fallback where the text does not
fit. Two values of one setting combine by the nearer one winning, except that lists are joined;
the written form of a value reads back as that value.
-/

namespace SolutionPlan

/-! ## Warning levels -/

inductive WarningLevel where
  | turnOffAllWarnings
  | level1
  | level2
  | level3
  | level4
  | enableAllWarnings
deriving DecidableEq, Repr

namespace WarningLevel

def all : List WarningLevel :=
  [turnOffAllWarnings, level1, level2, level3, level4, enableAllWarnings]

def name : WarningLevel → String
  | turnOffAllWarnings => "TurnOffAllWarnings"
  | level1 => "Level1"
  | level2 => "Level2"
  | level3 => "Level3"
  | level4 => "Level4"
  | enableAllWarnings => "EnableAllWarnings"

def ofNumber? (n : Int) : Option WarningLevel :=
  if n = 0 then some turnOffAllWarnings
  else if n = 1 then some level1
  else if n = 2 then some level2
  else if n = 3 then some level3
  else if n = 4 then some level4
  else none

/-- A number from zero to four, a word, or the name of the level. -/
def parse? (text : String) : Option WarningLevel :=
  match Text.signedNumber? text.toList with
  | some n => ofNumber? n
  | none =>
      if text = "off" ∨ text = "none" then some turnOffAllWarnings
      else if text = "all" then some enableAllWarnings
      else all.find? fun level => level.name == text

end WarningLevel

/-! ## Texts -/

def parseBool? (text : String) : Option Bool :=
  if text = "true" then some true
  else if text = "false" then some false
  else none

def isListSeparator (c : Char) : Bool := c == '\n' || c == ',' || c == ';'

/-- The entries between separators, trimmed; those left empty do not count. -/
def listEntries (s : List Char) : List (List Char) :=
  ((Text.splitWhere isListSeparator s).map Text.trim).filter (· != [])

def splitList (text : String) : List String := (listEntries text.toList).map String.ofList

/-! ## Values -/

inductive SettingValue where
  | bool (b : Bool)
  | choice (value : String)
  | warningLevel (level : WarningLevel)
  | text (value : String)
  | list (entries : List String)
deriving DecidableEq, Repr

namespace SettingValue

def written : SettingValue → String
  | bool b => if b then "true" else "false"
  | choice value => value
  | warningLevel level => level.name
  | text value => value
  | list entries => String.intercalate ";" entries

/-- The nearer value wins; two lists are joined, the nearer one first. -/
def combine : Option SettingValue → Option SettingValue → Option SettingValue
  | some (list own), some (list inherited) => some (list (own ++ inherited))
  | some own, _ => some own
  | none, inherited => inherited

def HasKind : SettingValue → SettingKind → Prop
  | bool _, .bool => True
  | choice value, .choice first others => value ∈ first :: others
  | warningLevel _, .warningLevel => True
  | text _, .text => True
  | list _, .list => True
  | _, _ => False

end SettingValue

/-! ## Reading a value -/

namespace SettingKey

def read (key : SettingKey) (raw : String) : Logged SettingValue :=
  let text := Text.trimmed raw
  match key.kind with
  | .bool =>
      match parseBool? text with
      | some b => pure (.bool b)
      | none => do
          Logged.report (.invalidBool text key.name)
          pure (.bool false)
  | .choice first others =>
      if text ∈ first :: others then pure (.choice text)
      else do
        Logged.report (.invalidChoice text key.name (first :: others))
        pure (.choice first)
  | .warningLevel =>
      match WarningLevel.parse? text with
      | some level => pure (.warningLevel level)
      | none => do
          Logged.report (.unknownWarningLevel text)
          pure (.warningLevel .level1)
  | .text => pure (.text raw)
  | .list => pure (.list (splitList raw))

def readNamed? (scope : Scope) (name raw : String) :
    Option (SettingKey × Logged SettingValue) :=
  (lookup? scope name).map fun key => (key, key.read raw)

end SettingKey

end SolutionPlan
