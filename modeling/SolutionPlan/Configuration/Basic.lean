import SolutionPlan.Setting.Value

/-!
# Configurations

A configuration has one place for each registered setting, and may say whether files are excluded
from the build. Merging a parent in fills the places that are free, joins lists and changes
nothing else.
-/

namespace SolutionPlan

structure Configuration where
  name : String
  isShared : Bool
  excluded : Option Bool
  values : Vector (Option SettingValue) 28
deriving DecidableEq

namespace Configuration

def named (name : String) : Configuration := ⟨name, false, none, Vector.replicate 28 none⟩

def get? (c : Configuration) (key : SettingKey) : Option SettingValue := c.values.get key

def getNamed? (c : Configuration) (scope : Scope) (name : String) : Option SettingValue :=
  (SettingKey.lookup? scope name).bind c.get?

def set (c : Configuration) (key : SettingKey) (value : SettingValue) : Configuration :=
  { c with values := c.values.set key.val (some value) key.isLt }

def setExcluded (c : Configuration) (excluded : Bool) : Configuration :=
  { c with excluded := some excluded }

/-- The settings that have a value, in the order of the registry. -/
def settings (c : Configuration) : List (SettingKey × SettingValue) :=
  SettingKey.all.filterMap fun key => (c.get? key).map fun value => (key, value)

def isEmpty (c : Configuration) : Bool := c.settings.isEmpty && c.excluded.isNone

def isExcluded (c : Configuration) : Bool := c.excluded == some true

def merge (c parent : Configuration) : Configuration :=
  { c with
    values := Vector.ofFn fun key => SettingValue.combine (c.get? key) (parent.get? key)
    excluded := c.excluded <|> parent.excluded }

/-! ## One view: the value of each setting -/

private theorem get_eq_getElem {α : Type} {n : Nat} (v : Vector α n) (i : Fin n) :
    v.get i = getElem v i.val i.isLt := rfl

@[simp] theorem get?_named (name : String) (key : SettingKey) : (named name).get? key = none := by
  simp [named, get?, get_eq_getElem]

@[simp] theorem get?_merge (c parent : Configuration) (key : SettingKey) :
    (c.merge parent).get? key = SettingValue.combine (c.get? key) (parent.get? key) := by
  simp [merge, get?, get_eq_getElem]

theorem get?_set (c : Configuration) (key other : SettingKey) (value : SettingValue) :
    (c.set key value).get? other = if key = other then some value else c.get? other := by
  simp [set, get?, get_eq_getElem, Vector.getElem_set, Fin.ext_iff]

end Configuration

/-! ## Edits -/

inductive Edit where
  | mention
  | set (key : SettingKey) (value : SettingValue)
  | exclude (excluded : Bool)
deriving DecidableEq, Repr

def Configuration.edit (c : Configuration) : Edit → Configuration
  | .mention => c
  | .set key value => c.set key value
  | .exclude excluded => c.setExcluded excluded

/-- The edit that a setting's text asks for; a setting that is not registered is a problem. -/
def Edit.ofText (scope : Scope) (name raw : String) : Logged (Option Edit) :=
  match SettingKey.readNamed? scope name raw with
  | some (key, read) => do
      let value ← read
      pure (some (.set key value))
  | none => do
      Logged.report (.unknownSetting scope name)
      pure none

end SolutionPlan
