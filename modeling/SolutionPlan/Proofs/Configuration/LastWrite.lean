import Mathlib.Data.List.Induction
import SolutionPlan.Proofs.Configuration.Views
import SolutionPlan.Proofs.Resolution.Firsts

/-!
# The last write

A profile that is written from nothing is known place by place. At each place the last write that
says something about a setting has the word, and nothing else that is written before or elsewhere
shows. Configurations and rules stand in the order in which they are mentioned first.
-/

namespace SolutionPlan

/-! ## What one edit says -/

def Edit.value? (key : SettingKey) : Edit → Option SettingValue
  | .set other value => if other = key then some value else none
  | _ => none

def Edit.excluded? : Edit → Option Bool
  | .exclude excluded => some excluded
  | _ => none

theorem Configuration.get?_edit (c : Configuration) (e : Edit) (key : SettingKey) :
    (c.edit e).get? key = (e.value? key).or (c.get? key) := by
  cases e with
  | mention => rfl
  | exclude excluded => rfl
  | set other value =>
      rw [Configuration.edit, Edit.value?, Configuration.get?_set]
      split <;> rfl

theorem Configuration.excluded_edit (c : Configuration) (e : Edit) :
    (c.edit e).excluded = e.excluded?.or c.excluded := by
  cases e <;> rfl

/-! ## Places -/

/-- The name of the slot; the shared one needs none to be found. -/
def Slot.name? : Slot → Option String
  | .shared _ => none
  | .named name => some name

def Write.IsAt (rule : Option FilePattern) (slot : Slot) (w : Write) : Prop :=
  w.place.rule.map FilePattern.text = rule.map FilePattern.text ∧
    w.place.slot.name? = slot.name?

instance (rule : Option FilePattern) (slot : Slot) (w : Write) : Decidable (w.IsAt rule slot) :=
  inferInstanceAs (Decidable (_ ∧ _))

def lastAt {α : Type} (said : Edit → Option α) (rule : Option FilePattern) (slot : Slot)
    (writes : List Write) : Option α :=
  (writes.filterMap fun w => if w.IsAt rule slot then said w.edit else none).getLast?

theorem lastAt_append {α : Type} (said : Edit → Option α) (rule : Option FilePattern)
    (slot : Slot) (writes later : List Write) :
    lastAt said rule slot (writes ++ later) =
      (lastAt said rule slot later).or (lastAt said rule slot writes) := by
  unfold lastAt
  rw [List.filterMap_append, List.getLast?_append]

theorem lastAt_singleton {α : Type} (said : Edit → Option α) (rule : Option FilePattern)
    (slot : Slot) (w : Write) :
    lastAt said rule slot [w] = if w.IsAt rule slot then said w.edit else none := by
  unfold lastAt
  rw [List.filterMap_cons]
  cases (if w.IsAt rule slot then said w.edit else none) <;> rfl

theorem exists_of_lastAt_eq_some {α : Type} {said : Edit → Option α} {rule : Option FilePattern}
    {slot : Slot} {writes : List Write} {a : α} (h : lastAt said rule slot writes = some a) :
    ∃ w ∈ writes, w.IsAt rule slot ∧ said w.edit = some a := by
  obtain ⟨w, hw, hsaid⟩ := List.mem_filterMap.1 (List.mem_of_getLast? h)
  split at hsaid
  · next hplace => exact ⟨w, hw, hplace, hsaid⟩
  · cases hsaid

namespace ConfigurationSet

def at? (s : ConfigurationSet) : Slot → Option Configuration
  | .shared _ => s.shared
  | .named name => s.find? name

theorem at?_congr (s : ConfigurationSet) {slot other : Slot} (h : slot.name? = other.name?) :
    s.at? slot = s.at? other := by
  cases slot <;> cases other <;> simp_all [Slot.name?, at?]

theorem at?_update (s : ConfigurationSet) (slot other : Slot) {f : Configuration → Configuration}
    (hf : ∀ c, (f c).name = c.name) :
    (s.update slot f).at? other =
      if slot.name? = other.name? then some (f (s.entry slot)) else s.at? other := by
  cases other with
  | shared _ =>
      have hview := congrArg Prod.snd (s.view_update slot hf "")
      cases slot with
      | shared _ => exact hview
      | named name =>
          have hshared : (s.update (.named name) f).shared = s.shared := s.shared_ensure name
          simpa [Slot.name?, at?] using hshared
  | named name =>
      have hview := congrArg Prod.fst (s.view_update slot hf name)
      cases slot with
      | shared _ => simpa [Slot.name?, at?, view] using hview
      | named other =>
          by_cases hsame : other = name
          · simpa [Slot.name?, at?, hsame, view] using hview
          · simpa [Slot.name?, at?, hsame, view] using hview

theorem bind_at? {α : Type} {ask : Configuration → Option α}
    (hnew : ∀ slot, ask (empty.entry slot) = none) (s : ConfigurationSet) (slot : Slot) :
    (s.at? slot).bind ask = ask (s.entry slot) := by
  cases slot with
  | shared name =>
      have hname := hnew (.shared name)
      unfold at? entry
      cases s.shared with
      | some c => rfl
      | none => exact hname.symm
  | named name =>
      have hname := hnew (.named name)
      unfold at?
      simp only [entry]
      cases s.find? name with
      | some c => rfl
      | none => exact hname.symm

end ConfigurationSet

/-! ## Values -/

namespace Profile

theorem at?_empty (rule : Option FilePattern) (slot : Slot) : (empty.set rule).at? slot = none := by
  cases rule <;> cases slot <;> rfl

theorem at?_write (p : Profile) (w : Write) (rule : Option FilePattern) (slot : Slot) :
    ((p.write w).set rule).at? slot =
      if w.IsAt rule slot then some (((p.set rule).entry w.place.slot).edit w.edit)
      else (p.set rule).at? slot := by
  simp only [Profile.write, set_updateSet, Write.IsAt]
  by_cases hrule : w.place.rule.map FilePattern.text = rule.map FilePattern.text
  · rw [if_pos hrule, ConfigurationSet.at?_update _ _ _ fun c => c.name_edit w.edit]
    simp [hrule]
  · simp [hrule]

theorem ask_writeAll {α : Type} {ask : Configuration → Option α} {said : Edit → Option α}
    (hedit : ∀ c e, ask (c.edit e) = (said e).or (ask c))
    (hnew : ∀ slot, ask (ConfigurationSet.empty.entry slot) = none) (p : Profile)
    (writes : List Write) (rule : Option FilePattern) (slot : Slot) :
    (((p.writeAll writes).set rule).at? slot).bind ask =
      (lastAt said rule slot writes).or (((p.set rule).at? slot).bind ask) := by
  induction writes generalizing p with
  | nil => rfl
  | cons w rest ih =>
      have hwrite : (((p.write w).set rule).at? slot).bind ask =
          (lastAt said rule slot [w]).or (((p.set rule).at? slot).bind ask) := by
        rw [at?_write, lastAt_singleton]
        split
        · next hplace =>
            rw [Option.bind_some, hedit, ← ConfigurationSet.bind_at? hnew,
              ConfigurationSet.at?_congr _ hplace.2]
        · rfl
      have hrest := ih (p.write w)
      rw [hwrite] at hrest
      rw [← List.singleton_append, lastAt_append, Option.or_assoc]
      exact hrest

theorem value_writeAll (p : Profile) (writes : List Write) (rule : Option FilePattern)
    (slot : Slot) (key : SettingKey) :
    (((p.writeAll writes).set rule).at? slot).bind (fun c => c.get? key) =
      (lastAt (Edit.value? key) rule slot writes).or
        (((p.set rule).at? slot).bind fun c => c.get? key) := by
  apply ask_writeAll
  · exact fun c e => c.get?_edit e key
  · intro slot
    cases slot with
    | shared name => exact Configuration.get?_named name key
    | named name => exact Configuration.get?_named name key

theorem excluded_writeAll (p : Profile) (writes : List Write) (rule : Option FilePattern)
    (slot : Slot) :
    (((p.writeAll writes).set rule).at? slot).bind Configuration.excluded =
      (lastAt Edit.excluded? rule slot writes).or
        (((p.set rule).at? slot).bind Configuration.excluded) := by
  apply ask_writeAll
  · exact Configuration.excluded_edit
  · intro slot
    cases slot <;> rfl

theorem isSome_at?_writeAll (p : Profile) (writes : List Write) (rule : Option FilePattern)
    (slot : Slot) :
    (((p.writeAll writes).set rule).at? slot).isSome ↔
      ((p.set rule).at? slot).isSome ∨ ∃ w ∈ writes, w.IsAt rule slot := by
  induction writes generalizing p with
  | nil => simp [Profile.writeAll]
  | cons w rest ih =>
      have hrest := ih (p.write w)
      rw [at?_write] at hrest
      simp only [List.mem_cons, exists_eq_or_imp]
      by_cases hplace : w.IsAt rule slot
      · simpa [hplace, Profile.writeAll] using hrest
      · simpa [hplace, Profile.writeAll] using hrest

/-! ## Order of first mention -/

def mentioned? (rule : Option FilePattern) (w : Write) : Option String :=
  if w.place.rule.map FilePattern.text = rule.map FilePattern.text then w.place.slot.name? else none

theorem names_update (s : ConfigurationSet) (slot : Slot) {f : Configuration → Configuration}
    (hf : ∀ c, (f c).name = c.name) :
    (s.update slot f).names =
      match slot with
      | .shared _ => s.names
      | .named name => (s.ensure name).names := by
  cases slot with
  | shared name => rfl
  | named name => exact map_modifyFirst hf (s.ensure name).configurations

theorem names_write (p : Profile) (w : Write) (rule : Option FilePattern) :
    ((p.write w).set rule).names =
      match mentioned? rule w with
      | none => (p.set rule).names
      | some name => ((p.set rule).ensure name).names := by
  simp only [Profile.write, set_updateSet, mentioned?]
  split
  · rw [names_update _ _ fun c => c.name_edit w.edit]
    cases w.place.slot <;> rfl
  · rfl

/-- The names stand in the order in which they are mentioned first. -/
theorem names_writeAll (writes : List Write) (rule : Option FilePattern) :
    ((empty.writeAll writes).set rule).names = (writes.filterMap (mentioned? rule)).eraseDups := by
  induction writes using List.reverseRecOn with
  | nil => cases rule <;> rfl
  | append_singleton writes w ih =>
      have hlast : empty.writeAll (writes ++ [w]) = (empty.writeAll writes).write w := by
        simp [Profile.writeAll]
      rw [hlast, names_write, List.filterMap_append, List.filterMap_cons]
      cases hmention : mentioned? rule w with
      | none => simpa using ih
      | some name =>
          simp only [List.filterMap_nil]
          rw [eraseDups_concat, ← ih]
          split
          · next hold => rw [ConfigurationSet.ensure_of_mem hold]
          · next hnew =>
              rw [ConfigurationSet.ensure_of_not_mem hnew, ConfigurationSet.names_add]
              rfl

/-- The rules stand in the order in which their patterns are mentioned first. -/
theorem patterns_writeAll (writes : List Write) :
    (empty.writeAll writes).patterns =
      (writes.filterMap fun w => w.place.rule.map FilePattern.text).eraseDups := by
  induction writes using List.reverseRecOn with
  | nil => rfl
  | append_singleton writes w ih =>
      have hlast : empty.writeAll (writes ++ [w]) = (empty.writeAll writes).write w := by
        simp [Profile.writeAll]
      rw [hlast, patterns_write, List.filterMap_append, List.filterMap_cons]
      cases w.place.rule with
      | none => simpa using ih
      | some pattern =>
          simp only [Option.map_some, List.filterMap_nil]
          rw [eraseDups_concat, ← ih, Profile.ensureRule]
          split
          · next hold => rw [if_pos (hasRule_iff.1 hold)]
          · next hnew =>
              rw [if_neg (mt hasRule_iff.2 hnew)]
              simp [patterns]

end Profile

end SolutionPlan
