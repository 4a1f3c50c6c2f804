import SolutionPlan.Proofs.Configuration.Writing

/-!
# What a profile says about one configuration

For one name a set holds its own configuration and the shared one. A write to any other slot changes
neither of them, in no set of a profile. So two runs of writes that differ only in writes to other
slots leave profiles that say the same about the name.
-/

namespace SolutionPlan

/-- A write to the slot can change what is said about the configuration of this name. -/
def Slot.concerns (name : String) : Slot → Bool
  | .shared _ => true
  | .named other => other == name

def Write.concerns (name : String) (w : Write) : Bool := w.place.slot.concerns name

/-! ## One set -/

namespace ConfigurationSet

def view (s : ConfigurationSet) (name : String) : Option Configuration × Option Configuration :=
  (s.find? name, s.shared)

theorem levels_eq_of_view_eq {s t : ConfigurationSet} {name : String}
    (h : s.view name = t.view name) : s.levels name = t.levels name := by
  obtain ⟨hown, hshared⟩ := Prod.mk.inj h
  unfold levels
  rw [hown, hshared]

theorem shared_ensure (s : ConfigurationSet) (name : String) :
    (s.ensure name).shared = s.shared := by
  unfold ensure
  split <;> rfl

theorem find?_ensure_self (s : ConfigurationSet) (name : String) :
    (s.ensure name).find? name = some (s.entry (.named name)) := by
  unfold ensure entry
  cases hfound : s.find? name with
  | some c => simp [hfound]
  | none =>
      have hnone : s.configurations.find? (fun c => c.name == name) = none := hfound
      simp [find?, add, hnone, Configuration.named]

theorem find?_ensure_of_ne (s : ConfigurationSet) {name other : String} (h : other ≠ name) :
    (s.ensure other).find? name = s.find? name := by
  unfold ensure
  split
  · rfl
  · simp [find?, add, Configuration.named, h]

theorem view_update (s : ConfigurationSet) (slot : Slot) {f : Configuration → Configuration}
    (hf : ∀ c, (f c).name = c.name) (name : String) :
    (s.update slot f).view name =
      match slot with
      | .shared _ => (s.find? name, some (f (s.entry slot)))
      | .named other =>
          if other = name then (some (f (s.entry slot)), s.shared) else s.view name := by
  cases slot with
  | shared _ => rfl
  | named other =>
      have hshared := s.shared_ensure other
      simp only [view, update, find?]
      split
      · next hsame =>
          subst hsame
          have hself := s.find?_ensure_self other
          unfold find? at hself
          rw [find?_modifyFirst_self (by simp [hf]), hself, hshared]
          rfl
      · next hne =>
          have hother := s.find?_ensure_of_ne hne
          unfold find? at hother
          rw [find?_modifyFirst_of_disjoint (by simp [hf]), hother, hshared]
          intro c hc
          simp only [beq_iff_eq] at hc
          simpa [hc] using hne

theorem view_update_of_not_concerns (s : ConfigurationSet) {slot : Slot} {name : String}
    (h : slot.concerns name = false) {f : Configuration → Configuration}
    (hf : ∀ c, (f c).name = c.name) : (s.update slot f).view name = s.view name := by
  rw [view_update s slot hf]
  cases slot with
  | shared _ => cases h
  | named other =>
      have hne : other ≠ name := by simpa [Slot.concerns] using h
      exact if_neg hne

theorem view_update_congr {s t : ConfigurationSet} {name : String}
    (h : s.view name = t.view name) (slot : Slot) {f : Configuration → Configuration}
    (hf : ∀ c, (f c).name = c.name) :
    (s.update slot f).view name = (t.update slot f).view name := by
  obtain ⟨hown, hshared⟩ := Prod.mk.inj h
  rw [view_update s slot hf, view_update t slot hf]
  cases slot with
  | shared _ => simp [entry, hown, hshared]
  | named other =>
      by_cases hsame : other = name
      · subst hsame
        simp [entry, hown, hshared]
      · simpa [hsame] using h

end ConfigurationSet

/-! ## All sets of a profile -/

namespace Profile

theorem overrides_ensureRule (p : Profile) (rule pattern : FilePattern) :
    (p.ensureRule rule).overrides pattern = p.overrides pattern := by
  unfold ensureRule
  split
  · rfl
  · next hnew =>
      unfold overrides
      rw [List.find?_append]
      cases hfound : p.rules.find? fun r => r.pattern.text == pattern.text with
      | some r => simp
      | none =>
          by_cases hsame : rule.text = pattern.text <;> simp [hsame]

theorem overrides_updateSet (p : Profile) (rule pattern : FilePattern)
    (f : ConfigurationSet → ConfigurationSet) :
    (p.updateSet (some rule) f).overrides pattern =
      if rule.text = pattern.text then f (p.overrides pattern) else p.overrides pattern := by
  rw [← p.overrides_ensureRule rule pattern]
  have hrule : (p.ensureRule rule).hasRule rule = true := by
    rw [hasRule_iff, mem_patterns_ensureRule]
    exact .inr rfl
  simp only [updateSet]
  generalize p.ensureRule rule = q at hrule ⊢
  simp only [overrides]
  split
  · next hsame =>
      rw [← hsame, find?_modifyFirst_self (by simp)]
      obtain ⟨r, hr⟩ := Option.isSome_iff_exists.1 (List.find?_isSome.2 (List.any_eq_true.1 hrule))
      rw [hr]
      rfl
  · next hne =>
      rw [find?_modifyFirst_of_disjoint (by simp)]
      intro r hr
      simp only [beq_iff_eq] at hr
      simpa [hr] using hne

theorem set_updateSet (p : Profile) (place rule : Option FilePattern)
    (f : ConfigurationSet → ConfigurationSet) :
    (p.updateSet place f).set rule =
      if place.map FilePattern.text = rule.map FilePattern.text then f (p.set rule)
      else p.set rule := by
  cases place with
  | none => cases rule <;> simp [updateSet, set, overrides]
  | some pattern =>
      cases rule with
      | none =>
          simp only [updateSet, set, ensureRule]
          split <;> simp
      | some other => simpa [set] using p.overrides_updateSet pattern other f

theorem Written.overrides_of_mem {p : Profile} (hp : p.Written) {r : FileRule} (hr : r ∈ p.rules) :
    p.overrides r.pattern = r.overrides := by
  have hfound := find?_key_of_mem hp.distinct hr
  unfold Profile.overrides
  rw [hfound]
  rfl

/-- The profiles say the same about the configuration of this name, for all files and for those of
each pattern. -/
def SameAbout (name : String) (p q : Profile) : Prop :=
  ∀ rule, (p.set rule).view name = (q.set rule).view name

namespace SameAbout

variable {name : String} {p q : Profile}

theorem symm (h : SameAbout name p q) : SameAbout name q p := fun rule => (h rule).symm

theorem trans {r : Profile} (h : SameAbout name p q) (k : SameAbout name q r) :
    SameAbout name p r := fun rule => (h rule).trans (k rule)

theorem mem_names_iff (h : SameAbout name p q) :
    name ∈ p.base.names ↔ name ∈ q.base.names := by
  have hown : p.base.find? name = q.base.find? name := congrArg Prod.fst (h none)
  rw [← Decidable.not_iff_not, ← ConfigurationSet.find?_eq_none_iff,
    ← ConfigurationSet.find?_eq_none_iff, hown]

theorem write (h : SameAbout name p q) (w : Write) : SameAbout name (p.write w) (q.write w) := by
  intro rule
  simp only [Profile.write, set_updateSet]
  split
  · exact ConfigurationSet.view_update_congr (h rule) w.place.slot fun c => c.name_edit w.edit
  · exact h rule

theorem write_left (h : SameAbout name p q) {w : Write}
    (hw : w.concerns name = false) : SameAbout name (p.write w) q := by
  intro rule
  simp only [Profile.write, set_updateSet]
  split
  · rw [ConfigurationSet.view_update_of_not_concerns _ hw fun c => c.name_edit w.edit]
    exact h rule
  · exact h rule

theorem writeAll_filter (h : SameAbout name p q) (writes : List Write) :
    SameAbout name (p.writeAll writes) (q.writeAll (writes.filter (Write.concerns name))) := by
  induction writes generalizing p q with
  | nil => exact h
  | cons w rest ih =>
      rw [List.filter_cons]
      split
      · exact ih (h.write w)
      · next hother => exact ih (h.write_left (by simpa using hother))

end SameAbout

/-- Profiles that are written from nothing say the same about a name if the writes that concern it
are the same. -/
theorem sameAbout_writeAll {name : String} {writes others : List Write}
    (h : writes.filter (Write.concerns name) = others.filter (Write.concerns name)) :
    SameAbout name (empty.writeAll writes) (empty.writeAll others) := by
  have hself : SameAbout name empty empty := fun _ => rfl
  have hleft := hself.writeAll_filter writes
  have hright := hself.writeAll_filter others
  rw [h] at hleft
  exact hleft.trans hright.symm

end Profile

end SolutionPlan
