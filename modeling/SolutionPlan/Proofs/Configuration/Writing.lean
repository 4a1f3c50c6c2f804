import SolutionPlan.Proofs.Configuration.Inheritance

/-!
# Profiles as they are written

What every write to a profile keeps: no set is merged yet, names and patterns are distinct, every
value is of its setting's kind and every rule's tokens are those of its text. A profile that a
description leaves is written from nothing, so all of this holds of it.
-/

namespace SolutionPlan

/-! ## One configuration -/

def Edit.WellKinded : Edit → Prop
  | .set key value => value.HasKind key.kind
  | _ => True

namespace Configuration

@[simp] theorem name_edit (c : Configuration) (e : Edit) : (c.edit e).name = c.name := by
  cases e <;> rfl

theorem WellKinded.edit {c : Configuration} (hc : c.WellKinded) {e : Edit} (he : e.WellKinded) :
    (c.edit e).WellKinded := by
  cases e with
  | mention => exact hc
  | exclude excluded => exact hc
  | set key value =>
      intro other found hfound
      rw [Option.mem_def, Configuration.edit, get?_set] at hfound
      split at hfound
      · next hkey =>
          subst hkey
          obtain rfl := Option.some.inj hfound
          exact he
      · exact hc other found hfound

end Configuration

/-! ## One set -/

namespace ConfigurationSet

theorem Written.ensure {s : ConfigurationSet} (hs : s.Written) (name : String) :
    (s.ensure name).Written := by
  have hsingle : [name].Nodup := by simp
  exact hs.foldl_ensure hsingle

theorem Written.entry {s : ConfigurationSet} (hs : s.Written) (slot : Slot) :
    (s.entry slot).WellKinded := by
  cases slot with
  | shared name =>
      simp only [ConfigurationSet.entry]
      cases hshared : s.shared with
      | none => exact Configuration.wellKinded_named name
      | some c => exact hs.sharedWellKinded c hshared
  | named name =>
      simp only [ConfigurationSet.entry]
      cases hfound : s.find? name with
      | none => exact Configuration.wellKinded_named name
      | some c => exact hs.wellKinded c (mem_of_find? hfound).1

theorem Written.update {s : ConfigurationSet} (hs : s.Written) (slot : Slot)
    {f : Configuration → Configuration} (hf : ∀ c, c.WellKinded → (f c).WellKinded)
    (hname : ∀ c, (f c).name = c.name) : (s.update slot f).Written := by
  cases slot with
  | shared name =>
      refine ⟨hs.unapplied, hs.distinct, hs.wellKinded, ?_⟩
      intro c hc
      obtain rfl := Option.some.inj hc
      exact hf _ (hs.entry (.shared name))
  | named name =>
      have hensured := hs.ensure name
      refine ⟨hensured.unapplied, ?_, ?_, hensured.sharedWellKinded⟩
      · have hnames := map_modifyFirst (p := fun c => c.name == name) hname
          (s.ensure name).configurations
        unfold ConfigurationSet.names
        simp only [ConfigurationSet.update]
        rw [hnames]
        exact hensured.distinct
      · intro c hc
        rcases mem_modifyFirst hc with h | ⟨d, hd, -, rfl⟩
        · exact hensured.wellKinded c h
        · exact hf d (hensured.wellKinded d hd)

end ConfigurationSet

/-! ## A profile -/

def FilePattern.Compiled (p : FilePattern) : Prop := compile p.text = .ok p

theorem FilePattern.compiled_of_compile {text : String} {p : FilePattern}
    (h : compile text = .ok p) : p.text = text ∧ p.Compiled := by
  have htext : p.text = text := by
    unfold compile at h
    cases hglob : Glob.compile (withSlashes text) with
    | error e => rw [hglob] at h; cases h
    | ok tokens => rw [hglob] at h; cases h; rfl
  exact ⟨htext, by rw [Compiled, htext]; exact h⟩

/-- A write as a description asks for it. -/
structure Write.WellFormed (w : Write) : Prop where
  edit : w.edit.WellKinded
  pattern : ∀ p ∈ w.place.rule, p.Compiled

namespace Profile

def patterns (p : Profile) : List String := p.rules.map fun r => r.pattern.text

structure Written (p : Profile) : Prop where
  base : p.base.Written
  overrides : ∀ r ∈ p.rules, r.overrides.Written
  compiled : ∀ r ∈ p.rules, r.pattern.Compiled
  distinct : p.patterns.Nodup

theorem written_empty : empty.Written where
  base := ConfigurationSet.written_empty
  overrides := by simp [empty]
  compiled := by simp [empty]
  distinct := by simp [empty, patterns]

theorem hasRule_iff {p : Profile} {pattern : FilePattern} :
    p.hasRule pattern = true ↔ pattern.text ∈ p.patterns := by
  simp [hasRule, patterns]

theorem Written.ensureRule {p : Profile} (hp : p.Written) {pattern : FilePattern}
    (hpattern : pattern.Compiled) : (p.ensureRule pattern).Written := by
  unfold Profile.ensureRule
  split
  · exact hp
  · next hnew =>
      rw [hasRule_iff] at hnew
      refine ⟨hp.base, ?_, ?_, ?_⟩
      · intro r hr
        rcases List.mem_append.1 hr with h | h
        · exact hp.overrides r h
        · obtain rfl := List.mem_singleton.1 h
          exact ConfigurationSet.written_empty
      · intro r hr
        rcases List.mem_append.1 hr with h | h
        · exact hp.compiled r h
        · obtain rfl := List.mem_singleton.1 h
          exact hpattern
      · have hdistinct := hp.distinct
        unfold patterns at hdistinct hnew ⊢
        rw [List.map_append, List.map_singleton]
        refine List.nodup_append.2 ⟨hdistinct, by simp, ?_⟩
        rintro text htext other hother rfl
        exact hnew (List.mem_singleton.1 hother ▸ htext)

theorem patterns_updateSet (p : Profile) (pattern : FilePattern)
    (f : ConfigurationSet → ConfigurationSet) :
    (p.updateSet (some pattern) f).patterns = (p.ensureRule pattern).patterns :=
  map_modifyFirst (f := fun r : FileRule => { r with overrides := f r.overrides })
    (g := fun r : FileRule => r.pattern.text) (fun _ => rfl) (p.ensureRule pattern).rules

theorem Written.updateSet {p : Profile} (hp : p.Written) {rule : Option FilePattern}
    (hrule : ∀ pattern ∈ rule, pattern.Compiled) {f : ConfigurationSet → ConfigurationSet}
    (hf : ∀ s, s.Written → (f s).Written) : (p.updateSet rule f).Written := by
  cases rule with
  | none => exact ⟨hf _ hp.base, hp.overrides, hp.compiled, hp.distinct⟩
  | some pattern =>
      have hensured := hp.ensureRule (hrule pattern rfl)
      refine ⟨hensured.base, ?_, ?_, ?_⟩
      · intro r hr
        rcases mem_modifyFirst hr with h | ⟨q, hq, -, rfl⟩
        · exact hensured.overrides r h
        · exact hf _ (hensured.overrides q hq)
      · intro r hr
        rcases mem_modifyFirst hr with h | ⟨q, hq, -, rfl⟩
        · exact hensured.compiled r h
        · exact hensured.compiled q hq
      · rw [patterns_updateSet]
        exact hensured.distinct

theorem Written.write {p : Profile} (hp : p.Written) {w : Write} (hw : w.WellFormed) :
    (p.write w).Written :=
  hp.updateSet hw.pattern fun _ hs =>
    hs.update w.place.slot (fun _ hc => hc.edit hw.edit) fun c => c.name_edit w.edit

theorem Written.writeAll {p : Profile} (hp : p.Written) {writes : List Write}
    (hwrites : ∀ w ∈ writes, w.WellFormed) : (p.writeAll writes).Written := by
  unfold Profile.writeAll
  induction writes generalizing p with
  | nil => exact hp
  | cons w rest ih =>
      exact ih (hp.write (hwrites w List.mem_cons_self)) fun w hw =>
        hwrites w (List.mem_cons_of_mem _ hw)

/-! ### Rules that are written -/

theorem patterns_write (p : Profile) (w : Write) :
    (p.write w).patterns =
      match w.place.rule with
      | none => p.patterns
      | some pattern => (p.ensureRule pattern).patterns := by
  unfold Profile.write
  cases w.place.rule with
  | none => rfl
  | some pattern => exact p.patterns_updateSet pattern _

theorem mem_patterns_ensureRule {p : Profile} {pattern : FilePattern} {text : String} :
    text ∈ (p.ensureRule pattern).patterns ↔ text ∈ p.patterns ∨ text = pattern.text := by
  unfold Profile.ensureRule
  split
  · next hrule =>
      rw [hasRule_iff] at hrule
      constructor
      · exact .inl
      · rintro (h | rfl)
        · exact h
        · exact hrule
  · simp [patterns]

theorem mem_patterns_writeAll {p : Profile} {writes : List Write} {text : String} :
    text ∈ (p.writeAll writes).patterns ↔
      text ∈ p.patterns ∨ ∃ w ∈ writes, ∃ pattern ∈ w.place.rule, text = pattern.text := by
  unfold Profile.writeAll
  induction writes generalizing p with
  | nil => simp
  | cons w rest ih =>
      rw [List.foldl_cons, ih, patterns_write]
      cases hrule : w.place.rule with
      | none => simp [hrule]
      | some pattern => simp [hrule, mem_patterns_ensureRule, or_assoc]

theorem Written.pattern_eq {p : Profile} (hp : p.Written) {r : FileRule} (hr : r ∈ p.rules)
    {pattern : FilePattern} (hpattern : pattern.Compiled) (htext : r.pattern.text = pattern.text) :
    r.pattern = pattern := by
  have hcompiled := hp.compiled r hr
  unfold FilePattern.Compiled at hcompiled hpattern
  rw [htext, hpattern] at hcompiled
  exact (Except.ok.inj hcompiled).symm

end Profile

end SolutionPlan
