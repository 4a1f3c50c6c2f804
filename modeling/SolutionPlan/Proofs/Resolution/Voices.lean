import Mathlib.Data.List.Perm.Basic
import SolutionPlan.Proofs.Configuration.Views
import SolutionPlan.Proofs.Resolution.Overrides

/-!
# Voices of file rules

A voice is what one applying rule says about a configuration. Which voices there are for a source
depends on what a profile says about that configuration alone, only their order depends on more. A
value that is gathered from voices depends on those that have an answer for it.
-/

namespace SolutionPlan

/-- What one rule says about a configuration, by the one of its name and by the shared one. -/
structure Voice where
  pattern : FilePattern
  levels : List Configuration
deriving DecidableEq

def FileRule.voice (name : String) (r : FileRule) : Voice := ⟨r.pattern, r.overrides.levels name⟩

namespace Voice

def answers {α : Type} (ask : Configuration → Option α) (v : Voice) : Bool :=
  v.levels.any fun level => (ask level).isSome

variable {α : Type} {ask : Configuration → Option α}

theorem filterMap_levels_filter (vs : List Voice) :
    ((vs.filter (answers ask)).flatMap levels).filterMap ask =
      (vs.flatMap levels).filterMap ask := by
  induction vs with
  | nil => rfl
  | cons v rest ih =>
      rw [List.filter_cons, List.flatMap_cons, List.filterMap_append, ← ih]
      split
      · rw [List.flatMap_cons, List.filterMap_append]
      · next hsilent =>
          have hnone : v.levels.filterMap ask = [] := by
            simpa [answers] using hsilent
          rw [hnone, List.nil_append]

/-- The answers depend on the voices that have one, in their order. -/
theorem filterMap_levels_congr {vs us : List Voice}
    (h : vs.filter (answers ask) = us.filter (answers ask)) :
    (vs.flatMap levels).filterMap ask = (us.flatMap levels).filterMap ask := by
  rw [← filterMap_levels_filter vs, h, filterMap_levels_filter us]

theorem filterMap_levels_eq_nil_iff {vs us : List Voice} (h : vs.Perm us) :
    (vs.flatMap levels).filterMap ask = [] ↔ (us.flatMap levels).filterMap ask = [] := by
  have hanswers := (h.flatMap_right levels).filterMap ask
  constructor
  · intro hnil
    rw [hnil] at hanswers
    exact hanswers.nil_eq.symm
  · intro hnil
    rw [hnil] at hanswers
    exact hanswers.eq_nil

end Voice

namespace Profile

theorem exists_rule_of_levels_ne_nil {p : Profile} {pattern : FilePattern} {name : String}
    (h : (p.overrides pattern).levels name ≠ []) :
    ∃ r ∈ p.rules, r.pattern.text = pattern.text ∧ r.overrides = p.overrides pattern := by
  unfold overrides at h ⊢
  cases hfound : p.rules.find? fun r => r.pattern.text == pattern.text with
  | none =>
      rw [hfound] at h
      exact absurd rfl h
  | some r =>
      exact ⟨r, List.mem_of_find?_eq_some hfound, by simpa using List.find?_some hfound, rfl⟩

def voices (p : Profile) (name : String) (base source : Path) : List Voice :=
  ((p.applying base source).map (FileRule.voice name)).filter fun v => !v.levels.isEmpty

theorem flatMap_voices (p : Profile) (name : String) (base source : Path) :
    (p.voices name base source).flatMap Voice.levels =
      (p.applying base source).flatMap fun r => r.overrides.levels name := by
  unfold voices
  induction p.applying base source with
  | nil => rfl
  | cons r rest ih =>
      rw [List.map_cons, List.filter_cons, List.flatMap_cons, ← ih]
      split
      · rfl
      · next hsilent =>
          have hnone : r.overrides.levels name = [] := by
            simpa [FileRule.voice] using hsilent
          rw [hnone, List.nil_append]

theorem Written.mem_voices_iff {p : Profile} (hp : p.Written) {name : String} {base source : Path}
    {v : Voice} :
    v ∈ p.voices name base source ↔
      v.levels ≠ [] ∧ v.pattern.Compiled ∧
        v.pattern.accepts (source.relativeTo base).toSlash = true ∧
          (p.overrides v.pattern).levels name = v.levels := by
  unfold voices applying
  simp only [List.mem_filter, List.mem_map, Bool.not_eq_true', List.isEmpty_eq_false_iff]
  constructor
  · rintro ⟨⟨r, ⟨hr, happlies⟩, rfl⟩, hne⟩
    exact ⟨hne, hp.compiled r hr, happlies, by rw [FileRule.voice, hp.overrides_of_mem hr]⟩
  · rintro ⟨hne, hcompiled, haccepts, hlevels⟩
    obtain ⟨r, hr, htext, hoverrides⟩ := exists_rule_of_levels_ne_nil (hlevels ▸ hne)
    have hpattern := hp.pattern_eq hr hcompiled htext
    refine ⟨⟨r, ⟨hr, ?_⟩, ?_⟩, hne⟩
    · unfold FileRule.appliesTo
      rwa [hpattern]
    · unfold FileRule.voice
      rw [hpattern, hoverrides, hlevels]

theorem Written.nodup_voices {p : Profile} (hp : p.Written) (name : String) (base source : Path) :
    (p.voices name base source).Nodup := by
  have hpatterns : ((p.voices name base source).map fun v => v.pattern.text).Nodup := by
    refine hp.distinct.sublist ?_
    have hrules : ((p.applying base source).map (FileRule.voice name)).map
        (fun v => v.pattern.text) = (p.applying base source).map fun r => r.pattern.text := by
      rw [List.map_map]
      rfl
    have hvoices : ((p.voices name base source).map fun v => v.pattern.text).Sublist
        ((p.applying base source).map fun r => r.pattern.text) := by
      rw [← hrules]
      exact List.filter_sublist.map _
    exact hvoices.trans (List.filter_sublist.map _)
  exact List.Pairwise.of_map _ (fun _ _ hne h => hne (h ▸ rfl)) hpatterns

theorem voices_perm {p q : Profile} (hp : p.Written) (hq : q.Written) {name : String}
    (h : SameAbout name p q) (base source : Path) :
    (p.voices name base source).Perm (q.voices name base source) := by
  rw [List.perm_ext_iff_of_nodup (hp.nodup_voices name base source)
    (hq.nodup_voices name base source)]
  intro v
  have hlevels : (p.overrides v.pattern).levels name = (q.overrides v.pattern).levels name :=
    ConfigurationSet.levels_eq_of_view_eq (h (some v.pattern))
  rw [hp.mem_voices_iff, hq.mem_voices_iff, hlevels]

end Profile

end SolutionPlan
