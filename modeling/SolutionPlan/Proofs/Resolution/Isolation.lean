import SolutionPlan.Proofs.Description.Alike
import SolutionPlan.Proofs.Resolution.References
import SolutionPlan.Proofs.Resolution.Voices

/-!
# Configurations side by side

The rules of a profile stand in the order in which their patterns are mentioned first, in whichever
configuration that is. So a configuration does not change what the rules say about another one, but
it can change in which order they say it. Where the order stays, so does the outcome.
-/

namespace SolutionPlan

/-! ## Configurations from voices -/

/-- What is put together from the same voices: the same things are set, and to the same values where
the voices that set them come in the same order. -/
structure Configuration.SameButOrder (c d : Configuration) (vs us : List Voice) : Prop where
  value_isSome : ∀ key, (c.get? key).isSome = (d.get? key).isSome
  value : ∀ key, vs.filter (Voice.answers fun level => level.get? key) =
    us.filter (Voice.answers fun level => level.get? key) → c.get? key = d.get? key
  excluded_isSome : c.excluded.isSome = d.excluded.isSome
  excluded : vs.filter (Voice.answers Configuration.excluded) =
    us.filter (Voice.answers Configuration.excluded) → c.excluded = d.excluded

theorem Configuration.Combines.sameButOrder {c d : Configuration} {vs us : List Voice}
    (hc : c.Combines (vs.flatMap Voice.levels)) (hd : d.Combines (us.flatMap Voice.levels))
    (h : vs.Perm us) : c.SameButOrder d vs us where
  value_isSome key := by
    have hnone : c.get? key = none ↔ d.get? key = none := by
      rw [hc.value, hd.value, SettingKind.gather_eq_none_iff, SettingKind.gather_eq_none_iff]
      exact Voice.filterMap_levels_eq_nil_iff h
    rw [Bool.eq_iff_iff, Option.isSome_iff_ne_none, Option.isSome_iff_ne_none]
    exact not_congr hnone
  value key hsame := by
    rw [hc.value, hd.value]
    congr 1
    exact Voice.filterMap_levels_congr hsame
  excluded_isSome := by
    have hnone : c.excluded = none ↔ d.excluded = none := by
      rw [hc.excluded, hd.excluded, List.head?_eq_none_iff, List.head?_eq_none_iff]
      exact Voice.filterMap_levels_eq_nil_iff h
    rw [Bool.eq_iff_iff, Option.isSome_iff_ne_none, Option.isSome_iff_ne_none]
    exact not_congr hnone
  excluded hsame := by
    rw [hc.excluded, hd.excluded]
    congr 1
    exact Voice.filterMap_levels_congr hsame

/-! ## Overrides -/

namespace Solution

/-- The voices about a configuration of the project: those of its own rules and then those of the
solution's rules. -/
def voices (s : Solution) (p : Project) (name : String) (source : Path) : List Voice :=
  p.profile.voices name p.sourceRoot source ++ s.profile.voices name s.directory source

theorem sourceRoot_resolvedProject (s : Solution) (p : Project) :
    (s.resolvedProject p).sourceRoot = p.sourceRoot := by
  have hroot := congrArg Project.sourceRoot (s.bare_resolvedProject p)
  exact hroot

theorem external_resolvedProject (s : Solution) (p : Project) :
    (s.resolvedProject p).external = p.external := by
  have hexternal := congrArg Project.external (s.bare_resolvedProject p)
  exact hexternal

theorem profile_resolvedProject (s : Solution) (p : Project) :
    (s.resolvedProject p).profile =
      if p.external then p.profile else p.profile.inheritFrom s.profile.applyShared := by
  have hprofile := congrArg Project.profile (s.bare_resolvedProject p)
  exact hprofile

theorem names_sourceConfigurations (s : Solution) (p : Project) (source : Path) :
    (sourceConfigurations s p source).names = p.profile.base.names := by
  unfold sourceConfigurations
  rw [Profile.names_mergeMatching, Profile.names_mergeMatching]
  simp [ConfigurationSet.names, Function.comp_def, Configuration.named]

section Overrides

variable {s : Solution} (hs : s.Written) {p : Project} (hp : p ∈ s.projects)
  (hempty : p.EmptyIfExternal)

include hs hp hempty

theorem mem_names_sourceConfigurations_iff (name : String) (source : Path) :
    name ∈ (sourceConfigurations s.resolve.value (s.resolvedProject p) source).names ↔
      p.external = false ∧ (name ∈ p.profile.base.names ∨ name ∈ s.profile.base.names) := by
  have hown := (hs.projects p hp).base
  rw [names_sourceConfigurations, profile_resolvedProject]
  cases hexternal : p.external with
  | true =>
      rw [if_pos rfl, hempty hexternal]
      simp [Profile.empty, ConfigurationSet.empty, ConfigurationSet.names]
  | false =>
      have hinherited : (p.profile.inheritFrom s.profile.applyShared).base.names =
          p.profile.base.names ++ p.profile.base.missing s.profile.base.names :=
        ConfigurationSet.names_inheritFrom hown hs.profile.base
      rw [if_neg Bool.false_ne_true, hinherited, List.mem_append, ConfigurationSet.missing,
        List.mem_filter]
      by_cases h : name ∈ p.profile.base.names <;> simp [h]

/-- A configuration of the overrides is put together from the voices about it. -/
theorem combines_voices {name : String} {source : Path} {c : Configuration}
    (hc : (sourceConfigurations s.resolve.value (s.resolvedProject p) source).find? name = some c) :
    c.Combines ((s.voices p name source).flatMap Voice.levels) := by
  have hown := hs.projects p hp
  have hownRules : (s.resolvedProject p).profile.rules = Profile.applyRules p.profile.rules := by
    rw [profile_resolvedProject]
    cases hexternal : p.external with
    | true =>
        rw [if_pos rfl, hempty hexternal]
        rfl
    | false => rfl
  have hrules : s.resolve.value.profile.rules = Profile.applyRules s.profile.rules := rfl
  -- The overrides begin with empty configurations, so all their levels are those of rules.
  have hstart : (ConfigurationSet.mk ((s.resolvedProject p).profile.base.names.map .named)
      none false).Stands fun _ => [] := by
    intro c hc
    obtain ⟨name, -, rfl⟩ := List.mem_map.1 hc
    exact Configuration.combines_named name
  have hnear := hown.stands_mergeMatching hownRules p.sourceRoot source hstart (by simp)
  have hall := hs.profile.stands_mergeMatching hrules s.directory source hnear
    (by simpa using hown.wellKinded_applying p.sourceRoot source)
  obtain ⟨hmem, rfl⟩ := ConfigurationSet.mem_of_find? hc
  unfold sourceConfigurations at hmem
  rw [sourceRoot_resolvedProject, s.directory_resolve] at hmem
  have hcombines := hall c hmem
  unfold voices
  rw [List.flatMap_append, Profile.flatMap_voices, Profile.flatMap_voices]
  simpa using hcombines

end Overrides

/-- The overrides have the configuration in both or in neither, from the same voices. -/
theorem rel_sourceConfigurations {s t : Solution} (hs : s.Written) (ht : t.Written) {p q : Project}
    (hp : p ∈ s.projects) (hq : q ∈ t.projects) (hpempty : p.EmptyIfExternal)
    (hqempty : q.EmptyIfExternal) {name : String} (halike : p.Alike name q)
    (hprofile : Profile.SameAbout name s.profile t.profile) {source : Path}
    (hvoices : (s.voices p name source).Perm (t.voices q name source)) :
    Option.Rel (fun c d => c.SameButOrder d (s.voices p name source) (t.voices q name source))
      ((sourceConfigurations s.resolve.value (s.resolvedProject p) source).find? name)
      ((sourceConfigurations t.resolve.value (t.resolvedProject q) source).find? name) := by
  have hnames := mem_names_sourceConfigurations_iff hs hp hpempty name source
  rw [halike.external, halike.profile.mem_names_iff, hprofile.mem_names_iff,
    ← mem_names_sourceConfigurations_iff ht hq hqempty name source] at hnames
  cases hc : (sourceConfigurations s.resolve.value (s.resolvedProject p) source).find? name with
  | none =>
      have hnone := ConfigurationSet.find?_eq_none_iff.1 hc
      rw [ConfigurationSet.find?_eq_none_iff.2 (mt hnames.2 hnone)]
      exact .none
  | some c =>
      cases hd : (sourceConfigurations t.resolve.value (t.resolvedProject q) source).find? name with
      | none =>
          have hnone := ConfigurationSet.find?_eq_none_iff.1 hd
          rw [ConfigurationSet.find?_eq_none_iff.2 (mt hnames.1 hnone)] at hc
          cases hc
      | some d =>
          have hcvoices := combines_voices hs hp hpempty hc
          have hdvoices := combines_voices ht hq hqempty hd
          exact .some (hcvoices.sameButOrder hdvoices hvoices)

end Solution

/--
Two descriptions that differ only in what stands in configurations with other names give projects
with the same names and source roots, and the same ones of them are external. For every source of a
project the rules of the project have the same voices about the configuration of the name, and so do
those of the solution; only the order of the rules may differ. The overrides have this configuration
in both or in neither. What it sets is the same, and each value and the exclusion flag are the same
wherever the voices for it have the same order.
-/
theorem sourceConfigurations_same_but_order (name : String) (w v : Workspace)
    (hparameters : w.parameters = v.parameters)
    (hexternal : ∀ path, w.readExternal path = v.readExternal path) (e f : Node)
    (houtline : e.outline name false = f.outline name false) (s t : Solution)
    (hs : (w.readSolution e).value = some s) (ht : (v.readSolution f).value = some t) :
    s.resolve.value.projects.map Project.name = t.resolve.value.projects.map Project.name ∧
      ∀ (i : Nat) (resolved other : Project), s.resolve.value.projects[i]? = some resolved →
        t.resolve.value.projects[i]? = some other →
          resolved.sourceRoot = other.sourceRoot ∧ resolved.external = other.external ∧
            ∃ p q, s.projects[i]? = some p ∧ t.projects[i]? = some q ∧ ∀ source : Path,
              (p.profile.voices name p.sourceRoot source).Perm
                  (q.profile.voices name q.sourceRoot source) ∧
                (s.profile.voices name s.directory source).Perm
                  (t.profile.voices name t.directory source) ∧
                Option.Rel
                  (fun c d => c.SameButOrder d (s.voices p name source) (t.voices q name source))
                  ((sourceConfigurations s.resolve.value resolved source).find? name)
                  ((sourceConfigurations t.resolve.value other source).find? name) := by
  have halike := Workspace.alike_readSolution hparameters hexternal houtline hs ht
  obtain ⟨hdirectory, hprofile⟩ := Workspace.alike_profiles hparameters houtline hs ht
  have hswritten := Workspace.written_readSolution hs
  have htwritten := Workspace.written_readSolution ht
  rw [s.projects_resolve, t.projects_resolve]
  constructor
  · simp only [List.map_map, Function.comp_def, Solution.name_resolvedProject]
    have hcalled : List.Forall₂ (· = ·) (s.projects.map Project.name)
        (t.projects.map Project.name) := by
      rw [List.forall₂_map_left_iff, List.forall₂_map_right_iff]
      exact halike.imp fun _ _ h => h.called
    rwa [List.forall₂_eq_eq_eq] at hcalled
  · intro i resolved other hresolved hother
    rw [List.getElem?_map] at hresolved hother
    obtain ⟨p, hp, rfl⟩ := Option.map_eq_some_iff.1 hresolved
    obtain ⟨q, hq, rfl⟩ := Option.map_eq_some_iff.1 hother
    have hpq : p.Alike name q := by
      obtain ⟨hi, rfl⟩ := List.getElem?_eq_some_iff.1 hp
      obtain ⟨hj, rfl⟩ := List.getElem?_eq_some_iff.1 hq
      exact halike.get hi hj
    rw [s.sourceRoot_resolvedProject, t.sourceRoot_resolvedProject, s.external_resolvedProject,
      t.external_resolvedProject]
    refine ⟨hpq.sourceRoot, hpq.external, p, q, hp, hq, ?_⟩
    intro source
    have hps := List.mem_of_getElem? hp
    have hqt := List.mem_of_getElem? hq
    have hown : (p.profile.voices name p.sourceRoot source).Perm
        (q.profile.voices name q.sourceRoot source) := by
      rw [← hpq.sourceRoot]
      exact Profile.voices_perm (hswritten.projects p hps) (htwritten.projects q hqt) hpq.profile
        p.sourceRoot source
    have hshared : (s.profile.voices name s.directory source).Perm
        (t.profile.voices name t.directory source) := by
      rw [← hdirectory]
      exact Profile.voices_perm hswritten.profile htwritten.profile hprofile s.directory source
    refine ⟨hown, hshared, ?_⟩
    exact Solution.rel_sourceConfigurations hswritten htwritten hps hqt
      (Workspace.emptyIfExternal_of_mem hs hps) (Workspace.emptyIfExternal_of_mem ht hqt) hpq
      hprofile (hown.append hshared)

/-! ## A change of order -/

def levelFor (files level : String) : Node :=
  .plain ⟨"/w"⟩ "compile" [("files", files)] "" [.plain ⟨"/w"⟩ "WarningLevel" [] level []]

/-- A project in which `Release` comes before a `Debug` with two rules for the same source. -/
def sideBySide (release : List Node) : Node :=
  .plain ⟨"/w"⟩ "solution" [("name", "S")] ""
    [.plain ⟨"/w"⟩ "project" [("name", "P")] ""
      [.plain ⟨"/w"⟩ "configurations" [] ""
        [.plain ⟨"/w"⟩ "configuration" [("name", "Release")] "" release,
          .plain ⟨"/w"⟩ "configuration" [("name", "Debug")] ""
            [levelFor "*.c" "1", levelFor "a.*" "4"]]]]

def sideBySideSolution (release : List Node) : Solution :=
  ((Workspace.literal ⟨"/w"⟩).readSolution (sideBySide release)).value.getD (.named "" ⟨""⟩ ⟨""⟩)

def sideBySideProject (release : List Node) : Project :=
  (sideBySideSolution release).resolve.value.projects.headD (.authored "" .cpp ⟨""⟩ ⟨""⟩)

theorem readSolution_sideBySide (release : List Node) :
    ((Workspace.literal ⟨"/w"⟩).readSolution (sideBySide release)).value =
      some (sideBySideSolution release) := by
  have hname : (sideBySide release).attribute? "name" = some "S" := rfl
  unfold sideBySideSolution
  rw [Workspace.readSolution_value, hname, Option.map_some, Option.getD_some]

theorem resolve_sideBySide_early :
    (sideBySideSolution [levelFor "a.*" "0"]).resolve.value.projects[0]? =
      some (sideBySideProject [levelFor "a.*" "0"]) := by
  decide +kernel

theorem resolve_sideBySide_late :
    (sideBySideSolution []).resolve.value.projects[0]? = some (sideBySideProject []) := by
  decide +kernel

theorem sourceConfigurations_same_but_order_release :
    ∃ s t resolved other p q,
      ((Workspace.literal ⟨"/w"⟩).readSolution (sideBySide [levelFor "a.*" "0"])).value = some s ∧
        ((Workspace.literal ⟨"/w"⟩).readSolution (sideBySide [])).value = some t ∧
          s.resolve.value.projects[0]? = some resolved ∧
            t.resolve.value.projects[0]? = some other ∧
              Option.Rel
                (fun c d => Configuration.SameButOrder c d (s.voices p "Debug" ⟨"/w/a.c"⟩)
                  (t.voices q "Debug" ⟨"/w/a.c"⟩))
                ((sourceConfigurations s.resolve.value resolved ⟨"/w/a.c"⟩).find? "Debug")
                ((sourceConfigurations t.resolve.value other ⟨"/w/a.c"⟩).find? "Debug") := by
  have hs := readSolution_sideBySide [levelFor "a.*" "0"]
  have ht := readSolution_sideBySide []
  obtain ⟨-, hprojects⟩ := sourceConfigurations_same_but_order "Debug" _ _ rfl (fun _ => rfl)
    (sideBySide [levelFor "a.*" "0"]) (sideBySide []) rfl _ _ hs ht
  obtain ⟨-, -, p, q, -, -, hsources⟩ :=
    hprojects 0 _ _ resolve_sideBySide_early resolve_sideBySide_late
  exact ⟨_, _, _, _, p, q, hs, ht, resolve_sideBySide_early, resolve_sideBySide_late,
    (hsources ⟨"/w/a.c"⟩).2.2⟩

def Isolated (name : String) (w : Workspace) (e f : Node) : Prop :=
  ∀ (s t : Solution) (i : Nat) (resolved other : Project) (source : Path),
    (w.readSolution e).value = some s → (w.readSolution f).value = some t →
      s.resolve.value.projects[i]? = some resolved → t.resolve.value.projects[i]? = some other →
        ((sourceConfigurations s.resolve.value resolved source).find? name).map
            (fun c => (c.values, c.excluded)) =
          ((sourceConfigurations t.resolve.value other source).find? name).map
            fun c => (c.values, c.excluded)

/-- The rule of `Release` is mentioned first, so its pattern comes first for `Debug` as well. -/
theorem not_isolated_of_order :
    (sideBySide [levelFor "a.*" "0"]).outline "Debug" false =
        (sideBySide []).outline "Debug" false ∧
      ¬Isolated "Debug" (.literal ⟨"/w"⟩) (sideBySide [levelFor "a.*" "0"]) (sideBySide []) := by
  refine ⟨rfl, ?_⟩
  intro h
  have hsame := h _ _ 0 _ _ ⟨"/w/a.c"⟩ (readSolution_sideBySide [levelFor "a.*" "0"])
    (readSolution_sideBySide []) resolve_sideBySide_early resolve_sideBySide_late
  exact absurd hsame (by decide +kernel)

end SolutionPlan
