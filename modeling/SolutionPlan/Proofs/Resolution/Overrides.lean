import SolutionPlan.Proofs.Description.Solutions
import SolutionPlan.Proofs.Resolution.Frame
import SolutionPlan.Resolution.Overrides

/-!
# Overrides by levels

What the file rules say about one source stands for a list of levels: for each rule that applies,
the configuration that it was written with and then its shared one. The rules of the project come
first and those of the solution behind them, in the order in which they were read.
-/

namespace SolutionPlan

/-- The rule has a say in the source, which it sees from the directory that it is relative to. -/
def FileRule.appliesTo (r : FileRule) (base source : Path) : Bool :=
  r.pattern.accepts (source.relativeTo base).toSlash

def Profile.applying (p : Profile) (base source : Path) : List FileRule :=
  p.rules.filter fun r => r.appliesTo base source

/-! ## Merging one rule after the other -/

namespace ConfigurationSet

/-- Every configuration of the set stands for the levels of its name. -/
def Stands (s : ConfigurationSet) (levels : String → List Configuration) : Prop :=
  ∀ c ∈ s.configurations, c.Combines (levels c.name)

theorem names_mergeFrom (s parent : ConfigurationSet) : (s.mergeFrom parent).names = s.names := by
  simp [mergeFrom, names, Function.comp_def]

theorem Stands.mergeFrom {s parent : ConfigurationSet} {levels : String → List Configuration}
    (hs : s.Stands levels) (hlevels : ∀ name, ∀ level ∈ levels name, level.WellKinded)
    (hparent : parent.Written) :
    (s.mergeFrom parent.applyShared).Stands fun name => levels name ++ parent.levels name := by
  intro c hc
  obtain ⟨own, hown, rfl⟩ := List.mem_map.1 hc
  rw [name_mergeInto]
  exact combines_mergeInto_applyShared hparent (hs own hown) (hlevels own.name)

theorem Stands.foldl_mergeFrom {rules : List FileRule} (hrules : ∀ r ∈ rules, r.overrides.Written)
    {s : ConfigurationSet} {levels : String → List Configuration} (hs : s.Stands levels)
    (hlevels : ∀ name, ∀ level ∈ levels name, level.WellKinded) :
    ((Profile.applyRules rules).foldl (fun s r => s.mergeFrom r.overrides) s).Stands
      fun name => levels name ++ rules.flatMap fun r => r.overrides.levels name := by
  induction rules generalizing s levels with
  | nil => simpa [Profile.applyRules] using hs
  | cons r rest ih =>
      have hr : r.overrides.Written := hrules r List.mem_cons_self
      have hrest : ∀ q ∈ rest, q.overrides.Written := fun q hq =>
        hrules q (List.mem_cons_of_mem r hq)
      have hboth : ∀ name, ∀ level ∈ levels name ++ r.overrides.levels name,
          level.WellKinded := by
        intro name level hlevel
        rcases List.mem_append.1 hlevel with h | h
        · exact hlevels name level h
        · exact hr.wellKinded_levels name level h
      have hmerged := ih hrest (hs.mergeFrom hlevels hr) hboth
      simpa [Profile.applyRules, List.append_assoc] using hmerged

theorem names_foldl_mergeFrom (rules : List FileRule) (s : ConfigurationSet) :
    (rules.foldl (fun s r => s.mergeFrom r.overrides) s).names = s.names := by
  induction rules generalizing s with
  | nil => rfl
  | cons r rest ih => rw [List.foldl_cons, ih, names_mergeFrom]

end ConfigurationSet

namespace Profile

theorem Written.wellKinded_applying {p : Profile} (hp : p.Written) (base source : Path)
    (name : String) :
    ∀ level ∈ (p.applying base source).flatMap (fun r => r.overrides.levels name),
      level.WellKinded := by
  intro level hlevel
  obtain ⟨r, hr, hlevel⟩ := List.mem_flatMap.1 hlevel
  exact (hp.overrides r (List.mem_filter.1 hr).1).wellKinded_levels name level hlevel

theorem names_mergeMatching (p : Profile) (path : String) (s : ConfigurationSet) :
    (p.mergeMatching path s).names = s.names :=
  ConfigurationSet.names_foldl_mergeFrom _ s

/-- The rules of a resolved profile apply as those that were read do. -/
theorem Written.stands_mergeMatching {p resolved : Profile} (hp : p.Written)
    (hresolved : resolved.rules = applyRules p.rules) (base source : Path)
    {s : ConfigurationSet} {levels : String → List Configuration} (hs : s.Stands levels)
    (hlevels : ∀ name, ∀ level ∈ levels name, level.WellKinded) :
    (resolved.mergeMatching (source.relativeTo base).toSlash s).Stands fun name =>
      levels name ++ (p.applying base source).flatMap fun r => r.overrides.levels name := by
  have hrules : resolved.rules.filter
        (fun r => r.pattern.accepts (source.relativeTo base).toSlash) =
      applyRules (p.applying base source) := by
    rw [hresolved]
    unfold applyRules applying
    rw [List.filter_map]
    rfl
  unfold mergeMatching
  rw [hrules]
  apply ConfigurationSet.Stands.foldl_mergeFrom _ hs hlevels
  intro r hr
  exact hp.overrides r (List.mem_filter.1 hr).1

end Profile

/-! ## The overrides of a source -/

/--
The overrides of a source have the names of its project's configurations, in their order. Each of
them says what the applying rules say about its name as they were read, those of the project in
their order and then those of the solution, every rule by its own configuration and then its shared
one; nothing else contributes.
-/
theorem sourceConfigurations_combines_rules (w : Workspace) (e : Node) (s : Solution)
    (hread : (w.readSolution e).value = some s) (i : Nat) (resolved : Project)
    (hproject : s.resolve.value.projects[i]? = some resolved)
    (hauthored : resolved.external = false) (source : Path) :
    ∃ p, s.projects[i]? = some p ∧
      let overrides := sourceConfigurations s.resolve.value resolved source
      overrides.names = resolved.profile.base.names ∧
        ∀ c ∈ overrides.configurations,
          c.Combines
            ((p.profile.applying p.sourceRoot source ++
                s.profile.applying s.directory source).flatMap
              fun r => r.overrides.levels c.name) := by
  obtain ⟨p, hp, hheader, hprofile⟩ := Solution.getElem?_resolve hproject hauthored
  have hwritten : s.Written := Workspace.written_readSolution hread
  have hown : p.profile.Written := hwritten.projects p (List.mem_of_getElem? hp)
  have hroot : resolved.sourceRoot = p.sourceRoot := Project.sourceRoot_of_header hheader
  refine ⟨p, hp, ?_⟩
  have hstart : (ConfigurationSet.mk (resolved.profile.base.names.map .named) none false).Stands
      fun _ => [] := by
    intro c hc
    obtain ⟨name, -, rfl⟩ := List.mem_map.1 hc
    exact Configuration.combines_named name
  have hownRules : resolved.profile.rules = Profile.applyRules p.profile.rules := by
    rw [hprofile]
    rfl
  have hrules : s.resolve.value.profile.rules = Profile.applyRules s.profile.rules := rfl
  have hnear := hown.stands_mergeMatching hownRules p.sourceRoot source hstart (by simp)
  have hall := hwritten.profile.stands_mergeMatching hrules s.directory source hnear
    (by simpa using hown.wellKinded_applying p.sourceRoot source)
  unfold sourceConfigurations
  rw [hroot, s.directory_resolve]
  constructor
  · rw [Profile.names_mergeMatching, Profile.names_mergeMatching]
    simp [ConfigurationSet.names, Function.comp_def, Configuration.named]
  · intro c hc
    have hc := hall c hc
    rw [List.flatMap_append]
    simpa using hc

def definitionsFor (files definitions : String) : Node :=
  .plain ⟨"/w"⟩ "compile" [("files", files)] ""
    [.plain ⟨"/w"⟩ "PreprocessorDefinitions" [] definitions []]

def overrideExample : Node :=
  .plain ⟨"/w"⟩ "solution" [("name", "S")] ""
    [.plain ⟨"/w"⟩ "configurations" [] ""
        [.plain ⟨"/w"⟩ "shared" [] "" [definitionsFor "core/**" "SOLUTION_SHARED"],
          .plain ⟨"/w"⟩ "configuration" [("name", "Debug")] ""
            [definitionsFor "core/**" "SOLUTION_DEBUG"]],
      .plain ⟨"/w"⟩ "project" [("name", "Core"), ("root", "core")] ""
        [.plain ⟨"/w"⟩ "configurations" [] ""
          [.plain ⟨"/w"⟩ "configuration" [("name", "Debug")] ""
            [definitionsFor "src/*.c" "PROJECT_DEBUG", definitionsFor "*.h" "HEADERS"]]]]

def overrideSolution : Solution :=
  ((Workspace.literal ⟨"/w"⟩).readSolution overrideExample).value.getD (.named "" ⟨""⟩ ⟨""⟩)

def overrideProject : Project :=
  overrideSolution.resolve.value.projects.headD (.authored "" .cpp ⟨""⟩ ⟨""⟩)

theorem sourceConfigurations_combines_rules_of_core :
    ∃ s resolved, ((Workspace.literal ⟨"/w"⟩).readSolution overrideExample).value = some s ∧
      s.resolve.value.projects[0]? = some resolved ∧ resolved.external = false ∧
      ∃ p, s.projects[0]? = some p ∧
        let overrides := sourceConfigurations s.resolve.value resolved ⟨"/w/core/src/a.c"⟩
        overrides.names = resolved.profile.base.names ∧
          ∀ c ∈ overrides.configurations,
            c.Combines
              ((p.profile.applying p.sourceRoot ⟨"/w/core/src/a.c"⟩ ++
                  s.profile.applying s.directory ⟨"/w/core/src/a.c"⟩).flatMap
                fun r => r.overrides.levels c.name) := by
  have hread : ((Workspace.literal ⟨"/w"⟩).readSolution overrideExample).value =
      some overrideSolution := by decide +kernel
  have hproject : overrideSolution.resolve.value.projects[0]? = some overrideProject := by
    decide +kernel
  have hauthored : overrideProject.external = false := by decide +kernel
  exact ⟨overrideSolution, overrideProject, hread, hproject, hauthored,
    sourceConfigurations_combines_rules _ _ _ hread 0 _ hproject hauthored _⟩

example :
    (sourceConfigurations overrideSolution.resolve.value overrideProject
        ⟨"/w/core/src/a.c"⟩).configurations.map
        (fun c => (c.name, c.getNamed? .compile "PreprocessorDefinitions")) =
      [("Debug", some (.list ["PROJECT_DEBUG", "SOLUTION_DEBUG", "SOLUTION_SHARED"]))] := by
  decide +kernel

end SolutionPlan
