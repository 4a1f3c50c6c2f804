import SolutionPlan.FileSystem.Store
import SolutionPlan.Proofs.Build
import SolutionPlan.Proofs.Description.Coverage
import SolutionPlan.Proofs.Description.Imports
import SolutionPlan.Proofs.Description.Trees
import SolutionPlan.Proofs.Resolution.Isolation

/-!
# No override is lost

The overrides of a source have the configurations of its project only. Inheritance gives a project
all that any rule may speak about, so whatever an applying rule says is part of the overrides.
-/

namespace SolutionPlan

/-- After its shared configuration is merged, a configuration stands for its levels in the set. -/
theorem ConfigurationSet.Written.combines_applyShared {s : ConfigurationSet} (hs : s.Written)
    {c : Configuration} (hc : c ∈ s.applyShared.configurations) : c.Combines (s.levels c.name) := by
  rw [hs.applyShared_eq] at hc
  obtain ⟨own, hown, rfl⟩ := List.mem_map.1 hc
  have hkind := hs.wellKinded own hown
  rw [name_withShared, levels, find?_of_mem hs.distinct hown]
  exact combines_withShared hs hkind.combines_self (by simpa using hkind)

/-- What the configuration says is part of what the other one says: the levels that it stands for
are, as they are, among those of the other one. -/
def Configuration.PartOf (c whole : Configuration) : Prop :=
  ∃ near own far, c.Combines own ∧ whole.Combines (near ++ own ++ far)

theorem exists_flatMap_of_mem {α β : Type} {f : α → List β} {xs : List α} {x : α} (h : x ∈ xs) :
    ∃ near far, xs.flatMap f = near ++ f x ++ far := by
  obtain ⟨before, behind, rfl⟩ := List.append_of_mem h
  exact ⟨before.flatMap f, behind.flatMap f, by simp⟩

namespace Solution

section Resolved

variable {s : Solution} {p : Project} (hs : s.Written) (hp : p ∈ s.projects)
  (hauthored : p.external = false)

include hs hp hauthored

theorem mem_names_resolvedProject_iff (name : String) :
    name ∈ (s.resolvedProject p).profile.base.names ↔
      name ∈ p.profile.base.names ∨ name ∈ s.profile.base.names := by
  have hempty : p.EmptyIfExternal := fun h => absurd h (by simp [hauthored])
  have hnames := mem_names_sourceConfigurations_iff hs hp hempty name ⟨""⟩
  rwa [names_sourceConfigurations, and_iff_right hauthored] at hnames

theorem exists_sourceConfiguration {name : String}
    (hname : name ∈ p.profile.base.names ∨ name ∈ s.profile.base.names) (source : Path) :
    ∃ c, (sourceConfigurations s.resolve.value (s.resolvedProject p) source).find? name = some c ∧
      c.Combines
        (((p.profile.applying p.sourceRoot source).flatMap fun r => r.overrides.levels name) ++
          (s.profile.applying s.directory source).flatMap fun r => r.overrides.levels name) := by
  have hempty : p.EmptyIfExternal := fun h => absurd h (by simp [hauthored])
  have hmem := (mem_names_sourceConfigurations_iff hs hp hempty name source).2 ⟨hauthored, hname⟩
  cases hfound : (sourceConfigurations s.resolve.value (s.resolvedProject p) source).find? name with
  | none => exact absurd hmem (ConfigurationSet.find?_eq_none_iff.1 hfound)
  | some c =>
      have hcombines := combines_voices hs hp hempty hfound
      rw [voices, List.flatMap_append, Profile.flatMap_voices, Profile.flatMap_voices] at hcombines
      exact ⟨c, rfl, hcombines⟩

/-- A rule that was read with the project or with its solution has its part in the overrides. -/
theorem partOf_sourceConfiguration {r : FileRule} {source : Path}
    (hr : r ∈ p.profile.applying p.sourceRoot source ∨ r ∈ s.profile.applying s.directory source)
    (hcovered : ∀ name ∈ r.overrides.names,
      name ∈ p.profile.base.names ∨ name ∈ s.profile.base.names)
    (hwritten : r.overrides.Written) {c : Configuration}
    (hc : c ∈ r.overrides.applyShared.configurations) :
    ∃ found, (sourceConfigurations s.resolve.value (s.resolvedProject p) source).find? c.name =
      some found ∧ c.PartOf found := by
  have hname : c.name ∈ r.overrides.names := by
    rw [← hwritten.names_applyShared]
    exact List.mem_map_of_mem hc
  obtain ⟨found, hfound, hcombines⟩ :=
    exists_sourceConfiguration hs hp hauthored (hcovered c.name hname) source
  have hown := hwritten.combines_applyShared hc
  refine ⟨found, hfound, ?_⟩
  rcases hr with h | h
  · obtain ⟨near, far, hlevels⟩ :=
      exists_flatMap_of_mem (f := fun r => r.overrides.levels c.name) h
    rw [hlevels, List.append_assoc (near ++ _)] at hcombines
    exact ⟨near, _, _, hown, hcombines⟩
  · obtain ⟨near, far, hlevels⟩ :=
      exists_flatMap_of_mem (f := fun r => r.overrides.levels c.name) h
    rw [hlevels, ← List.append_assoc, ← List.append_assoc] at hcombines
    exact ⟨_, _, far, hown, hcombines⟩

end Resolved

end Solution

theorem Profile.exists_applying {p resolved : Profile} (h : resolved.rules = applyRules p.rules)
    {base source : Path} {r : FileRule} (hr : r ∈ resolved.applying base source) :
    ∃ read ∈ p.applying base source, r.overrides = read.overrides.applyShared := by
  obtain ⟨hmem, happlies⟩ := List.mem_filter.1 hr
  rw [h] at hmem
  obtain ⟨read, hread, rfl⟩ := List.mem_map.1 hmem
  exact ⟨read, List.mem_filter.2 ⟨hread, happlies⟩, rfl⟩

/--
In every solution of a description that is read, the profiles of the solution and of its projects
cover their rules. After resolution each authored project has every configuration that a rule of
its own or of the solution has. So what an applying rule says about a configuration is part of the
overrides of the source.
-/
theorem overrides_lose_nothing {fs : FileSystem} {workingDirectory path : Path}
    {bindings : List (String × String)} {d : Logged Description}
    (h : Description.read fs workingDirectory path bindings = .ok d) :
    ∀ s ∈ d.value.solutions, s.profile.Covered ∧ (∀ p ∈ s.projects, p.profile.Covered) ∧
      ∀ p ∈ s.resolve.value.projects, p.external = false →
        (∀ r ∈ p.profile.rules ++ s.resolve.value.profile.rules,
          ∀ name ∈ r.overrides.names, name ∈ p.profile.base.names) ∧
        ∀ (source : Path) (r : FileRule),
          r ∈ p.profile.applying p.sourceRoot source ∨
              r ∈ s.resolve.value.profile.applying s.resolve.value.directory source →
            ∀ c ∈ r.overrides.configurations,
              ∃ found,
                (sourceConfigurations s.resolve.value p source).find? c.name = some found ∧
                  c.PartOf found := by
  intro s hsolution
  obtain ⟨w, e, hread⟩ := Description.exists_readSolution_of_read h s hsolution
  have hs := Workspace.written_readSolution hread
  obtain ⟨hprofile, hprojects⟩ := Workspace.covered_readSolution hread
  refine ⟨hprofile, hprojects, ?_⟩
  rw [Solution.projects_resolve, List.forall_mem_map]
  intro p hp hresolved
  have hcovered := hprojects p hp
  have hauthored : p.external = false := by
    have hexternal := congrArg Project.external (s.bare_resolvedProject p)
    exact hexternal.symm.trans hresolved
  have hrules : (s.resolvedProject p).profile.rules = Profile.applyRules p.profile.rules := by
    rw [Solution.profile_resolvedProject, if_neg (by simp [hauthored])]
    rfl
  have hsolutionRules : s.resolve.value.profile.rules = Profile.applyRules s.profile.rules := rfl
  constructor
  · intro r hr name hname
    rw [Solution.mem_names_resolvedProject_iff hs hp hauthored]
    rw [hrules, hsolutionRules, List.mem_append] at hr
    rcases hr with hr | hr
    · obtain ⟨read, hread, rfl⟩ := List.mem_map.1 hr
      have hnames := (hcovered.written.overrides read hread).names_applyShared
      exact .inl (hcovered.names read hread name (hnames ▸ hname))
    · obtain ⟨read, hread, rfl⟩ := List.mem_map.1 hr
      have hnames := (hprofile.written.overrides read hread).names_applyShared
      exact .inr (hprofile.names read hread name (hnames ▸ hname))
  · intro source r hr c hc
    rw [s.sourceRoot_resolvedProject, s.directory_resolve] at hr
    rcases hr with hr | hr
    · obtain ⟨read, hread, hoverrides⟩ := Profile.exists_applying hrules hr
      have hmem := (List.mem_filter.1 hread).1
      exact Solution.partOf_sourceConfiguration hs hp hauthored (.inl hread)
        (fun name hname => .inl (hcovered.names read hmem name hname))
        (hcovered.written.overrides read hmem) (hoverrides ▸ hc)
    · obtain ⟨read, hread, hoverrides⟩ := Profile.exists_applying hsolutionRules hr
      have hmem := (List.mem_filter.1 hread).1
      exact Solution.partOf_sourceConfiguration hs hp hauthored (.inr hread)
        (fun name hname => .inr (hprofile.names read hmem name hname))
        (hprofile.written.overrides read hmem) (hoverrides ▸ hc)

/-! ## An inherited configuration -/

theorem Description.names_of_read {fs : FileSystem} {workingDirectory path : Path}
    {bindings : List (String × String)} {d : Logged Description}
    (h : read fs workingDirectory path bindings = .ok d) :
    ∃ text root, fs.read d.value.root = .ok text ∧ Xml.parse text = .ok root ∧
      d.value.solutions.map Solution.name =
        (root.named "solution").filterMap fun e => e.attribute? "name" := by
  obtain ⟨document, text, root, parameters, hopen, -, hread, hparse, rfl⟩ := read_eq_ok h
  have hname (w : Workspace) (n : Node) :
      (w.readSolution n).value.map Solution.name = n.attribute? "name" := by
    cases hsolution : (w.readSolution n).value with
    | some s => exact (Workspace.readSolution_spec hsolution).1.symm
    | none =>
        rw [Workspace.readSolution_value] at hsolution
        exact (Option.map_eq_none_iff.1 hsolution).symm
  refine ⟨text, root, hread, hparse, ?_⟩
  simp only [Logged.bind_value, Logged.pure_value, readSolutions, Logged.mapM_value,
    List.reduceOption, List.filterMap_map, List.map_filterMap, Function.comp_def, id_eq, hname,
    Node.attribute?, Node.tag_load]
  rfl

/-- A root document with a rule for `Debug` in its solution, whose only project does not mention
that configuration itself. -/
def inheritingDebug : String :=
  "<build><solution name=\"S\"><configurations><shared/><configuration name=\"Debug\">" ++
    "<compile files=\"*.c\"><WarningLevel>4</WarningLevel></compile></configuration>" ++
    "</configurations><project name=\"P\"><configurations><configuration name=\"Release\"/>" ++
    "</configurations></project></solution></build>"

def inheritingRoot : Xml.Element :=
  .mk (.plain "build" []) [.mk (.plain "solution" [("name", "S")])
    [.mk (.plain "configurations" []) [.mk (.plain "shared" []) [],
      .mk (.plain "configuration" [("name", "Debug")]) [.mk (.plain "compile" [("files", "*.c")])
        [.mk { Xml.Tag.plain "WarningLevel" [] with text := "4" } []]]],
    .mk (.plain "project" [("name", "P")]) [.mk (.plain "configurations" [])
      [.mk (.plain "configuration" [("name", "Release")]) []]]]]

def FileStore.inheriting : FileStore := FileStore.empty.add ⟨"/w/build.xml"⟩ inheritingDebug

theorem overrides_lose_nothing_inheriting :
    ∃ d s, Description.read FileStore.inheriting.fileSystem ⟨"/w"⟩ ⟨"build.xml"⟩ [] = .ok d ∧
      s ∈ d.value.solutions ∧ s.name = "S" ∧ s.profile.Covered ∧
        ∀ p ∈ s.projects, p.profile.Covered := by
  have hdocument : (Path.join ⟨"/w"⟩ ⟨"build.xml"⟩).normalize = ⟨"/w/build.xml"⟩ := by
    decide +kernel
  have htext : FileStore.inheriting.fileSystem.read ⟨"/w/build.xml"⟩ = .ok inheritingDebug :=
    (FileStore.read_add_empty ⟨"/w/build.xml"⟩ ⟨"/w/build.xml"⟩ inheritingDebug).trans (if_pos rfl)
  have hparse : Xml.parse inheritingDebug = .ok inheritingRoot := by
    decide +kernel
  have hparameters : Parameters.ofDocument inheritingRoot [] = .ok .empty := rfl
  obtain ⟨opened, hload⟩ := Description.loadDocument_of_read htext hparse hparameters
  rw [← hdocument, ← Description.loadTree_of_ne (by decide)] at hload
  have hread := Description.read_of_loadTree hload
  obtain ⟨text, root, htext', hparse', hsolutions⟩ := Description.names_of_read hread
  obtain rfl : inheritingDebug = text := Except.ok.inj (htext.symm.trans htext')
  obtain rfl : inheritingRoot = root := Except.ok.inj (hparse.symm.trans hparse')
  have hnamed : (inheritingRoot.named "solution").filterMap (fun e => e.attribute? "name") =
      ["S"] := rfl
  rw [hnamed] at hsolutions
  obtain ⟨s, hs, hname⟩ := List.mem_map.1 (hsolutions ▸ List.mem_singleton_self "S")
  obtain ⟨hprofile, hprojects, -⟩ := overrides_lose_nothing hread s hs
  exact ⟨_, s, hread, hs, hname, hprofile, hprojects⟩

end SolutionPlan
