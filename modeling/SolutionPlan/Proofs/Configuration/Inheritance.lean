import SolutionPlan.Proofs.Configuration.Levels

/-!
# The four levels of a project's configuration

A project's configuration stands for its own words, then for the project's shared configuration,
then for the solution's configuration of the same name and at last for the solution's shared one.
Each of these levels counts once, whichever of them are missing.
-/

namespace SolutionPlan

namespace ConfigurationSet

/-! ## Taking over names -/

@[simp] theorem names_add (s : ConfigurationSet) (c : Configuration) :
    (s.add c).names = s.names ++ [c.name] := by
  simp [add, names]

theorem ensure_of_mem {s : ConfigurationSet} {name : String} (h : name ∈ s.names) :
    s.ensure name = s := by
  unfold ensure
  rw [if_pos]
  rw [Option.isSome_iff_ne_none, ne_eq, find?_eq_none_iff]
  exact not_not_intro h

theorem ensure_of_not_mem {s : ConfigurationSet} {name : String} (h : name ∉ s.names) :
    s.ensure name = s.add (.named name) := by
  unfold ensure
  rw [find?_eq_none_iff.2 h]
  rfl

def missing (s : ConfigurationSet) (names : List String) : List String :=
  names.filter fun name => !s.names.contains name

/-- Names that are taken over come behind the set's own ones, each with an empty configuration. -/
theorem foldl_ensure {names : List String} (hnames : names.Nodup) (s : ConfigurationSet) :
    names.foldl ensure s =
      { s with
        configurations := s.configurations ++ (s.missing names).map Configuration.named } := by
  induction names generalizing s with
  | nil => simp [missing]
  | cons name rest ih =>
      rw [List.nodup_cons] at hnames
      rw [List.foldl_cons, ih hnames.2]
      by_cases h : name ∈ s.names
      · rw [ensure_of_mem h]
        simp [missing, h]
      · have hmissing : (s.add (.named name)).missing rest = s.missing rest := by
          apply List.filter_congr
          intro other hother
          have hne : other ≠ name := fun he => hnames.1 (he ▸ hother)
          simp [Configuration.named, hne]
        rw [ensure_of_not_mem h, hmissing]
        simp [missing, add, h]

theorem Written.foldl_ensure {s : ConfigurationSet} (hs : s.Written) {names : List String}
    (hnames : names.Nodup) : (names.foldl ensure s).Written := by
  rw [ConfigurationSet.foldl_ensure hnames]
  refine ⟨hs.unapplied, ?_, ?_, hs.sharedWellKinded⟩
  · have hnew : ((s.missing names).map Configuration.named).map Configuration.name =
        s.missing names := by
      simp [Configuration.named, Function.comp_def]
    simp only [ConfigurationSet.names, List.map_append, hnew]
    refine List.nodup_append.2 ⟨hs.distinct, hnames.filter _, ?_⟩
    rintro name hname other hother rfl
    have hother := (List.mem_filter.1 hother).2
    exact absurd hname (by simpa [missing, ConfigurationSet.names] using hother)
  · intro c hc
    rcases List.mem_append.1 hc with h | h
    · exact hs.wellKinded c h
    · obtain ⟨name, -, rfl⟩ := List.mem_map.1 h
      exact Configuration.wellKinded_named name

/-! ## The levels after taking over names -/

/-- Taking over names adds no level: the configurations that are new say nothing. -/
theorem combines_foldl_ensure {s : ConfigurationSet} (hs : s.Written) {names : List String}
    (hnames : names.Nodup) {c : Configuration}
    (hc : c ∈ (names.foldl ensure s).configurations) :
    c.Combines (s.find? c.name).toList := by
  rw [foldl_ensure hnames] at hc
  rcases List.mem_append.1 hc with h | h
  · rw [find?_of_mem hs.distinct h]
    exact (hs.wellKinded c h).combines_self
  · obtain ⟨name, hname, rfl⟩ := List.mem_map.1 h
    have hnot : name ∉ s.names := by simpa using (List.mem_filter.1 hname).2
    have hfind : s.find? (Configuration.named name).name = none := find?_eq_none_iff.2 hnot
    rw [hfind]
    exact Configuration.combines_named name

theorem combines_inheritFrom {s parent : ConfigurationSet} (hs : s.Written)
    (hparent : parent.Written) :
    ∀ c ∈ (s.inheritFrom parent.applyShared).configurations,
      c.Combines (s.levels c.name ++ parent.levels c.name) := by
  have hnames : parent.applyShared.names.Nodup := by
    rw [hparent.names_applyShared]
    exact hparent.distinct
  have hwritten : (parent.applyShared.names.foldl ensure s).Written := hs.foldl_ensure hnames
  have hshared : (parent.applyShared.names.foldl ensure s).shared = s.shared := by
    rw [foldl_ensure hnames]
  intro c hc
  unfold inheritFrom mergeFrom at hc
  rw [hwritten.applyShared_eq] at hc
  simp only [List.map_map, List.mem_map, Function.comp_apply] at hc
  obtain ⟨own, hown, rfl⟩ := hc
  have hnear := combines_foldl_ensure hs hnames hown
  have hlocal := combines_withShared hwritten hnear fun level hlevel =>
    hs.wellKinded_levels own.name level (List.mem_append_left _ hlevel)
  rw [hshared] at hlocal
  simp only [name_mergeInto, name_withShared]
  have hall := combines_mergeInto_applyShared hparent hlocal (hs.wellKinded_levels own.name)
  simpa [ConfigurationSet.levels] using hall

theorem names_inheritFrom {s parent : ConfigurationSet} (hs : s.Written)
    (hparent : parent.Written) :
    (s.inheritFrom parent.applyShared).names = s.names ++ s.missing parent.names := by
  have hnames : parent.applyShared.names.Nodup := by
    rw [hparent.names_applyShared]
    exact hparent.distinct
  unfold inheritFrom mergeFrom
  rw [(hs.foldl_ensure hnames).applyShared_eq, foldl_ensure hnames, hparent.names_applyShared]
  simp [names, Function.comp_def, Configuration.named]

end ConfigurationSet

/-! ## A project under its solution -/

/--
After both merges the project's configurations are its own ones in order and then one for each name
that only the solution has. Each says what its four levels say together, and has no value for a
setting exactly if none of them has one.
-/
theorem inheritFrom_combines_levels (solution project : Profile)
    (hsolution : solution.base.Written) (hproject : project.base.Written) :
    let merged := (project.inheritFrom solution.applyShared).base
    merged.names =
        project.base.names ++
          solution.base.names.filter (fun name => !project.base.names.contains name) ∧
      ∀ c ∈ merged.configurations,
        let levels := project.base.levels c.name ++ solution.base.levels c.name
        c.Combines levels ∧
          ∀ key, c.get? key = none ↔ ∀ level ∈ levels, level.get? key = none := by
  intro merged
  refine ⟨ConfigurationSet.names_inheritFrom hproject hsolution, ?_⟩
  intro c hc
  have hcombines := ConfigurationSet.combines_inheritFrom hproject hsolution c hc
  exact ⟨hcombines, hcombines.get?_eq_none_iff⟩

/-- A solution with a shared configuration and two named ones, of which one says nothing. -/
def chainSolution : Profile :=
  Profile.empty.writeAll
    [⟨⟨none, .shared "S_shared"⟩, .set 13 (.list ["SLN_SHARED"])⟩,
      ⟨⟨none, .named "Debug"⟩, .set 13 (.list ["SLN_DEBUG"])⟩,
      ⟨⟨none, .named "Debug"⟩, .set 9 (.choice "Disabled")⟩,
      ⟨⟨none, .named "Release"⟩, .mention⟩]

/-- A project that knows only one of the solution's configurations. -/
def chainProject : Profile :=
  Profile.empty.writeAll
    [⟨⟨none, .shared "Core_shared"⟩, .set 13 (.list ["PRJ_SHARED"])⟩,
      ⟨⟨none, .named "Debug"⟩, .set 13 (.list ["PRJ_DEBUG"])⟩,
      ⟨⟨none, .named "Debug"⟩, .set 9 (.choice "Full")⟩,
      ⟨⟨none, .named "Debug"⟩, .exclude true⟩]

theorem inheritFrom_combines_levels_chain :
    chainSolution.base.Written ∧ chainProject.base.Written ∧
      (chainProject.inheritFrom chainSolution.applyShared).base.names =
        ["Debug"] ++ ["Debug", "Release"].filter (fun name => !List.contains ["Debug"] name) ∧
      ∀ c ∈ (chainProject.inheritFrom chainSolution.applyShared).base.configurations,
        c.Combines (chainProject.base.levels c.name ++ chainSolution.base.levels c.name) := by
  have hsolution : chainSolution.base.Written :=
    ⟨by decide +kernel, by decide +kernel, by decide +kernel, by decide +kernel⟩
  have hproject : chainProject.base.Written :=
    ⟨by decide +kernel, by decide +kernel, by decide +kernel, by decide +kernel⟩
  obtain ⟨hnames, hlevels⟩ :=
    inheritFrom_combines_levels chainSolution chainProject hsolution hproject
  exact ⟨hsolution, hproject, hnames, fun c hc => (hlevels c hc).1⟩

example :
    (chainProject.inheritFrom chainSolution.applyShared).base.configurations.map
        (fun c => (c.name, c.getNamed? .compile "PreprocessorDefinitions", c.excluded)) =
      [("Debug", some (.list ["PRJ_DEBUG", "PRJ_SHARED", "SLN_DEBUG", "SLN_SHARED"]), some true),
        ("Release", some (.list ["PRJ_SHARED", "SLN_SHARED"]), none)] := by
  decide +kernel

end SolutionPlan
