import SolutionPlan.Proofs.Description.ImportedRules

/-!
# File rules of a solution

A rule of a solution is matched from the directory that its pattern was related to. So it means what
it says in the directory that it is written in, except for the sources that lie on the same side of
that directory as the solution: the way to those does not lead through the directory. A rule from a
directory below that of the solution is confined to its directory, whatever that is called.
-/

namespace SolutionPlan

open SolutionPlan.Path

/-! ## Patterns below their directory -/

theorem relocatePattern_of_normal_eq {directory origin : Path}
    (hdirectory : directory.isAbsolute = true) (horigin : origin.isAbsolute = true)
    (h : directory.normal = origin.normal) (files : String) :
    relocatePattern directory origin files = (ofDocument files).text := by
  unfold relocatePattern
  rw [toSlash_relativeTo hdirectory horigin, way_eq_nil_iff.2 h]
  rfl

/-- Below its directory a relocated pattern accepts what the pattern accepts there, on all sides of
the directory but that of the origin. -/
theorem relocated_accepts_below {directory origin : Path} (hdirectory : directory.isAbsolute = true)
    (horigin : origin.isAbsolute = true) (hplain : '\\' ∉ directory.toList) {files : String}
    (hfiles : (ofDocument files).Descends) {pattern : FilePattern}
    (hpattern : FilePattern.compile (ofDocument files).text = .ok pattern) :
    ∃ relocated,
      FilePattern.compile (relocatePattern directory origin files) = .ok relocated ∧
        ∀ source : Path, source.isAbsolute = true → '\\' ∉ source.toList →
          source.Below directory →
            (relocated.accepts (source.relativeTo origin).toSlash = true ↔
              pattern.accepts (source.relativeTo directory).toSlash = true ∧
                ¬ ShareChild directory origin source) := by
  -- A pattern of the origin itself is not relocated, and it has no source on its own side.
  by_cases hsame : directory.normal = origin.normal
  · refine ⟨pattern, ?_, ?_⟩
    · rw [relocatePattern_of_normal_eq hdirectory horigin hsame, hpattern]
    · rintro source hsource - -
      have hway : way origin source = way directory source := by
        unfold way
        rw [hsame]
      have hside : ¬ ShareChild directory origin source := by
        intro h
        exact (below_iff.1 h.below).2 hsame
      rw [toSlash_relativeTo hsource horigin, toSlash_relativeTo hsource hdirectory, hway]
      exact (and_iff_left hside).symm
  · obtain ⟨relocated, hcompile, haccepts⟩ :=
      relocated_accepts hdirectory horigin hsame hplain hfiles hpattern
    refine ⟨relocated, hcompile, ?_⟩
    rintro source hsource hsourceplain ⟨below, hbelowne, hbelow⟩
    rw [haccepts origin source horigin hsource hsourceplain, toSlash_relativeTo hsource hdirectory,
      way_of_normal_append hbelow]
    constructor
    · rintro ⟨rest, -, hrest, hmatch⟩
      obtain ⟨rfl, hside⟩ :=
        (way_eq_through_iff hsource hdirectory hbelow hbelowne).1 hrest
      exact ⟨hmatch, hside⟩
    · rintro ⟨hmatch, hside⟩
      have hthrough := (way_eq_through_iff hsource hdirectory hbelow hbelowne).2 ⟨rfl, hside⟩
      exact ⟨below, hbelowne, hthrough, hmatch⟩

/-- From above its directory a relocated pattern accepts what lies below the directory and what the
pattern accepts there, and nothing else. -/
theorem relocated_accepts_from_above {directory origin : Path}
    (hdirectory : directory.isAbsolute = true) (horigin : origin.isAbsolute = true)
    (hbelow : directory.Below origin) (hplain : '\\' ∉ directory.toList) {files : String}
    (hfiles : (ofDocument files).Descends) {pattern : FilePattern}
    (hpattern : FilePattern.compile (ofDocument files).text = .ok pattern) :
    ∃ relocated,
      FilePattern.compile (relocatePattern directory origin files) = .ok relocated ∧
        ∀ source : Path, source.isAbsolute = true → '\\' ∉ source.toList →
          (relocated.accepts (source.relativeTo origin).toSlash = true ↔
            source.Below directory ∧
              pattern.accepts (source.relativeTo directory).toSlash = true) := by
  have hne : directory.normal ≠ origin.normal := (below_iff.1 hbelow).2.symm
  obtain ⟨relocated, hcompile, haccepts⟩ :=
    relocated_accepts hdirectory horigin hne hplain hfiles hpattern
  refine ⟨relocated, hcompile, ?_⟩
  intro source hsource hsourceplain
  rw [haccepts origin source horigin hsource hsourceplain, toSlash_relativeTo hsource hdirectory]
  simp only [way_eq_append_iff_of_below hsource hdirectory horigin hbelow]
  constructor
  · rintro ⟨rest, hrestne, hrest, hmatch⟩
    rw [way_of_normal_append hrest]
    exact ⟨⟨rest, hrestne, hrest⟩, hmatch⟩
  · rintro ⟨⟨rest, hrestne, hrest⟩, hmatch⟩
    rw [way_of_normal_append hrest] at hmatch
    exact ⟨rest, hrestne, hrest, hmatch⟩

/-! ## Rules of a resolved solution -/

theorem Profile.mem_applyRules {rules : List FileRule} {r : FileRule}
    (h : r ∈ applyRules rules) : ∃ read ∈ rules, r.pattern = read.pattern := by
  obtain ⟨read, hread, rfl⟩ := List.mem_map.1 h
  exact ⟨read, hread, rfl⟩

namespace Workspace

theorem exists_solutionRule {w : Workspace} {e block : Node} {s : Solution}
    (hread : (w.readSolution e).value = some s) (hmem : block ∈ e.blocks s.name) {files : String}
    (hblock : block.IsRule files) {pattern : FilePattern}
    (hpattern : FilePattern.compile (relocatePattern block.directory e.directory files) =
      .ok pattern) : ∃ r ∈ s.resolve.value.profile.rules, r.pattern.text = pattern.text := by
  obtain ⟨-, -, hprofile⟩ := readSolution_spec hread
  obtain ⟨slot, hwrite⟩ :=
    mention_mem_ownerWrites ⟨w.parameters, e.directory, s.name⟩ hmem hblock hpattern
  have htext : pattern.text ∈ s.profile.patterns := by
    rw [hprofile, Profile.mem_patterns_writeAll]
    exact .inr ⟨_, hwrite, pattern, rfl, rfl⟩
  obtain ⟨read, hrule, hsame⟩ := List.mem_map.1 htext
  exact ⟨_, List.mem_map_of_mem hrule, hsame⟩

theorem pattern_of_solutionRule {w : Workspace} {e : Node} {s : Solution}
    (hread : (w.readSolution e).value = some s) {r : FileRule}
    (hr : r ∈ s.resolve.value.profile.rules) {pattern : FilePattern}
    (hpattern : pattern.Compiled) (htext : r.pattern.text = pattern.text) :
    r.pattern = pattern := by
  obtain ⟨read, hrule, hsame⟩ := Profile.mem_applyRules hr
  rw [hsame] at htext ⊢
  exact (written_readSolution hread).profile.pattern_eq hrule hpattern htext

/--
A rule that is written in a directory, for a solution in any other or in the same one, applies to a
source below that directory exactly if its pattern matches the source from there and the solution
does not lie on the same side of the directory as the source.
-/
theorem solutionRule_applies_iff {w : Workspace} {e block : Node} {s : Solution}
    {origin directory : Path} (he : e.directory = origin) (hb : block.directory = directory)
    (horigin : origin.isAbsolute = true) (hdirectory : directory.isAbsolute = true)
    (hplain : '\\' ∉ directory.toList) (hread : (w.readSolution e).value = some s)
    (hmem : block ∈ e.blocks s.name) {files : String} (hblock : block.IsRule files)
    (hfiles : (ofDocument files).Descends) {pattern : FilePattern}
    (hpattern : FilePattern.compile (ofDocument files).text = .ok pattern) :
    let profile := s.resolve.value.profile
    let text := relocatePattern directory origin files
    (∃ r ∈ profile.rules, r.pattern.text = text) ∧
      ∀ r ∈ profile.rules, r.pattern.text = text →
        ∀ source : Path, source.isAbsolute = true → '\\' ∉ source.toList →
          source.Below directory →
            (r ∈ profile.applying s.resolve.value.directory source ↔
              pattern.accepts (source.relativeTo directory).toSlash = true ∧
                ¬ ShareChild directory origin source) := by
  subst he hb
  obtain ⟨relocated, hcompile, haccepts⟩ :=
    relocated_accepts_below hdirectory horigin hplain hfiles hpattern
  obtain ⟨htext, hcompiled⟩ := FilePattern.compiled_of_compile hcompile
  obtain ⟨-, hsolution, -⟩ := readSolution_spec hread
  refine ⟨htext ▸ exists_solutionRule hread hmem hblock hcompile, ?_⟩
  intro r hr hrtext source hsource hsourceplain hbelow
  have hrelocated : r.pattern = relocated :=
    pattern_of_solutionRule hread hr hcompiled (hrtext.trans htext.symm)
  rw [← haccepts source hsource hsourceplain hbelow, s.directory_resolve, hsolution]
  unfold Profile.applying FileRule.appliesTo
  rw [List.mem_filter, hrelocated]
  exact and_iff_right hr

def importingSolution (origin directory : Path) (files : String) : Node :=
  .plain origin "solution" [("name", "S")] ""
    [.mk ⟨none, "configurations", [], ""⟩ origin []
      [.loaded fun _ => .plain directory "configurations" [] ""
        [.plain directory "configuration" [("name", "Debug")] ""
          [importedBlock directory files]]]]

theorem importedBlock_mem_importingSolution (origin directory : Path) (files owner : String) :
    importedBlock directory files ∈ (importingSolution origin directory files).blocks owner := by
  simp [Node.blocks, importingSolution, importedBlock, Node.plain, Node.elements, Node.layers,
    Node.importedLayers, Node.Layer.element?, Node.first?, Node.slots, Node.named, Node.children,
    Node.name, Node.tag, Node.attribute?, Xml.Tag.attribute?]

theorem exists_readSolution (w : Workspace) {e : Node} {name : String}
    (h : e.attribute? "name" = some name) : ∃ s, (w.readSolution e).value = some s := by
  rw [readSolution_value, h]
  exact ⟨_, rfl⟩

/-- What a file rule promises for a source that a solution imports from a directory: whatever its
pattern is, it applies to the source exactly if the pattern matches the source from there. -/
def SolutionRulesFollow (w : Workspace) (origin directory source : Path) : Prop :=
  ∀ (e block : Node) (s : Solution) (files : String) (pattern : FilePattern),
    e.directory = origin → (w.readSolution e).value = some s → block ∈ e.blocks s.name →
    block.directory = directory → block.IsRule files → (ofDocument files).Descends →
    FilePattern.compile (ofDocument files).text = .ok pattern →
    ∃ r ∈ s.resolve.value.profile.rules,
      r.pattern.text = relocatePattern directory origin files ∧
        (r ∈ s.resolve.value.profile.applying s.resolve.value.directory source ↔
          pattern.accepts (source.relativeTo directory).toSlash = true)

/-- A rule for everything shows whether the way to the source leads through the directory. -/
theorem SolutionRulesFollow.not_shareChild {w : Workspace} {origin directory source : Path}
    (h : w.SolutionRulesFollow origin directory source) (horigin : origin.isAbsolute = true)
    (hdirectory : directory.isAbsolute = true) (hplain : '\\' ∉ directory.toList)
    (hsource : source.isAbsolute = true) (hsourceplain : '\\' ∉ source.toList)
    (hbelow : source.Below directory) : ¬ ShareChild directory origin source := by
  have hname : (importingSolution origin directory "**").attribute? "name" = some "S" := rfl
  have he : (importingSolution origin directory "**").directory = origin := rfl
  have hb : (importedBlock directory "**").directory = directory := rfl
  obtain ⟨s, hread⟩ := w.exists_readSolution hname
  have hmem := importedBlock_mem_importingSolution origin directory "**" s.name
  have hblock := isRule_importedBlock directory "**"
  obtain ⟨r, hr, htext, hpromise⟩ := h _ _ s "**" everything he hread hmem hb hblock
    (by decide) compile_everything
  have happlies := (solutionRule_applies_iff he hb horigin hdirectory hplain hread hmem hblock
    (by decide) compile_everything).2 r hr htext source hsource hsourceplain hbelow
  have haccepts : everything.accepts (source.relativeTo directory).toSlash = true := by
    have hwayplain := backslash_not_mem_written_way directory hsource hsourceplain
    rw [toSlash_relativeTo hsource hdirectory, FilePattern.accepts_iff hwayplain]
    exact Glob.matchTokens_anyComponents _ _
  exact (happlies.1 (hpromise.2 haccepts)).2

/--
The rules that a solution imports from a directory, which may be its own one, mean what they say
there for a source below the directory, whatever their patterns are, exactly if the solution does
not lie on the same side of the directory as the source.
-/
theorem solutionRulesFollow_iff (w : Workspace) (origin directory source : Path)
    (horigin : origin.isAbsolute = true) (hdirectory : directory.isAbsolute = true)
    (hplain : '\\' ∉ directory.toList) (hsource : source.isAbsolute = true)
    (hsourceplain : '\\' ∉ source.toList) (hbelow : source.Below directory) :
    w.SolutionRulesFollow origin directory source ↔ ¬ ShareChild directory origin source := by
  constructor
  · intro h
    exact h.not_shareChild horigin hdirectory hplain hsource hsourceplain hbelow
  · rintro hside e block s files pattern he hread hmem hb hblock hfiles hpattern
    obtain ⟨⟨r, hr, htext⟩, happlies⟩ := solutionRule_applies_iff he hb horigin hdirectory hplain
      hread hmem hblock hfiles hpattern
    refine ⟨r, hr, htext, ?_⟩
    rw [happlies r hr htext source hsource hsourceplain hbelow]
    exact and_iff_left hside

theorem solutionRulesFollow_iff_sibling :
    (literal ⟨"/w"⟩).SolutionRulesFollow ⟨"/w/sln"⟩ ⟨"/w/common"⟩ ⟨"/w/common/a.c"⟩ :=
  (solutionRulesFollow_iff _ _ _ _ (by decide +kernel) (by decide +kernel) (by decide +kernel)
    (by decide +kernel) (by decide +kernel) (by decide +kernel)).2 (by decide +kernel)

def sourcesInSln : FilePattern :=
  ⟨"sln/*.c", [.char 's', .char 'l', .char 'n', .char '/', .anySequence, .char '.', .char 'c']⟩

def importingSln : Solution :=
  ((literal ⟨"/w"⟩).readSolution (importingSolution ⟨"/w/sln"⟩ ⟨"/w"⟩ "sln/*.c")).value.getD
    (.named "" ⟨""⟩ ⟨""⟩)

/-- The rule `sln/*.c` of a document above the solution is looked for as `../sln/*.c`, but the
source is `a.c` from the solution. -/
theorem not_solutionRulesFollow_parent :
    ¬ (Path.mk "/w").Below ⟨"/w/sln"⟩ ∧ (Path.mk "/w/sln/a.c").Below ⟨"/w"⟩ ∧
      (Path.mk "/w/sln/a.c").normalize = ⟨"/w/sln/a.c"⟩ ∧
        ¬ (literal ⟨"/w"⟩).SolutionRulesFollow ⟨"/w/sln"⟩ ⟨"/w"⟩ ⟨"/w/sln/a.c"⟩ := by
  refine ⟨by decide +kernel, by decide +kernel, by decide +kernel, ?_⟩
  intro h
  have hread : ((literal ⟨"/w"⟩).readSolution
      (importingSolution ⟨"/w/sln"⟩ ⟨"/w"⟩ "sln/*.c")).value = some importingSln := by
    decide +kernel
  have hcompile : FilePattern.compile (ofDocument "sln/*.c").text = .ok sourcesInSln :=
    compile_ofDocument (by decide +kernel) (by simp [Glob.compile, Glob.compileFrom])
  have hmem := importedBlock_mem_importingSolution ⟨"/w/sln"⟩ ⟨"/w"⟩ "sln/*.c" importingSln.name
  obtain ⟨r, hr, -, hpromise⟩ := h _ _ importingSln "sln/*.c" sourcesInSln rfl hread hmem rfl
    (isRule_importedBlock _ _) (by decide +kernel) hcompile
  have haccepts : sourcesInSln.accepts
      ((Path.mk "/w/sln/a.c").relativeTo ⟨"/w"⟩).toSlash = true := by decide +kernel
  have hnone : importingSln.resolve.value.profile.applying
      importingSln.resolve.value.directory ⟨"/w/sln/a.c"⟩ = [] := by decide +kernel
  have happlies := hpromise.2 haccepts
  rw [hnone] at happlies
  cases happlies

/-! ## Rules from below the solution -/

/--
A rule that is written in a directory below that of the solution is there with its pattern behind
the way to the directory, which compiles if the pattern does. It applies exactly to the sources
that lie below the directory and that the pattern matches from there: no character of the
directory's name counts as a wildcard.
-/
theorem solutionRule_confined_to_directory {w : Workspace} {e block : Node} {s : Solution}
    (hread : (w.readSolution e).value = some s) (hmem : block ∈ e.blocks s.name)
    (horigin : s.directory.isAbsolute = true) (hdirectory : block.directory.isAbsolute = true)
    (hbelow : block.directory.Below s.directory) (hplain : '\\' ∉ block.directory.toList)
    {files : String} (hblock : block.IsRule files) (hfiles : (ofDocument files).Descends)
    {pattern : FilePattern}
    (hpattern : FilePattern.compile (ofDocument files).text = .ok pattern) :
    let text := relocatePattern block.directory s.directory files
    let rules := s.resolve.value.profile.rules
    (∃ relocated, FilePattern.compile text = .ok relocated) ∧
      (∃ r ∈ rules, r.pattern.text = text) ∧
        ∀ r ∈ rules, r.pattern.text = text →
          ∀ source : Path, source.isAbsolute = true → '\\' ∉ source.toList →
            (r.appliesTo s.directory source = true ↔
              source.Below block.directory ∧
                pattern.accepts (source.relativeTo block.directory).toSlash = true) := by
  obtain ⟨relocated, hcompile, haccepts⟩ :=
    relocated_accepts_from_above hdirectory horigin hbelow hplain hfiles hpattern
  obtain ⟨htext, hcompiled⟩ := FilePattern.compiled_of_compile hcompile
  obtain ⟨-, hsolution, -⟩ := readSolution_spec hread
  refine ⟨⟨relocated, hcompile⟩, ?_, ?_⟩
  · rw [← htext]
    exact exists_solutionRule hread hmem hblock (hsolution ▸ hcompile)
  · intro r hr hrtext source hsource hsourceplain
    have hrelocated : r.pattern = relocated :=
      pattern_of_solutionRule hread hr hcompiled (hrtext.trans htext.symm)
    unfold FileRule.appliesTo
    rw [hrelocated]
    exact haccepts source hsource hsourceplain

/-- The directory of the rule is called like a pattern that matches `/w/x1`. -/
theorem solutionRule_confined_to_directory_brackets :
    let e := importingSolution ⟨"/w"⟩ ⟨"/w/x[1]*"⟩ "*.c"
    (Path.mk "/w/x[1]*").Below ⟨"/w"⟩ ∧
      ∃ s, ((literal ⟨"/w"⟩).readSolution e).value = some s ∧
        ∃ r ∈ s.resolve.value.profile.rules,
          r.appliesTo s.directory ⟨"/w/x[1]*/a.c"⟩ = true ∧
            r.appliesTo s.directory ⟨"/w/x1/a.c"⟩ = false := by
  intro e
  obtain ⟨s, hread⟩ := (literal ⟨"/w"⟩).exists_readSolution (e := e) rfl
  have horigin : s.directory = ⟨"/w"⟩ := (readSolution_spec hread).2.1
  have hbelow : (Path.mk "/w/x[1]*").Below s.directory := by
    rw [horigin]
    decide
  have hcompile : FilePattern.compile (ofDocument "*.c").text = .ok sourcesOfC :=
    compile_ofDocument (by decide) (by simp [Glob.compile, Glob.compileFrom])
  have hmem := importedBlock_mem_importingSolution ⟨"/w"⟩ ⟨"/w/x[1]*"⟩ "*.c" s.name
  obtain ⟨-, ⟨r, hr, htext⟩, happlies⟩ := solutionRule_confined_to_directory hread hmem
    (by rw [horigin]; decide) (by decide) hbelow (by decide)
    (isRule_importedBlock _ _) (by decide) hcompile
  have hconfined := happlies r hr htext
  refine ⟨horigin ▸ hbelow, s, hread, r, hr, ?_, ?_⟩
  · exact (hconfined _ (by decide) (by decide)).2 ⟨by decide, by decide⟩
  · rw [Bool.eq_false_iff]
    intro h
    have hinside := ((hconfined _ (by decide) (by decide)).1 h).1
    exact absurd hinside (by decide)

end Workspace

end SolutionPlan
