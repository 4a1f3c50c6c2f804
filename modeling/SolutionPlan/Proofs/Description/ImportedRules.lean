import SolutionPlan.Proofs.Description.Relocation
import SolutionPlan.Proofs.Resolution.Overrides

/-!
# File rules from other directories

The pattern of a file rule is related to the directory of the document that declares the project,
but it is matched from the project's source root. So a rule that is imported from another directory
means what it says there only if that directory looks the same from both places.
-/

namespace SolutionPlan

open SolutionPlan.Path

/-! ## From blocks to rules -/

def Node.blocks (owner : String) (e : Node) : List Node :=
  e.elements.flatMap fun layer =>
    (layer.first? "configurations").toList.flatMap fun n =>
      n.elements.flatMap fun inner =>
        (inner.slots owner).flatMap fun entry => entry.2.elements.flatMap Node.children

structure Node.IsRule (block : Node) (files : String) : Prop where
  compile : Text.sameIgnoringCase block.name "compile" = true
  files : block.attribute? "files" = some files

theorem mention_mem_blockWrites {origin : ProfileOrigin} {slot : Slot} {block : Node}
    {files : String} (hblock : block.IsRule files) {pattern : FilePattern}
    (hpattern : FilePattern.compile (relocatePattern block.directory origin.directory files) =
      .ok pattern) :
    ⟨⟨some pattern, slot⟩, .mention⟩ ∈ (blockWrites origin slot block).value := by
  have himport : ¬ block.name = "import" := by
    intro himport
    have hcompile := hblock.compile
    rw [himport] at hcompile
    exact absurd hcompile (by decide)
  unfold blockWrites
  simp only [if_neg himport, if_pos hblock.compile, hblock.files, hpattern, Logged.bind_value,
    Logged.pure_value]
  exact List.mem_cons_self

theorem mention_mem_ownerWrites (origin : ProfileOrigin) {e block : Node} {files : String}
    (hmem : block ∈ e.blocks origin.owner) (hblock : block.IsRule files) {pattern : FilePattern}
    (hpattern : FilePattern.compile (relocatePattern block.directory origin.directory files) =
      .ok pattern) :
    ∃ slot, ⟨⟨some pattern, slot⟩, .mention⟩ ∈ e.ownerWrites origin := by
  unfold Node.blocks at hmem
  simp only [List.mem_flatMap] at hmem
  obtain ⟨layer, hlayer, n, hn, inner, hinner, entry, hentry, part, hpart, hchild⟩ := hmem
  refine ⟨entry.1, ?_⟩
  refine List.mem_flatMap.2 ⟨layer, hlayer, List.mem_flatMap.2 ⟨n, hn, ?_⟩⟩
  rw [profileWrites_value]
  refine List.mem_flatMap.2 ⟨inner, hinner, List.mem_flatMap.2 ⟨entry, hentry, ?_⟩⟩
  rw [slotWrites_value]
  refine List.mem_cons_of_mem _ (List.mem_flatMap.2 ⟨part, hpart, List.mem_flatMap.2 ?_⟩)
  exact ⟨block, hchild, mention_mem_blockWrites hblock hpattern⟩

namespace Workspace

theorem exists_rule {w : Workspace} {e block : Node} {p : Project}
    (hread : (w.readAuthored e).value = some p) (hmem : block ∈ e.blocks p.name) {files : String}
    (hblock : block.IsRule files) {pattern : FilePattern}
    (hpattern : FilePattern.compile (relocatePattern block.directory e.directory files) =
      .ok pattern) : ∃ r ∈ p.profile.rules, r.pattern.text = pattern.text := by
  obtain ⟨name, hname, hheader, hprofile⟩ := readAuthored_spec hread
  have hpname : p.name = name := Project.name_of_header hheader
  rw [hpname] at hmem
  obtain ⟨slot, hwrite⟩ :=
    mention_mem_ownerWrites ⟨w.parameters, e.directory, name⟩ hmem hblock hpattern
  have htext : pattern.text ∈ p.profile.patterns := by
    rw [hprofile, Profile.mem_patterns_writeAll]
    exact .inr ⟨_, hwrite, pattern, rfl, rfl⟩
  exact List.mem_map.1 htext

theorem isAbsolute_sourceRootOf {directory : Path} (h : directory.isAbsolute = true)
    (root : Option String) : (sourceRootOf directory root).isAbsolute = true := by
  unfold sourceRootOf
  cases root with
  | none => exact h
  | some root =>
      simp only
      split
      · exact h
      · exact isAbsolute_resolve h root

/-- The rule of a block from another directory applies to the sources that are reached from the
source root by the way from the project's directory to the block's, and then as the pattern says. -/
theorem importedRule_applies_iff {w : Workspace} {e block : Node} {p : Project}
    {origin directory : Path} (he : e.directory = origin) (hb : block.directory = directory)
    (horigin : origin.isAbsolute = true) (hdirectory : directory.isAbsolute = true)
    (hne : directory.normal ≠ origin.normal) (hplain : '\\' ∉ directory.toList)
    (hread : (w.readAuthored e).value = some p) (hmem : block ∈ e.blocks p.name) {files : String}
    (hblock : block.IsRule files) (hfiles : (ofDocument files).Descends) {pattern : FilePattern}
    (hpattern : FilePattern.compile (ofDocument files).text = .ok pattern) :
    let text := relocatePattern directory origin files
    (∃ r ∈ p.profile.rules, r.pattern.text = text) ∧
      ∀ r ∈ p.profile.rules, r.pattern.text = text →
        ∀ source : Path, source.isAbsolute = true → '\\' ∉ source.toList →
          (r ∈ p.profile.applying p.sourceRoot source ↔
            ∃ rest, rest ≠ [] ∧ way p.sourceRoot source = way origin directory ++ rest ∧
              pattern.accepts (String.ofList (written rest)) = true) := by
  subst he hb
  obtain ⟨relocated, hcompile, haccepts⟩ :=
    relocated_accepts hdirectory horigin hne hplain hfiles hpattern
  obtain ⟨htext, hcompiled⟩ := FilePattern.compiled_of_compile hcompile
  refine ⟨htext ▸ exists_rule hread hmem hblock hcompile, ?_⟩
  intro r hr hrtext source hsource hsourceplain
  have hrelocated : r.pattern = relocated :=
    (written_readAuthored hread).pattern_eq hr hcompiled (hrtext.trans htext.symm)
  have hroot : p.sourceRoot.isAbsolute = true := by
    rw [sourceRoot_of_readAuthored hread]
    exact isAbsolute_sourceRootOf horigin _
  rw [← haccepts p.sourceRoot source hroot hsource hsourceplain]
  unfold Profile.applying FileRule.appliesTo
  rw [List.mem_filter, hrelocated]
  constructor
  · exact fun h => h.2
  · exact fun h => ⟨hr, h⟩

/-- What a file rule promises that is imported into a project from a directory: whatever its pattern
is, it applies to a source below the directory exactly if the pattern matches the source from
there. -/
def ImportedRulesFollow (w : Workspace) (origin directory : Path) (root : Option String) : Prop :=
  ∀ (e block : Node) (p : Project) (files : String) (pattern : FilePattern) (source : Path),
    e.directory = origin → e.attribute? "root" = root → (w.readAuthored e).value = some p →
    block ∈ e.blocks p.name → block.directory = directory → block.IsRule files →
    (ofDocument files).Descends → FilePattern.compile (ofDocument files).text = .ok pattern →
    source.isAbsolute = true → source.normalize = source → '\\' ∉ source.toList →
    source.Below directory →
    ∃ r ∈ p.profile.rules, r.pattern.text = relocatePattern directory origin files ∧
      (r ∈ p.profile.applying p.sourceRoot source ↔
        pattern.accepts (source.relativeTo directory).toSlash = true)

/-! ## When the promise is kept -/

def importedBlock (directory : Path) (files : String) : Node :=
  .plain directory "compile" [("files", files)] "" []

def importingProject (origin directory : Path) (root : Option String) (files : String) : Node :=
  .plain origin "project" (("name", "P") :: (root.map fun text => ("root", text)).toList) ""
    [.mk ⟨none, "configurations", [], ""⟩ origin []
      [.loaded fun _ => .plain directory "configurations" [] ""
        [.plain directory "configuration" [("name", "Debug")] ""
          [importedBlock directory files]]]]

theorem importedBlock_mem_blocks (origin directory : Path) (root : Option String)
    (files owner : String) :
    importedBlock directory files ∈
      (importingProject origin directory root files).blocks owner := by
  simp [Node.blocks, importingProject, importedBlock, Node.plain, Node.elements, Node.layers,
    Node.importedLayers, Node.Layer.element?, Node.first?, Node.slots, Node.named, Node.children,
    Node.name, Node.tag, Node.attribute?, Xml.Tag.attribute?]

theorem root_importingProject (origin directory : Path) (root : Option String) (files : String) :
    (importingProject origin directory root files).attribute? "root" = root := by
  cases root <;> rfl

theorem isRule_importedBlock (directory : Path) (files : String) :
    (importedBlock directory files).IsRule files := by
  have hname : (importedBlock directory files).name = "compile" := rfl
  constructor
  · rw [hname]
    decide
  · rfl

section Promise

variable {w : Workspace} {origin directory : Path} {root : Option String}

theorem ImportedRulesFollow.importing (h : w.ImportedRulesFollow origin directory root)
    (horigin : origin.isAbsolute = true) (hdirectory : directory.isAbsolute = true)
    (hne : directory.normal ≠ origin.normal) (hplain : '\\' ∉ directory.toList) {files : String}
    (hfiles : (ofDocument files).Descends) {pattern : FilePattern}
    (hpattern : FilePattern.compile (ofDocument files).text = .ok pattern) {source : Path}
    (hsource : source.isAbsolute = true) (hnormal : source.normalize = source)
    (hsourceplain : '\\' ∉ source.toList) (hbelow : source.Below directory)
    (haccepts : pattern.accepts (source.relativeTo directory).toSlash = true) :
    ∃ rest, rest ≠ [] ∧
      way (sourceRootOf origin root) source = way origin directory ++ rest ∧
        pattern.accepts (String.ofList (written rest)) = true := by
  have hname : (importingProject origin directory root files).attribute? "name" = some "P" := rfl
  have he : (importingProject origin directory root files).directory = origin := rfl
  have hb : (importedBlock directory files).directory = directory := rfl
  obtain ⟨p, hread⟩ := w.exists_readAuthored hname
  have hmem := importedBlock_mem_blocks origin directory root files p.name
  have hblock := isRule_importedBlock directory files
  have hroot := root_importingProject origin directory root files
  have hsourceRoot : p.sourceRoot = sourceRootOf origin root := by
    rw [sourceRoot_of_readAuthored hread, hroot, he]
  obtain ⟨r, hr, htext, hpromise⟩ := h _ _ p files pattern source he hroot hread hmem hb hblock
    hfiles hpattern hsource hnormal hsourceplain hbelow
  have happlies := (importedRule_applies_iff he hb horigin hdirectory hne hplain hread hmem hblock
    hfiles hpattern).2 r hr htext source hsource hsourceplain
  rw [hsourceRoot] at hpromise happlies
  exact happlies.1 (hpromise.2 haccepts)

theorem compile_ofDocument {text : String} {tokens : List Glob.Token}
    (htext : (ofDocument text).text = text) (htokens : Glob.compile text = .ok tokens) :
    FilePattern.compile (ofDocument text).text = .ok ⟨text, tokens⟩ := by
  have hplain : '\\' ∉ text.toList := by
    have hdocument := backslash_not_mem_ofDocument text
    unfold toList at hdocument
    rwa [htext] at hdocument
  unfold FilePattern.compile
  rw [htext, FilePattern.withSlashes_eq_self hplain, htokens]
  rfl

def everything : FilePattern := ⟨"**", [.anyComponents]⟩

def anyName : FilePattern := ⟨"*", [.anySequence]⟩

theorem compile_everything :
    FilePattern.compile (ofDocument "**").text = .ok everything :=
  compile_ofDocument (by decide)
    (by simp [Glob.compile, Glob.compileFrom, Glob.pushComponents])

theorem compile_anyName :
    FilePattern.compile (ofDocument "*").text = .ok anyName :=
  compile_ofDocument (by decide) (by simp [Glob.compile, Glob.compileFrom])

/-- Below the directory the source root would be a source that every rule misses. -/
theorem ImportedRulesFollow.not_below (h : w.ImportedRulesFollow origin directory root)
    (horigin : origin.isAbsolute = true) (hdirectory : directory.isAbsolute = true)
    (hne : directory.normal ≠ origin.normal) (hplain : '\\' ∉ directory.toList)
    (hrootplain : '\\' ∉ (sourceRootOf origin root).toList) :
    ¬ (sourceRootOf origin root).Below directory := by
  rintro ⟨below, hbelowne, hbelow⟩
  have hnone : ∀ c ∈ ([] : List Component), c.IsName ∧ '\\' ∉ c.segment := by simp
  obtain ⟨source, hsource, hnormal, hsourceplain, hsame⟩ :=
    exists_normalized (isAbsolute_sourceRootOf horigin root) hrootplain hnone
  rw [List.append_nil] at hsame
  have haccepts : everything.accepts (source.relativeTo directory).toSlash = true := by
    have hwayplain := backslash_not_mem_written_way directory hsource hsourceplain
    rw [toSlash_relativeTo hsource hdirectory, FilePattern.accepts_iff hwayplain]
    exact Glob.matchTokens_anyComponents _ _
  -- The way from the source root to itself is empty, so no rule behind another way applies.
  obtain ⟨rest, hrestne, hrest, -⟩ := h.importing horigin hdirectory hne hplain
    (by decide) compile_everything hsource hnormal hsourceplain
    ⟨below, hbelowne, hsame.trans hbelow⟩ haccepts
  rw [way_eq_nil_iff.2 hsame] at hrest
  exact hrestne (List.append_eq_nil_iff.1 hrest.symm).2

/-- A rule for one level shows by which way the directory is looked for. -/
theorem ImportedRulesFollow.way_eq (h : w.ImportedRulesFollow origin directory root)
    (horigin : origin.isAbsolute = true) (hdirectory : directory.isAbsolute = true)
    (hne : directory.normal ≠ origin.normal) (hplain : '\\' ∉ directory.toList)
    (hnotbelow : ¬ (sourceRootOf origin root).Below directory) :
    way (sourceRootOf origin root) directory = way origin directory := by
  have hx : ∀ c ∈ [Component.name "x"], c.IsName ∧ '\\' ∉ c.segment := by decide
  obtain ⟨source, hsource, hnormal, hsourceplain, hchild⟩ :=
    exists_normalized hdirectory hplain hx
  have haccepts : anyName.accepts (source.relativeTo directory).toSlash = true := by
    rw [toSlash_relativeTo hsource hdirectory, way_of_normal_append hchild]
    decide
  obtain ⟨rest, hrestne, hrest, hname⟩ := h.importing horigin hdirectory hne hplain
    (by decide) compile_anyName hsource hnormal hsourceplain ⟨_, by simp, hchild⟩ haccepts
  have hrestplain : '\\' ∉ written rest := by
    intro hmem
    have hwayne : way origin directory ≠ [] := fun hnil => hne (way_eq_nil_iff.1 hnil)
    have hwayplain := backslash_not_mem_written_way (sourceRootOf origin root) hsource
      hsourceplain
    rw [hrest, written_append hwayne hrestne] at hwayplain
    exact hwayplain (List.mem_append_right _ (List.mem_cons_of_mem _ hmem))
  have hslash : '/' ∉ written rest :=
    Glob.matchTokens_anySequence_iff.1 ((FilePattern.accepts_iff hrestplain).1 hname)
  -- A `*` takes one name only, so just the last component stands behind the way.
  rw [way_through hchild hnotbelow] at hrest
  obtain hnil | ⟨front, last, rfl⟩ := List.eq_nil_or_concat rest
  · exact absurd hnil hrestne
  · cases front with
    | nil => exact (List.append_inj' hrest rfl).1
    | cons c front =>
        rw [List.concat_eq_append, written_append (by simp) (by simp)] at hslash
        exact absurd (List.mem_append_right _ List.mem_cons_self) hslash

theorem importedRulesFollow_of_way_eq (horigin : origin.isAbsolute = true)
    (hdirectory : directory.isAbsolute = true) (hne : directory.normal ≠ origin.normal)
    (hplain : '\\' ∉ directory.toList)
    (hway : way (sourceRootOf origin root) directory = way origin directory)
    (hnotbelow : ¬ (sourceRootOf origin root).Below directory) :
    w.ImportedRulesFollow origin directory root := by
  rintro e block p files pattern source rfl rfl hread hmem rfl hblock hfiles hpattern hsource -
    hsourceplain ⟨below, hbelowne, hbelow⟩
  obtain ⟨⟨r, hr, htext⟩, happlies⟩ := importedRule_applies_iff rfl rfl horigin hdirectory hne
    hplain hread hmem hblock hfiles hpattern
  refine ⟨r, hr, htext, ?_⟩
  rw [happlies r hr htext source hsource hsourceplain, sourceRoot_of_readAuthored hread,
    way_through hbelow hnotbelow, hway, toSlash_relativeTo hsource hdirectory,
    way_of_normal_append hbelow]
  constructor
  · rintro ⟨rest, -, hrest, haccepts⟩
    obtain rfl := List.append_cancel_left hrest
    exact haccepts
  · intro haccepts
    exact ⟨below, hbelowne, rfl, haccepts⟩

end Promise

/--
Rules that are imported from another directory mean what they say there, whatever their patterns
are, exactly if the directory is reached from the source root by the same way as from the
directory of the project, and the source root does not lie below it.
-/
theorem importedRulesFollow_iff (w : Workspace) (origin directory : Path) (root : Option String)
    (horigin : origin.isAbsolute = true) (hdirectory : directory.isAbsolute = true)
    (hne : directory.normal ≠ origin.normal) (hplain : '\\' ∉ directory.toList)
    (hrootplain : '\\' ∉ (sourceRootOf origin root).toList) :
    w.ImportedRulesFollow origin directory root ↔
      way (sourceRootOf origin root) directory = way origin directory ∧
        ¬ (sourceRootOf origin root).Below directory := by
  constructor
  · intro h
    have hnotbelow := h.not_below horigin hdirectory hne hplain hrootplain
    exact ⟨h.way_eq horigin hdirectory hne hplain hnotbelow, hnotbelow⟩
  · rintro ⟨hway, hnotbelow⟩
    exact importedRulesFollow_of_way_eq horigin hdirectory hne hplain hway hnotbelow

theorem importedRulesFollow_iff_sibling :
    (literal ⟨"/w"⟩).ImportedRulesFollow ⟨"/w/core"⟩ ⟨"/w/common"⟩ none :=
  (importedRulesFollow_iff _ _ _ none (by decide +kernel) (by decide +kernel) (by decide +kernel)
    (by decide +kernel) (by decide +kernel)).2 ⟨by decide +kernel, by decide +kernel⟩

def sourcesOfC : FilePattern := ⟨"*.c", [.anySequence, .char '.', .char 'c']⟩

def importingCore : Project :=
  ((literal ⟨"/w"⟩).readAuthored
    (importingProject ⟨"/w"⟩ ⟨"/w/common"⟩ (some "core") "*.c")).value.getD
      (.authored "" .cpp ⟨""⟩ ⟨""⟩)

/-- The rule `*.c` of a document in `common` is looked for in `common` below `core`, where the
source `common/a.c` is not. -/
theorem not_importedRulesFollow_core :
    ¬ (literal ⟨"/w"⟩).ImportedRulesFollow ⟨"/w"⟩ ⟨"/w/common"⟩ (some "core") := by
  intro h
  have hread : ((literal ⟨"/w"⟩).readAuthored
      (importingProject ⟨"/w"⟩ ⟨"/w/common"⟩ (some "core") "*.c")).value =
        some importingCore := by decide +kernel
  have hcompile : FilePattern.compile (ofDocument "*.c").text = .ok sourcesOfC :=
    compile_ofDocument (by decide +kernel) (by simp [Glob.compile, Glob.compileFrom])
  have hmem := importedBlock_mem_blocks ⟨"/w"⟩ ⟨"/w/common"⟩ (some "core") "*.c"
    importingCore.name
  obtain ⟨r, hr, -, hpromise⟩ := h _ _ importingCore "*.c" sourcesOfC ⟨"/w/common/a.c"⟩ rfl rfl
    hread hmem rfl (isRule_importedBlock _ _) (by decide +kernel) hcompile (by decide +kernel)
    (by decide +kernel) (by decide +kernel) (by decide +kernel)
  have haccepts : sourcesOfC.accepts
      ((Path.mk "/w/common/a.c").relativeTo ⟨"/w/common"⟩).toSlash = true := by decide +kernel
  have hnone : importingCore.profile.applying importingCore.sourceRoot ⟨"/w/common/a.c"⟩ = [] := by
    decide +kernel
  have happlies := hpromise.2 haccepts
  rw [hnone] at happlies
  cases happlies

end Workspace

end SolutionPlan
