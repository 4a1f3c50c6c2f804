import SolutionPlan.Proofs.Path.Slash
import SolutionPlan.Proofs.Text.Tokens
import SolutionPlan.Resolution.Generation

/-!
# Templates

The tokens of a template are replaced one after the other. The outcome is that of a single pass in
which values are never searched, if no token stands in the text of that pass. It then follows what
templates stand for: those that take the path of a source apart put it together again.
-/

namespace SolutionPlan.Project

/-! ## One pass -/

def templateTokens : List String :=
  ["$(FileDirectory)", "$(FileRelativeDirectory)", "$(FileBasename)", "$(FileExtension)",
    "$(Filename)", "$(SourceRoot)", "$(ProjectDirectory)"]

def templateTable (p : Project) (source : Path) : List Text.Meaning :=
  (p.templateValues source).map fun entry => (entry.1.toList, entry.2.toList)

/-- The text of a template for a source. In one pass from left to right each token becomes what it
stands for, which is not searched for tokens. -/
def templateText (p : Project) (template : String) (source : Path) : List Char :=
  Text.expandTokens (p.templateTable source) template.toList

theorem map_templateTable (p : Project) (source : Path) :
    (p.templateTable source).map Prod.fst = templateTokens.map String.toList := by
  have htokens : (p.templateValues source).map Prod.fst = templateTokens := rfl
  rw [← htokens, templateTable, List.map_map, List.map_map]
  rfl

theorem isToken_templateTokens : ∀ token ∈ templateTokens, Text.IsToken token.toList := by
  decide +kernel

theorem isToken_of_mem_templateTable (p : Project) (source : Path) :
    ∀ m ∈ p.templateTable source, Text.IsToken m.1 := by
  intro m hm
  have htoken := List.mem_map_of_mem (f := Prod.fst) hm
  rw [map_templateTable] at htoken
  obtain ⟨token, hmem, hsame⟩ := List.mem_map.1 htoken
  rw [← hsame]
  exact isToken_templateTokens token hmem

theorem foldl_templateValues {p : Project} {template : String} {source : Path}
    (hfree : ∀ token ∈ templateTokens, ¬ token.toList <:+: p.templateText template source) :
    (p.templateValues source).foldl
        (fun text entry => Text.replace entry.1.toList entry.2.toList text) template.toList =
      p.templateText template source := by
  have htable : ∀ m ∈ p.templateTable source, ¬ m.1 <:+: p.templateText template source := by
    intro m hm
    have htoken := List.mem_map_of_mem (f := Prod.fst) hm
    rw [map_templateTable] at htoken
    obtain ⟨token, hmem, hsame⟩ := List.mem_map.1 htoken
    rw [← hsame]
    exact hfree token hmem
  have hpasses := Text.foldl_replace (isToken_of_mem_templateTable p source) htable
  rwa [templateTable, List.foldl_map] at hpasses

/--
A template means the text of a single pass, seen from the directory of the source, whenever there is
no token in that text: then none has been brought in by a value or has come about between a value
and what stands beside it.
-/
theorem expandTemplate_simultaneous {p : Project} {template : String} {source : Path}
    (hfree : ∀ token ∈ templateTokens, ¬ token.toList <:+: p.templateText template source) :
    p.expandTemplate template source =
      source.parentOrEmpty.resolve (String.ofList (p.templateText template source)) := by
  unfold expandTemplate
  rw [← foldl_templateValues hfree]

/-- A project whose sources lie in directories that are named like tokens. -/
def tokenNamed : Project := authored "Net" .cpp ⟨"/out/net.vcxproj"⟩ ⟨"/src"⟩

/-- Dollar signs, brackets and the names of tokens may stand in values. -/
theorem expandTemplate_simultaneous_brackets :
    (∀ token ∈ templateTokens, ¬ token.toList <:+:
        tokenNamed.templateText "$(FileDirectory)/$$(FileBasename)(SourceRoot).h"
          ⟨"/src/(Filename)$/$(x).idl"⟩) ∧
      tokenNamed.expandTemplate "$(FileDirectory)/$$(FileBasename)(SourceRoot).h"
          ⟨"/src/(Filename)$/$(x).idl"⟩ =
        ⟨"/src/(Filename)$/$$(x)(SourceRoot).h"⟩ := by
  have hfree : ∀ token ∈ templateTokens, ¬ token.toList <:+:
      tokenNamed.templateText "$(FileDirectory)/$$(FileBasename)(SourceRoot).h"
        ⟨"/src/(Filename)$/$(x).idl"⟩ := by
    decide +kernel
  refine ⟨hfree, ?_⟩
  rw [expandTemplate_simultaneous hfree]
  decide +kernel

/-- A directory that is named like a later token is taken for it. -/
theorem not_simultaneous_directory :
    tokenNamed.expandTemplate "$(FileDirectory)/a.h" ⟨"/src/$(Filename)/a.idl"⟩ ≠
      (Path.parentOrEmpty ⟨"/src/$(Filename)/a.idl"⟩).resolve
        (String.ofList
          (tokenNamed.templateText "$(FileDirectory)/a.h" ⟨"/src/$(Filename)/a.idl"⟩)) := by
  decide +kernel

/-! ## What a template says -/

def templateValue (p : Project) (source : Path) (token : String) : String :=
  ((p.templateValues source).lookup token).getD token

section Values

variable {p : Project} {source : Path}

theorem lookup_templateTable (token : String) :
    ((p.templateTable source).lookup token.toList).getD token.toList =
      (p.templateValue source token).toList := by
  have hlookup (entries : List (String × String)) :
      (entries.map fun entry => (entry.1.toList, entry.2.toList)).lookup token.toList =
        (entries.lookup token).map String.toList := by
    induction entries with
    | nil => rfl
    | cons entry rest ih =>
        rw [List.map_cons, List.lookup_cons, List.lookup_cons, ih]
        by_cases hsame : token = entry.1
        · simp [hsame]
        · have hlists : token.toList ≠ entry.1.toList := fun heq => hsame (String.toList_inj.1 heq)
          simp [beq_false_of_ne hsame, beq_false_of_ne hlists]
  unfold templateTable templateValue
  rw [hlookup]
  cases (p.templateValues source).lookup token <;> rfl

theorem expandTokens_last {token : String} (h : token ∈ templateTokens) :
    Text.expandTokens (p.templateTable source) token.toList =
      (p.templateValue source token).toList := by
  have hexpand := Text.expandTokens_token (isToken_of_mem_templateTable p source)
    (isToken_templateTokens token h) []
  have hend : Text.expandTokens (p.templateTable source) [] = [] := rfl
  rwa [lookup_templateTable, hend, List.append_nil, List.append_nil] at hexpand

theorem expandTokens_separated {token : String} (h : token ∈ templateTokens) {sep : Char}
    (hsep : sep ≠ '$') (rest : List Char) :
    Text.expandTokens (p.templateTable source) (token.toList ++ sep :: rest) =
      (p.templateValue source token).toList ++
        sep :: Text.expandTokens (p.templateTable source) rest := by
  have htable := isToken_of_mem_templateTable p source
  rw [Text.expandTokens_token htable (isToken_templateTokens token h), lookup_templateTable,
    Text.expandTokens_cons_of_ne htable hsep]

end Values

/-! ## Paths put together again -/

def HoldsNoToken (s : List Char) : Prop := ∀ pattern ∈ [['$', '('], ['\\']], ¬ pattern <:+: s

instance (s : List Char) : Decidable (HoldsNoToken s) :=
  inferInstanceAs (Decidable (∀ pattern ∈ [['$', '('], ['\\']], ¬ pattern <:+: s))

section Rebuild

variable {p : Project} {source : Path} {template : String}

theorem expandTemplate_of_plain {text : List Char} (htext : p.templateText template source = text)
    (hplain : HoldsNoToken text) (hhead : text.head? = some '/')
    (hlast : ∀ c ∈ text.getLast?, Text.isBlank c = false) :
    p.expandTemplate template source = (Path.ofList text).normalize := by
  have hbackslash : '\\' ∉ text := by
    intro hmem
    exact hplain ['\\'] (by simp) ((List.singleton_infix_iff _ _).2 hmem)
  have hstart : ∀ token ∈ templateTokens, ['$', '('] <:+: token.toList := by
    decide +kernel
  have hfree : ∀ token ∈ templateTokens, ¬ token.toList <:+: p.templateText template source := by
    intro token htoken hmem
    rw [htext] at hmem
    exact hplain ['$', '('] (by simp) ((hstart token htoken).trans hmem)
  unfold expandTemplate
  simp only
  rw [foldl_templateValues hfree, htext, Path.resolve_of_plain _ hhead hlast hbackslash]

theorem HoldsNoToken.of_infix {s t : List Char} (h : HoldsNoToken t) (hst : s <:+: t) :
    HoldsNoToken s := fun pattern hpattern hmem => h pattern hpattern (hmem.trans hst)

theorem holdsNoToken_joinWith {pieces : List (List Char)}
    (h : ∀ piece ∈ pieces, HoldsNoToken piece) : HoldsNoToken (Text.joinWith '/' pieces) := by
  intro pattern hpattern hmem
  have hshape : ∀ pattern ∈ [['$', '('], ['\\']], '/' ∉ pattern ∧ pattern ≠ [] := by decide
  obtain ⟨hslash, hne⟩ := hshape pattern hpattern
  obtain ⟨piece, hpiece, hin⟩ := Text.exists_infix_of_infix_joinWith hslash hne hmem
  exact h piece hpiece pattern hpattern hin

variable {names : List Component} {name : String} (h : source.FileIn names name)

include h

theorem toList_templateValue_directory :
    (p.templateValue source "$(FileDirectory)").toList = Path.rooted names := by
  have hvalue : p.templateValue source "$(FileDirectory)" = source.parentOrEmpty.toSlash := rfl
  rw [hvalue, h.toSlash_parent, String.toList_ofList]

theorem toList_templateValue_name :
    (p.templateValue source "$(Filename)").toList = name.toList := by
  have hvalue : p.templateValue source "$(Filename)" = source.fileName?.getD "" := rfl
  rw [hvalue, h.fileName, Option.getD_some]

theorem toList_templateValue_relativeDirectory (hroot : p.sourceRoot.isAbsolute = true) :
    (p.templateValue source "$(FileRelativeDirectory)").toList =
      if Path.way p.sourceRoot source.parentOrEmpty = [] then ['.']
      else Path.written (Path.way p.sourceRoot source.parentOrEmpty) := by
  have hlookup : (p.templateValues source).lookup "$(FileRelativeDirectory)" =
      some (if (source.parentOrEmpty.relativeTo p.sourceRoot).toSlash = "" then "."
        else (source.parentOrEmpty.relativeTo p.sourceRoot).toSlash) := rfl
  have hway := Path.isWay_way h.isAbsolute_parent hroot
  rw [templateValue, hlookup, Option.getD_some,
    Path.toSlash_relativeTo h.isAbsolute_parent hroot]
  by_cases hnone : Path.way p.sourceRoot source.parentOrEmpty = []
  · rw [if_pos hnone, hnone]
    rfl
  · have hwritten :
        String.ofList (Path.written (Path.way p.sourceRoot source.parentOrEmpty)) ≠ "" := by
      intro hempty
      have hlist := congrArg String.toList hempty
      rw [String.toList_ofList] at hlist
      exact Path.written_ne_nil hnone hway.isStep hlist
    rw [if_neg hnone, if_neg hwritten, String.toList_ofList]

theorem steps_relativeDirectory (hroot : p.sourceRoot.isAbsolute = true) :
    (Path.ofList (p.templateValue source "$(FileRelativeDirectory)").toList).steps =
      Path.way p.sourceRoot source.parentOrEmpty := by
  have hway := Path.isWay_way h.isAbsolute_parent hroot
  rw [toList_templateValue_relativeDirectory h hroot]
  split
  · next hnone => rw [hnone]; rfl
  · rw [← Path.ofComponents_eq hway.isStep]
    exact (Path.steps_of_isWay hway).2

theorem holdsNoToken_of_mem {c : Component} (hc : c ∈ names)
    (hsource : HoldsNoToken source.toList) : HoldsNoToken c.segment := by
  apply hsource.of_infix
  rw [h.text]
  exact (Path.infix_rooted_of_mem hc).trans (List.prefix_append _ _).isInfix

theorem holdsNoToken_name (hsource : HoldsNoToken source.toList) : HoldsNoToken name.toList := by
  apply hsource.of_infix
  rw [h.text]
  exact ((List.suffix_cons _ _).trans (List.suffix_append _ _)).isInfix

theorem holdsNoToken_relativeDirectory (hroot : p.sourceRoot.isAbsolute = true)
    (hsource : HoldsNoToken source.toList) :
    HoldsNoToken (p.templateValue source "$(FileRelativeDirectory)").toList := by
  rw [toList_templateValue_relativeDirectory h hroot]
  split
  · decide
  · apply holdsNoToken_joinWith
    intro piece hpiece
    obtain ⟨c, hc, rfl⟩ := List.mem_map.1 hpiece
    rcases Path.mem_relativeComponents hc with rfl | hc
    · decide
    · rw [h.normal_parent] at hc
      rcases List.mem_cons.1 hc with rfl | hc
      · decide
      · exact holdsNoToken_of_mem h hc hsource

theorem getLast?_append_name (s : List Char) :
    (s ++ '/' :: name.toList).getLast? = name.toList.getLast? := by
  obtain ⟨c, rest, hname⟩ := List.exists_cons_of_ne_nil h.isName_name.isStep.segment_ne.1
  rw [Component.segment] at hname
  rw [hname, List.getLast?_append_of_ne_nil _ (List.cons_ne_nil _ _), List.getLast?_cons_cons]

variable (hcanonical : source.Canonical) (hplain : HoldsNoToken source.toList)
  (hblank : ∀ c ∈ name.toList.getLast?, Text.isBlank c = false)

include hcanonical hplain hblank

theorem expandTemplate_eq_source (htext : p.templateText template source = source.toList) :
    p.expandTemplate template source = source := by
  have hself : Path.ofList source.toList = source := by simp [Path.ofList, Path.toList]
  have hhead : source.toList.head? = some '/' := by
    rw [h.text]
    exact Path.head?_rooted_append names name.toList
  have hlast : ∀ c ∈ source.toList.getLast?, Text.isBlank c = false := by
    rw [h.text, getLast?_append_name h]
    exact hblank
  rw [expandTemplate_of_plain htext hplain hhead hlast, hself, hcanonical.normalized]

theorem expandTemplate_from_root (hroot : p.sourceRoot.Canonical)
    (hrootPlain : HoldsNoToken p.sourceRoot.toList)
    (htext : p.templateText template source =
      (p.templateValue source "$(SourceRoot)").toList ++
        '/' :: ((p.templateValue source "$(FileRelativeDirectory)").toList ++ '/' :: name.toList)) :
    p.expandTemplate template source = source := by
  obtain ⟨others, hothers, hwritten, hnames⟩ := hroot.exists_names
  have hvalue : (p.templateValue source "$(SourceRoot)").toList = Path.rooted others := by
    have hslash : p.templateValue source "$(SourceRoot)" = p.sourceRoot.toSlash := rfl
    rw [hslash, hwritten, Path.toSlash_ofComponents_root fun c hc => (hnames c hc).isStep,
      String.toList_ofList]
  rw [hvalue] at htext
  have hrooted : HoldsNoToken (Path.rooted others) := by
    cases others with
    | nil => decide
    | cons c rest =>
        rw [hwritten, Path.toList_ofComponents_rooted (List.cons_ne_nil c rest)] at hrootPlain
        exact hrootPlain
  have hall : HoldsNoToken (Path.rooted others ++
      '/' :: ((p.templateValue source "$(FileRelativeDirectory)").toList ++
        '/' :: name.toList)) := by
    have hpieces : ∀ piece ∈ [Path.rooted others,
        (p.templateValue source "$(FileRelativeDirectory)").toList, name.toList],
        HoldsNoToken piece := by
      simpa using ⟨hrooted, holdsNoToken_relativeDirectory h hroot.absolute hplain,
        holdsNoToken_name h hplain⟩
    exact holdsNoToken_joinWith hpieces
  have hlast : ∀ c ∈ (Path.rooted others ++
      '/' :: ((p.templateValue source "$(FileRelativeDirectory)").toList ++
        '/' :: name.toList)).getLast?, Text.isBlank c = false := by
    rw [← List.cons_append, ← List.append_assoc, getLast?_append_name h]
    exact hblank
  rw [expandTemplate_of_plain htext hall (Path.head?_rooted_append others _) hlast, Path.normalize,
    Path.normal_rooted_way hroot.absolute hothers h (steps_relativeDirectory h hroot.absolute)]
  exact hcanonical.normalized

end Rebuild

/--
The templates that name the parts of a source's path put the path together again: its directory and
its name, the way to it from the source root, and its stem with its extension if it has one. Neither
path may hold the start of a token or a backslash, and the name may not end in a blank, which would
be trimmed.
-/
theorem templates_rebuild_source {p : Project} {source : Path} {name : String}
    (hsource : source.Canonical) (hname : source.fileName? = some name)
    (hroot : p.sourceRoot.Canonical)
    (hplain : HoldsNoToken source.toList ∧ HoldsNoToken p.sourceRoot.toList)
    (hblank : ∀ c ∈ name.toList.getLast?, Text.isBlank c = false) :
    p.expandTemplate "$(FileDirectory)/$(Filename)" source = source ∧
      p.expandTemplate "$(SourceRoot)/$(FileRelativeDirectory)/$(Filename)" source = source ∧
      (∀ ext, source.extension? = some ext →
        p.expandTemplate "$(FileDirectory)/$(FileBasename).$(FileExtension)" source = source) ∧
      (source.extension? = none →
        p.expandTemplate "$(FileDirectory)/$(FileBasename)" source = source) := by
  obtain ⟨names, h⟩ := Path.exists_fileIn hsource hname
  have hstem : (p.templateValue source "$(FileBasename)") = (Path.splitName name).1 := by
    have hvalue : p.templateValue source "$(FileBasename)" = source.fileStem?.getD "" := rfl
    rw [hvalue, Path.fileStem?, hname, Option.map_some, Option.getD_some]
  have hextension : source.extension? = (Path.splitName name).2 := by
    rw [Path.extension?, hname, Option.bind_some]
  refine ⟨?_, ?_, ?_, ?_⟩
  · apply expandTemplate_eq_source h hsource hplain.1 hblank
    have htemplate : "$(FileDirectory)/$(Filename)".toList =
        "$(FileDirectory)".toList ++ '/' :: "$(Filename)".toList := by decide +kernel
    rw [templateText, htemplate, expandTokens_separated (by decide) (by decide),
      expandTokens_last (by decide), toList_templateValue_directory h,
      toList_templateValue_name h, h.text]
  · apply expandTemplate_from_root h hsource hplain.1 hblank hroot hplain.2
    have htemplate : "$(SourceRoot)/$(FileRelativeDirectory)/$(Filename)".toList =
        "$(SourceRoot)".toList ++ '/' :: ("$(FileRelativeDirectory)".toList ++
          '/' :: "$(Filename)".toList) := by decide +kernel
    rw [templateText, htemplate, expandTokens_separated (by decide) (by decide),
      expandTokens_separated (by decide) (by decide), expandTokens_last (by decide),
      toList_templateValue_name h]
  · intro ext hext
    rw [hextension] at hext
    have hvalue : p.templateValue source "$(FileExtension)" = ext := by
      have hgiven : p.templateValue source "$(FileExtension)" = source.extension?.getD "" := rfl
      rw [hgiven, hextension, hext, Option.getD_some]
    apply expandTemplate_eq_source h hsource hplain.1 hblank
    have htemplate : "$(FileDirectory)/$(FileBasename).$(FileExtension)".toList =
        "$(FileDirectory)".toList ++ '/' :: ("$(FileBasename)".toList ++
          '.' :: "$(FileExtension)".toList) := by decide +kernel
    rw [templateText, htemplate, expandTokens_separated (by decide) (by decide),
      expandTokens_separated (by decide) (by decide), expandTokens_last (by decide),
      toList_templateValue_directory h, hstem, hvalue, Path.splitName_append hext, h.text]
  · intro hnone
    rw [hextension] at hnone
    apply expandTemplate_eq_source h hsource hplain.1 hblank
    have htemplate : "$(FileDirectory)/$(FileBasename)".toList =
        "$(FileDirectory)".toList ++ '/' :: "$(FileBasename)".toList := by decide +kernel
    rw [templateText, htemplate, expandTokens_separated (by decide) (by decide),
      expandTokens_last (by decide), toList_templateValue_directory h, hstem,
      Path.splitName_fst hnone, h.text]

/-- A source outside the source root, with a name that ends in a dot. -/
def besideRoot : Path := ⟨"/lib/$/(x).tar."⟩

theorem templates_rebuild_source_beside :
    besideRoot.Canonical ∧ besideRoot.fileName? = some "(x).tar." ∧
      tokenNamed.sourceRoot.Canonical ∧
      (HoldsNoToken besideRoot.toList ∧ HoldsNoToken tokenNamed.sourceRoot.toList) ∧
      (∀ c ∈ "(x).tar.".toList.getLast?, Text.isBlank c = false) ∧
      besideRoot.extension? = some "" ∧
      tokenNamed.expandTemplate "$(SourceRoot)/$(FileRelativeDirectory)/$(Filename)" besideRoot =
        besideRoot ∧
      tokenNamed.expandTemplate "$(FileDirectory)/$(FileBasename).$(FileExtension)" besideRoot =
        besideRoot := by
  have hsource : besideRoot.Canonical := ⟨by decide +kernel, by decide +kernel⟩
  have hname : besideRoot.fileName? = some "(x).tar." := by decide +kernel
  have hroot : tokenNamed.sourceRoot.Canonical := ⟨by decide +kernel, by decide +kernel⟩
  have hplain : HoldsNoToken besideRoot.toList ∧ HoldsNoToken tokenNamed.sourceRoot.toList := by
    decide +kernel
  have hblank : ∀ c ∈ "(x).tar.".toList.getLast?, Text.isBlank c = false := by
    have hlast : "(x).tar.".toList.getLast? = some '.' := by decide +kernel
    rw [hlast]
    intro c hc
    obtain rfl := Option.some.inj hc
    decide
  have hextension : besideRoot.extension? = some "" := by decide +kernel
  obtain ⟨-, hfromRoot, hstem, -⟩ := templates_rebuild_source hsource hname hroot hplain hblank
  exact ⟨hsource, hname, hroot, hplain, hblank, hextension, hfromRoot, hstem "" hextension⟩

end SolutionPlan.Project
