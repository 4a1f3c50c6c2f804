import SolutionPlan.Proofs.Path.Mirror
import SolutionPlan.Proofs.Text.Pieces

/-!
# Paths as texts with slashes

The text of a canonical path is its components with slashes between them, where the root is an empty
piece. So the text of a directory, a slash and a name make the text of the path of that name. A text
that needs no trimming and has no backslash is resolved as the path that it is. The text of any
normal path is read back as that path, but for the root: its empty piece stands alone, and no slash
is written.
-/

namespace SolutionPlan.Path

open Component

/-! ## Below the root -/

/-- The text of the root and what follows it; the root alone has the empty text. -/
def rooted (cs : List Component) : List Char := Text.joinWith '/' ([] :: cs.map Component.segment)

theorem rooted_eq (cs : List Component) (hne : cs ≠ []) : rooted cs = '/' :: written cs :=
  Text.joinWith_cons '/' [] (by simpa using hne)

theorem rooted_append (cs : List Component) (c : Component) :
    rooted (cs ++ [c]) = rooted cs ++ '/' :: c.segment := by
  unfold rooted
  rw [List.map_append, ← List.cons_append]
  exact Text.joinWith_append '/' (List.cons_ne_nil _ _) (List.cons_ne_nil _ _)

theorem toList_ofComponents_rooted {cs : List Component} (hne : cs ≠ []) :
    (ofComponents (.root :: cs)).toList = rooted cs := by
  obtain ⟨c, rest, rfl⟩ := List.exists_cons_of_ne_nil hne
  have hof : ofComponents (.root :: c :: rest) = ofList (rooted (c :: rest)) := rfl
  rw [hof, toList, ofList, String.toList_ofList]

theorem toSlash_ofComponents_root {cs : List Component} (h : ∀ c ∈ cs, c.IsStep) :
    (ofComponents (.root :: cs)).toSlash = String.ofList (rooted cs) := by
  unfold toSlash
  rw [components_ofComponents_root h, List.filter_cons_of_pos rfl, filter_current_eq_self h]
  rfl

theorem steps_rooted {cs : List Component} (h : ∀ c ∈ cs, c.IsStep) :
    (ofList (rooted cs)).steps = cs := by
  have hsegments : segments (rooted cs) = [] :: cs.map Component.segment := by
    apply Text.splitWhere_joinWith
    · exact List.cons_ne_nil _ _
    · rw [List.forall_mem_cons]
      exact ⟨List.not_mem_nil, slash_not_mem_map_segment h⟩
  simp only [steps, ofList, toList, String.toList_ofList, hsegments]
  exact filterMap_ofSegment? h

theorem infix_rooted_of_mem {cs : List Component} {c : Component} (hc : c ∈ cs) :
    c.segment <:+: rooted cs := by
  apply Text.infix_joinWith_of_mem
  exact List.mem_cons_of_mem _ (List.mem_map_of_mem hc)

theorem head?_rooted_append (cs : List Component) (s : List Char) :
    (rooted cs ++ '/' :: s).head? = some '/' := by
  cases cs with
  | nil => rfl
  | cons c rest =>
      rw [rooted_eq _ (List.cons_ne_nil c rest)]
      rfl

/-! ## Reading the text back -/

theorem toSlash_eq (p : Path) :
    p.toSlash =
      String.ofList (if p.isAbsolute = true then rooted p.steps else written p.steps) := by
  obtain ⟨front, hcomponents, hfront⟩ := exists_components_eq p
  have hsteps := filter_current_eq_self (isStep_of_mem_steps (p := p))
  unfold toSlash
  rw [hcomponents, List.filter_append, hsteps]
  split at hfront
  · next h =>
      rw [hfront, if_pos h]
      rfl
  · next h =>
      rw [if_neg h]
      rcases hfront with rfl | rfl
      · rfl
      · rfl

theorem replace_toSlash (p : Path) :
    Text.replace ['/', '/'] ['/'] p.toSlash.toList = p.toSlash.toList := by
  have hslash := slash_not_mem_map_segment (isStep_of_mem_steps (p := p))
  have hne : ∀ piece ∈ p.steps.map Component.segment, piece ≠ [] := by
    rw [List.forall_mem_map]
    exact fun c hc => (isStep_of_mem_steps c hc).segment_ne.1
  rw [toSlash_eq, String.toList_ofList]
  apply Text.replace_eq_self
  split
  · apply Text.not_infix_joinWith
    · rw [List.forall_mem_cons]
      exact ⟨List.not_mem_nil, hslash⟩
    · exact hne
  · apply Text.not_infix_joinWith hslash
    exact fun piece hpiece => hne piece (List.mem_of_mem_tail hpiece)

def ReadsBack (p : Path) : Prop := (Path.mk p.toSlash).same p = true

section ReadsBack

variable {p : Path} (h : p.normalize.same p = true)

include h

theorem mk_toSlash :
    Path.mk p.toSlash = if p.normal = [.root] then empty else p.normalize := by
  have hsame : p.toSlash = p.normalize.toSlash := by
    unfold toSlash
    rw [beq_iff_eq.1 h]
  rw [hsame]
  unfold normalize
  cases habsolute : p.isAbsolute with
  | true =>
      obtain ⟨names, hnormal, hnames⟩ := normal_of_isAbsolute habsolute
      rw [hnormal, toSlash_ofComponents_root fun c hc => (hnames c hc).1.isStep]
      -- Names behind the root bring the slash in front of them.
      cases names with
      | nil =>
          rw [if_pos rfl]
          rfl
      | cons c rest =>
          rw [if_neg (by simp)]
          rfl
  | false =>
      have hsteps := (isWay_normal habsolute).isStep
      rw [toSlash_ofComponents hsteps, if_neg, ofComponents_eq hsteps]
      · rfl
      · intro hroot
        exact not_isStep_root (hsteps .root (by simp [hroot]))

theorem readsBack_iff : p.ReadsBack ↔ p.normal ≠ [.root] := by
  unfold ReadsBack
  rw [mk_toSlash h]
  split
  · next hroot =>
      have hcomponents : p.components = [.root] := by
        rw [← beq_iff_eq.1 h, components_normalize, hroot]
      have hempty : empty.same p = false := by
        unfold same
        rw [hcomponents]
        rfl
      simp [hempty, hroot]
  · next hroot => simp [h, hroot]

end ReadsBack

/-! ## Texts that are resolved as they are -/

theorem isAbsolute_of_head? {text : List Char} (h : text.head? = some '/') :
    (ofList text).isAbsolute = true := by
  simp [isAbsolute, ofList, toList, h]

theorem resolve_of_plain (base : Path) {text : List Char} (hhead : text.head? = some '/')
    (hlast : ∀ c ∈ text.getLast?, Text.isBlank c = false) (hplain : '\\' ∉ text) :
    base.resolve (String.ofList text) = (ofList text).normalize := by
  have htrim : Text.trim text = text := by
    refine Text.trim_eq_self ?_ hlast
    rw [hhead]
    rintro c hc
    obtain rfl := Option.some.inj hc
    decide
  have hreplace : Text.replaceChar '\\' '/' text = text := by
    have hkept : ∀ c ∈ text, (if c = '\\' then '/' else c) = c := by
      intro c hc
      rw [if_neg]
      rintro rfl
      exact hplain hc
    unfold Text.replaceChar
    rw [List.map_congr_left hkept, List.map_id']
  have hdocument : ofDocument (String.ofList text) = ofList text := by
    unfold ofDocument
    rw [String.toList_ofList, htrim, hreplace]
  unfold resolve
  rw [hdocument, join_of_isAbsolute (isAbsolute_of_head? hhead)]

/-! ## Directory and name -/

/-- A canonical path taken apart: the names of its directory and the name of the file in it. -/
structure FileIn (p : Path) (names : List Component) (name : String) : Prop where
  fileName : p.fileName? = some name
  normal : p.normal = .root :: (names ++ [.name name])
  isName : ∀ c ∈ names ++ [.name name], c.IsName
  text : p.toList = rooted names ++ '/' :: name.toList
  parent : p.parentOrEmpty = ofComponents (.root :: names)

namespace FileIn

variable {p base : Path} {names : List Component} {name : String}

theorem isName_of_mem (h : p.FileIn names name) : ∀ c ∈ names, c.IsName :=
  fun c hc => h.isName c (List.mem_append_left _ hc)

theorem isName_name (h : p.FileIn names name) : (Component.name name).IsName :=
  h.isName _ (by simp)

theorem normal_parent (h : p.FileIn names name) : p.parentOrEmpty.normal = .root :: names := by
  rw [h.parent]
  exact normal_ofComponents_root h.isName_of_mem

theorem isAbsolute_parent (h : p.FileIn names name) : p.parentOrEmpty.isAbsolute = true := by
  rw [h.parent]
  exact isAbsolute_ofComponents_root names

theorem parent?_eq (h : p.FileIn names name) : p.parent? = some p.parentOrEmpty := by
  have habsolute := h.isAbsolute_parent
  unfold parentOrEmpty at habsolute ⊢
  cases hparent : p.parent? with
  | none =>
      rw [hparent] at habsolute
      exact absurd habsolute (by decide)
  | some directory => rfl

theorem toSlash_parent (h : p.FileIn names name) :
    p.parentOrEmpty.toSlash = String.ofList (rooted names) := by
  rw [h.parent]
  exact toSlash_ofComponents_root fun c hc => (h.isName_of_mem c hc).isStep

end FileIn

theorem exists_fileIn {p : Path} {name : String} (h : p.Canonical)
    (hname : p.fileName? = some name) : ∃ names, p.FileIn names name := by
  obtain ⟨names, hnormal, hp, hnames⟩ := h.exists_names
  have hlast := hname
  unfold fileName? at hlast
  rw [h.components_eq, hnormal] at hlast
  rcases List.eq_nil_or_concat names with rfl | ⟨front, last, rfl⟩
  · simp at hlast
  · rw [List.concat_eq_append] at hnormal hp hnames hlast
    rw [← List.cons_append, List.getLast?_concat] at hlast
    cases last with
    | name text =>
        obtain rfl := Option.some.inj hlast
        refine ⟨front, hname, hnormal, hnames, ?_, ?_⟩
        · rw [hp, toList_ofComponents_rooted (by simp), rooted_append]
          rfl
        · unfold parentOrEmpty
          rw [hp, parent?_ofComponents (fun c hc => hnames c (List.mem_append_left _ hc))
            (hnames _ (by simp))]
          rfl
    | root | current | parent => cases hlast

/-! ## The way to a directory, written behind its base -/

theorem foldl_way {base p : Path} (hbase : base.isAbsolute = true) (hp : p.isAbsolute = true) :
    (way base p).foldl pushNormal base.normal.reverse = p.normal.reverse := by
  obtain ⟨shared, up, down, h⟩ := exists_seen hbase hp
  obtain ⟨names, hnormal, hnames⟩ := normal_of_isAbsolute hbase
  have hreversed : ∀ c ∈ names.reverse, c.IsName :=
    fun c hc => (hnames c (List.mem_reverse.1 hc)).1
  have hparts : names = shared ++ up := (List.cons.inj (hnormal.symm.trans h.base_normal)).2
  rw [h.way, hnormal, h.normal, List.foldl_append, List.reverse_cons,
    foldl_pushNormal_climb hreversed, foldl_pushNormal_names h.names, hparts]
  simp

/-- Behind the base the way to the directory of a file leads to that directory, and the name to the
file. -/
theorem normal_rooted_way {base p : Path} (hbase : base.isAbsolute = true)
    {others names : List Component} {name : String} (hothers : base.normal = .root :: others)
    (h : p.FileIn names name) {w : List Char} (hw : (ofList w).steps = way base p.parentOrEmpty) :
    (ofList (rooted others ++ '/' :: (w ++ '/' :: name.toList))).normal = p.normal := by
  have hnames : ∀ c ∈ others, c.IsName := by
    obtain ⟨found, hfound, hall⟩ := normal_of_isAbsolute hbase
    obtain rfl : found = others := (List.cons.inj (hfound.symm.trans hothers)).2
    exact fun c hc => (hall c hc).1
  have habsolute := isAbsolute_of_head? (head?_rooted_append others (w ++ '/' :: name.toList))
  have hname : (ofList name.toList).steps = [.name name] := by
    have hwritten : (ofList name.toList).steps = (ofComponents [.name name]).steps := rfl
    rw [hwritten]
    apply (steps_of_isWay _).2
    exact ⟨0, [.name name], rfl, by simpa using h.isName_name⟩
  have hstart : (Component.root :: others).foldl pushNormal [] = base.normal.reverse := by
    rw [List.foldl_cons, foldl_pushNormal_names hnames, hothers, List.reverse_cons]
    rfl
  rw [normal_eq_steps, if_pos habsolute, steps_append_slash, steps_append_slash,
    steps_rooted fun c hc => (hnames c hc).isStep, hw, hname, List.singleton_append,
    ← List.cons_append]
  unfold normalComponents
  rw [List.foldl_append, List.foldl_append, hstart, foldl_way hbase h.isAbsolute_parent,
    h.normal_parent, List.foldl_cons, List.foldl_nil, pushNormal_name, h.normal]
  simp

/-! ## Stem and extension -/

theorem splitName_append {name ext : String} (h : (splitName name).2 = some ext) :
    (splitName name).1.toList ++ '.' :: ext.toList = name.toList := by
  have hparts := List.takeWhile_append_dropWhile (p := (· != '.')) (l := name.toList.reverse)
  have hhead := List.head?_dropWhile_not (· != '.') name.toList.reverse
  unfold splitName at h ⊢
  simp only at h ⊢
  cases hdrop : name.toList.reverse.dropWhile (· != '.') with
  | nil => simp [hdrop] at h
  | cons dot stem =>
      rw [hdrop] at hhead hparts h
      obtain rfl : dot = '.' := by simpa using hhead
      cases stem with
      | nil => simp at h
      | cons c rest =>
          obtain rfl := Option.some.inj h
          have hname := congrArg List.reverse hparts
          simpa using hname

theorem splitName_fst {name : String} (h : (splitName name).2 = none) :
    (splitName name).1 = name := by
  unfold splitName at h ⊢
  simp only at h ⊢
  split
  · rfl
  · rfl
  · next hdrop => simp [hdrop] at h

end SolutionPlan.Path
