import SolutionPlan.Description.Settings
import SolutionPlan.Proofs.Glob.Literal
import SolutionPlan.Proofs.Path.Relative

/-!
# Relocated patterns

A pattern that is written in another directory is put behind the way to that directory. What it
accepts is what the pattern accepts behind the same way, whatever characters the names of the way
are made of.
-/

namespace SolutionPlan

/-! ## Escaped components -/

namespace Glob

theorem escape_append (s t : List Char) : escape (s ++ t) = escape s ++ escape t := by
  simp [escape]

theorem mem_escape {s : List Char} {d : Char} (h : d ∈ escape s) :
    d ∈ s ∨ d = '[' ∨ d = ']' := by
  obtain ⟨c, hc, hd⟩ := List.mem_flatMap.1 h
  split at hd
  · simp only [List.mem_cons, List.not_mem_nil, or_false] at hd
    rcases hd with rfl | rfl | rfl
    · exact .inr (.inl rfl)
    · exact .inl hc
    · exact .inr (.inr rfl)
  · exact .inl (List.mem_singleton.1 hd ▸ hc)

theorem escape_eq_self {s : List Char} (h : '[' ∉ escape s) : escape s = s := by
  induction s with
  | nil => rfl
  | cons c s ih =>
      have hcons : escape (c :: s) = (if isSpecial c then ['[', c, ']'] else [c]) ++ escape s := rfl
      rw [hcons, List.mem_append, not_or] at h
      rw [hcons, ih h.2]
      split
      · next hc => simp [hc] at h
      · rfl

end Glob

def Component.escaped : Component → Component
  | .name text => .name (String.ofList (Glob.escape text.toList))
  | c => c

theorem Component.IsName.escaped {c : Component} (h : c.IsName) : c.escaped.IsName := by
  cases c with
  | root | current | parent => exact h.elim
  | name text =>
      obtain ⟨hslash, hplain⟩ := h
      simp only [Component.escaped, Component.IsName, String.toList_ofList]
      constructor
      · intro hmem
        rcases Glob.mem_escape hmem with hmem | heq | heq
        · exact hslash hmem
        · cases heq
        · cases heq
      · intro hmem
        have hbracket : '[' ∉ Glob.escape text.toList := by
          intro hbracket
          simp only [List.mem_cons, List.not_mem_nil, or_false] at hmem
          rcases hmem with heq | heq | heq <;> simp [heq] at hbracket
        rw [Glob.escape_eq_self hbracket] at hmem
        exact hplain hmem

theorem Component.IsStep.segment_escaped {c : Component} (h : c.IsStep) :
    c.escaped.segment = Glob.escape c.segment := by
  rcases h with rfl | h
  · decide
  · cases c with
    | root | current | parent => exact h.elim
    | name text => simp [Component.escaped, Component.segment]

namespace Path

theorem escape_written {cs : List Component} (h : ∀ c ∈ cs, c.IsStep) :
    Glob.escape (written cs) = written (cs.map Component.escaped) := by
  induction cs with
  | nil => rfl
  | cons c rest ih =>
      have hc := (h c List.mem_cons_self).segment_escaped
      cases rest with
      | nil => simp [written, Text.joinWith, hc]
      | cons next more =>
          have hrest := ih fun d hd => h d (List.mem_cons_of_mem c hd)
          have hslash (s : List Char) : Glob.escape ('/' :: s) = '/' :: Glob.escape s := by
            simp [Glob.escape, Glob.slash_not_special]
          have hwritten (d e : Component) (ds : List Component) :
              written (d :: e :: ds) = d.segment ++ '/' :: written (e :: ds) := rfl
          rw [List.map_cons, List.map_cons, hwritten, hwritten, Glob.escape_append, hslash, hrest,
            hc, List.map_cons]

theorem IsWay.escaped {cs : List Component} (h : IsWay cs) :
    IsWay (cs.map Component.escaped) := by
  obtain ⟨k, names, rfl, hnames⟩ := h
  refine ⟨k, names.map Component.escaped, ?_, ?_⟩
  · rw [List.map_append, List.map_replicate]
    rfl
  · intro c hc
    obtain ⟨d, hd, rfl⟩ := List.mem_map.1 hc
    exact (hnames d hd).escaped

/-! ## Patterns that descend -/

/-- Every segment of the text leads down into a name. -/
def Descends (p : Path) : Prop :=
  ∀ segment ∈ segments p.toList, segment ∉ [[], ['.'], ['.', '.']]

instance (p : Path) : Decidable p.Descends :=
  inferInstanceAs (Decidable (∀ segment ∈ segments p.toList, segment ∉ [[], ['.'], ['.', '.']]))

theorem Descends.exists_names {p : Path} (h : p.Descends) :
    ∃ names, names ≠ [] ∧ (∀ c ∈ names, c.IsName) ∧ written names = p.toList := by
  refine ⟨(segments p.toList).map fun s => .name (String.ofList s), ?_, ?_, ?_⟩
  · simpa using segments_ne_nil p.toList
  · intro c hc
    obtain ⟨s, hs, rfl⟩ := List.mem_map.1 hc
    have hslash := slash_not_mem_of_mem_segments hs
    exact ⟨by simpa using hslash, by simpa using h s hs⟩
  · unfold written
    rw [List.map_map]
    simpa [Function.comp_def, Component.segment] using joinWith_segments p.toList

theorem backslash_not_mem_ofDocument (files : String) : '\\' ∉ (ofDocument files).toList := by
  intro hmem
  simp only [ofDocument, ofList, toList, String.toList_ofList, Text.replaceChar, List.mem_map]
    at hmem
  obtain ⟨c, -, hc⟩ := hmem
  split at hc
  · cases hc
  · next hne => exact hne hc

end Path

/-! ## The relocated pattern -/

open SolutionPlan.Path

theorem relocatePattern_eq {directory origin : Path} (hdirectory : directory.isAbsolute = true)
    (horigin : origin.isAbsolute = true) (hne : directory.normal ≠ origin.normal)
    {files : String} (hfiles : (ofDocument files).Descends) :
    relocatePattern directory origin files =
      String.ofList (Glob.escape (written (way origin directory)) ++
        '/' :: (ofDocument files).toList) := by
  have hway := isWay_way hdirectory horigin
  have hwayne : way origin directory ≠ [] := fun h => hne (way_eq_nil_iff.1 h)
  obtain ⟨names, hnamesne, hnames, hwritten⟩ := hfiles.exists_names
  have hall := hway.escaped.append hnames
  have htext : Glob.escape (written (way origin directory)) ++ '/' :: (ofDocument files).toList =
      written ((way origin directory).map Component.escaped ++ names) := by
    rw [written_append (by simpa using hwayne) hnamesne, escape_written hway.isStep, hwritten]
  have hoffset : ¬ String.ofList (written (way origin directory)) = "" := by
    intro hempty
    have hnil := congrArg String.toList hempty
    rw [String.toList_ofList] at hnil
    exact written_ne_nil hwayne hway.isStep hnil
  unfold relocatePattern
  rw [toSlash_relativeTo hdirectory horigin]
  simp only [if_neg hoffset, String.toList_ofList]
  have hpath : (ofDocument files).text.toList = (ofDocument files).toList := rfl
  rw [hpath, htext, ← ofComponents_eq hall.isStep]
  unfold Path.normalize
  rw [hall.normal, toSlash_ofComponents hall.isStep]

namespace FilePattern

theorem withSlashes_eq_self {text : String} (h : '\\' ∉ text.toList) : withSlashes text = text := by
  have hsame : Text.replaceChar '\\' '/' text.toList = text.toList := by
    unfold Text.replaceChar
    rw [List.map_congr_left (g := id)]
    · simp
    · intro c hc
      have hne : c ≠ '\\' := fun heq => h (heq ▸ hc)
      simp [hne]
  unfold withSlashes
  rw [hsame, String.ofList_toList]

theorem accepts_iff {p : FilePattern} {s : List Char} (h : '\\' ∉ s) :
    p.accepts (String.ofList s) = true ↔ Glob.matchTokens .sensitive p.tokens s = true := by
  unfold accepts
  rw [withSlashes_eq_self (by simpa using h), String.toList_ofList, Glob.accepts_eq_matchTokens]

theorem compile_eq_ok {text : String} {p : FilePattern} (htext : '\\' ∉ text.toList)
    (h : compile text = .ok p) : Glob.compile text = .ok p.tokens := by
  unfold compile at h
  rw [withSlashes_eq_self htext] at h
  cases hcompiled : Glob.compile text with
  | error e => rw [hcompiled] at h; cases h
  | ok tokens => rw [hcompiled] at h; cases h; rfl

end FilePattern

theorem backslash_not_mem_written_way (base : Path) {p : Path} (hp : p.isAbsolute = true)
    (hplain : '\\' ∉ p.toList) : '\\' ∉ written (way base p) := by
  intro hmem
  rcases mem_written_way hp hmem with heq | heq | hmem
  · cases heq
  · cases heq
  · exact hplain hmem

/-- A pattern from another directory accepts, in every base directory, exactly the paths that start
with the way to that directory and go on as the pattern says. -/
theorem relocated_accepts {directory origin : Path} (hdirectory : directory.isAbsolute = true)
    (horigin : origin.isAbsolute = true) (hne : directory.normal ≠ origin.normal)
    (hplain : '\\' ∉ directory.toList) {files : String} (hfiles : (ofDocument files).Descends)
    {pattern : FilePattern}
    (hpattern : FilePattern.compile (ofDocument files).text = .ok pattern) :
    ∃ relocated,
      FilePattern.compile (relocatePattern directory origin files) = .ok relocated ∧
        ∀ base source : Path, base.isAbsolute = true → source.isAbsolute = true →
          '\\' ∉ source.toList →
            (relocated.accepts (source.relativeTo base).toSlash = true ↔
              ∃ rest, rest ≠ [] ∧ way base source = way origin directory ++ rest ∧
                pattern.accepts (String.ofList (written rest)) = true) := by
  have hway := isWay_way hdirectory horigin
  have hwayne : way origin directory ≠ [] := fun h => hne (way_eq_nil_iff.1 h)
  have hfilesplain : '\\' ∉ (ofDocument files).toList := backslash_not_mem_ofDocument files
  have htokens : Glob.compile (String.ofList (ofDocument files).toList) = .ok pattern.tokens := by
    have hcompiled := FilePattern.compile_eq_ok hfilesplain hpattern
    unfold Path.toList
    rw [String.ofList_toList]
    exact hcompiled
  obtain ⟨tokens, hcompile, hmatch⟩ :=
    Glob.compile_behind (s := written (way origin directory)) htokens
  have htextplain : '\\' ∉ (relocatePattern directory origin files).toList := by
    rw [relocatePattern_eq hdirectory horigin hne hfiles, String.toList_ofList, List.mem_append,
      not_or]
    constructor
    · intro hmem
      rcases Glob.mem_escape hmem with hmem | heq | heq
      · exact backslash_not_mem_written_way origin hdirectory hplain hmem
      · cases heq
      · cases heq
    · simpa using hfilesplain
  refine ⟨⟨relocatePattern directory origin files, tokens⟩, ?_, ?_⟩
  · unfold FilePattern.compile
    rw [FilePattern.withSlashes_eq_self htextplain]
    rw [← relocatePattern_eq hdirectory horigin hne hfiles] at hcompile
    rw [hcompile]
    rfl
  · intro base source hbase hsource hsourceplain
    have hsourceway := backslash_not_mem_written_way base hsource hsourceplain
    have hbehind (s : List Char)
        (hs : written (way base source) = written (way origin directory) ++ '/' :: s) :
        '\\' ∉ s := by
      intro hmem
      rw [hs] at hsourceway
      exact hsourceway (List.mem_append_right _ (List.mem_cons_of_mem _ hmem))
    rw [toSlash_relativeTo hsource hbase, FilePattern.accepts_iff hsourceway, hmatch]
    constructor
    · rintro ⟨s, hs, hrest⟩
      obtain ⟨rest, hrestne, hsplit, rfl⟩ :=
        (written_eq_append_slash_iff (isWay_way hsource hbase).isStep hway.isStep hwayne).1 hs
      refine ⟨rest, hrestne, hsplit, ?_⟩
      exact (FilePattern.accepts_iff (hbehind _ hs)).2 hrest
    · rintro ⟨rest, hrestne, hsplit, hrest⟩
      have hs := (written_eq_append_slash_iff (isWay_way hsource hbase).isStep hway.isStep
        hwayne).2 ⟨rest, hrestne, hsplit, rfl⟩
      exact ⟨written rest, hs, (FilePattern.accepts_iff (hbehind _ hs)).1 hrest⟩

end SolutionPlan
