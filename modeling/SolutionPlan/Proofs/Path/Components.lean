import SolutionPlan.Path

/-!
# Components and normal forms

Components that can stand between two slashes are read back from the path that is written with them.
An absolute path has a normal form of names below the root, and such a form is its own normal form.
-/

namespace SolutionPlan

namespace Component

/-- A name that means itself when it stands between two slashes. -/
def IsName : Component → Prop
  | name text => '/' ∉ text.toList ∧ text.toList ∉ [[], ['.'], ['.', '.']]
  | _ => False

instance (c : Component) : Decidable c.IsName :=
  match c with
  | name text =>
      inferInstanceAs
        (Decidable ('/' ∉ text.toList ∧ text.toList ∉ [[], ['.'], ['.', '.']]))
  | root | current | parent => inferInstanceAs (Decidable False)

def IsStep (c : Component) : Prop := c = parent ∨ c.IsName

theorem IsName.isStep {c : Component} (h : c.IsName) : c.IsStep := .inr h

theorem not_isStep_root : ¬ root.IsStep := by
  rintro (hroot | hroot)
  · cases hroot
  · exact hroot

theorem IsStep.slash_not_mem {c : Component} (h : c.IsStep) : '/' ∉ c.segment := by
  rcases h with rfl | h
  · simp [segment]
  · cases c with
    | name text => exact h.1
    | root | current | parent => exact h.elim

theorem IsStep.segment_ne {c : Component} (h : c.IsStep) :
    c.segment ≠ [] ∧ c.segment ≠ ['.'] := by
  rcases h with rfl | h
  · simp [segment]
  · cases c with
    | name text =>
        have hne := h.2
        simp only [List.mem_cons, not_or] at hne
        exact ⟨hne.1, hne.2.1⟩
    | root | current | parent => exact h.elim

theorem slash_not_mem_map_segment {cs : List Component} (h : ∀ c ∈ cs, c.IsStep) :
    ∀ piece ∈ cs.map segment, '/' ∉ piece := by
  rw [List.forall_mem_map]
  exact fun c hc => (h c hc).slash_not_mem

theorem ofSegment?_eq_name {s : List Char} (h : s ∉ [[], ['.'], ['.', '.']]) :
    ofSegment? s = some (name (String.ofList s)) := by
  unfold ofSegment?
  split
  all_goals first | rfl | simp at h

theorem IsStep.ofSegment?_segment {c : Component} (h : c.IsStep) :
    ofSegment? c.segment = some c := by
  rcases h with rfl | h
  · rfl
  · cases c with
    | name text =>
        have hread := ofSegment?_eq_name h.2
        rw [String.ofList_toList] at hread
        exact hread
    | root | current | parent => exact h.elim

theorem isStep_of_ofSegment? {s : List Char} {c : Component} (hs : '/' ∉ s)
    (h : ofSegment? s = some c) : c.IsStep ∧ c.segment = s := by
  by_cases hname : s ∉ [[], ['.'], ['.', '.']]
  · rw [ofSegment?_eq_name hname] at h
    obtain rfl := Option.some.inj h
    constructor
    · exact .inr (by simpa [IsName] using ⟨hs, by simpa using hname⟩)
    · simp [segment]
  · simp only [List.mem_cons, List.not_mem_nil, or_false, Decidable.not_not] at hname
    rcases hname with rfl | rfl | rfl
    · cases h
    · cases h
    · obtain rfl := Option.some.inj h
      exact ⟨.inl rfl, rfl⟩

end Component

namespace Path

open Component

/-! ## Written components -/

/-- The text in which the components stand between single slashes. -/
def written (cs : List Component) : List Char := Text.joinWith '/' (cs.map Component.segment)

theorem segments_ne_nil (s : List Char) : segments s ≠ [] := Text.splitWhere_ne_nil _ s

theorem joinWith_segments (s : List Char) : Text.joinWith '/' (segments s) = s :=
  Text.joinWith_splitWhere '/' s

theorem segments_written {cs : List Component} (hne : cs ≠ []) (h : ∀ c ∈ cs, c.IsStep) :
    segments (written cs) = cs.map Component.segment := by
  apply Text.splitWhere_joinWith
  · simpa using hne
  · exact slash_not_mem_map_segment h

theorem filterMap_ofSegment? {cs : List Component} (h : ∀ c ∈ cs, c.IsStep) :
    (cs.map Component.segment).filterMap ofSegment? = cs := by
  induction cs with
  | nil => rfl
  | cons c rest ih =>
      rw [List.map_cons,
        List.filterMap_cons_some (h c List.mem_cons_self).ofSegment?_segment,
        ih fun d hd => h d (List.mem_cons_of_mem c hd)]

theorem written_cons_ne_slash {c : Component} (h : c.IsStep) (rest : List Component) :
    ∃ d s, written (c :: rest) = d :: s ∧ d ≠ '/' := by
  obtain ⟨d, s, hsegment⟩ := List.exists_cons_of_ne_nil h.segment_ne.1
  have hd : d ≠ '/' := by
    rintro rfl
    exact h.slash_not_mem (hsegment ▸ List.mem_cons_self)
  cases rest with
  | nil => exact ⟨d, s, by simp [written, Text.joinWith, hsegment], hd⟩
  | cons e rest =>
      exact ⟨d, s ++ '/' :: written (e :: rest), by
        simp [written, Text.joinWith, hsegment], hd⟩

theorem ofComponents_eq {cs : List Component} (h : ∀ c ∈ cs, c.IsStep) :
    ofComponents cs = ofList (written cs) := by
  unfold ofComponents
  split
  · exact absurd (h .root List.mem_cons_self) not_isStep_root
  · rfl

theorem ofComponents_root (cs : List Component) :
    ofComponents (.root :: cs) = ofList ('/' :: written cs) := by
  cases cs <;> rfl

theorem components_ofComponents {cs : List Component} (h : ∀ c ∈ cs, c.IsStep) :
    (ofComponents cs).components = cs := by
  cases cs with
  | nil => rfl
  | cons c rest =>
      have hc : c.IsStep := h c List.mem_cons_self
      have hof := ofComponents_eq h
      obtain ⟨d, s, hwritten, hd⟩ := written_cons_ne_slash hc rest
      have hsegments := segments_written (List.cons_ne_nil c rest) h
      have hfirst := hc.segment_ne.2
      rw [hof]
      unfold components ofList toList
      rw [String.toList_ofList]
      split
      · next heq =>
          rw [hwritten] at heq
          exact absurd (List.cons.inj heq).1 hd
      · rw [hsegments]
        split
        · next heq => exact absurd (List.cons.inj heq).1 hfirst
        · exact filterMap_ofSegment? h

theorem components_ofComponents_root {cs : List Component} (h : ∀ c ∈ cs, c.IsStep) :
    (ofComponents (.root :: cs)).components = .root :: cs := by
  cases cs with
  | nil => rfl
  | cons c rest =>
      have hsegments := segments_written (List.cons_ne_nil c rest) h
      rw [ofComponents_root]
      unfold components ofList toList
      rw [String.toList_ofList]
      simp only [hsegments, filterMap_ofSegment? h]

theorem written_append {front back : List Component} (hfront : front ≠ []) (hback : back ≠ []) :
    written (front ++ back) = written front ++ '/' :: written back := by
  unfold written
  rw [List.map_append, Text.joinWith_append '/' (by simpa using hfront) (by simpa using hback)]

theorem mem_written {cs : List Component} {d : Char} (h : d ∈ written cs) :
    d = '/' ∨ ∃ c ∈ cs, d ∈ c.segment := by
  induction cs with
  | nil => simp [written, Text.joinWith] at h
  | cons c rest ih =>
      have hlater : d ∈ written rest → d = '/' ∨ ∃ e ∈ c :: rest, d ∈ e.segment := by
        intro hd
        rcases ih hd with hslash | ⟨e, he, hd⟩
        · exact .inl hslash
        · exact .inr ⟨e, List.mem_cons_of_mem c he, hd⟩
      cases rest with
      | nil => exact .inr ⟨c, List.mem_cons_self, h⟩
      | cons next more =>
          rcases List.mem_append.1 h with hd | hd
          · exact .inr ⟨c, List.mem_cons_self, hd⟩
          · rcases List.mem_cons.1 hd with hslash | hd
            · exact .inl hslash
            · exact hlater hd

theorem written_ne_nil {cs : List Component} (hne : cs ≠ []) (h : ∀ c ∈ cs, c.IsStep) :
    written cs ≠ [] := by
  obtain ⟨c, rest, rfl⟩ := List.exists_cons_of_ne_nil hne
  obtain ⟨d, s, hwritten, -⟩ := written_cons_ne_slash (h c List.mem_cons_self) rest
  simp [hwritten]

/-- A directory and a slash in front of a written text are its first components. -/
theorem written_eq_append_slash_iff {cs front : List Component} (hcs : ∀ c ∈ cs, c.IsStep)
    (hfront : ∀ c ∈ front, c.IsStep) (hne : front ≠ []) {s : List Char} :
    written cs = written front ++ '/' :: s ↔
      ∃ rest, rest ≠ [] ∧ cs = front ++ rest ∧ s = written rest := by
  constructor
  · intro h
    have hcsne : cs ≠ [] := by
      rintro rfl
      simp [written, Text.joinWith] at h
    -- Both texts are split at their slashes; a step is known by its segment.
    have hjoined : written front ++ '/' :: s =
        Text.joinWith '/' (front.map Component.segment ++ segments s) := by
      rw [Text.joinWith_append '/' (by simpa using hne) (segments_ne_nil s), joinWith_segments]
      rfl
    have hpieces : cs.map Component.segment = front.map Component.segment ++ segments s := by
      rw [← segments_written hcsne hcs, h, hjoined]
      apply Text.splitWhere_joinWith
      · simp [hne]
      · intro piece hpiece
        rcases List.mem_append.1 hpiece with hpiece | hpiece
        · exact slash_not_mem_map_segment hfront piece hpiece
        · exact slash_not_mem_of_mem_segments hpiece
    obtain ⟨first, rest, rfl, hfirst, hrest⟩ := List.map_eq_append_iff.1 hpieces
    have hsame : first = front := by
      rw [← filterMap_ofSegment? hfront, ← hfirst,
        filterMap_ofSegment? fun c hc => hcs c (List.mem_append_left rest hc)]
    refine ⟨rest, ?_, by rw [hsame], ?_⟩
    · rintro rfl
      exact segments_ne_nil s hrest.symm
    · unfold written
      rw [hrest, joinWith_segments]
  · rintro ⟨rest, hrest, rfl, rfl⟩
    exact written_append hne hrest

theorem filter_current_eq_self {cs : List Component} (h : ∀ c ∈ cs, c.IsStep) :
    cs.filter (· != .current) = cs := by
  rw [List.filter_eq_self]
  intro c hc
  rcases h c hc with rfl | hname
  · rfl
  · cases c with
    | name text => rfl
    | root | current | parent => exact hname.elim

theorem toSlash_ofComponents {cs : List Component} (h : ∀ c ∈ cs, c.IsStep) :
    (ofComponents cs).toSlash = String.ofList (written cs) := by
  unfold toSlash
  rw [components_ofComponents h, filter_current_eq_self h]
  rfl

/-! ## Reading an absolute path -/

theorem mem_of_mem_splitWhere {sep : Char → Bool} {s piece : List Char} {c : Char}
    (hpiece : piece ∈ Text.splitWhere sep s) (hc : c ∈ piece) : c ∈ s := by
  induction s generalizing piece with
  | nil =>
      rw [Text.splitWhere, List.mem_singleton] at hpiece
      rwa [hpiece] at hc
  | cons d rest ih =>
      rw [Text.splitWhere] at hpiece
      split at hpiece
      · rcases List.mem_cons.1 hpiece with rfl | hpiece
        · cases hc
        · exact List.mem_cons_of_mem d (ih hpiece hc)
      · split at hpiece
        · next hnil => exact absurd hnil (Text.splitWhere_ne_nil sep rest)
        · next first others hsplit =>
            rw [hsplit] at ih
            rcases List.mem_cons.1 hpiece with rfl | hpiece
            · rcases List.mem_cons.1 hc with rfl | hc
              · exact List.mem_cons_self
              · exact List.mem_cons_of_mem d (ih List.mem_cons_self hc)
            · exact List.mem_cons_of_mem d (ih (List.mem_cons_of_mem _ hpiece) hc)

theorem components_of_isAbsolute {p : Path} (h : p.isAbsolute = true) :
    ∃ cs, p.components = .root :: cs ∧
      ∀ c ∈ cs, c.IsStep ∧ ∀ d ∈ c.segment, d ∈ p.toList := by
  obtain ⟨s, hs⟩ : ∃ s, p.toList = '/' :: s := by
    unfold isAbsolute at h
    cases htext : p.toList with
    | nil => simp [htext] at h
    | cons c s => exact ⟨s, by simpa [htext] using h⟩
  refine ⟨(segments s).filterMap ofSegment?, ?_, ?_⟩
  · unfold components
    rw [hs]
    rfl
  · intro c hc
    obtain ⟨piece, hpiece, hread⟩ := List.mem_filterMap.1 hc
    obtain ⟨hstep, hsegment⟩ :=
      isStep_of_ofSegment? (slash_not_mem_of_mem_segments hpiece) hread
    refine ⟨hstep, ?_⟩
    intro d hd
    rw [hsegment] at hd
    rw [hs]
    exact List.mem_cons_of_mem _ (mem_of_mem_splitWhere hpiece hd)

/-! ## Normal forms -/

theorem pushNormal_name (done : List Component) (text : String) :
    pushNormal done (.name text) = .name text :: done := rfl

theorem foldl_pushNormal_names {names : List Component} (h : ∀ c ∈ names, c.IsName)
    (done : List Component) : names.foldl pushNormal done = names.reverse ++ done := by
  induction names generalizing done with
  | nil => rfl
  | cons c rest ih =>
      have hc : c.IsName := h c List.mem_cons_self
      have hpush : pushNormal done c = c :: done := by
        cases c with
        | name text => rfl
        | root | current | parent => exact hc.elim
      rw [List.foldl_cons, hpush, ih fun d hd => h d (List.mem_cons_of_mem c hd)]
      simp

theorem foldl_pushNormal_root {cs : List Component} (h : ∀ c ∈ cs, c.IsStep)
    {done : List Component} (hdone : ∀ c ∈ done, c.IsName) :
    ∃ names, cs.foldl pushNormal (done ++ [.root]) = names ++ [.root] ∧
      ∀ c ∈ names, c.IsName ∧ (c ∈ done ∨ c ∈ cs) := by
  induction cs generalizing done with
  | nil => exact ⟨done, rfl, fun c hc => ⟨hdone c hc, .inl hc⟩⟩
  | cons c rest ih =>
      have hrest : ∀ d ∈ rest, d.IsStep := fun d hd => h d (List.mem_cons_of_mem c hd)
      obtain ⟨next, hnext, hnames⟩ : ∃ next, pushNormal (done ++ [.root]) c = next ++ [.root] ∧
          ∀ d ∈ next, d.IsName ∧ (d ∈ done ∨ d = c) := by
        rcases h c List.mem_cons_self with rfl | hc
        · cases done with
          | nil => exact ⟨[], rfl, by simp⟩
          | cons top below =>
              have htop := hdone top List.mem_cons_self
              cases top with
              | name text =>
                  refine ⟨below, rfl, ?_⟩
                  intro d hd
                  have hd := List.mem_cons_of_mem (.name text) hd
                  exact ⟨hdone d hd, .inl hd⟩
              | root | current | parent => exact htop.elim
        · refine ⟨c :: done, ?_, ?_⟩
          · have hone : ∀ d ∈ [c], d.IsName := by simpa using hc
            exact foldl_pushNormal_names hone _
          · intro d hd
            rcases List.mem_cons.1 hd with rfl | hd
            · exact ⟨hc, .inr rfl⟩
            · exact ⟨hdone d hd, .inl hd⟩
      obtain ⟨names, hfold, hall⟩ := ih hrest fun d hd => (hnames d hd).1
      refine ⟨names, by rw [List.foldl_cons, hnext, hfold], ?_⟩
      intro d hd
      obtain ⟨hname, hd | hd⟩ := hall d hd
      · rcases (hnames d hd).2 with hold | rfl
        · exact ⟨hname, .inl hold⟩
        · exact ⟨hname, .inr List.mem_cons_self⟩
      · exact ⟨hname, .inr (List.mem_cons_of_mem c hd)⟩

theorem normal_of_isAbsolute {p : Path} (h : p.isAbsolute = true) :
    ∃ names, p.normal = .root :: names ∧
      ∀ c ∈ names, c.IsName ∧ ∀ d ∈ c.segment, d ∈ p.toList := by
  obtain ⟨cs, hcs, hsteps⟩ := components_of_isAbsolute h
  have hnone : ∀ c ∈ ([] : List Component), c.IsName := by simp
  obtain ⟨names, hfold, hnames⟩ := foldl_pushNormal_root (fun c hc => (hsteps c hc).1) hnone
  refine ⟨names.reverse, ?_, ?_⟩
  · unfold normal normalComponents
    rw [hcs, List.foldl_cons]
    have hroot : pushNormal [] .root = [] ++ [.root] := rfl
    rw [hroot, hfold]
    simp
  · intro c hc
    obtain ⟨hname, hmem⟩ := hnames c (List.mem_reverse.1 hc)
    rcases hmem with hmem | hmem
    · cases hmem
    · exact ⟨hname, (hsteps c hmem).2⟩

theorem normal_ofComponents_root {names : List Component} (h : ∀ c ∈ names, c.IsName) :
    (ofComponents (.root :: names)).normal = .root :: names := by
  unfold normal normalComponents
  rw [components_ofComponents_root fun c hc => (h c hc).isStep, List.foldl_cons,
    foldl_pushNormal_names h]
  simp [pushNormal]

theorem normal_ofComponents_way (k : Nat) {names : List Component} (h : ∀ c ∈ names, c.IsName) :
    (ofComponents (List.replicate k .parent ++ names)).normal =
      List.replicate k .parent ++ names := by
  have hups (n : Nat) : (List.replicate k Component.parent).foldl pushNormal
      (List.replicate n .parent) = List.replicate (n + k) .parent := by
    induction k generalizing n with
    | zero => rfl
    | succ k ih =>
        have hpush : pushNormal (List.replicate n .parent) .parent =
            List.replicate (n + 1) .parent := by
          cases n <;> rfl
        rw [List.replicate_succ, List.foldl_cons, hpush, ih]
        congr 1
        omega
  have hsteps : ∀ c ∈ List.replicate k Component.parent ++ names, c.IsStep := by
    intro c hc
    rcases List.mem_append.1 hc with hc | hc
    · exact .inl (List.eq_of_mem_replicate hc)
    · exact (h c hc).isStep
  unfold normal normalComponents
  rw [components_ofComponents hsteps, List.foldl_append]
  have hstart := hups 0
  rw [List.replicate_zero] at hstart
  rw [hstart, foldl_pushNormal_names h]
  simp

/-! ## Absolute paths -/

theorem isAbsolute_ofComponents_root (cs : List Component) :
    (ofComponents (.root :: cs)).isAbsolute = true := by
  rw [ofComponents_root]
  simp [isAbsolute, ofList, toList]

theorem isAbsolute_normalize {p : Path} (h : p.isAbsolute = true) :
    p.normalize.isAbsolute = true := by
  obtain ⟨names, hnormal, -⟩ := normal_of_isAbsolute h
  unfold normalize
  rw [hnormal]
  exact isAbsolute_ofComponents_root names

theorem isAbsolute_join {base : Path} (h : base.isAbsolute = true) (p : Path) :
    (base.join p).isAbsolute = true := by
  unfold join
  split
  · next habsolute => exact habsolute
  · have hstart (s : List Char) : (ofList (base.toList ++ s)).isAbsolute = true := by
      unfold isAbsolute at h ⊢
      simp only [beq_iff_eq] at h ⊢
      simp [ofList, toList] at h ⊢
      simp [h]
    split
    · exact hstart p.toList
    · exact hstart ('/' :: p.toList)

theorem isAbsolute_resolve {base : Path} (h : base.isAbsolute = true) (text : String) :
    (base.resolve text).isAbsolute = true :=
  isAbsolute_normalize (isAbsolute_join h (ofDocument text))

theorem mem_toList_ofComponents_root {cs : List Component} {d : Char}
    (h : d ∈ (ofComponents (.root :: cs)).toList) : d = '/' ∨ ∃ c ∈ cs, d ∈ c.segment := by
  rw [ofComponents_root, toList, ofList, String.toList_ofList] at h
  rcases List.mem_cons.1 h with h | h
  · exact .inl h
  · exact mem_written h

end Path

end SolutionPlan
