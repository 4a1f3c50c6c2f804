import SolutionPlan.Proofs.Path.Components

/-!
# Relative paths

The way from one absolute path to another goes up and then down into names. What lies below a
directory is reached by going to the directory first, unless the start itself lies below it.
-/

namespace SolutionPlan.Path

open Component

def way (base p : Path) : List Component := relativeComponents p.normal base.normal

def Below (p directory : Path) : Prop :=
  ∃ rest, rest ≠ [] ∧ p.normal = directory.normal ++ rest

theorem below_iff {p directory : Path} :
    p.Below directory ↔ directory.normal <+: p.normal ∧ directory.normal ≠ p.normal := by
  constructor
  · rintro ⟨rest, hrest, hp⟩
    refine ⟨⟨rest, hp.symm⟩, ?_⟩
    intro hsame
    rw [← hsame] at hp
    exact hrest (List.self_eq_append_right.1 hp)
  · rintro ⟨⟨rest, hrest⟩, hne⟩
    refine ⟨rest, ?_, hrest.symm⟩
    rintro rfl
    exact hne (by rw [← hrest, List.append_nil])

instance (p directory : Path) : Decidable (p.Below directory) :=
  decidable_of_iff' _ below_iff

/-- Up some steps and then down into names. -/
def IsWay (cs : List Component) : Prop :=
  ∃ k names, cs = List.replicate k .parent ++ names ∧ ∀ c ∈ names, c.IsName

theorem IsWay.isStep {cs : List Component} (h : IsWay cs) : ∀ c ∈ cs, c.IsStep := by
  obtain ⟨k, names, rfl, hnames⟩ := h
  intro c hc
  rcases List.mem_append.1 hc with hc | hc
  · exact .inl (List.eq_of_mem_replicate hc)
  · exact (hnames c hc).isStep

theorem IsWay.normal {cs : List Component} (h : IsWay cs) : (ofComponents cs).normal = cs := by
  obtain ⟨k, names, rfl, hnames⟩ := h
  exact normal_ofComponents_way k hnames

theorem IsWay.append {cs names : List Component} (h : IsWay cs) (hnames : ∀ c ∈ names, c.IsName) :
    IsWay (cs ++ names) := by
  obtain ⟨k, first, rfl, hfirst⟩ := h
  refine ⟨k, first ++ names, by rw [List.append_assoc], ?_⟩
  intro c hc
  rcases List.mem_append.1 hc with hc | hc
  · exact hfirst c hc
  · exact hnames c hc

/-! ## Relating lists of components -/

theorem relativeComponents_nil (cs : List Component) : relativeComponents cs [] = cs := by
  cases cs <;> rfl

theorem relativeComponents_append_self (d rest : List Component) :
    relativeComponents (d ++ rest) d = rest := by
  induction d with
  | nil => exact relativeComponents_nil rest
  | cons c d ih => simpa [relativeComponents] using ih

theorem relativeComponents_self (d : List Component) : relativeComponents d d = [] := by
  have h := relativeComponents_append_self d []
  rwa [List.append_nil] at h

/-- Below a directory the way goes on behind the way to that directory, if it has to go there. -/
theorem relativeComponents_append {d r : List Component} (h : ¬ d <+: r) (rest : List Component) :
    relativeComponents (d ++ rest) r = relativeComponents d r ++ rest := by
  induction d generalizing r with
  | nil => exact absurd List.nil_prefix h
  | cons c d ih =>
      cases r with
      | nil => rfl
      | cons e r =>
          simp only [List.cons_append, relativeComponents]
          by_cases hce : c = e
          · rw [if_pos hce, if_pos hce]
            apply ih
            intro hprefix
            exact h (hce ▸ List.cons_prefix_cons.2 ⟨rfl, hprefix⟩)
          · rw [if_neg hce, if_neg hce]
            by_cases hroot : c = .root
            · rw [if_pos hroot, if_pos hroot, List.cons_append]
            · rw [if_neg hroot, if_neg hroot, List.append_assoc, List.cons_append]

/-- Lists of names part behind what they share: the way goes up from the rest of the one list and
down along the rest of the other. -/
theorem exists_relativeComponents {a : List Component} (ha : ∀ c ∈ a, c.IsName)
    (b : List Component) :
    ∃ shared up down, b = shared ++ up ∧ a = shared ++ down ∧
      relativeComponents a b = List.replicate up.length .parent ++ down := by
  induction a generalizing b with
  | nil =>
      refine ⟨[], b, [], rfl, rfl, ?_⟩
      cases b <;> simp [relativeComponents, List.map_const', List.replicate_succ]
  | cons c a ih =>
      cases b with
      | nil => exact ⟨[], [], c :: a, rfl, rfl, by simp [relativeComponents]⟩
      | cons e b =>
          unfold relativeComponents
          split
          · next hce =>
              obtain ⟨shared, up, down, rfl, rfl, hway⟩ :=
                ih (fun d hd => ha d (List.mem_cons_of_mem c hd)) b
              exact ⟨c :: shared, up, down, by rw [hce]; rfl, rfl, hway⟩
          · split
            · next hroot => exact absurd (ha c List.mem_cons_self) (by rw [hroot]; exact id)
            · exact ⟨[], e :: b, c :: a, rfl, rfl, by rw [List.map_const']⟩

theorem isWay_relativeComponents {a b : List Component} (ha : ∀ c ∈ a, c.IsName) :
    IsWay (relativeComponents a b) := by
  obtain ⟨shared, up, down, -, rfl, hway⟩ := exists_relativeComponents ha b
  exact ⟨up.length, down, hway, fun c hc => ha c (List.mem_append_right shared hc)⟩

theorem mem_relativeComponents {a b : List Component} {c : Component}
    (h : c ∈ relativeComponents a b) : c = .parent ∨ c ∈ a := by
  induction a generalizing b with
  | nil =>
      cases b with
      | nil => cases h
      | cons e b =>
          obtain ⟨-, -, rfl⟩ := List.mem_map.1 h
          exact .inl rfl
  | cons d a ih =>
      cases b with
      | nil => exact .inr h
      | cons e b =>
          unfold relativeComponents at h
          split at h
          · exact (ih h).imp id (List.mem_cons_of_mem d)
          · split at h
            · exact .inr h
            · rcases List.mem_append.1 h with h | h
              · obtain ⟨-, -, rfl⟩ := List.mem_map.1 h
                exact .inl rfl
              · exact .inr h

theorem eq_of_relativeComponents_eq_nil {a b : List Component}
    (h : relativeComponents a b = []) : a = b := by
  induction a generalizing b with
  | nil =>
      cases b with
      | nil => rfl
      | cons e b => simp [relativeComponents] at h
  | cons c a ih =>
      cases b with
      | nil => simp [relativeComponents] at h
      | cons e b =>
          unfold relativeComponents at h
          split at h
          · next hce => rw [hce, ih h]
          · split at h <;> simp at h

/-! ### A base below the directory

The way from such a base meets the way to what lies below the directory at their first common child,
so it does not lead through the directory. -/

theorem relativeComponents_append_append (d p r : List Component) :
    relativeComponents (d ++ p) (d ++ r) = relativeComponents p r := by
  induction d with
  | nil => rfl
  | cons c d ih => simpa [relativeComponents] using ih

theorem relativeComponents_append_right (d r : List Component) :
    relativeComponents d (d ++ r) = List.replicate r.length .parent := by
  have h := relativeComponents_append_append d [] r
  rw [List.append_nil] at h
  rw [h]
  cases r <;> simp [relativeComponents, List.map_const', List.replicate_succ]

theorem count_parent_relativeComponents {a : List Component} (ha : .parent ∉ a)
    (b : List Component) : (relativeComponents a b).count .parent ≤ b.length := by
  induction a generalizing b with
  | nil => cases b <;> simp [relativeComponents, List.map_const']
  | cons c a ih =>
      rw [List.mem_cons, not_or] at ha
      have hnone : a.count .parent = 0 := List.count_eq_zero.2 ha.2
      cases b with
      | nil => simp [relativeComponents, hnone, Ne.symm ha.1]
      | cons e b =>
          have hlater := ih ha.2 b
          unfold relativeComponents
          split
          · rw [List.length_cons]
            omega
          · split <;> simp [hnone, Ne.symm ha.1, List.map_const']

/-- Going through a directory to what lies below it is going on behind the way to that directory,
unless the base lies in or below the child through which it is reached. -/
theorem relativeComponents_append_eq_iff {d below base rest : List Component}
    (hbelow : ∀ c ∈ below, c.IsName) (hne : below ≠ []) :
    relativeComponents (d ++ below) base = relativeComponents d base ++ rest ↔
      rest = below ∧ ¬ ∃ c, d ++ [c] <+: base ∧ d ++ [c] <+: d ++ below := by
  by_cases hprefix : d <+: base
  · obtain ⟨t, rfl⟩ := hprefix
    obtain ⟨c, names, rfl⟩ := List.exists_cons_of_ne_nil hne
    have hnames : .parent ∉ names := fun h => hbelow _ (List.mem_cons_of_mem c h)
    have hroot : c ≠ .root := by
      rintro rfl
      exact hbelow _ List.mem_cons_self
    simp only [relativeComponents_append_append, relativeComponents_append_right,
      List.prefix_append_right_inj, List.singleton_prefix_iff_head?_eq_some]
    cases t with
    | nil => simp [relativeComponents_nil, eq_comm]
    | cons e t =>
        by_cases hce : c = e
        · -- At the common child the way has fewer steps up than the way to the directory.
          have hfew := count_parent_relativeComponents hnames t
          subst hce
          simp only [relativeComponents, if_true]
          constructor
          · intro h
            rw [h, List.count_append, List.count_replicate_self, List.length_cons] at hfew
            omega
          · rintro ⟨-, hshared⟩
            exact absurd ⟨c, rfl, rfl⟩ hshared
        · simp only [relativeComponents, if_neg hce, if_neg hroot, List.map_const',
            List.append_cancel_left_eq]
          simp [eq_comm, hce]
  · rw [relativeComponents_append hprefix, List.append_cancel_left_eq]
    have hnone : ¬ ∃ c, d ++ [c] <+: base ∧ d ++ [c] <+: d ++ below := by
      rintro ⟨c, hc, -⟩
      exact hprefix ((List.prefix_append d [c]).trans hc)
    exact ⟨fun h => ⟨h.symm, hnone⟩, fun h => h.1.symm⟩

/-! ## Relating absolute paths -/

theorem isWay_way {p base : Path} (hp : p.isAbsolute = true) (hbase : base.isAbsolute = true) :
    IsWay (way base p) := by
  obtain ⟨names, hnormal, hnames⟩ := normal_of_isAbsolute hp
  obtain ⟨others, hothers, -⟩ := normal_of_isAbsolute hbase
  unfold way
  rw [hnormal, hothers]
  simp only [relativeComponents, if_true]
  exact isWay_relativeComponents fun c hc => (hnames c hc).1

theorem toSlash_relativeTo {p base : Path} (hp : p.isAbsolute = true)
    (hbase : base.isAbsolute = true) :
    (p.relativeTo base).toSlash = String.ofList (written (way base p)) :=
  toSlash_ofComponents (isWay_way hp hbase).isStep

theorem mem_written_way {p base : Path} (hp : p.isAbsolute = true) {d : Char}
    (h : d ∈ written (way base p)) : d = '/' ∨ d = '.' ∨ d ∈ p.toList := by
  obtain ⟨names, hnormal, hnames⟩ := normal_of_isAbsolute hp
  rcases mem_written h with hslash | ⟨c, hc, hd⟩
  · exact .inl hslash
  · rcases mem_relativeComponents hc with rfl | hc
    · exact .inr (.inl (by simpa [Component.segment] using hd))
    · rw [hnormal] at hc
      rcases List.mem_cons.1 hc with rfl | hc
      · cases hd
      · exact .inr (.inr ((hnames c hc).2 d hd))

theorem way_eq_nil_iff {p base : Path} : way base p = [] ↔ p.normal = base.normal := by
  constructor
  · exact eq_of_relativeComponents_eq_nil
  · intro h
    unfold way
    rw [h, relativeComponents_self]

theorem way_of_normal_append {p base : Path} {rest : List Component}
    (h : p.normal = base.normal ++ rest) : way base p = rest := by
  unfold way
  rw [h, relativeComponents_append_self]

/-- From a place that is not below the directory the way leads through the directory. -/
theorem way_through {p directory base : Path} {rest : List Component}
    (h : p.normal = directory.normal ++ rest) (hbase : ¬ base.Below directory) :
    way base p = way base directory ++ rest := by
  by_cases hprefix : directory.normal <+: base.normal
  · obtain ⟨others, hothers⟩ := hprefix
    have hnil : others = [] := by
      cases others with
      | nil => rfl
      | cons c others => exact absurd ⟨c :: others, by simp, hothers.symm⟩ hbase
    rw [hnil, List.append_nil] at hothers
    rw [way_eq_nil_iff.2 hothers, way_of_normal_append (hothers ▸ h), List.nil_append]
  · unfold way
    rw [h]
    exact relativeComponents_append hprefix rest

theorem isName_of_normal_append {p directory : Path} (hp : p.isAbsolute = true)
    (hdirectory : directory.isAbsolute = true) {below : List Component}
    (h : p.normal = directory.normal ++ below) : ∀ c ∈ below, c.IsName := by
  obtain ⟨names, hnormal, hnames⟩ := normal_of_isAbsolute hp
  obtain ⟨others, hothers, -⟩ := normal_of_isAbsolute hdirectory
  rw [hnormal, hothers, List.cons_append, List.cons.injEq] at h
  intro c hc
  exact (hnames c (h.2 ▸ List.mem_append_right others hc)).1

theorem normal_of_way_eq_cons {p base : Path} (hp : p.isAbsolute = true)
    (hbase : base.isAbsolute = true) {c : Component} {rest : List Component}
    (h : way base p = c :: rest) (hc : c ≠ .parent) : p.normal = base.normal ++ c :: rest := by
  obtain ⟨names, hnormal, hnames⟩ := normal_of_isAbsolute hp
  obtain ⟨others, hothers, -⟩ := normal_of_isAbsolute hbase
  unfold way at h
  rw [hnormal, hothers] at h ⊢
  simp only [relativeComponents, if_true] at h
  obtain ⟨shared, up, down, rfl, rfl, hway⟩ :=
    exists_relativeComponents (fun c hc => (hnames c hc).1) others
  rw [hway] at h
  cases up with
  | nil =>
      rw [List.length_nil, List.replicate_zero, List.nil_append] at h
      rw [h, List.append_nil, List.cons_append]
  | cons d up => exact absurd (List.cons.inj h).1.symm hc

/-- From a base above a directory the way to the directory goes on only to what lies below it. -/
theorem way_eq_append_iff_of_below {p directory base : Path} (hp : p.isAbsolute = true)
    (hdirectory : directory.isAbsolute = true) (hbase : base.isAbsolute = true)
    (hbelow : directory.Below base) (rest : List Component) :
    way base p = way base directory ++ rest ↔ p.normal = directory.normal ++ rest := by
  obtain ⟨down, hdown, hnormal⟩ := hbelow
  obtain ⟨c, names, rfl⟩ := List.exists_cons_of_ne_nil hdown
  have hc : c ≠ .parent := by
    rintro rfl
    exact isName_of_normal_append hdirectory hbase hnormal _ List.mem_cons_self
  rw [way_of_normal_append hnormal, hnormal, List.append_assoc]
  constructor
  · intro h
    exact normal_of_way_eq_cons hp hbase h hc
  · exact way_of_normal_append

/-- Both paths are one child of the directory or lie below that child. -/
def ShareChild (directory p q : Path) : Prop :=
  ∃ c, directory.normal ++ [c] <+: p.normal ∧ directory.normal ++ [c] <+: q.normal

instance (directory p q : Path) : Decidable (ShareChild directory p q) :=
  decidable_of_iff
    (∃ c ∈ p.normal, directory.normal ++ [c] <+: p.normal ∧ directory.normal ++ [c] <+: q.normal)
    ⟨fun ⟨c, _, h⟩ => ⟨c, h⟩, fun ⟨c, h⟩ => ⟨c, h.1.subset (by simp), h⟩⟩

theorem ShareChild.below {directory p q : Path} (h : ShareChild directory p q) :
    p.Below directory := by
  obtain ⟨c, ⟨rest, hrest⟩, -⟩ := h
  exact ⟨c :: rest, List.cons_ne_nil c rest, by rw [← hrest, List.append_assoc]; rfl⟩

/-- The way to a path below a directory leads through the directory exactly if the base is not on
the same side of the directory. -/
theorem way_eq_through_iff {p directory base : Path} (hp : p.isAbsolute = true)
    (hdirectory : directory.isAbsolute = true) {below rest : List Component}
    (h : p.normal = directory.normal ++ below) (hbelow : below ≠ []) :
    way base p = way base directory ++ rest ↔
      rest = below ∧ ¬ ShareChild directory base p := by
  have hnames := isName_of_normal_append hp hdirectory h
  unfold way ShareChild
  rw [h]
  exact relativeComponents_append_eq_iff hnames hbelow

theorem exists_normalized {p : Path} (hp : p.isAbsolute = true) (hplain : '\\' ∉ p.toList)
    {rest : List Component} (hrest : ∀ c ∈ rest, c.IsName ∧ '\\' ∉ c.segment) :
    ∃ source : Path, source.isAbsolute = true ∧ source.normalize = source ∧
      '\\' ∉ source.toList ∧ source.normal = p.normal ++ rest := by
  obtain ⟨names, hnormal, hnames⟩ := normal_of_isAbsolute hp
  have hall : ∀ c ∈ names ++ rest, c.IsName ∧ '\\' ∉ c.segment := by
    intro c hc
    rcases List.mem_append.1 hc with hc | hc
    · exact ⟨(hnames c hc).1, fun hmem => hplain ((hnames c hc).2 _ hmem)⟩
    · exact hrest c hc
  have hsource := normal_ofComponents_root fun c hc => (hall c hc).1
  refine ⟨ofComponents (.root :: (names ++ rest)), isAbsolute_ofComponents_root _, ?_, ?_, ?_⟩
  · unfold normalize
    rw [hsource]
  · intro hmem
    rcases mem_toList_ofComponents_root hmem with heq | ⟨c, hc, hd⟩
    · cases heq
    · exact (hall c hc).2 hd
  · rw [hsource, hnormal, List.cons_append]

end SolutionPlan.Path
