import SolutionPlan.Proofs.Path.Relative

/-!
# Normal paths

An absolute path has the normal form of a root and names, any other one goes up some steps and then
down into names. Either form is read back as it is written, so a path that is normalized stays as
it is when that is done again.
-/

namespace SolutionPlan.Path

open Component

/-- Steps that start from no root leave some steps up below the names. -/
theorem foldl_pushNormal_way {cs : List Component} (h : ∀ c ∈ cs, c.IsStep)
    {done : List Component} (hdone : ∀ c ∈ done, c.IsName) (k : Nat) :
    ∃ n names, cs.foldl pushNormal (done ++ List.replicate k .parent) =
      names ++ List.replicate n .parent ∧ ∀ c ∈ names, c.IsName := by
  induction cs generalizing done k with
  | nil => exact ⟨k, done, rfl, hdone⟩
  | cons c rest ih =>
      have hrest : ∀ d ∈ rest, d.IsStep := fun d hd => h d (List.mem_cons_of_mem c hd)
      rcases h c List.mem_cons_self with rfl | hc
      · cases done with
        | nil =>
            have hup : pushNormal (List.replicate k .parent) .parent =
                List.replicate (k + 1) .parent := by
              cases k <;> rfl
            have hnone : ∀ d ∈ ([] : List Component), d.IsName := by simp
            obtain ⟨n, names, hfold, hnames⟩ := ih hrest hnone (k + 1)
            refine ⟨n, names, ?_, hnames⟩
            rw [List.foldl_cons, List.nil_append, hup]
            exact hfold
        | cons top below =>
            have htop := hdone top List.mem_cons_self
            cases top with
            | name text => exact ih hrest (fun d hd => hdone d (List.mem_cons_of_mem _ hd)) k
            | root | current | parent => exact htop.elim
      · have hpush : pushNormal (done ++ List.replicate k .parent) c =
            (c :: done) ++ List.replicate k .parent := by
          cases c with
          | name text => rfl
          | root | current | parent => exact hc.elim
        rw [List.foldl_cons, hpush]
        apply ih hrest
        intro d hd
        rcases List.mem_cons.1 hd with rfl | hd
        · exact hc
        · exact hdone d hd

theorem components_of_not_isAbsolute {p : Path} (h : p.isAbsolute = false) :
    ∃ cs, (p.components = cs ∨ p.components = .current :: cs) ∧ ∀ c ∈ cs, c.IsStep := by
  have hsteps (all : List (List Char)) (hall : ∀ s ∈ all, '/' ∉ s) :
      ∀ c ∈ all.filterMap ofSegment?, c.IsStep := by
    intro c hc
    obtain ⟨piece, hpiece, hread⟩ := List.mem_filterMap.1 hc
    exact (isStep_of_ofSegment? (hall piece hpiece) hread).1
  have hsegments : ∀ s ∈ segments p.toList, '/' ∉ s := fun s => slash_not_mem_of_mem_segments
  unfold components
  split
  · next s hs =>
      unfold isAbsolute at h
      simp [hs] at h
  · split
    · next rest hrest =>
        rw [hrest] at hsegments
        have hlater : ∀ s ∈ rest, '/' ∉ s := fun s hs =>
          hsegments s (List.mem_cons_of_mem _ hs)
        exact ⟨_, .inr rfl, hsteps rest hlater⟩
    · exact ⟨_, .inl rfl, hsteps _ hsegments⟩

theorem fileName?_of_components {p : Path} {front : List Component} {text : String}
    (h : p.components = front ++ [.name text]) : p.fileName? = some text := by
  unfold fileName?
  simp [h]

theorem isName_of_fileName? {p : Path} {text : String} (h : p.fileName? = some text) :
    (name text).IsName := by
  have hmem : name text ∈ p.components := by
    obtain ⟨q, -, hcomponents⟩ := exists_parent? h
    simp [hcomponents]
  have hstep : (name text).IsStep := by
    cases habsolute : p.isAbsolute with
    | true =>
        obtain ⟨cs, hcs, hsteps⟩ := components_of_isAbsolute habsolute
        rw [hcs] at hmem
        exact (hsteps _ (by simpa using hmem)).1
    | false =>
        obtain ⟨cs, hcs | hcs, hsteps⟩ := components_of_not_isAbsolute habsolute
        · exact hsteps _ (hcs ▸ hmem)
        · rw [hcs] at hmem
          exact hsteps _ (by simpa using hmem)
  exact hstep.resolve_left nofun

theorem isWay_normal {p : Path} (h : p.isAbsolute = false) : IsWay p.normal := by
  obtain ⟨cs, hcs, hsteps⟩ := components_of_not_isAbsolute h
  have hnone : ∀ c ∈ ([] : List Component), c.IsName := by simp
  obtain ⟨n, names, hfold, hnames⟩ := foldl_pushNormal_way hsteps hnone 0
  have hnormal : p.normal = (names ++ List.replicate n Component.parent).reverse := by
    unfold normal normalComponents
    rw [← hfold]
    rcases hcs with hcs | hcs
    · rw [hcs]
      rfl
    · rw [hcs]
      rfl
  refine ⟨n, names.reverse, ?_, ?_⟩
  · rw [hnormal, List.reverse_append, List.reverse_replicate]
  · exact fun c hc => hnames c (List.mem_reverse.1 hc)

theorem normal_normalize (p : Path) : p.normalize.normal = p.normal := by
  unfold normalize
  cases h : p.isAbsolute with
  | true =>
      obtain ⟨names, hnormal, hnames⟩ := normal_of_isAbsolute h
      rw [hnormal]
      exact normal_ofComponents_root fun c hc => (hnames c hc).1
  | false => exact (isWay_normal h).normal

theorem normalize_normalize (p : Path) : p.normalize.normalize = p.normalize := by
  unfold normalize
  congr 1
  exact normal_normalize p

theorem normalize_eq_iff {p q : Path} : p.normalize = q.normalize ↔ p.normal = q.normal := by
  constructor
  · intro h
    rw [← normal_normalize p, h, normal_normalize]
  · intro h
    unfold normalize
    rw [h]

theorem components_normalize (p : Path) : p.normalize.components = p.normal := by
  unfold normalize
  cases h : p.isAbsolute with
  | true =>
      obtain ⟨names, hnormal, hnames⟩ := normal_of_isAbsolute h
      rw [hnormal]
      exact components_ofComponents_root fun c hc => (hnames c hc).1.isStep
  | false => exact components_ofComponents (isWay_normal h).isStep

theorem normalComponents_normal (p : Path) : normalComponents p.normal = p.normal := by
  have h := normal_normalize p
  unfold normal at h
  rwa [components_normalize] at h

theorem normalize_resolve (base : Path) (text : String) :
    (base.resolve text).normalize = base.resolve text :=
  normalize_normalize (base.join (ofDocument text))

theorem eq_of_normal_eq {p q : Path} (hp : p.normalize = p) (hq : q.normalize = q)
    (h : p.normal = q.normal) : p = q := by
  rw [← hp, ← hq]
  unfold normalize
  rw [h]

end SolutionPlan.Path
