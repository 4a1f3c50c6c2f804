import SolutionPlan.Proofs.Path.Joining

/-!
# Canonical paths

A canonical path is absolute and normal, so equal places have equal paths. Resolving a text in a
canonical directory gives a canonical path again, and so does taking the parent of a canonical path
that is not the root.
-/

namespace SolutionPlan.Path

open Component

structure Canonical (p : Path) : Prop where
  absolute : p.isAbsolute = true
  normalized : p.normalize = p

instance (p : Path) : Decidable p.Canonical :=
  decidable_of_iff (p.isAbsolute = true ∧ p.normalize = p)
    ⟨fun h => ⟨h.1, h.2⟩, fun h => ⟨h.absolute, h.normalized⟩⟩

structure Inner (p : Path) : Prop extends Canonical p where
  ne_root : p.normal ≠ [.root]

variable {p q base : Path}

theorem isAbsolute_of_normal {rest : List Component} (h : p.normal = .root :: rest) :
    p.isAbsolute = true := by
  cases hp : p.isAbsolute with
  | true => rfl
  | false =>
      have hroot : Component.root ∈ p.normal := by
        rw [h]
        exact List.mem_cons_self
      exact absurd ((isWay_normal hp).isStep .root hroot) not_isStep_root

theorem canonical_normalize (h : p.isAbsolute = true) : p.normalize.Canonical :=
  ⟨isAbsolute_normalize h, normalize_normalize p⟩

theorem canonical_resolve (h : base.isAbsolute = true) (text : String) :
    (base.resolve text).Canonical :=
  ⟨isAbsolute_resolve h text, normalize_resolve base text⟩

theorem canonical_ofComponents {names : List Component} (h : ∀ c ∈ names, c.IsName) :
    (ofComponents (.root :: names)).Canonical := by
  refine ⟨isAbsolute_ofComponents_root names, ?_⟩
  unfold normalize
  rw [normal_ofComponents_root h]

theorem ofComponents_root_injective {names others : List Component} (h : ∀ c ∈ names, c.IsName)
    (k : ∀ c ∈ others, c.IsName)
    (hsame : ofComponents (.root :: names) = ofComponents (.root :: others)) : names = others := by
  have hnormal := congrArg normal hsame
  rw [normal_ofComponents_root h, normal_ofComponents_root k] at hnormal
  exact (List.cons.inj hnormal).2

namespace Canonical

theorem exists_names (h : p.Canonical) :
    ∃ names, p.normal = .root :: names ∧ p = ofComponents (.root :: names) ∧
      ∀ c ∈ names, c.IsName := by
  obtain ⟨names, hnormal, hnames⟩ := normal_of_isAbsolute h.absolute
  refine ⟨names, hnormal, ?_, fun c hc => (hnames c hc).1⟩
  rw [← hnormal]
  exact h.normalized.symm

theorem components_eq (h : p.Canonical) : p.components = p.normal := by
  obtain ⟨names, hnormal, hp, hnames⟩ := h.exists_names
  rw [hnormal, hp]
  exact components_ofComponents_root fun c hc => (hnames c hc).isStep

end Canonical

theorem inner_normalize (h : p.isAbsolute = true) (hne : p.normal ≠ [.root]) :
    p.normalize.Inner := by
  refine ⟨canonical_normalize h, ?_⟩
  rw [normal_normalize]
  exact hne

theorem isAbsolute_of_parent? (hp : p.isAbsolute = true)
    (h : p.parent? = some q) : q.isAbsolute = true := by
  obtain ⟨s, hs⟩ := toList_of_isAbsolute hp
  unfold parent? at h
  rw [hs] at h
  obtain ⟨above, -, rfl⟩ := Option.map_eq_some_iff.1 h
  simp [isAbsolute, ofList, toList]

theorem parent?_ofComponents {names : List Component} {last : Component}
    (hnames : ∀ c ∈ names, c.IsName) (hlast : last.IsName) :
    (ofComponents (.root :: (names ++ [last]))).parent? = some (ofComponents (.root :: names)) := by
  have hsteps : ∀ c ∈ names ++ [last], c.IsStep := by
    intro c hc
    rcases List.mem_append.1 hc with hc | hc
    · exact (hnames c hc).isStep
    · obtain rfl := List.mem_singleton.1 hc
      exact hlast.isStep
  have hne : names ++ [last] ≠ [] := by simp
  have hsegments : segments (written (names ++ [last])) =
      names.map Component.segment ++ [last.segment] := by
    rw [segments_written hne hsteps, List.map_append, List.map_singleton]
  rw [ofComponents_root, ofComponents_root]
  refine parent?_eq_some ?_ hsegments ?_
  · exact String.toList_ofList
  · rw [← List.map_singleton, ← List.map_append, List.forall_mem_map]
    intro c hc
    have hsegment := (hsteps c hc).segment_ne
    simp [hsegment]

theorem Inner.parentOrEmpty (h : p.Inner) : p.parentOrEmpty.Canonical := by
  obtain ⟨names, hnormal, hp, hnames⟩ := h.exists_names
  rcases List.eq_nil_or_concat names with rfl | ⟨front, last, rfl⟩
  · exact absurd hnormal h.ne_root
  · have hfront : ∀ c ∈ front, c.IsName := fun c hc => hnames c (by simp [hc])
    have hlast : last.IsName := hnames last (by simp)
    have hparent : p.parentOrEmpty = ofComponents (.root :: front) := by
      unfold Path.parentOrEmpty
      rw [hp, List.concat_eq_append, parent?_ofComponents hfront hlast]
      rfl
    rw [hparent]
    exact canonical_ofComponents hfront

/-! ## Paths that end in a name -/

theorem ne_root_of_getLast? {name : String} (h : p.normal.getLast? = some (.name name)) :
    p.normal ≠ [.root] := by
  intro hroot
  rw [hroot] at h
  cases h

theorem getLast?_normal_of_steps {front : List Component} {name : String}
    (h : p.steps = front ++ [.name name]) : p.normal.getLast? = some (.name name) := by
  rw [normal_eq_steps, h, ← List.append_assoc]
  unfold normalComponents
  rw [List.foldl_append, List.foldl_cons, List.foldl_nil, List.getLast?_reverse]
  rfl

end SolutionPlan.Path
