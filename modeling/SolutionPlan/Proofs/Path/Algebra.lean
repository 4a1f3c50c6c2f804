import SolutionPlan.Proofs.Path.Slash

/-!
# The algebra of paths

Normalizing gives the one text that is written without needless parts, and joining may come before
or after it. So a chain of texts can be resolved one by one or joined first and resolved at once.
The relative path from a base to an absolute path is what joining it to the base undoes.
-/

namespace SolutionPlan.Path

open Component

/-! ## Normal texts -/

/-- Written without needless parts: a root or some steps up, and then names, with single slashes
between them. -/
def IsNormal (p : Path) : Prop :=
  ∃ k names, (∀ c ∈ names, c.IsName) ∧ (p.isAbsolute = true → k = 0) ∧
    p.toList = (if p.isAbsolute = true then ['/'] else []) ++
      written (List.replicate k .parent ++ names)

variable {p base : Path}

theorem isAbsolute_normalize_eq (p : Path) : p.normalize.isAbsolute = p.isAbsolute := by
  cases h : p.isAbsolute with
  | true => exact isAbsolute_normalize h
  | false => exact (steps_of_isWay (isWay_normal h)).1

theorem isNormal_normalize (p : Path) : p.normalize.IsNormal := by
  unfold IsNormal
  rw [isAbsolute_normalize_eq]
  cases h : p.isAbsolute with
  | true =>
      obtain ⟨names, hnormal, hnames⟩ := normal_of_isAbsolute h
      refine ⟨0, names, fun c hc => (hnames c hc).1, fun _ => rfl, ?_⟩
      unfold normalize
      rw [hnormal, ofComponents_root]
      exact String.toList_ofList
  | false =>
      have hway := isWay_normal h
      obtain ⟨k, names, hnormal, hnames⟩ := isWay_normal h
      refine ⟨k, names, hnames, nofun, ?_⟩
      unfold normalize
      rw [ofComponents_eq hway.isStep, hnormal]
      exact String.toList_ofList

theorem IsNormal.normalize_eq (h : p.IsNormal) : p.normalize = p := by
  obtain ⟨k, names, hnames, hup, htext⟩ := h
  have hself : p = ofList p.toList := by simp [ofList, toList]
  cases habsolute : p.isAbsolute with
  | true =>
      obtain rfl := hup habsolute
      have hp : p = ofComponents (.root :: names) := by
        rw [hself, htext, habsolute, ofComponents_root]
        rfl
      rw [hp]
      exact (canonical_ofComponents hnames).normalized
  | false =>
      have hway : IsWay (List.replicate k .parent ++ names) := ⟨k, names, rfl, hnames⟩
      have hp : p = ofComponents (List.replicate k .parent ++ names) := by
        rw [hself, htext, habsolute, ofComponents_eq hway.isStep]
        rfl
      unfold normalize
      rw [hp, hway.normal]

theorem normalize_eq_self_iff : p.normalize = p ↔ p.IsNormal :=
  ⟨fun h => h ▸ isNormal_normalize p, IsNormal.normalize_eq⟩

/-! ## Joining and normalizing -/

/-- Going on along steps is going on along what is left of them after normalizing. -/
theorem foldl_pushNormal_normalComponents {cs : List Component} (h : ∀ c ∈ cs, c.IsStep)
    (done : List Component) :
    (normalComponents cs).foldl pushNormal done = cs.foldl pushNormal done := by
  induction cs using List.reverseRecOn with
  | nil => rfl
  | append_singleton cs c ih =>
      have hcs : ∀ d ∈ cs, d.IsStep := fun d hd => h d (List.mem_append_left [c] hd)
      have hnone : ∀ d ∈ ([] : List Component), d.IsName := by simp
      obtain ⟨n, names, hfold, hnames⟩ := foldl_pushNormal_way hcs hnone 0
      rw [List.nil_append, List.replicate_zero] at hfold
      have hlater := ih hcs
      unfold normalComponents at hlater ⊢
      rw [List.foldl_concat, List.foldl_concat, ← hlater, hfold]
      rcases h c (by simp) with rfl | hc
      · cases names with
        | nil => cases n <;> simp [pushNormal, List.replicate_succ]
        | cons top below =>
            cases top with
            | name text => simp [pushNormal]
            | root | current | parent => exact (hnames _ List.mem_cons_self).elim
      · cases c with
        | name text => simp only [pushNormal_name, List.reverse_cons, List.foldl_concat]
        | root | current | parent => exact hc.elim

theorem normal_normalize_join (p q : Path) : (p.normalize.join q).normal = (p.join q).normal := by
  cases h : q.isAbsolute with
  | true => rw [join_of_isAbsolute h, join_of_isAbsolute h]
  | false => rw [normal_join h, normal_join h, normal_normalize]

theorem normal_join_normalize (p q : Path) : (p.join q.normalize).normal = (p.join q).normal := by
  have hsame := isAbsolute_normalize_eq q
  cases h : q.isAbsolute with
  | true => rw [join_of_isAbsolute h, join_of_isAbsolute (hsame.trans h), normal_normalize]
  | false =>
      have hsteps : q.normalize.steps = normalComponents q.steps := by
        have hnormal := normal_eq_steps q
        rw [h] at hnormal
        exact (steps_of_isWay (isWay_normal h)).2.trans hnormal
      rw [normal_join h, normal_join (hsame.trans h), hsteps,
        foldl_pushNormal_normalComponents isStep_of_mem_steps]

theorem normal_join_assoc (p q r : Path) :
    ((p.join q).join r).normal = (p.join (q.join r)).normal := by
  cases hr : r.isAbsolute with
  | true => simp only [join_of_isAbsolute hr]
  | false =>
      have hsame : (q.join r).isAbsolute = q.isAbsolute := isAbsolute_join_eq hr
      cases hq : q.isAbsolute with
      | true => rw [join_of_isAbsolute hq, join_of_isAbsolute (hsame.trans hq)]
      | false =>
          rw [normal_join hr, normal_join hq, normal_join (hsame.trans hq), steps_join hr,
            List.foldl_append, List.reverse_reverse]

theorem normal_join_empty (p : Path) : (p.join empty).normal = p.normal := by
  have hrelative : empty.isAbsolute = false := rfl
  rw [normal_join hrelative]
  exact List.reverse_reverse p.normal

/-- Texts that are resolved in each other's directories lead where the joined texts lead. -/
theorem normal_foldl_resolve (base : Path) (texts : List String) :
    (texts.foldl resolve base).normal =
      (base.join (texts.foldl (fun p text => p.join (ofDocument text)) empty)).normal := by
  induction texts using List.reverseRecOn with
  | nil => exact (normal_join_empty base).symm
  | append_singleton texts text ih =>
      rw [List.foldl_concat, List.foldl_concat, ← normal_join_assoc, ← normal_normalize_join]
      rw [← normalize_eq_iff] at ih
      unfold resolve at ih ⊢
      rw [normal_normalize, ← ih, normal_normalize_join]

/--
Normalizing keeps whether a path is absolute and gives a text without needless parts, which is kept
when it is normalized again; no other text is kept. Normalizing either of two paths before they are
joined changes nothing about the normal form of the whole. So a chain of document texts that are
resolved one by one, each in the directory found so far, leads where the joined texts lead at once.
-/
theorem normalize_compositional (p q : Path) (texts : List String) :
    (p.normalize.isAbsolute = p.isAbsolute ∧ p.normalize.IsNormal ∧
        p.normalize.normalize = p.normalize ∧ (p.normalize = p ↔ p.IsNormal)) ∧
      ((p.join q).normalize = (p.normalize.join q).normalize ∧
        (p.join q).normalize = (p.join q.normalize).normalize) ∧
      (texts.foldl resolve p).normalize =
        (p.join (texts.foldl (fun r text => r.join (ofDocument text)) empty)).normalize := by
  refine ⟨⟨isAbsolute_normalize_eq p, isNormal_normalize p, normalize_normalize p,
    normalize_eq_self_iff⟩, ⟨?_, ?_⟩, ?_⟩
  · exact normalize_eq_iff.2 (normal_normalize_join p q).symm
  · exact normalize_eq_iff.2 (normal_join_normalize p q).symm
  · exact normalize_eq_iff.2 (normal_foldl_resolve p texts)

/-- The last texts climb past the first one and past the root, and one of them starts anew. -/
example :
    (["src\\..\\..\\lib", "/abs/./x", "../../../y"].foldl resolve ⟨"work/sln"⟩).text = "/y" := by
  decide +kernel

/-! ## Relating and joining -/

theorem relativeTo_eq (p base : Path) : p.relativeTo base = ofComponents (way base p) := rfl

section Relative

variable (hp : p.isAbsolute = true) (hbase : base.isAbsolute = true)

include hp hbase

theorem components_relativeTo : (p.relativeTo base).components = way base p :=
  components_ofComponents (isWay_way hp hbase).isStep

theorem normal_join_relativeTo : (base.join (p.relativeTo base)).normal = p.normal := by
  obtain ⟨hrelative, hsteps⟩ := steps_of_isWay (isWay_way hp hbase)
  rw [relativeTo_eq, normal_join hrelative, hsteps, foldl_way hbase hp, List.reverse_reverse]

theorem relativeTo_eq_empty_iff : p.relativeTo base = empty ↔ p.normal = base.normal := by
  rw [← way_eq_nil_iff]
  constructor
  · intro h
    rw [← components_relativeTo hp hbase, h]
    rfl
  · intro h
    rw [relativeTo_eq, h]
    rfl

theorem head?_way_eq_parent_iff :
    (way base p).head? = some .parent ↔ ¬ base.normal <+: p.normal := by
  constructor
  · rintro hhead ⟨rest, hrest⟩
    rw [way_of_normal_append hrest.symm] at hhead
    have hmem : Component.parent ∈ rest := List.mem_of_head? hhead
    exact isName_of_normal_append hp hbase hrest.symm _ hmem
  · intro hprefix
    cases hway : way base p with
    | nil =>
        rw [way_eq_nil_iff] at hway
        exact absurd (hway ▸ List.prefix_rfl) hprefix
    | cons c rest =>
        by_cases hc : c = .parent
        · rw [hc]
          rfl
        · have hnormal := normal_of_way_eq_cons hp hbase hway hc
          exact absurd (hnormal ▸ List.prefix_append _ _) hprefix

/--
The relative path from a base to an absolute path leads back to that path when it is joined to the
base. It is not absolute itself and is written in its normal form: it is empty exactly if both paths
have the same normal form, and it starts with a step up exactly if the path is neither the base nor
below it.
-/
theorem relativeTo_inverts_join :
    (base.join (p.relativeTo base)).normalize = p.normalize ∧
      (p.relativeTo base).isAbsolute = false ∧
      (p.relativeTo base).normalize = p.relativeTo base ∧
      (p.relativeTo base = empty ↔ p.normalize = base.normalize) ∧
      ((p.relativeTo base).components.head? = some .parent ↔
        ¬ (p.normalize = base.normalize ∨ p.Below base)) := by
  have hway := isWay_way hp hbase
  refine ⟨?_, (steps_of_isWay hway).1, ?_, ?_, ?_⟩
  · exact normalize_eq_iff.2 (normal_join_relativeTo hp hbase)
  · exact congrArg ofComponents hway.normal
  · rw [relativeTo_eq_empty_iff hp hbase, normalize_eq_iff]
  · rw [components_relativeTo hp hbase, head?_way_eq_parent_iff hp hbase, normalize_eq_iff,
      below_iff]
    by_cases hsame : p.normal = base.normal
    · simp [hsame]
    · simp [hsame, Ne.symm hsame]

end Relative

theorem relativeTo_inverts_join_climbing :
    let p : Path := ⟨"/../work/./lib/x.h"⟩
    let base : Path := ⟨"/work/src/"⟩
    p.isAbsolute = true ∧ base.isAbsolute = true ∧ p.relativeTo base = ⟨"../lib/x.h"⟩ ∧
      (base.join (p.relativeTo base)).normalize = p.normalize ∧
      ¬ (p.normalize = base.normalize ∨ p.Below base) := by
  intro p base
  have hp : p.isAbsolute = true := by decide
  have hbase : base.isAbsolute = true := by decide
  have hway : p.relativeTo base = ⟨"../lib/x.h"⟩ := by decide +kernel
  obtain ⟨hjoin, -, -, -, hup⟩ := relativeTo_inverts_join hp hbase
  refine ⟨hp, hbase, hway, hjoin, hup.1 ?_⟩
  rw [hway]
  decide +kernel

end SolutionPlan.Path
