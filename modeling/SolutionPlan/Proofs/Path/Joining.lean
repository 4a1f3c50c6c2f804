import SolutionPlan.Proofs.Path.Normal
import SolutionPlan.Proofs.Text.Pieces

/-!
# Joining paths

Besides its root a path is a list of steps. Joining appends steps, so the normal form of a joined
path is found by going on from the normal form of the base.
-/

namespace SolutionPlan

namespace Path

open Component

/-! ## Steps -/

def steps (p : Path) : List Component := (segments p.toList).filterMap ofSegment?

theorem steps_append_slash (s t : List Char) :
    (ofList (s ++ '/' :: t)).steps = (ofList s).steps ++ (ofList t).steps := by
  have hsegments : segments (s ++ '/' :: t) = segments s ++ segments t :=
    Text.splitWhere_append (· == '/') (beq_self_eq_true '/') s t
  simp only [steps, ofList, toList, String.toList_ofList, hsegments, List.filterMap_append]

theorem toList_of_isAbsolute {p : Path} (h : p.isAbsolute = true) : ∃ s, p.toList = '/' :: s := by
  unfold isAbsolute at h
  cases htext : p.toList with
  | nil => simp [htext] at h
  | cons c s => exact ⟨s, by simpa [htext] using h⟩

theorem isStep_of_mem_steps {p : Path} : ∀ c ∈ p.steps, c.IsStep := by
  intro c hc
  obtain ⟨piece, hpiece, hread⟩ := List.mem_filterMap.1 hc
  exact (isStep_of_ofSegment? (slash_not_mem_of_mem_segments hpiece) hread).1

theorem exists_components_eq (p : Path) : ∃ front, p.components = front ++ p.steps ∧
    if p.isAbsolute = true then front = [.root] else front = [] ∨ front = [.current] := by
  cases h : p.isAbsolute with
  | true =>
      obtain ⟨s, hs⟩ := toList_of_isAbsolute h
      refine ⟨[.root], ?_, rfl⟩
      unfold components steps segments
      rw [hs]
      rfl
  | false =>
      simp only [Bool.false_eq_true, if_false]
      unfold components steps
      split
      · next s hs =>
          unfold isAbsolute at h
          simp [hs] at h
      · split
        · next rest hrest => exact ⟨[.current], by rw [hrest]; rfl, .inr rfl⟩
        · exact ⟨[], rfl, .inl rfl⟩

theorem isAbsolute_iff_components {p : Path} :
    p.isAbsolute = true ↔ ∃ cs, p.components = .root :: cs := by
  obtain ⟨front, hcomponents, hfront⟩ := exists_components_eq p
  rw [hcomponents]
  split at hfront
  · next h =>
      rw [hfront]
      exact ⟨fun _ => ⟨_, rfl⟩, fun _ => h⟩
  · next h =>
      refine ⟨fun habsolute => absurd habsolute h, ?_⟩
      rintro ⟨cs, hcs⟩
      rcases hfront with rfl | rfl
      · have hroot : .root ∈ p.steps := by
          rw [List.nil_append] at hcs
          simp [hcs]
        exact absurd (isStep_of_mem_steps _ hroot) not_isStep_root
      · cases (List.cons.inj hcs).1

theorem normal_eq_steps (p : Path) :
    p.normal = normalComponents ((if p.isAbsolute = true then [.root] else []) ++ p.steps) := by
  obtain ⟨front, hcomponents, hfront⟩ := exists_components_eq p
  unfold normal
  rw [hcomponents]
  split at hfront
  · next h => rw [if_pos h, hfront]
  · next h =>
      rw [if_neg h]
      rcases hfront with rfl | rfl
      · rfl
      · rfl

/-! ## Joined paths -/

section Join

variable {base p : Path} (h : p.isAbsolute = false)

include h

theorem isAbsolute_join_eq : (base.join p).isAbsolute = base.isAbsolute := by
  unfold join
  rw [if_neg (by simp [h])]
  unfold isAbsolute at h ⊢
  cases hbase : base.toList with
  | nil => simpa [ofList, toList] using h
  | cons c s =>
      split
      · simp [ofList, toList]
      · simp [ofList, toList]

theorem steps_join : (base.join p).steps = base.steps ++ p.steps := by
  have hself (q : Path) : q = ofList q.toList := by simp [ofList, toList]
  unfold join
  rw [if_neg (by simp [h])]
  split
  · next hend =>
      rcases hend with hempty | hslash
      · rw [hempty, List.nil_append, ← hself]
        have hnone : base.steps = [] := by
          unfold steps
          rw [hempty]
          rfl
        rw [hnone, List.nil_append]
      · obtain ⟨front, hfront⟩ : ∃ front, base.toList = front ++ ['/'] :=
          List.getLast?_eq_some_iff.1 hslash
        have hbase : base.steps = (ofList front).steps := by
          rw [hself base, hfront, steps_append_slash]
          exact List.append_nil _
        rw [hfront, hbase, List.append_assoc, List.singleton_append, steps_append_slash, ← hself]
  · rw [steps_append_slash, ← hself, ← hself]

theorem normal_join :
    (base.join p).normal = (p.steps.foldl pushNormal base.normal.reverse).reverse := by
  rw [normal_eq_steps, isAbsolute_join_eq h, steps_join h, normal_eq_steps base]
  unfold normalComponents
  rw [← List.append_assoc, List.foldl_append, List.reverse_reverse]

end Join

theorem join_of_isAbsolute {p : Path} (h : p.isAbsolute = true) (base : Path) : base.join p = p :=
  if_pos h

/-- Joining goes on along the components, of which a `.` in front does not count. -/
theorem normal_join_eq_components {p : Path} (h : p.isAbsolute = false) (base : Path) :
    (base.join p).normal = (p.components.foldl pushNormal base.normal.reverse).reverse := by
  obtain ⟨front, hcomponents, hfront⟩ := exists_components_eq p
  rw [if_neg (by simp [h])] at hfront
  rw [normal_join h, hcomponents, List.foldl_append]
  rcases hfront with rfl | rfl
  · rfl
  · rfl

theorem normal_join_congr {p q : Path} (h : p.components = q.components) (base : Path) :
    (base.join p).normal = (base.join q).normal := by
  have habsolute : p.isAbsolute = q.isAbsolute := by
    rw [Bool.eq_iff_iff, isAbsolute_iff_components, isAbsolute_iff_components, h]
  cases hq : q.isAbsolute with
  | true =>
      rw [join_of_isAbsolute (habsolute.trans hq), join_of_isAbsolute hq]
      unfold normal
      rw [h]
  | false =>
      rw [normal_join_eq_components (habsolute.trans hq), normal_join_eq_components hq, h]

theorem exists_steps_join (base p : Path) : ∃ front, (base.join p).steps = front ++ p.steps := by
  cases h : p.isAbsolute with
  | true => exact ⟨[], by rw [join_of_isAbsolute h, List.nil_append]⟩
  | false => exact ⟨base.steps, steps_join h⟩

/-! ## Texts with an ending -/

theorem segments_append (s : List Char) {t : List Char} (ht : '/' ∉ t) :
    ∃ front last, segments s = front ++ [last] ∧ segments (s ++ t) = front ++ [last ++ t] := by
  induction s with
  | nil =>
      refine ⟨[], [], rfl, Text.splitWhere_of_none ?_⟩
      intro c hc
      exact beq_eq_false_iff_ne.2 fun hslash => ht (hslash ▸ hc)
  | cons c s ih =>
      obtain ⟨front, last, hs, hst⟩ := ih
      unfold segments at hs hst ⊢
      rw [List.cons_append, Text.splitWhere, Text.splitWhere, hs, hst]
      by_cases hc : (c == '/') = true
      · exact ⟨[] :: front, last, by rw [if_pos hc]; rfl, by rw [if_pos hc]; rfl⟩
      · rw [if_neg hc, if_neg hc]
        cases front with
        | nil => exact ⟨[], c :: last, rfl, rfl⟩
        | cons piece pieces => exact ⟨(c :: piece) :: pieces, last, rfl, rfl⟩

theorem ofSegment?_of_lt_length {s : List Char} (h : 2 < s.length) :
    ofSegment? s = some (.name (String.ofList s)) := by
  apply ofSegment?_eq_name
  intro hmem
  have hshort : ∀ piece ∈ ([[], ['.'], ['.', '.']] : List (List Char)), piece.length ≤ 2 := by
    decide
  have hle := hshort s hmem
  omega

theorem exists_steps_append_name (s : List Char) {t : List Char} (ht : '/' ∉ t)
    (hlength : 2 < t.length) :
    ∃ front name, (ofList (s ++ t)).steps = front ++ [.name name] := by
  obtain ⟨front, last, -, hsegments⟩ := segments_append s ht
  have hlast : ofSegment? (last ++ t) = some (.name (String.ofList (last ++ t))) := by
    apply ofSegment?_of_lt_length
    rw [List.length_append]
    omega
  refine ⟨front.filterMap ofSegment?, String.ofList (last ++ t), ?_⟩
  simp only [steps, ofList, toList, String.toList_ofList, hsegments, List.filterMap_append,
    List.filterMap_cons, hlast, List.filterMap_nil]

/-! ## Joining a file name -/

theorem isAbsolute_of_slash_not_mem {p : Path} (h : '/' ∉ p.toList) : p.isAbsolute = false := by
  cases habsolute : p.isAbsolute with
  | false => rfl
  | true =>
      obtain ⟨s, hs⟩ := toList_of_isAbsolute habsolute
      exact absurd (hs ▸ List.mem_cons_self) h

theorem normal_join_fileName {text : String} (hslash : '/' ∉ text.toList)
    (hlength : 2 < text.toList.length) (base : Path) :
    (base.join ⟨text⟩).normal = base.normal ++ [.name text] := by
  have hsegments : segments text.toList = [text.toList] := by
    apply Text.splitWhere_of_none
    intro c hc
    exact beq_eq_false_iff_ne.2 fun heq => hslash (heq ▸ hc)
  have hsteps : (Path.mk text).steps = [.name text] := by
    unfold steps toList
    rw [hsegments, List.filterMap_cons, ofSegment?_of_lt_length hlength, String.ofList_toList]
    rfl
  have hrelative : (Path.mk text).isAbsolute = false := isAbsolute_of_slash_not_mem hslash
  rw [normal_join hrelative, hsteps, List.foldl_cons, List.foldl_nil, pushNormal_name,
    List.reverse_cons, List.reverse_reverse]

end Path

end SolutionPlan
