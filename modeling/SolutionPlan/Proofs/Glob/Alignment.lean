import SolutionPlan.Configuration.Profile
import SolutionPlan.Proofs.Glob.Wildcards
import SolutionPlan.Proofs.Path.Components
import SolutionPlan.Proofs.Text.Pieces

/-!
# Patterns segment by segment

A pattern without classes matches the segments of a path one after the other, where a `**` stands
for any number of whole segments.
-/

namespace SolutionPlan

/-! ## Segments -/

namespace Path

variable {u s : List Char} {front back ss : List (List Char)}

theorem segments_eq_singleton_iff : segments u = [s] ↔ u = s ∧ '/' ∉ s := by
  constructor
  · intro h
    have hjoin := joinWith_segments u
    rw [h] at hjoin
    exact ⟨hjoin.symm, slash_not_mem_of_mem_segments (h ▸ List.mem_singleton_self s)⟩
  · rintro ⟨rfl, hslash⟩
    apply Text.splitWhere_of_none
    rintro c hc
    rw [beq_eq_false_iff_ne]
    rintro rfl
    exact hslash hc

theorem segments_append_slash (s t : List Char) :
    segments (s ++ '/' :: t) = segments s ++ segments t :=
  Text.splitWhere_append (· == '/') (beq_self_eq_true '/') s t

theorem segments_eq_append_iff (hfront : front ≠ []) (hback : back ≠ []) :
    segments u = front ++ back ↔
      ∃ s t, u = s ++ '/' :: t ∧ segments s = front ∧ segments t = back := by
  constructor
  · intro h
    have hslash : ∀ piece ∈ front ++ back, '/' ∉ piece := fun piece hpiece =>
      slash_not_mem_of_mem_segments (h ▸ hpiece)
    refine ⟨Text.joinWith '/' front, Text.joinWith '/' back, ?_, ?_, ?_⟩
    · rw [← Text.joinWith_append '/' hfront hback, ← h, joinWith_segments]
    · exact Text.splitWhere_joinWith hfront fun piece hpiece =>
        hslash piece (List.mem_append_left _ hpiece)
    · exact Text.splitWhere_joinWith hback fun piece hpiece =>
        hslash piece (List.mem_append_right _ hpiece)
  · rintro ⟨s, t, rfl, rfl, rfl⟩
    exact segments_append_slash s t

theorem segments_eq_cons_iff (hss : ss ≠ []) :
    segments u = s :: ss ↔ ∃ t, u = s ++ '/' :: t ∧ '/' ∉ s ∧ segments t = ss := by
  rw [← List.singleton_append, segments_eq_append_iff (List.cons_ne_nil _ _) hss]
  simp only [segments_eq_singleton_iff]
  constructor
  · rintro ⟨_, t, rfl, ⟨rfl, hslash⟩, ht⟩
    exact ⟨t, rfl, hslash, ht⟩
  · rintro ⟨t, rfl, hslash, ht⟩
    exact ⟨s, t, rfl, ⟨rfl, hslash⟩, ht⟩

/-- The last segment is empty only behind a slash, unless it is the only one. -/
theorem length_segments_eq_one_or (h : u.getLast? ≠ some '/') :
    (segments u).length = 1 ∨ (segments u).getLast? ≠ some [] := by
  by_contra! hempty
  obtain ⟨front, hfront⟩ := List.getLast?_eq_some_iff.1 hempty.2
  have hne : front ≠ [] := by
    rintro rfl
    exact hempty.1 (by rw [hfront]; rfl)
  apply h
  rw [← joinWith_segments u, hfront, Text.joinWith_append '/' hne (List.cons_ne_nil _ _),
    Text.joinWith]
  exact List.getLast?_concat

end Path

namespace Glob

open SolutionPlan.Path (segments)

def anySegments : List Char := ['*', '*']

inductive Aligned (rule : CaseRule) : List (List Char) → List (List Char) → Prop where
  | nil : Aligned rule [] []
  | segment {name s : List Char} {names ss : List (List Char)} : name ≠ anySegments →
      Fits rule name s → Aligned rule names ss → Aligned rule (name :: names) (s :: ss)
  | through (skipped : List (List Char)) {names ss : List (List Char)} : names ≠ [] →
      Aligned rule names ss → Aligned rule (anySegments :: names) (skipped ++ ss)
  | last (s : List Char) (ss : List (List Char)) : Aligned rule [anySegments] (s :: ss)

variable {rule : CaseRule} {name u : List Char} {names ss : List (List Char)}

/-! ## Aligned segments -/

theorem aligned_cons_iff (hname : name ≠ anySegments) : Aligned rule (name :: names) ss ↔
    ∃ s rest, ss = s :: rest ∧ Fits rule name s ∧ Aligned rule names rest := by
  constructor
  · intro h
    cases h with
    | segment _ hfits h => exact ⟨_, _, rfl, hfits, h⟩
    | through | last => exact absurd rfl hname
  · rintro ⟨s, rest, rfl, hfits, h⟩
    exact .segment hname hfits h

theorem aligned_through_iff (hnames : names ≠ []) : Aligned rule (anySegments :: names) ss ↔
    ∃ skipped rest, ss = skipped ++ rest ∧ Aligned rule names rest := by
  constructor
  · intro h
    cases h with
    | segment hname => exact absurd rfl hname
    | through skipped _ h => exact ⟨skipped, _, rfl, h⟩
    | last => exact absurd rfl hnames
  · rintro ⟨skipped, rest, rfl, h⟩
    exact .through skipped hnames h

theorem aligned_nil_iff : Aligned rule [] ss ↔ ss = [] := by
  constructor
  · intro h
    cases h
    rfl
  · rintro rfl
    exact .nil

theorem Aligned.ne_nil (h : Aligned rule names ss) (hnames : names ≠ []) : ss ≠ [] := by
  induction h with
  | nil => exact absurd rfl hnames
  | segment | last => exact List.cons_ne_nil _ _
  | through skipped hmore _ ih => simp [ih hmore]

theorem Aligned.length_eq (h : Aligned rule names ss) (hnone : anySegments ∉ names) :
    names.length = ss.length := by
  induction h with
  | nil => rfl
  | segment _ _ _ ih =>
      rw [List.length_cons, List.length_cons, ih fun hmem => hnone (List.mem_cons_of_mem _ hmem)]
  | through | last => exact absurd List.mem_cons_self hnone

/-- A pattern that stands for an empty segment, without an empty name at its end, stands for any
segment. -/
theorem Aligned.of_empty (h : Aligned rule names [[]]) (hlast : names.getLast? ≠ some [])
    (s : List Char) : Aligned rule names [s] := by
  induction names with
  | nil => cases h
  | cons name names ih =>
      by_cases hname : name = anySegments
      · subst hname
        by_cases hnames : names = []
        · rw [hnames]
          exact .last s []
        · obtain ⟨skipped, rest, hsplit, hrest⟩ := (aligned_through_iff hnames).1 h
          have hskipped : skipped = [] ∧ rest = [[]] := by
            rcases List.append_eq_singleton_iff.1 hsplit.symm with hfound | ⟨-, rfl⟩
            · exact hfound
            · exact absurd rfl (hrest.ne_nil hnames)
          rw [hskipped.2] at hrest
          rw [List.getLast?_cons_of_ne_nil hnames] at hlast
          exact .through [] hnames (ih hrest hlast)
      · obtain ⟨_, rest, hsplit, hfits, hrest⟩ := (aligned_cons_iff hname).1 h
        obtain ⟨rfl, rfl⟩ := List.cons.inj hsplit
        obtain rfl : names = [] := by
          by_contra hnames
          exact hrest.ne_nil hnames rfl
        refine .segment hname (hfits.of_nil ?_ s) .nil
        rintro rfl
        exact hlast rfl

/-! ## Compiled segments -/

def segmentTokens : List (List Char) → List Token
  | [] => []
  | [name] => if name = anySegments then [.anyComponents] else name.map nameToken
  | name :: names =>
      if name = anySegments then .anyComponents :: segmentTokens names
      else name.map nameToken ++ .char '/' :: segmentTokens names

theorem segmentTokens_through (hnames : names ≠ []) :
    segmentTokens (anySegments :: names) = .anyComponents :: segmentTokens names := by
  cases names with
  | nil => exact absurd rfl hnames
  | cons next names => rfl

theorem segmentTokens_cons (hname : name ≠ anySegments) (hnames : names ≠ []) :
    segmentTokens (name :: names) =
      name.map nameToken ++ .char '/' :: segmentTokens names := by
  cases names with
  | nil => exact absurd rfl hnames
  | cons next names => exact if_neg hname

theorem segmentTokens_singleton (hname : name ≠ anySegments) :
    segmentTokens [name] = name.map nameToken := if_neg hname

theorem matchTokens_slash {tokens : List Token} :
    matchTokens rule (.char '/' :: tokens) u = true ↔
      ∃ s, u = '/' :: s ∧ matchTokens rule tokens s = true := by
  cases u with
  | nil => simp [matchTokens]
  | cons c u =>
      have htakes : rule.same c '/' = true ↔ c = '/' := by
        constructor
        · intro h
          rw [CaseRule.same_comm] at h
          exact CaseRule.eq_slash_of_same h
        · rintro rfl
          cases rule <;> rfl
      simp [matchTokens, Token.takes, htakes]

theorem matchTokens_anyComponents_iff {tokens : List Token} :
    matchTokens rule (.anyComponents :: tokens) u = true ↔
      ∃ r, (r = u ∨ (∃ before, u = before ++ '/' :: r) ∨ r = []) ∧
        matchTokens rule tokens r = true := by
  simp only [matchTokens, List.any_eq_true, mem_afterComponents]

theorem matchTokens_segmentTokens_singleton (hname : '/' ∉ name) :
    matchTokens rule (segmentTokens [name]) u = true ↔ Aligned rule [name] (segments u) := by
  by_cases hany : name = anySegments
  · subst hany
    obtain ⟨s, ss, hsegments⟩ := List.exists_cons_of_ne_nil (Path.segments_ne_nil u)
    rw [hsegments]
    exact iff_of_true (matchTokens_anyComponents rule u) (.last s ss)
  · rw [segmentTokens_singleton hany, matchTokens_read (forall₂_reads reads_nameToken name) hname,
      aligned_cons_iff hany]
    simp only [aligned_nil_iff]
    constructor
    · rintro ⟨hu, hfits⟩
      exact ⟨u, [], Path.segments_eq_singleton_iff.2 ⟨rfl, hu⟩, hfits, rfl⟩
    · rintro ⟨s, -, hsegments, hfits, rfl⟩
      obtain ⟨rfl, hu⟩ := Path.segments_eq_singleton_iff.1 hsegments
      exact ⟨hu, hfits⟩

section Cons

variable (hnames : names ≠ [])
  (ih : ∀ t, matchTokens rule (segmentTokens names) t = true ↔ Aligned rule names (segments t))

include hnames ih

theorem matchTokens_segmentTokens_through (hlast : names.getLast? ≠ some []) :
    matchTokens rule (segmentTokens (anySegments :: names)) u = true ↔
      Aligned rule (anySegments :: names) (segments u) := by
  rw [segmentTokens_through hnames, matchTokens_anyComponents_iff, aligned_through_iff hnames]
  simp only [ih]
  constructor
  · rintro ⟨r, rfl | ⟨before, rfl⟩ | rfl, hrest⟩
    · exact ⟨[], segments r, rfl, hrest⟩
    · exact ⟨segments before, segments r, Path.segments_append_slash before r, hrest⟩
    · -- What stands for nothing stands for the last segment as well.
      obtain ⟨front, s, hsegments⟩ :=
        (List.eq_nil_or_concat (segments u)).resolve_left (Path.segments_ne_nil u)
      exact ⟨front, [s], by rw [hsegments, List.concat_eq_append], hrest.of_empty hlast s⟩
  · rintro ⟨skipped, rest, hsegments, hrest⟩
    by_cases hskipped : skipped = []
    · subst hskipped
      exact ⟨u, .inl rfl, by rwa [hsegments]⟩
    · obtain ⟨before, t, rfl, -, rfl⟩ :=
        (Path.segments_eq_append_iff hskipped (hrest.ne_nil hnames)).1 hsegments
      exact ⟨t, .inr (.inl ⟨before, rfl⟩), hrest⟩

theorem matchTokens_segmentTokens_cons (hname : '/' ∉ name) (hany : name ≠ anySegments) :
    matchTokens rule (segmentTokens (name :: names)) u = true ↔
      Aligned rule (name :: names) (segments u) := by
  rw [segmentTokens_cons hany hnames, matchTokens_append (forall₂_reads reads_nameToken name) hname,
    aligned_cons_iff hany]
  simp only [matchTokens_slash, ih]
  constructor
  · rintro ⟨front, -, rfl, hfront, hfits, t, rfl, hrest⟩
    refine ⟨front, segments t, ?_, hfits, hrest⟩
    exact (Path.segments_eq_cons_iff (Path.segments_ne_nil t)).2 ⟨t, rfl, hfront, rfl⟩
  · rintro ⟨front, rest, hsegments, hfits, hrest⟩
    obtain ⟨t, rfl, hfront, rfl⟩ :=
      (Path.segments_eq_cons_iff (hrest.ne_nil hnames)).1 hsegments
    exact ⟨front, '/' :: t, rfl, hfront, hfits, t, rfl, hrest⟩

end Cons

/-- The tokens of the segments match the paths whose segments are aligned with them. -/
theorem matchTokens_segmentTokens (hslash : ∀ name ∈ names, '/' ∉ name) (hne : names ≠ [])
    (hlast : names.length = 1 ∨ names.getLast? ≠ some []) :
    matchTokens rule (segmentTokens names) u = true ↔ Aligned rule names (segments u) := by
  induction names generalizing u with
  | nil => exact absurd rfl hne
  | cons name names ih =>
      have hname := hslash name List.mem_cons_self
      by_cases hnames : names = []
      · subst hnames
        exact matchTokens_segmentTokens_singleton hname
      · have hend : names.getLast? ≠ some [] := by
          rcases hlast with hone | hend
          · simp [hnames] at hone
          · rwa [List.getLast?_cons_of_ne_nil hnames] at hend
        have ih (t : List Char) :
            matchTokens rule (segmentTokens names) t = true ↔ Aligned rule names (segments t) :=
          ih (fun other hother => hslash other (List.mem_cons_of_mem _ hother)) hnames (.inr hend)
        by_cases hany : name = anySegments
        · subst hany
          exact matchTokens_segmentTokens_through hnames ih hend
        · exact matchTokens_segmentTokens_cons hnames ih hname hany

/-! ## Compiling -/

theorem compileFrom_two_ne_ok {rest : List Char} {before : Option Char}
    (h : (before = none ∨ before = some '/') → rest ≠ [] ∧ rest.head? ≠ some '/')
    (position : Nat) (done tokens : List Token) :
    compileFrom position before done ('*' :: '*' :: rest) ≠ .ok tokens := by
  cases rest with
  | nil =>
      rw [compileFrom.eq_4, if_neg fun hstart => (h hstart).1 rfl]
      simp
  | cons c rest =>
      by_cases hc : c = '*'
      · subst hc
        rw [compileFrom.eq_3]
        simp
      · have hnext : ∀ tail, c :: rest = '*' :: tail → False := fun tail heq =>
          hc (List.cons.inj heq).1
        rw [compileFrom.eq_5 _ _ _ _ _ hnext]
        split
        · next hstart =>
            rw [if_neg fun hslash => (h hstart).2 (by rw [hslash]; rfl)]
            simp
        · simp

theorem head?_ne_of_compileFrom_eq_ok {rest : List Char} {position : Nat} {before : Option Char}
    {done tokens : List Token} (hslash : '/' ∉ name)
    (hrest : rest = [] ∨ rest.head? = some '/')
    (hwhole : before = none ∨ before = some '/' → '*' :: name ≠ anySegments)
    (h : compileFrom position before done ('*' :: (name ++ rest)) = .ok tokens) :
    (name ++ rest).head? ≠ some '*' := by
  intro htwo
  cases name with
  | nil =>
      rcases hrest with rfl | hrest
      · cases htwo
      · rw [List.nil_append, hrest] at htwo
        exact absurd htwo (by decide)
  | cons d name =>
      obtain rfl : d = '*' := by simpa using htwo
      refine compileFrom_two_ne_ok (fun hstart => ?_) position done tokens h
      cases name with
      | nil => exact absurd rfl (hwhole hstart)
      | cons e name =>
          simp only [List.mem_cons, not_or] at hslash
          simp [Ne.symm hslash.2.1]

/-- A segment without classes that is not `**` is read character by character. -/
theorem compileFrom_segment {rest : List Char} {position : Nat} {before : Option Char}
    {done tokens : List Token} (hslash : '/' ∉ name) (hclass : '[' ∉ name)
    (hrest : rest = [] ∨ rest.head? = some '/')
    (hwhole : before = none ∨ before = some '/' → name ≠ anySegments)
    (h : compileFrom position before done (name ++ rest) = .ok tokens) :
    ∃ position' before', compileFrom position' before' ((name.map nameToken).reverse ++ done) rest =
      .ok tokens := by
  induction name generalizing position before done with
  | nil => exact ⟨position, before, h⟩
  | cons c name ih =>
      rw [List.mem_cons, not_or] at hslash hclass
      have hstep {position' : Nat} (hinner : c ≠ '/')
          (h : compileFrom position' (some c) (nameToken c :: done) (name ++ rest) = .ok tokens) :
          ∃ position' before', compileFrom position' before'
            (((c :: name).map nameToken).reverse ++ done) rest = .ok tokens := by
        have hnext := ih hslash.2 hclass.2 (by simp [hinner]) h
        simpa using hnext
      rw [List.cons_append] at h
      by_cases hstar : c = '*'
      · subst hstar
        rw [compileFrom_sequence (head?_ne_of_compileFrom_eq_ok hslash.2 hrest hwhole h)] at h
        exact hstep (by decide) h
      · by_cases hquestion : c = '?'
        · subst hquestion
          rw [compileFrom] at h
          exact hstep (by decide) h
        · rw [compileFrom_plain hquestion hstar (Ne.symm hclass.1)] at h
          have htoken : nameToken c = .char c := by simp [nameToken, hstar, hquestion]
          rw [← htoken] at h
          exact hstep (Ne.symm hslash.1) h

theorem matchTokens_congr (front : List Token) {back other : List Token}
    (h : ∀ u, matchTokens rule back u = matchTokens rule other u) (u : List Char) :
    matchTokens rule (front ++ back) u = matchTokens rule (front ++ other) u := by
  induction front generalizing u with
  | nil => exact h u
  | cons token front ih =>
      cases token with
      | anySequence | anyComponents => simp only [List.cons_append, matchTokens, funext ih]
      | char _ | anyChar | oneOf _ | noneOf _ => cases u <;> simp [matchTokens, ih]

theorem matchTokens_pushComponents (done tokens : List Token) (u : List Char) :
    matchTokens rule ((pushComponents done).reverse ++ tokens) u =
      matchTokens rule (done.reverse ++ .anyComponents :: tokens) u := by
  unfold pushComponents
  split
  · next token done =>
      simp only [List.reverse_cons, List.append_assoc, List.singleton_append]
      refine matchTokens_congr done.reverse (fun u => ?_) u
      exact matchTokens_congr [token]
        (fun u => (matchTokens_anyComponents_twice rule tokens u).symm) u
  · simp

/-- A pattern without classes compiles to tokens that match like those of its segments. -/
theorem compileFrom_segments {position : Nat} {before : Option Char} {done tokens : List Token}
    (hslash : ∀ name ∈ names, '/' ∉ name) (hclass : ∀ name ∈ names, '[' ∉ name) (hne : names ≠ [])
    (hbefore : before = none ∨ before = some '/')
    (h : compileFrom position before done (Text.joinWith '/' names) = .ok tokens) (u : List Char) :
    matchTokens rule tokens u = matchTokens rule (done.reverse ++ segmentTokens names) u := by
  induction names generalizing position before done with
  | nil => exact absurd rfl hne
  | cons name names ih =>
      have hname := hslash name List.mem_cons_self
      have hplain := hclass name List.mem_cons_self
      by_cases hnames : names = []
      · subst hnames
        by_cases hany : name = anySegments
        · subst hany
          rw [Text.joinWith, anySegments, compileFrom.eq_4, if_pos hbefore] at h
          obtain rfl := Except.ok.inj h
          have hone : segmentTokens [anySegments] = [.anyComponents] := rfl
          rw [hone, ← matchTokens_pushComponents, List.append_nil]
        · rw [Text.joinWith, ← List.append_nil name] at h
          obtain ⟨_, _, h⟩ := compileFrom_segment hname hplain (.inl rfl) (fun _ => hany) h
          rw [compileFrom] at h
          obtain rfl := Except.ok.inj h
          rw [segmentTokens_singleton hany, List.reverse_append, List.reverse_reverse]
      · have ih {position' : Nat} {done' : List Token}
            (h : compileFrom position' (some '/') done' (Text.joinWith '/' names) = .ok tokens) :
            matchTokens rule tokens u = matchTokens rule (done'.reverse ++ segmentTokens names) u :=
          ih (fun other hother => hslash other (List.mem_cons_of_mem _ hother))
            (fun other hother => hclass other (List.mem_cons_of_mem _ hother)) hnames (.inr rfl) h
        rw [Text.joinWith_cons '/' name hnames] at h
        by_cases hany : name = anySegments
        · subst hany
          rw [anySegments, List.cons_append, List.cons_append, List.nil_append,
            compileFrom.eq_5 _ _ _ _ _ (by simp), if_pos hbefore, if_pos rfl] at h
          rw [ih h, segmentTokens_through hnames, matchTokens_pushComponents]
        · obtain ⟨_, _, h⟩ := compileFrom_segment hname hplain (.inr rfl) (fun _ => hany) h
          rw [compileFrom_plain (by decide) (by decide) (by decide)] at h
          rw [ih h, segmentTokens_cons hany hnames]
          simp

end Glob

/-! ## File patterns -/

/--
A pattern without classes that does not end in a separator accepts a path exactly if its segments
can be aligned with those of the path. Without `**` there are as many of the one as of the other.
Either kind of slash separates segments.
-/
theorem FilePattern.accepts_iff_aligned {text : String} {pattern : FilePattern}
    (h : compile text = .ok pattern) (hclass : '[' ∉ text.toList)
    (hend : (withSlashes text).toList.getLast? ≠ some '/') (path : String) :
    let names := Path.segments (withSlashes text).toList
    let segments := Path.segments (withSlashes path).toList
    (pattern.accepts path = true ↔ Glob.Aligned .sensitive names segments) ∧
      (Glob.anySegments ∉ names → pattern.accepts path = true →
        names.length = segments.length) := by
  intro names segments
  have hslash : ∀ name ∈ names, '/' ∉ name := fun name => Path.slash_not_mem_of_mem_segments
  have hplain : ∀ name ∈ names, '[' ∉ name := by
    intro name hname hmem
    have htext := Path.mem_of_mem_splitWhere hname hmem
    unfold withSlashes Text.replaceChar at htext
    rw [String.toList_ofList, List.mem_map] at htext
    obtain ⟨c, hc, hreplaced⟩ := htext
    split at hreplaced
    · cases hreplaced
    · exact hclass (hreplaced ▸ hc)
  have haligned : pattern.accepts path = true ↔ Glob.Aligned .sensitive names segments := by
    unfold compile at h
    cases htokens : Glob.compile (withSlashes text) with
    | error e =>
        rw [htokens] at h
        cases h
    | ok tokens =>
        rw [htokens] at h
        obtain rfl := Except.ok.inj h
        unfold Glob.compile at htokens
        rw [← Path.joinWith_segments (withSlashes text).toList] at htokens
        unfold accepts
        rw [Glob.accepts_eq_matchTokens, Glob.compileFrom_segments hslash hplain
          (Path.segments_ne_nil _) (.inl rfl) htokens, List.reverse_nil, List.nil_append,
          Glob.matchTokens_segmentTokens hslash (Path.segments_ne_nil _)
            (Path.length_segments_eq_one_or hend)]
  refine ⟨haligned, fun hnone haccepts => ?_⟩
  exact (haligned.1 haccepts).length_eq hnone

def nestedSources : FilePattern :=
  ⟨"src\\**/?*.c", [.char 's', .char 'r', .char 'c', .char '/', .anyComponents, .anyChar,
    .anySequence, .char '.', .char 'c']⟩

theorem FilePattern.accepts_iff_aligned_nested :
    let names := Path.segments (withSlashes nestedSources.text).toList
    compile nestedSources.text = .ok nestedSources ∧ '[' ∉ nestedSources.text.toList ∧
      (withSlashes nestedSources.text).toList.getLast? ≠ some '/' ∧
      Glob.Aligned .sensitive names (Path.segments "src/x/y/ab.c".toList) ∧
      Glob.Aligned .sensitive names (Path.segments "src/ab.c".toList) ∧
      ¬ Glob.Aligned .sensitive names (Path.segments "src/x/.c".toList) := by
  intro names
  have hcompile : compile nestedSources.text = .ok nestedSources := by
    simp [compile, Glob.compile, Glob.compileFrom, Glob.pushComponents, nestedSources,
      withSlashes, Text.replaceChar, Except.map]
  have hclass : '[' ∉ nestedSources.text.toList := by decide
  have hend : (withSlashes nestedSources.text).toList.getLast? ≠ some '/' := by decide
  have haligned := fun path => (accepts_iff_aligned hcompile hclass hend path).1
  refine ⟨hcompile, hclass, hend, ?_, ?_, ?_⟩
  · exact (haligned "src\\x/y/ab.c").1 (by decide)
  · exact (haligned "src/ab.c").1 (by decide)
  · intro h
    exact absurd ((haligned "src/x/.c").2 h) (by decide)

end SolutionPlan
