import Mathlib.Data.List.Nodup
import Mathlib.Logic.Function.Basic
import SolutionPlan.Proofs.Diagnostics
import SolutionPlan.Proofs.Solution.Arena
import SolutionPlan.Resolution.Classification

/-!
# The first claim holds

Classification goes through the targets and for each of them through the sources that take part. All
that changes on the way is which target each source has, so a state of the loops is the project with
other targets. In the end every source that takes part has the first target that claims its
extension, or the first of all. A warning is recorded for every later claim and for every source
that nothing claims.
-/

namespace SolutionPlan

def Source.ext (s : Source) : String := s.path.extension?.getD ""

namespace Project

/-- The source takes part: it is generated or not, as the flag says, and has no target. -/
def pending (generated : Bool) (s : Source) : Bool := s.generated == generated && s.target.isNone

def candidate (s : Source) : Candidate := ⟨s.path, s.ext⟩

theorem classify_eq (p : Project) (targets : List Target) (generated : Bool) :
    let found := p.sources.filter (pending generated)
    p.classify targets generated =
      targets.zipIdx.foldlM
          (fun p entry => found.foldlM (fun p s => claim targets entry.1 entry.2 p (candidate s)) p)
          p >>=
        found.foldlM fun p s => claimRest targets p (candidate s) := by
  intro found
  have hcandidates : p.candidates generated = found.map candidate := rfl
  unfold classify
  simp only [hcandidates, List.foldlM_map]

/-! ## Targets as they change -/

def retarget (p : Project) (f : Source → Option Nat) : Project :=
  { p with sources := p.sources.map fun s => { s with target := f s } }

section Retarget

variable {p : Project} {f g : Source → Option Nat} {s : Source}

theorem retarget_congr (h : ∀ s ∈ p.sources, f s = g s) : p.retarget f = p.retarget g := by
  unfold retarget
  rw [List.map_congr_left fun s hs => by rw [h s hs]]

theorem retarget_target (p : Project) : p.retarget Source.target = p := by
  unfold retarget
  rw [List.map_id']

theorem DistinctPaths.retarget (hp : p.DistinctPaths) (f : Source → Option Nat) :
    (p.retarget f).DistinctPaths := by
  unfold DistinctPaths Project.retarget at *
  rw [List.map_map]
  exact hp

theorem findSource?_retarget (hp : p.DistinctPaths) (hs : s ∈ p.sources) :
    (p.retarget f).findSource? s.path = some { s with target := f s } :=
  findSource?_of_mem (hp.retarget f) (List.mem_map_of_mem hs) rfl

theorem assignTarget_retarget (hp : p.DistinctPaths) (hs : s ∈ p.sources) (i : Nat) :
    (p.retarget f).assignTarget s.path i =
      match f s with
      | some kept => .error kept
      | none => .ok (p.retarget (Function.update f s (some i))) := by
  unfold assignTarget
  rw [findSource?_retarget hp hs]
  simp only
  cases hf : f s with
  | some kept => rfl
  | none =>
      simp only
      rw [modifySource_eq_map (hp.retarget f)]
      unfold retarget
      simp only [List.map_map]
      congr 2
      apply List.map_congr_left
      intro t ht
      by_cases hts : t = s
      · subst hts
        simp [Path.same_iff]
      · have hdiffers : t.path.same s.path = false :=
          Bool.eq_false_iff.2 fun hsame => hts (eq_of_same hp ht hs hsame)
        simp [hdiffers, Function.update_of_ne hts]

end Retarget

/-! ## One pass over the sources -/

/-- The targets after the one at place `i` is given to those of the sources that satisfy the test
and have none. -/
def taken (test : Source → Bool) (i : Nat) (sources : List Source) (f : Source → Option Nat) :
    Source → Option Nat :=
  fun s => if s ∈ sources ∧ test s then (f s).or (some i) else f s

theorem taken_singleton (test : Source → Bool) (i : Nat) (s : Source) (f : Source → Option Nat) :
    taken test i [s] f = if test s then Function.update f s ((f s).or (some i)) else f := by
  funext t
  unfold taken
  by_cases hts : t = s
  · subst hts
    by_cases htest : test t <;> simp [htest]
  · by_cases htest : test s <;> simp [hts, htest]

theorem taken_taken {test : Source → Bool} {i : Nat} {first : Source} {rest : List Source}
    (hfirst : first ∉ rest) (f : Source → Option Nat) :
    taken test i rest (taken test i [first] f) = taken test i (first :: rest) f := by
  funext s
  unfold taken
  by_cases hs : s = first
  · subst hs
    simp [hfirst]
  · simp [hs]

/-- Steps that each give a target to one source, and record what depends on that source only. -/
theorem foldlM_retarget {p : Project} {step : Project → Source → Logged Project}
    {test : Source → Bool} {i : Nat} {record : Source → Option Nat → List Problem}
    (hstep : ∀ f, ∀ s ∈ p.sources,
      step (p.retarget f) s = ⟨p.retarget (taken test i [s] f), record s (f s)⟩)
    {sources : List Source} (hsources : ∀ s ∈ sources, s ∈ p.sources) (hnodup : sources.Nodup)
    (f : Source → Option Nat) :
    sources.foldlM step (p.retarget f) =
      ⟨p.retarget (taken test i sources f), sources.flatMap fun s => record s (f s)⟩ := by
  induction sources generalizing f with
  | nil =>
      have hnone : taken test i [] f = f := by
        funext s
        simp [taken]
      rw [hnone]
      rfl
  | cons first rest ih =>
      rw [List.nodup_cons] at hnodup
      have hfirst := hstep f first (hsources first List.mem_cons_self)
      have hrest := ih (fun s hs => hsources s (List.mem_cons_of_mem first hs)) hnodup.2
        (taken test i [first] f)
      rw [List.foldlM_cons, Logged.bind_eq hfirst hrest, taken_taken hnodup.1, List.flatMap_cons]
      congr 2
      apply List.flatMap_congr
      intro s hs
      have hne : s ≠ first := by
        rintro rfl
        exact hnodup.1 hs
      simp [taken, hne]

/-! ## One target after the other -/

def firstClaimant? (targets : List Target) (ext : String) : Option Nat :=
  targets.findIdx? fun t => t.claims ext

/-- What is recorded about the source if the target at place `i` claims it and an earlier one does
too. The first of all is named as the one that is kept. -/
def laterClaim (targets : List Target) (target : Target) (i : Nat) (s : Source) : List Problem :=
  if target.claims s.ext then
    ((targets.take i).find? fun t => t.claims s.ext).toList.map fun first =>
      .severalTargets s.path first.name target.name
  else []

def unclaimed (p : Project) (targets : List Target) (s : Source) : List Problem :=
  if targets.any fun t => t.claims s.ext then []
  else [.noTarget s.path p.name (targetName targets 0)]

def claimedTarget (targets : List Target) (generated : Bool) (s : Source) : Option Nat :=
  if pending generated s then firstClaimant? targets s.ext else s.target

def recordClaim (targets : List Target) (target : Target) (i : Nat) (s : Source)
    (kept : Option Nat) : List Problem :=
  if target.claims s.ext then
    (kept.toList.filter (· ≠ i)).map fun kept =>
      .severalTargets s.path (targetName targets kept) target.name
  else []

def recordRest (p : Project) (targets : List Target) (s : Source) (kept : Option Nat) :
    List Problem :=
  if kept.isSome then [] else [.noTarget s.path p.name (targetName targets 0)]

theorem recordClaim_eq (targets : List Target) (target : Target) (i : Nat) (s : Source) :
    recordClaim targets target i s (firstClaimant? (targets.take i) s.ext) =
      laterClaim targets target i s := by
  unfold recordClaim laterClaim firstClaimant?
  rw [List.find?_eq_bind_findIdx?_getElem?]
  cases hfound : (targets.take i).findIdx? fun t => t.claims s.ext with
  | none => rfl
  | some k =>
      obtain ⟨hk, -⟩ := List.findIdx?_eq_some_iff_getElem.1 hfound
      have hlt : k < i ∧ k < targets.length := by simpa [Nat.lt_min] using hk
      have hname : targetName targets k = targets[k].name := by simp [targetName, hlt.2]
      simp [hname, hlt, Nat.ne_of_lt hlt.1]

section Classify

variable {p : Project} (hp : p.DistinctPaths)

include hp

theorem claim_retarget (targets : List Target) (target : Target) (i : Nat)
    (f : Source → Option Nat) {s : Source} (hs : s ∈ p.sources) :
    claim targets target i (p.retarget f) (candidate s) =
      ⟨p.retarget (taken (fun s => target.claims s.ext) i [s] f),
        recordClaim targets target i s (f s)⟩ := by
  unfold claim recordClaim candidate
  simp only [assignTarget_retarget hp hs, taken_singleton]
  by_cases hclaims : target.claims s.ext = true
  · simp only [hclaims, if_true]
    cases hf : f s with
    | none => rfl
    | some kept =>
        rw [Option.some_or, ← hf, Function.update_eq_self, hf]
        by_cases hkept : kept = i
        · have hown : (some kept).toList.filter (· ≠ i) = [] := by simp [hkept]
          rw [hown]
          simp only [ne_eq, hkept, not_true_eq_false, if_false]
          rfl
        · have hother : (some kept).toList.filter (· ≠ i) = [kept] := by simp [hkept]
          rw [hother]
          simp only [ne_eq, hkept, not_false_eq_true, if_true]
          rfl
  · simp only [Bool.not_eq_true] at hclaims
    simp only [hclaims, Bool.false_eq_true, if_false]
    rfl

theorem claimRest_retarget (targets : List Target) (f : Source → Option Nat) {s : Source}
    (hs : s ∈ p.sources) :
    claimRest targets (p.retarget f) (candidate s) =
      ⟨p.retarget (taken (fun _ => true) 0 [s] f), p.recordRest targets s (f s)⟩ := by
  unfold claimRest recordRest candidate
  simp only [assignTarget_retarget hp hs, taken_singleton, if_true]
  cases hf : f s with
  | none => rfl
  | some kept =>
      rw [Option.some_or, ← hf, Function.update_eq_self, hf]
      rfl

theorem foldlM_claim (targets : List Target) (target : Target) (generated : Bool)
    {before : List Target} (hbefore : targets.take before.length = before) :
    let found := p.sources.filter (pending generated)
    found.foldlM (fun p s => claim targets target before.length p (candidate s))
        (p.retarget (claimedTarget before generated)) =
      ⟨p.retarget (claimedTarget (before ++ [target]) generated),
        found.flatMap (laterClaim targets target before.length)⟩ := by
  intro found
  have hsources : ∀ s ∈ found, s ∈ p.sources := fun s hs => (List.mem_filter.1 hs).1
  have hnodup : found.Nodup := hp.nodup_sources.filter _
  rw [foldlM_retarget (fun f s hs => claim_retarget hp targets target before.length f hs) hsources
    hnodup]
  congr 1
  · refine retarget_congr fun s hs => ?_
    unfold taken claimedTarget firstClaimant?
    rw [List.findIdx?_append]
    by_cases hpending : pending generated s = true
    · by_cases hclaims : target.claims s.ext = true <;> simp [found, hs, hpending, hclaims]
    · simp [found, hpending]
  · refine List.flatMap_congr fun s hs => ?_
    have hpending := (List.mem_filter.1 hs).2
    rw [← recordClaim_eq, hbefore, claimedTarget, if_pos hpending]

theorem foldlM_zipIdx_claim (targets : List Target) (generated : Bool)
    {before rest : List Target} (htargets : targets = before ++ rest) :
    let found := p.sources.filter (pending generated)
    (rest.zipIdx before.length).foldlM
        (fun p entry => found.foldlM (fun p s => claim targets entry.1 entry.2 p (candidate s)) p)
        (p.retarget (claimedTarget before generated)) =
      ⟨p.retarget (claimedTarget targets generated),
        (rest.zipIdx before.length).flatMap fun entry =>
          found.flatMap (laterClaim targets entry.1 entry.2)⟩ := by
  intro found
  induction rest generalizing before with
  | nil =>
      rw [htargets, List.append_nil]
      rfl
  | cons target rest ih =>
      have hbefore : targets.take before.length = before := by simp [htargets]
      have hmore : targets = (before ++ [target]) ++ rest := by simp [htargets]
      have hrest := ih hmore
      rw [List.length_append, List.length_singleton] at hrest
      rw [List.zipIdx_cons, List.foldlM_cons,
        Logged.bind_eq (foldlM_claim hp targets target generated hbefore) hrest, List.flatMap_cons]

theorem foldlM_claimRest (targets : List Target) (generated : Bool) :
    let found := p.sources.filter (pending generated)
    found.foldlM (fun p s => claimRest targets p (candidate s))
        (p.retarget (claimedTarget targets generated)) =
      ⟨{ p with sources := p.sources.map fun s =>
          if pending generated s then
            { s with target := some ((firstClaimant? targets s.ext).getD 0) }
          else s },
        found.flatMap (p.unclaimed targets)⟩ := by
  intro found
  have hsources : ∀ s ∈ found, s ∈ p.sources := fun s hs => (List.mem_filter.1 hs).1
  have hnodup : found.Nodup := hp.nodup_sources.filter _
  rw [foldlM_retarget (fun f s hs => claimRest_retarget hp targets f hs) hsources hnodup]
  congr 1
  · unfold retarget
    congr 1
    apply List.map_congr_left
    intro s hs
    by_cases hpending : pending generated s = true
    · have hmem : s ∈ found := List.mem_filter.2 ⟨hs, hpending⟩
      cases hclaimant : firstClaimant? targets s.ext <;>
        simp [taken, claimedTarget, hpending, hmem, hclaimant]
    · have hmem : s ∉ found := fun h => hpending (List.mem_filter.1 h).2
      simp [taken, claimedTarget, hpending, hmem]
  · apply List.flatMap_congr
    intro s hs
    have hpending := (List.mem_filter.1 hs).2
    unfold recordRest unclaimed claimedTarget firstClaimant?
    simp [hpending]

end Classify

theorem retarget_claimedTarget_nil (p : Project) (generated : Bool) :
    p.retarget (claimedTarget [] generated) = p := by
  conv_rhs => rw [← p.retarget_target]
  refine retarget_congr fun s _ => ?_
  unfold claimedTarget
  split
  · next hpending =>
      unfold pending at hpending
      rw [Bool.and_eq_true, Option.isNone_iff_eq_none] at hpending
      exact hpending.2.symm
  · rfl

/--
Classification gives each source that takes part the first target that claims its extension, or the
first of all if none does, and changes nothing else. It records, target by target and source by
source, every claim behind an earlier one, and then every source that nothing claims. Sources are
found by their paths, so these have to differ.
-/
theorem classify_picks_first_claimant {p : Project} (hp : p.DistinctPaths) (targets : List Target)
    (generated : Bool) :
    let found := p.sources.filter (pending generated)
    (p.classify targets generated).value =
        { p with sources := p.sources.map fun s =>
            if pending generated s then
              { s with target := some ((firstClaimant? targets s.ext).getD 0) }
            else s } ∧
      (p.classify targets generated).problems =
        (targets.zipIdx.flatMap fun entry =>
          found.flatMap (laterClaim targets entry.1 entry.2)) ++
            found.flatMap (p.unclaimed targets) := by
  intro found
  have hclaimed := foldlM_zipIdx_claim hp targets generated (List.nil_append targets).symm
  rw [retarget_claimedTarget_nil, List.length_nil] at hclaimed
  rw [classify_eq, Logged.bind_eq hclaimed (foldlM_claimRest hp targets generated)]
  exact ⟨rfl, rfl⟩

/-- A table in which two targets claim the same extension and the first one claims some too. -/
def overlappingTargets : List Target :=
  [⟨"None", ["md"], none, none, []⟩, ⟨"ClCompile", ["cpp"], none, none, []⟩,
    ⟨"ClInclude", ["h"], none, none, []⟩, ⟨"Shader", ["CPP", "hlsl"], none, none, []⟩]

def assorted : Project :=
  { authored "Core" .cpp ⟨"/out/core.vcxproj"⟩ ⟨"/src"⟩ with
    filters := [.rooted "Source" ⟨"/src"⟩]
    sources := ["a.cpp", "b.H", "c.md", "Makefile"].map (fun name =>
        ⟨⟨"/src/" ++ name⟩, 0, none, false, none⟩) ++
      [⟨⟨"/src/d.h"⟩, 0, none, true, none⟩, ⟨⟨"/src/e.cpp"⟩, 0, some 3, false, none⟩] }

theorem classify_picks_first_claimant_assorted :
    assorted.DistinctPaths ∧
      (assorted.classify overlappingTargets false).value.sources.map Source.target =
        [some 1, some 2, some 0, some 0, none, some 3] ∧
      (assorted.classify overlappingTargets false).problems =
        [.severalTargets ⟨"/src/a.cpp"⟩ "ClCompile" "Shader",
          .noTarget ⟨"/src/Makefile"⟩ "Core" "None"] := by
  have hdistinct : assorted.DistinctPaths := by
    unfold DistinctPaths
    decide
  obtain ⟨hvalue, hproblems⟩ :=
    classify_picks_first_claimant hdistinct overlappingTargets false
  refine ⟨hdistinct, ?_, ?_⟩
  · rw [hvalue]
    decide
  · rw [hproblems]
    decide

end Project

end SolutionPlan
