import SolutionPlan.Proofs.Solution.Places
import SolutionPlan.Resolution.Basic

/-!
# Every source gets its place

Classification gives a target to all sources that are there, generation adds sources without one,
which the second classification settles, and directory sub-filters are built last. Each pass keeps
what sources refer to in range, and none takes a target away.
-/

namespace SolutionPlan

namespace Project

/-! ## Classification -/

/-- What the passes tell sources apart by. -/
def keys (p : Project) : List (Path × Bool) := p.sources.map fun s => (s.path, s.generated)

theorem keys_modifySource (p : Project) (path : Path) {f : Source → Source}
    (hf : ∀ s, ((f s).path, (f s).generated) = (s.path, s.generated)) :
    (p.modifySource path f).keys = p.keys :=
  map_modifyFirst hf p.sources

/-- Sources stay, what they refer to stays in range, and those with a target keep one. -/
structure Classifies (targets : Nat) (p q : Project) : Prop where
  keys : q.keys = p.keys
  inRange : p.InRange targets → q.InRange targets
  settled : ∀ kind, p.Settled kind → q.Settled kind

namespace Classifies

variable {targets : Nat} {p q r : Project}

theorem refl (targets : Nat) (p : Project) : Classifies targets p p := ⟨rfl, id, fun _ => id⟩

theorem trans (h : Classifies targets p q) (k : Classifies targets q r) :
    Classifies targets p r :=
  ⟨k.keys.trans h.keys, k.inRange ∘ h.inRange, fun kind => k.settled kind ∘ h.settled kind⟩

theorem foldl {α : Type} {step : Project → α → Project} {xs : List α}
    (h : ∀ x ∈ xs, ∀ p, Classifies targets p (step p x)) (p : Project) :
    Classifies targets p (xs.foldl step p) :=
  foldl_related (refl targets) trans (P := fun _ => True) (fun _ _ _ => id)
    (fun x hx p _ => h x hx p) trivial

end Classifies

theorem classifies_assignTarget {targets i : Nat} (hi : i < targets) {p q : Project} {path : Path}
    (h : p.assignTarget path i = .ok q) : Classifies targets p q := by
  unfold assignTarget at h
  cases hfound : p.findSource? path with
  | none =>
      rw [hfound] at h
      obtain rfl := Except.ok.inj h
      exact .refl targets p
  | some s =>
      rw [hfound] at h
      cases htarget : s.target with
      | some existing =>
          simp only [htarget] at h
          cases h
      | none =>
          simp only [htarget] at h
          obtain rfl := Except.ok.inj h
          refine ⟨p.keys_modifySource path fun _ => rfl, ?_, ?_⟩
          · intro hp
            refine hp.modifySource path (fun _ => rfl) ?_
            intro t ht _
            obtain ⟨hfilter, -, hsub⟩ := hp.sources t ht
            exact ⟨hfilter, by simpa using hi, hsub⟩
          · exact fun kind hp => hp.setTarget path i

theorem classifies_claim (targets : List Target) (target : Target) {i : Nat}
    (hi : i < targets.length) (p : Project) (c : Candidate) :
    Classifies targets.length p (claim targets target i p c).value := by
  unfold claim
  split
  · cases hassigned : p.assignTarget c.path i with
    | ok q => exact classifies_assignTarget hi hassigned
    | error kept =>
        simp only
        split <;> exact .refl _ p
  · exact .refl _ p

theorem classifies_claimRest {targets : List Target} (hne : 0 < targets.length) (p : Project)
    (c : Candidate) : Classifies targets.length p (claimRest targets p c).value := by
  unfold claimRest
  cases hassigned : p.assignTarget c.path 0 with
  | ok q => exact classifies_assignTarget hne hassigned
  | error kept => exact .refl _ p

theorem settled_claimRest (targets : List Target) {p : Project} (hp : p.DistinctPaths)
    (c : Candidate) :
    (claimRest targets p c).value.Settled fun s => s.path.same c.path = true := by
  unfold claimRest assignTarget
  cases hfound : p.findSource? c.path with
  | none =>
      apply settled_of_findSource? hp
      simp [hfound]
  | some own =>
      cases htarget : own.target with
      | some existing =>
          simp only [htarget]
          apply settled_of_findSource? hp
          simp [hfound, htarget]
      | none =>
          simp only [htarget, Logged.bind_value, Logged.pure_value]
          have hassigned := hp.modifySource c.path
            (f := fun s => { s with target := some 0 }) fun _ => rfl
          apply settled_of_findSource? hassigned
          rw [findSource?_modifySource (f := fun s => { s with target := some 0 }) fun _ => rfl,
            hfound]
          simp

theorem settled_foldl_claimRest {targets : List Target} (hne : 0 < targets.length)
    {cs : List Candidate} {c : Candidate} (hc : c ∈ cs) {p : Project}
    (hp : p.InRange targets.length) :
    (cs.foldl (fun p c => (claimRest targets p c).value) p).Settled
      fun s => s.path.same c.path = true := by
  induction cs generalizing p with
  | nil => cases hc
  | cons first rest ih =>
      have hstep := classifies_claimRest hne p first
      rcases List.mem_cons.1 hc with rfl | hc
      · have hrest : Classifies targets.length (claimRest targets p c).value
            (rest.foldl (fun p c => (claimRest targets p c).value) _) :=
          .foldl (fun c _ p => classifies_claimRest hne p c) _
        exact hrest.settled _ (settled_claimRest targets hp.distinct c)
      · exact ih hc (hstep.inRange hp)

def claimed (targets : List Target) (cs : List Candidate) (p : Project) : Project :=
  targets.zipIdx.foldl
    (fun p entry => cs.foldl (fun p c => (claim targets entry.1 entry.2 p c).value) p) p

theorem classifies_claimed (targets : List Target) (cs : List Candidate) (p : Project) :
    Classifies targets.length p (claimed targets cs p) := by
  apply Classifies.foldl
  rintro ⟨target, i⟩ hentry p
  have hi : i < targets.length := List.snd_lt_of_mem_zipIdx hentry
  exact .foldl (fun c _ p => classifies_claim targets target hi p c) p

theorem classify_value (p : Project) (targets : List Target) (generated : Bool) :
    (p.classify targets generated).value =
      (p.candidates generated).foldl (fun p c => (claimRest targets p c).value)
        (claimed targets (p.candidates generated) p) := by
  simp [classify, claimed]

theorem classifies_classify {targets : List Target} (hne : 0 < targets.length) (p : Project)
    (generated : Bool) : Classifies targets.length p (p.classify targets generated).value := by
  rw [classify_value]
  apply (classifies_claimed targets (p.candidates generated) p).trans
  exact .foldl (fun c _ p => classifies_claimRest hne p c) _

theorem settled_classify {targets : List Target} (hne : 0 < targets.length) {p : Project}
    (hp : p.InRange targets.length) (generated : Bool) :
    (p.classify targets generated).value.Settled fun s => s.generated = generated := by
  have hall := classifies_classify hne p generated
  intro s hs hgenerated
  have hkey : (s.path, s.generated) ∈ p.keys := by
    rw [← hall.keys]
    exact List.mem_map_of_mem (f := fun s : Source => (s.path, s.generated)) hs
  obtain ⟨start, hstart, hsame⟩ := List.mem_map.1 hkey
  obtain ⟨hpath, hkind⟩ := Prod.mk.inj hsame
  -- A source that has no target in the beginning is a candidate, so the last pass reaches it.
  suffices hsettled : (p.classify targets generated).value.Settled
      fun t => t.path.same start.path = true by
    exact hsettled s hs (Path.same_iff.2 (by rw [hpath]))
  cases htarget : start.target with
  | some i =>
      apply hall.settled
      intro t ht hsame
      rw [eq_of_same hp.distinct ht hstart hsame, htarget]
      rfl
  | none =>
      have hcandidate : ⟨start.path, start.path.extension?.getD ""⟩ ∈ p.candidates generated := by
        refine List.mem_map.2 ⟨start, List.mem_filter.2 ⟨hstart, ?_⟩, rfl⟩
        simp [htarget, hkind, hgenerated]
      have hclaimed := (classifies_claimed targets (p.candidates generated) p).inRange hp
      rw [classify_value]
      exact settled_foldl_claimRest hne hcandidate hclaimed

/-! ## Generation -/

structure Generates (targets : Nat) (p q : Project) : Prop where
  filters : p.filters.length ≤ q.filters.length
  inRange : p.InRange targets → q.InRange targets
  settled : (p.Settled fun s => s.generated = false) → q.Settled fun s => s.generated = false

namespace Generates

variable {targets : Nat} {p q r : Project}

theorem refl (targets : Nat) (p : Project) : Generates targets p p := ⟨Nat.le_refl _, id, id⟩

theorem trans (h : Generates targets p q) (k : Generates targets q r) : Generates targets p r :=
  ⟨Nat.le_trans h.filters k.filters, k.inRange ∘ h.inRange, k.settled ∘ h.settled⟩

theorem foldl {α : Type} {step : Project → α → Project} {xs : List α} {P : Project → Prop}
    (hkeep : ∀ p q, Generates targets p q → P p → P q)
    (h : ∀ x ∈ xs, ∀ p, P p → Generates targets p (step p x)) (hp : P p) :
    Generates targets p (xs.foldl step p) :=
  foldl_related (refl targets) trans hkeep h hp

end Generates

theorem generates_addDerived (targets : Nat) {filter : Option Nat} {d : Derived} {p : Project}
    (hfilter : filter.getD d.origin < p.filters.length) :
    Generates targets p (addDerived filter p d) := by
  unfold addDerived
  split
  · exact .refl targets p
  · next hnew =>
      rw [Bool.not_eq_true] at hnew
      refine ⟨?_, fun hp => hp.insertSource hnew hfilter true, ?_⟩
      · simp only [filters_insertSource, Nat.le_refl]
      · intro hp s hs hgenerated
        unfold insertSource at hs
        rw [hnew, if_neg Bool.false_ne_true] at hs
        rcases List.mem_append.1 hs with hold | hadded
        · exact hp s hold hgenerated
        · obtain rfl := List.mem_singleton.1 hadded
          cases hgenerated

theorem generates_destination (targets : Nat) (p : Project) (name : String) :
    Generates targets p (p.destination name).value.2 ∧
      (p.destination name).value.1 < (p.destination name).value.2.filters.length := by
  unfold destination
  cases hfound : p.findFilter? name with
  | some i =>
      obtain ⟨hlt, -⟩ := List.findIdx?_eq_some_iff_getElem.1 hfound
      exact ⟨.refl targets p, hlt⟩
  | none =>
      constructor
      · refine ⟨?_, fun hp => hp.addFilter _, id⟩
        simp [addFilter]
      · simp [addFilter]

theorem origin_lt_of_derived {targets target : Nat} {p : Project} (hp : p.InRange targets)
    {g : Generator} {d : Derived} (hd : d ∈ p.derived target g) :
    d.origin < p.filters.length := by
  obtain ⟨s, hs, rfl⟩ := List.mem_map.1 hd
  have hs : s ∈ p.targetSources target := (List.mem_filter.1 hs).1
  exact (hp.sources s (List.mem_filter.1 hs).1).filter

theorem generates_foldl_addDerived (targets : Nat) {filter : Option Nat} {found : List Derived}
    {p : Project} (hfound : ∀ d ∈ found, filter.getD d.origin < p.filters.length) :
    Generates targets p (found.foldl (addDerived filter) p) := by
  apply Generates.foldl (P := fun q => p.filters.length ≤ q.filters.length)
  · exact fun q r h hq => Nat.le_trans hq h.filters
  · intro d hd q hq
    exact generates_addDerived targets (Nat.lt_of_lt_of_le (hfound d hd) hq)
  · exact Nat.le_refl _

theorem generates_runGenerator {targets : Nat} (target : Nat) {p : Project}
    (hp : p.InRange targets) (g : Generator) :
    Generates targets p (runGenerator target p g).value := by
  unfold runGenerator
  simp only
  split
  · exact .refl targets p
  · cases g.filter with
    | none => exact generates_foldl_addDerived targets fun d hd => origin_lt_of_derived hp hd
    | some name =>
        obtain ⟨hadded, hlt⟩ := generates_destination targets p name
        exact hadded.trans (generates_foldl_addDerived targets fun _ _ => hlt)

theorem generates_generate {n : Nat} {p : Project} (hp : p.InRange n) (targets : List Target) :
    Generates n p (p.generate targets).value := by
  have hkeep (p q : Project) (h : Generates n p q) : p.InRange n → q.InRange n := h.inRange
  unfold generate
  simp only [Logged.foldlM_value]
  apply Generates.foldl hkeep _ hp
  intro entry _ p hp
  exact Generates.foldl hkeep (fun g _ p hp => generates_runGenerator entry.2 hp g) hp

/-! ## Directory sub-filters -/

theorem ensureSubFilter_spec (f : Filter) (directory : String) :
    (f.ensureSubFilter directory).1 < (f.ensureSubFilter directory).2.subFilters.length ∧
      f.subFilters.length ≤ (f.ensureSubFilter directory).2.subFilters.length := by
  unfold Filter.ensureSubFilter
  cases hfound : f.subFilterIndex? directory with
  | some i =>
      obtain ⟨hlt, -⟩ := List.findIdx?_eq_some_iff_getElem.1 hfound
      exact ⟨hlt, Nat.le_refl _⟩
  | none => simp

theorem ensureChain_spec (f : Filter) (chain : List String) :
    (∀ i ∈ (ensureChain f chain).1, i < (ensureChain f chain).2.subFilters.length) ∧
      f.subFilters.length ≤ (ensureChain f chain).2.subFilters.length := by
  unfold ensureChain
  have hstart : ∀ i ∈ (none : Option Nat), i < f.subFilters.length := nofun
  revert hstart
  generalize (none : Option Nat) = last
  induction chain generalizing f last with
  | nil => exact fun hlast => ⟨hlast, Nat.le_refl _⟩
  | cons directory rest ih =>
      intro _
      obtain ⟨hlt, hle⟩ := ensureSubFilter_spec f directory
      obtain ⟨hlast, hmore⟩ := ih (f.ensureSubFilter directory).2
        (some (f.ensureSubFilter directory).1) (by simpa using hlt)
      exact ⟨hlast, Nat.le_trans hle hmore⟩

def Owned (p : Project) (filter : Nat) (path : Path) : Prop :=
  ∀ s ∈ p.sources, s.path.same path = true → s.filter = filter

/-- Sub-filters are added, what sources refer to stays in range, and filters and targets stay. -/
structure Arranges (targets : Nat) (p q : Project) : Prop where
  inRange : p.InRange targets → q.InRange targets
  settled : (p.Settled fun _ => True) → q.Settled fun _ => True
  owned : ∀ filter path, p.Owned filter path → q.Owned filter path

namespace Arranges

variable {targets : Nat} {p q r : Project}

theorem refl (targets : Nat) (p : Project) : Arranges targets p p := ⟨id, id, fun _ _ => id⟩

theorem trans (h : Arranges targets p q) (k : Arranges targets q r) : Arranges targets p r :=
  ⟨k.inRange ∘ h.inRange, k.settled ∘ h.settled,
    fun filter path => k.owned filter path ∘ h.owned filter path⟩

theorem foldl {α : Type} {step : Project → α → Project} {xs : List α} {P : Project → Prop}
    (hkeep : ∀ p q, Arranges targets p q → P p → P q)
    (h : ∀ x ∈ xs, ∀ p, P p → Arranges targets p (step p x)) (hp : P p) :
    Arranges targets p (xs.foldl step p) :=
  foldl_related (refl targets) trans hkeep h hp

end Arranges

theorem arranges_place (targets : Nat) {filter : Nat} {p : Project} {d : Placement}
    (howned : p.Owned filter d.path) : Arranges targets p (place filter p d) := by
  unfold place
  cases hf : p.filters[filter]? with
  | none => exact .refl targets p
  | some f =>
      obtain ⟨hlast, hmore⟩ := ensureChain_spec f (directoryChain d.directories)
      simp only
      split
      · exact .refl targets p
      · next i g hchain =>
          rw [hchain] at hlast hmore
          have hgrow : FiltersGrow p.filters (p.filters.set filter g) := filtersGrow_set hf hmore
          have hset : (p.filters.set filter g)[filter]? = some g :=
            List.getElem?_set_self (List.getElem?_eq_some_iff.1 hf).1
          refine ⟨?_, ?_, ?_⟩
          · intro hp
            have hextended : { p with filters := p.filters.set filter g }.InRange targets :=
              ⟨hp.distinct, fun s hs => (hp.sources s hs).mono hgrow⟩
            refine hextended.modifySource d.path (fun _ => rfl) ?_
            intro s hs hsame
            obtain ⟨hfilter, htarget, -⟩ := hextended.sources s hs
            refine ⟨hfilter, htarget, ?_⟩
            rintro j hj
            obtain rfl := Option.some.inj hj
            exact ⟨g, by rw [← hset, ← howned s hs hsame], hlast i rfl⟩
          · intro hp s hs _
            rcases mem_modifySource hs with hold | ⟨t, ht, -, rfl⟩
            · exact hp s hold trivial
            · exact hp t ht trivial
          · intro other path hp s hs hsame
            rcases mem_modifySource hs with hold | ⟨t, ht, -, rfl⟩
            · exact hp s hold hsame
            · exact hp t ht hsame

theorem owned_of_filterSources {targets : Nat} {p : Project} (hp : p.InRange targets) {f : Filter}
    {i : Nat} {d : Placement}
    (hd : d ∈ (p.filterSources i).map fun s => (placement f s).value) : p.Owned i d.path := by
  obtain ⟨own, hown, rfl⟩ := List.mem_map.1 hd
  obtain ⟨hmem, hfilter⟩ := List.mem_filter.1 hown
  have hpath : (placement f own).value.path = own.path := by
    unfold placement
    simp only
    split <;> rfl
  intro s hs hsame
  rw [hpath] at hsame
  rw [eq_of_same hp.distinct hs hmem hsame]
  exact beq_iff_eq.1 hfilter

theorem arranges_showDirectories {targets : Nat} {p : Project} (hp : p.InRange targets)
    (i : Nat) : Arranges targets p (p.showDirectories i).value := by
  unfold showDirectories
  split
  · exact .refl targets p
  · next f _ =>
      split
      · simp only [Logged.bind_value, Logged.mapM_value, Logged.pure_value]
        let placements := (p.filterSources i).map fun s => (placement f s).value
        apply Arranges.foldl (P := fun q => ∀ d ∈ placements, q.Owned i d.path)
        · exact fun q r h howned d hd => h.owned i d.path (howned d hd)
        · exact fun d hd q howned => arranges_place targets (howned d hd)
        · exact fun d hd => owned_of_filterSources hp hd
      · exact .refl targets p

theorem arranges_buildDirectories {targets : Nat} {p : Project} (hp : p.InRange targets) :
    Arranges targets p p.buildDirectories.value := by
  unfold buildDirectories
  rw [Logged.foldlM_value]
  apply Arranges.foldl (P := InRange targets)
  · exact fun _ _ h => h.inRange
  · exact fun i _ q hq => arranges_showDirectories hq i
  · exact hp

/-! ## All passes -/

/-- After all passes every source has a target and all that sources refer to exists. -/
theorem placed_resolve {targets : List Target} (hne : 0 < targets.length) {p : Project}
    (hp : p.InRange targets.length) (profile : Profile) :
    (p.resolve profile targets).value.InRange targets.length ∧
      (p.resolve profile targets).value.Settled fun _ => True := by
  unfold resolve
  simp only [Logged.bind_value]
  have hstart : { p with profile := p.profile.inheritFrom profile }.InRange targets.length :=
    ⟨hp.distinct, hp.sources⟩
  generalize { p with profile := p.profile.inheritFrom profile } = start at hstart
  have hfirst := (classifies_classify hne start false).inRange hstart
  have hauthored := settled_classify hne hstart false
  generalize (start.classify targets false).value = classified at hfirst hauthored
  have hgenerates := generates_generate hfirst targets
  have hsecond := hgenerates.inRange hfirst
  have hkept := hgenerates.settled hauthored
  generalize (classified.generate targets).value = generated at hsecond hkept
  have hclassifies := classifies_classify hne generated true
  have hlast := hclassifies.inRange hsecond
  have hnew := settled_classify hne hsecond true
  have hold := hclassifies.settled _ hkept
  have hall : (generated.classify targets true).value.Settled fun _ => True := by
    intro s hs _
    cases hkind : s.generated with
    | true => exact hnew s hs hkind
    | false => exact hold s hs hkind
  have harranges := arranges_buildDirectories hlast
  exact ⟨harranges.inRange hlast, harranges.settled hall⟩

end Project

end SolutionPlan
