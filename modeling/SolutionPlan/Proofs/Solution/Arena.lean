import Mathlib.Data.List.Induction
import SolutionPlan.Proofs.Solution.Places

/-!
# Sources under operations

Filters are added, sources are included, inserted and excluded, and targets are assigned, in any
order. After every such history the sources are told apart by their paths, belong to filters that
are there, stand in the order in which they arrived, and keep the first target that they were given.
-/

namespace SolutionPlan

theorem modifyFirst_congr {α : Type} {test : α → Bool} {f g : α → α} {l : List α}
    (h : ∀ a ∈ l.find? test, f a = g a) : modifyFirst test f l = modifyFirst test g l := by
  induction l with
  | nil => rfl
  | cons first rest ih =>
      cases hfirst : test first with
      | true =>
          simp only [modifyFirst, hfirst, if_true]
          rw [h first (by simp [hfirst])]
      | false =>
          simp only [modifyFirst, hfirst, Bool.false_eq_true, if_false]
          rw [ih fun a ha => h a (by simpa [hfirst] using ha)]

theorem modifyFirst_id {α : Type} (test : α → Bool) (l : List α) : modifyFirst test id l = l := by
  induction l with
  | nil => rfl
  | cons first rest ih => simp [modifyFirst, ih]

namespace Project

/-! ## Histories -/

inductive Operation where
  | addFilter (f : Filter)
  | includeSource (path : Path) (filter : Nat)
  | insertSource (path : Path) (filter : Nat) (generated : Bool)
  | exclude (path : Path) (filter : Nat)
  | assignTarget (path : Path) (target : Nat)
deriving DecidableEq

namespace Operation

def inserted? : Operation → Option Path
  | .includeSource path _ | .insertSource path _ _ => some path
  | .addFilter _ | .exclude _ _ | .assignTarget _ _ => none

def Allowed (p : Project) : Operation → Prop
  | .includeSource _ filter | .insertSource _ filter _ => filter < p.filters.length
  | .addFilter _ | .exclude _ _ | .assignTarget _ _ => True

instance (p : Project) (op : Operation) : Decidable (op.Allowed p) :=
  match op with
  | .includeSource _ filter | .insertSource _ filter _ =>
      inferInstanceAs (Decidable (filter < p.filters.length))
  | .addFilter _ | .exclude _ _ | .assignTarget _ _ => inferInstanceAs (Decidable True)

end Operation

/-- A source that has a target already is left as it is. -/
def step (p : Project) : Operation → Project
  | .addFilter f => p.addFilter f
  | .includeSource path filter => p.includeSource path filter
  | .insertSource path filter generated => p.insertSource path filter generated
  | .exclude path filter => p.exclude path filter
  | .assignTarget path target => (p.assignTarget path target).toOption.getD p

def run (p : Project) (history : List Operation) : Project := history.foldl step p

theorem run_append (p : Project) (history later : List Operation) :
    p.run (history ++ later) = (p.run history).run later := List.foldl_append

def AllowedAll (p : Project) : List Operation → Prop
  | [] => True
  | op :: rest => op.Allowed p ∧ (p.step op).AllowedAll rest

instance decidableAllowedAll (p : Project) : (history : List Operation) →
    Decidable (p.AllowedAll history)
  | [] => inferInstanceAs (Decidable True)
  | op :: rest =>
      have := decidableAllowedAll (p.step op) rest
      inferInstanceAs (Decidable (op.Allowed p ∧ (p.step op).AllowedAll rest))

/-! ## Changes of single sources -/

private theorem same_eq_false_of_nodup {first : Source} {rest : List Source} {path : Path}
    (hfirst : first.path.same path = true)
    (hnot : first.path.components ∉ rest.map fun s => s.path.components) :
    ∀ s ∈ rest, s.path.same path = false := by
  intro s hs
  rw [Bool.eq_false_iff, ne_eq, Path.same_iff, ← Path.same_iff.1 hfirst]
  intro hsame
  exact hnot (hsame ▸ List.mem_map_of_mem hs)

/-- The paths are distinct, so the first source of a path is the only one. -/
theorem modifySource_eq_map {p : Project} (hp : p.DistinctPaths) (path : Path)
    (f : Source → Source) :
    p.modifySource path f =
      { p with sources := p.sources.map fun s => if s.path.same path then f s else s } := by
  unfold DistinctPaths at hp
  unfold modifySource
  congr 1
  generalize p.sources = sources at hp
  induction sources with
  | nil => rfl
  | cons first rest ih =>
      rw [List.map_cons, List.nodup_cons] at hp
      cases hfirst : first.path.same path with
      | true =>
          have hrest := same_eq_false_of_nodup hfirst hp.1
          have hsame : rest.map (fun s => if s.path.same path then f s else s) = rest := by
            rw [List.map_congr_left (g := id) fun s hs => by simp [hrest s hs], List.map_id]
          simp [modifyFirst, hfirst, hsame]
      | false => simp [modifyFirst, hfirst, ih hp.2]

theorem exclude_eq_filter {p : Project} (hp : p.DistinctPaths) (path : Path) (filter : Nat) :
    p.exclude path filter =
      if p.owns filter path then
        { p with sources := p.sources.filter fun s => !s.path.same path }
      else p := by
  have herase : p.sources.eraseP (fun s => s.path.same path) =
      p.sources.filter fun s => !s.path.same path := by
    unfold DistinctPaths at hp
    generalize p.sources = sources at hp
    induction sources with
    | nil => rfl
    | cons first rest ih =>
        rw [List.map_cons, List.nodup_cons] at hp
        cases hfirst : first.path.same path with
        | true =>
            have hrest := same_eq_false_of_nodup hfirst hp.1
            have hsame : rest.filter (fun s => !s.path.same path) = rest :=
              List.filter_eq_self.2 fun s hs => by simp [hrest s hs]
            simp [hfirst, hsame]
        | false => simp [hfirst, ih hp.2]
  unfold exclude
  rw [herase]

theorem insertSource_of_hasSource {p : Project} (hp : p.DistinctPaths) {path : Path}
    (h : p.hasSource path = true) (filter : Nat) (generated : Bool) :
    p.insertSource path filter generated =
      { p with sources := p.sources.map fun s =>
          if s.path.same path then { s with filter := filter } else s } := by
  unfold insertSource
  rw [if_pos h, modifySource_eq_map hp]

theorem step_assignTarget (p : Project) (path : Path) (target : Nat) :
    p.step (.assignTarget path target) =
      p.modifySource path fun s => { s with target := s.target.or (some target) } := by
  have hchanged {f : Source → Source} (h : ∀ s ∈ p.findSource? path,
      f s = { s with target := s.target.or (some target) }) :
      p.modifySource path f =
        p.modifySource path fun s => { s with target := s.target.or (some target) } := by
    unfold modifySource
    congr 1
    exact modifyFirst_congr h
  have hid : p.modifySource path id = p := by
    unfold modifySource
    rw [modifyFirst_id]
  unfold step
  simp only [assignTarget]
  cases hfound : p.findSource? path with
  | none =>
      rw [← hchanged (f := id) (by simp [hfound]), hid]
      rfl
  | some own =>
      cases htarget : own.target with
      | some existing =>
          have hkept : ∀ s ∈ p.findSource? path,
              id s = { s with target := s.target.or (some target) } := by
            intro s hs
            obtain rfl := Option.some.inj (hfound.symm.trans hs)
            rw [htarget, Option.some_or, ← htarget]
            rfl
          rw [← hchanged hkept, hid]
          simp only [htarget]
          rfl
      | none =>
          rw [← hchanged (f := fun s => { s with target := some target })
            (by simp [hfound, htarget])]
          simp only [htarget]
          rfl

theorem hasSource_iff {p : Project} {path : Path} :
    p.hasSource path = true ↔ ∃ s ∈ p.sources, s.path.components = path.components := by
  unfold hasSource
  rw [Option.isSome_iff_ne_none, ne_eq, findSource?_eq_none_iff, Decidable.not_not]
  simp

theorem hasSource_of_mem {p : Project} {s : Source} (hs : s ∈ p.sources) :
    p.hasSource s.path = true :=
  hasSource_iff.2 ⟨s, hs, rfl⟩

/-! ## What one operation does -/

/-- The other source has the path of this one and its target, if it has one. -/
def Succeeds (s t : Source) : Prop := t.path = s.path ∧ ∀ i ∈ s.target, t.target = some i

/-- An operation changes sources without their paths and targets, adds a source behind all others,
or takes one away. -/
theorem step_cases {p : Project} (hp : p.DistinctPaths) (op : Operation) :
    (∃ f, (∀ s, Succeeds s (f s)) ∧ (p.step op).sources = p.sources.map f) ∨
      (∃ s, op.inserted? = some s.path ∧ p.hasSource s.path = false ∧
        (p.step op).sources = p.sources ++ [s]) ∨
      ∃ path filter, op = .exclude path filter ∧ p.owns filter path = true ∧
        (p.step op).sources = p.sources.filter fun s => !s.path.same path := by
  have hsame : ∃ f, (∀ s, Succeeds s (f s)) ∧ p.sources = p.sources.map f :=
    ⟨id, fun s => ⟨rfl, fun _ => id⟩, (List.map_id _).symm⟩
  have hinsert (path : Path) (filter : Nat) (generated : Bool)
      (hop : op.inserted? = some path) :
      (∃ f, (∀ s, Succeeds s (f s)) ∧
        (p.insertSource path filter generated).sources = p.sources.map f) ∨
        ∃ s, op.inserted? = some s.path ∧ p.hasSource s.path = false ∧
          (p.insertSource path filter generated).sources = p.sources ++ [s] := by
    cases hfound : p.hasSource path with
    | true =>
        rw [insertSource_of_hasSource hp hfound]
        refine .inl ⟨_, fun s => ?_, rfl⟩
        split <;> exact ⟨rfl, fun _ => id⟩
    | false =>
        refine .inr ⟨⟨path, filter, none, generated, none⟩, hop, hfound, ?_⟩
        simp [insertSource, hfound]
  cases op with
  | addFilter f => exact .inl hsame
  | includeSource path filter =>
      rcases hinsert path filter false rfl with h | h
      · exact .inl h
      · exact .inr (.inl h)
  | insertSource path filter generated =>
      rcases hinsert path filter generated rfl with h | h
      · exact .inl h
      · exact .inr (.inl h)
  | exclude path filter =>
      cases howns : p.owns filter path with
      | true =>
          refine .inr (.inr ⟨path, filter, rfl, howns, ?_⟩)
          simp only [step, exclude_eq_filter hp, howns, if_true]
      | false =>
          refine .inl ?_
          simpa only [step, exclude_eq_filter hp, howns, Bool.false_eq_true, if_false] using hsame
  | assignTarget path target =>
      rw [step_assignTarget, modifySource_eq_map hp]
      refine .inl ⟨_, fun s => ?_, rfl⟩
      split
      · refine ⟨rfl, ?_⟩
        intro i hi
        rw [Option.mem_def.1 hi, Option.some_or]
      · exact ⟨rfl, fun _ => id⟩

theorem DistinctPaths.step {p : Project} (hp : p.DistinctPaths) (op : Operation) :
    (p.step op).DistinctPaths := by
  unfold DistinctPaths at hp ⊢
  rcases step_cases hp op with ⟨f, hf, heq⟩ | ⟨s, -, hnew, heq⟩ | ⟨path, filter, -, -, heq⟩
  · rw [heq, List.map_map]
    simpa only [Function.comp_def, (hf _).1] using hp
  · rw [heq, List.map_append]
    rw [← Bool.not_eq_true, hasSource_iff] at hnew
    refine List.nodup_append.2 ⟨hp, by simp, ?_⟩
    rintro key hkey other hother rfl
    obtain ⟨t, ht, rfl⟩ := List.mem_map.1 hkey
    exact hnew ⟨t, ht, by simpa using hother⟩
  · rw [heq]
    exact List.Nodup.sublist (List.filter_sublist.map _) hp

theorem filter_lt_step {p : Project} (hp : ∀ s ∈ p.sources, s.filter < p.filters.length)
    {op : Operation} (hop : op.Allowed p) :
    ∀ s ∈ (p.step op).sources, s.filter < (p.step op).filters.length := by
  have hinsert (path : Path) (filter : Nat) (generated : Bool) (h : filter < p.filters.length) :
      ∀ s ∈ (p.insertSource path filter generated).sources,
        s.filter < (p.insertSource path filter generated).filters.length := by
    rw [filters_insertSource]
    unfold Project.insertSource
    split
    · intro s hs
      rcases mem_modifySource hs with hold | ⟨t, -, -, rfl⟩
      · exact hp s hold
      · exact h
    · intro s hs
      rcases List.mem_append.1 hs with hold | hadded
      · exact hp s hold
      · obtain rfl := List.mem_singleton.1 hadded
        exact h
  cases op with
  | addFilter f =>
      intro s hs
      have hlt := hp s hs
      simp only [step, addFilter, List.length_append, List.length_singleton]
      omega
  | includeSource path filter => exact hinsert path filter false hop
  | insertSource path filter generated => exact hinsert path filter generated hop
  | exclude path filter =>
      simp only [step, filters_exclude]
      unfold Project.exclude
      split
      · exact fun s hs => hp s (List.mem_of_mem_eraseP hs)
      · exact hp
  | assignTarget path target =>
      rw [step_assignTarget]
      intro s hs
      rcases mem_modifySource hs with hold | ⟨t, ht, -, rfl⟩
      · exact hp s hold
      · exact hp t ht

theorem target_step {p : Project} (hp : p.DistinctPaths) {path : Path} {s : Source} {i : Nat}
    (hs : p.findSource? path = some s) (hi : s.target = some i) {op : Operation}
    (hstays : (p.step op).hasSource path = true) :
    ∃ t, (p.step op).findSource? path = some t ∧ t.target = some i := by
  have hmem := List.mem_of_find?_eq_some hs
  have hpath := path_of_findSource? hs
  have hstep := hp.step op
  rcases step_cases hp op with ⟨f, hf, heq⟩ | ⟨new, -, -, heq⟩ | ⟨other, filter, -, -, heq⟩
  · obtain ⟨hsame, htarget⟩ := hf s
    refine ⟨f s, findSource?_of_mem hstep ?_ ?_, htarget i hi⟩
    · rw [heq]
      exact List.mem_map_of_mem hmem
    · rw [hsame, hpath]
  · refine ⟨s, findSource?_of_mem hstep ?_ hpath, hi⟩
    rw [heq]
    exact List.mem_append_left _ hmem
  · obtain ⟨t, ht, htpath⟩ := hasSource_iff.1 hstays
    have htmem : t ∈ p.sources := by
      rw [heq] at ht
      exact (List.mem_filter.1 ht).1
    obtain rfl : t = s := eq_of_same hp htmem hmem (Path.same_iff.2 (htpath.trans hpath.symm))
    exact ⟨t, findSource?_of_mem hstep ht htpath, hi⟩

/-! ## Whole histories -/

theorem DistinctPaths.run {p : Project} (hp : p.DistinctPaths) (history : List Operation) :
    (p.run history).DistinctPaths := by
  induction history generalizing p with
  | nil => exact hp
  | cons op rest ih => exact ih (hp.step op)

theorem filter_lt_run {p : Project} (hp : ∀ s ∈ p.sources, s.filter < p.filters.length)
    {history : List Operation} (h : p.AllowedAll history) :
    ∀ s ∈ (p.run history).sources, s.filter < (p.run history).filters.length := by
  induction history generalizing p with
  | nil => exact hp
  | cons op rest ih => exact ih (filter_lt_step hp h.1) h.2

theorem target_run {p : Project} (hp : p.DistinctPaths) {path : Path} {s : Source} {i : Nat}
    (hs : p.findSource? path = some s) (hi : s.target = some i) {later : List Operation}
    (hstays : ∀ n, (p.run (later.take n)).hasSource path = true) :
    ∃ t, (p.run later).findSource? path = some t ∧ t.target = some i := by
  induction later generalizing p s with
  | nil => exact ⟨s, hs, hi⟩
  | cons op rest ih =>
      have hstay : (p.step op).hasSource path = true := hstays 1
      obtain ⟨t, ht, htarget⟩ := target_step hp hs hi hstay
      exact ih (hp.step op) ht htarget fun n => hstays (n + 1)

/-! ## Arrivals -/

/-- The operation at this place put the path among the sources, and it has been there since. -/
structure ArrivedAt (start : Project) (history : List Operation) (path : Path) (n : Nat) :
    Prop where
  operation : ∃ op, history[n]? = some op ∧ op.inserted? = some path
  absent : (start.run (history.take n)).hasSource path = false
  present : ∀ m, n < m → (start.run (history.take m)).hasSource path = true

section Arrivals

variable {start : Project} {history : List Operation} {op : Operation} {path : Path} {m n : Nat}

theorem ArrivedAt.unique (hm : ArrivedAt start history path m)
    (hn : ArrivedAt start history path n) : m = n := by
  rcases Nat.lt_trichotomy m n with h | h | h
  · exact absurd (hm.present n h) (by simp [hn.absent])
  · exact h
  · exact absurd (hn.present m h) (by simp [hm.absent])

theorem ArrivedAt.lt_length (h : ArrivedAt start history path n) : n < history.length := by
  obtain ⟨op, hop, -⟩ := h.operation
  exact (List.getElem?_eq_some_iff.1 hop).1

/-- A further operation that leaves the path among the sources does not change its arrival. -/
theorem ArrivedAt.concat (h : ArrivedAt start history path n)
    (hstays : (start.run (history ++ [op])).hasSource path = true) :
    ArrivedAt start (history ++ [op]) path n := by
  have hlt := h.lt_length
  refine ⟨?_, ?_, ?_⟩
  · rw [List.getElem?_append_left hlt]
    exact h.operation
  · rw [List.take_append_of_le_length (by omega)]
    exact h.absent
  · intro k hk
    by_cases hle : k ≤ history.length
    · rw [List.take_append_of_le_length hle]
      exact h.present k hk
    · rw [List.take_of_length_le (by simp; omega)]
      exact hstays

theorem arrivedAt_length (hop : op.inserted? = some path)
    (hnew : (start.run history).hasSource path = false)
    (hadded : (start.run (history ++ [op])).hasSource path = true) :
    ArrivedAt start (history ++ [op]) path history.length := by
  refine ⟨⟨op, by simp, hop⟩, by simpa using hnew, ?_⟩
  intro k hk
  rw [List.take_of_length_le (by simp; omega)]
  exact hadded

/-- What was there before the last operation arrived before it. -/
theorem ArrivedAt.of_concat (h : ArrivedAt start (history ++ [op]) path n)
    (hbefore : (start.run history).hasSource path = true) : ArrivedAt start history path n := by
  have hlt : n < history.length := by
    have hle := h.lt_length
    rw [List.length_append, List.length_singleton] at hle
    rcases Nat.lt_succ_iff_lt_or_eq.1 hle with hlt | rfl
    · exact hlt
    · have habsent := h.absent
      rw [List.take_left] at habsent
      exact absurd hbefore (by simp [habsent])
  refine ⟨?_, ?_, ?_⟩
  · obtain ⟨other, hget, hother⟩ := h.operation
    rw [List.getElem?_append_left hlt] at hget
    exact ⟨other, hget, hother⟩
  · have habsent := h.absent
    rwa [List.take_append_of_le_length (by omega)] at habsent
  · intro k hk
    by_cases hle : k ≤ history.length
    · have hpresent := h.present k hk
      rwa [List.take_append_of_le_length hle] at hpresent
    · rw [List.take_of_length_le (by omega)]
      exact hbefore

/-- Every source has arrived at some time, and earlier ones stand before later ones. -/
structure InOrder (start : Project) (history : List Operation) : Prop where
  arrived : ∀ s ∈ (start.run history).sources, ∃ n, ArrivedAt start history s.path n
  ordered : (start.run history).sources.Pairwise fun s t =>
    ∀ m n, ArrivedAt start history s.path m → ArrivedAt start history t.path n → m < n

theorem InOrder.concat (hstart : start.DistinctPaths) (h : InOrder start history)
    (op : Operation) : InOrder start (history ++ [op]) := by
  have hrun : start.run (history ++ [op]) = (start.run history).step op := start.run_append _ _
  have harrived {s t : Source} (hs : s ∈ (start.run (history ++ [op])).sources)
      (ht : t ∈ (start.run history).sources) (hpath : t.path = s.path) :
      ∃ n, ArrivedAt start (history ++ [op]) s.path n := by
    obtain ⟨n, hn⟩ := h.arrived t ht
    rw [hpath] at hn
    exact ⟨n, hn.concat (hasSource_of_mem hs)⟩
  have hordered : (start.run history).sources.Pairwise fun s t => ∀ m n,
      ArrivedAt start (history ++ [op]) s.path m →
        ArrivedAt start (history ++ [op]) t.path n → m < n :=
    h.ordered.imp_of_mem fun {s t} hs ht hlt m n hm hn =>
      hlt m n (hm.of_concat (hasSource_of_mem hs)) (hn.of_concat (hasSource_of_mem ht))
  rcases step_cases (hstart.run history) op with
    ⟨f, hf, heq⟩ | ⟨new, hop, hnew, heq⟩ | ⟨other, filter, -, -, heq⟩
  · rw [← hrun] at heq
    constructor
    · intro s hs
      obtain ⟨t, ht, rfl⟩ := List.mem_map.1 (heq ▸ hs)
      exact harrived hs ht (hf t).1.symm
    · rw [heq, List.pairwise_map]
      simpa only [(hf _).1] using hordered
  · rw [← hrun] at heq
    have hadded : new ∈ (start.run (history ++ [op])).sources := by simp [heq]
    have hlast := arrivedAt_length hop hnew (hasSource_of_mem hadded)
    constructor
    · intro s hs
      rcases List.mem_append.1 (heq ▸ hs) with hold | hsame
      · exact harrived hs hold rfl
      · obtain rfl := List.mem_singleton.1 hsame
        exact ⟨_, hlast⟩
    · rw [heq, List.pairwise_append]
      refine ⟨hordered, by simp, ?_⟩
      intro s hs t ht m n hm hn
      obtain rfl := List.mem_singleton.1 ht
      rw [hn.unique hlast]
      exact (hm.of_concat (hasSource_of_mem hs)).lt_length
  · rw [← hrun] at heq
    constructor
    · intro s hs
      exact harrived hs (List.mem_filter.1 (heq ▸ hs)).1 rfl
    · rw [heq]
      exact hordered.filter _

theorem inOrder_run (hempty : start.sources = []) (history : List Operation) :
    InOrder start history := by
  have hstart : start.DistinctPaths := by simp [DistinctPaths, hempty]
  induction history using List.reverseRecOn with
  | nil =>
      constructor
      · intro s hs
        rw [run, List.foldl_nil, hempty] at hs
        cases hs
      · rw [run, List.foldl_nil, hempty]
        exact .nil
  | append_singleton history op ih => exact ih.concat hstart op

end Arrivals

/-! ## The sources after any history -/

structure Consistent (p : Project) : Prop where
  stored : ∀ s ∈ p.sources, p.findSource? s.path = some s
  distinct : p.DistinctPaths
  filter : ∀ s ∈ p.sources, s.filter < p.filters.length
  listed : ∀ s ∈ p.sources, ∃! i, i < p.filters.length ∧ s ∈ p.filterSources i

theorem consistent_of_distinct {p : Project} (hp : p.DistinctPaths)
    (hfilter : ∀ s ∈ p.sources, s.filter < p.filters.length) : p.Consistent := by
  refine ⟨fun s hs => findSource?_of_mem hp hs rfl, hp, hfilter, ?_⟩
  intro s hs
  refine ⟨s.filter, ⟨hfilter s hs, List.mem_filter.2 ⟨hs, by simp⟩⟩, ?_⟩
  rintro i ⟨-, hi⟩
  exact (beq_iff_eq.1 (List.mem_filter.1 hi).2).symm

theorem owns_iff {p : Project} {filter : Nat} {path : Path} :
    p.owns filter path = true ↔ p.owner? path = some filter := by
  unfold owns owner?
  cases p.findSource? path <;> simp

/--
After any operations on a project without sources that put sources only into filters that are
there, the project is consistent and its sources stand in the order of their arrival. From
there on including a source that is there changes only its filter, excluding a path takes away its
source exactly if the filter owns it and changes nothing else, and whatever follows, a target stays
as long as its source does.
-/
theorem sources_consistent_run (start : Project) (hsources : start.sources = [])
    (history : List Operation) (hallowed : start.AllowedAll history) :
    let p := start.run history
    p.Consistent ∧ InOrder start history ∧
      (∀ path filter generated, p.hasSource path = true →
        p.insertSource path filter generated =
            { p with sources := p.sources.map fun s =>
                if s.path.same path then { s with filter := filter } else s } ∧
          p.includeSource path filter = p.insertSource path filter generated) ∧
      (∀ path filter, p.exclude path filter =
        if p.owner? path = some filter then
          { p with sources := p.sources.filter fun s => !s.path.same path }
        else p) ∧
      ∀ later path s i, p.findSource? path = some s → s.target = some i →
        (∀ n, (p.run (later.take n)).hasSource path = true) →
          ∃ t, (p.run later).findSource? path = some t ∧ t.target = some i := by
  intro p
  have hstart : start.DistinctPaths := by simp [DistinctPaths, hsources]
  have hdistinct : p.DistinctPaths := hstart.run history
  have hfilter := filter_lt_run (by simp [hsources]) hallowed
  refine ⟨consistent_of_distinct hdistinct hfilter, inOrder_run hsources history, ?_, ?_, ?_⟩
  · intro path filter generated hthere
    have hmoved := insertSource_of_hasSource hdistinct hthere filter
    exact ⟨hmoved generated, (hmoved false).trans (hmoved generated).symm⟩
  · intro path filter
    simp only [exclude_eq_filter hdistinct, owns_iff]
  · intro later path s i hs hi hstays
    exact target_run hdistinct hs hi hstays

/-- Two filters share a source, which moves, is given a target and is excluded by its old filter,
while the other one leaves and comes back. -/
def sharing : List Operation :=
  [.addFilter (.rooted "A" ⟨"/w"⟩), .addFilter (.rooted "B" ⟨"/w"⟩),
    .includeSource ⟨"/w/x.c"⟩ 0, .includeSource ⟨"/w/y.c"⟩ 0, .assignTarget ⟨"/w/y.c"⟩ 1,
    .includeSource ⟨"/w//y.c"⟩ 1, .exclude ⟨"/w/y.c"⟩ 0, .exclude ⟨"/w/x.c"⟩ 0,
    .insertSource ⟨"/w/x.c"⟩ 1 true, .assignTarget ⟨"/w/y.c"⟩ 2]

theorem sources_consistent_run_sharing :
    let start := authored "P" .cpp ⟨"/w/p.vcxproj"⟩ ⟨"/w"⟩
    let p := start.run sharing
    start.AllowedAll sharing ∧ p.Consistent ∧ InOrder start sharing ∧
      p.sources = [⟨⟨"/w/y.c"⟩, 1, some 1, false, none⟩, ⟨⟨"/w/x.c"⟩, 1, none, true, none⟩] := by
  intro start p
  have hallowed : start.AllowedAll sharing := by decide +kernel
  obtain ⟨hconsistent, horder, -⟩ := sources_consistent_run start rfl sharing hallowed
  exact ⟨hallowed, hconsistent, horder, by decide +kernel⟩

end Project

end SolutionPlan
