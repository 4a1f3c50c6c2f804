import SolutionPlan.Proofs.Diagnostics
import SolutionPlan.Proofs.Resolution.Firsts
import SolutionPlan.Proofs.Solution.Arena
import SolutionPlan.Resolution.Generation

/-!
# What generation adds

Generators read the sources that were not generated, and what they add is generated and has no
target. So all of them derive from the project as it was, whatever earlier ones have added: the new
sources are the paths that are derived first and are no sources yet, and the new filters are the
names that are asked for first and belong to no filter yet.
-/

namespace SolutionPlan

namespace Project

/-! ## What is derived -/

abbrev Turn := Nat × Generator

def turns (targets : List Target) : List Turn :=
  targets.zipIdx.flatMap fun entry => entry.1.generators.map fun g => (entry.2, g)

structure Derivation extends Derived where
  filter : Option String
deriving DecidableEq

/-- What a generator derives from the sources of its target that were not generated themselves. -/
def derivations (p : Project) (turn : Turn) : List Derivation :=
  (p.sources.filter fun s => s.target == some turn.1 && !s.generated).map fun s =>
    ⟨⟨p.expandTemplate turn.2.template s.path, s.filter⟩, turn.2.filter⟩

def demand (p : Project) (turn : Turn) : List String :=
  if (p.derivations turn).isEmpty then [] else turn.2.filter.toList

theorem derived_eq (p : Project) (turn : Turn) :
    p.derived turn.1 turn.2 = (p.derivations turn).map Derivation.toDerived := by
  unfold derived targetSources derivations
  rw [List.filter_filter, List.map_map]
  simp only [Bool.and_comm]
  rfl

/-! ## What is added -/

/-- Names of filters are told apart without regard to ASCII case. -/
def nameKey (name : String) : List Char := name.toList.map Char.toLower

def filterKeys (p : Project) : List (List Char) := p.filters.map fun f => nameKey f.name

def pathKeys (p : Project) : List (List Component) := p.sources.map fun s => s.path.components

def missingNames (p : Project) (turns : List Turn) : List String :=
  firsts nameKey p.filterKeys (turns.flatMap p.demand)

def newDerivations (p : Project) (turns : List Turn) : List Derivation :=
  firsts (fun d => d.path.components) p.pathKeys (turns.flatMap p.derivations)

/-- The source of a derivation: in the first filter of the name that its generator gives, or else in
the filter of its origin. -/
def Derivation.source (filters : List Filter) (d : Derivation) : Source where
  path := d.path
  filter :=
    match d.filter with
    | none => d.origin
    | some name => (filters.findIdx? fun f => Text.sameIgnoringCase f.name name).getD 0
  target := none
  generated := true
  subFilter := none

def grown (p : Project) (turns : List Turn) : Project :=
  let filters := p.filters ++ (p.missingNames turns).map fun name => .rooted name p.directory
  { p with
    filters := filters
    sources := p.sources ++ (p.newDerivations turns).map (Derivation.source filters) }

theorem hasSource_iff_mem {p : Project} {path : Path} :
    p.hasSource path = true ↔ path.components ∈ p.pathKeys := by
  rw [hasSource_iff]
  exact List.mem_map.symm

theorem sameIgnoringCase_iff {a b : String} :
    Text.sameIgnoringCase a b = true ↔ nameKey a = nameKey b := by
  simp [Text.sameIgnoringCase, nameKey]

theorem findFilter?_eq_none_iff {p : Project} {name : String} :
    p.findFilter? name = none ↔ nameKey name ∉ p.filterKeys := by
  unfold findFilter? filterKeys
  rw [List.findIdx?_eq_none_iff, List.mem_map, not_exists]
  refine forall_congr' fun f => ?_
  rw [← Bool.not_eq_true, sameIgnoringCase_iff, not_and]

def place? (filters : List Filter) (name : Option String) : Option Nat :=
  name.map fun name => (filters.findIdx? fun f => Text.sameIgnoringCase f.name name).getD 0

theorem Derivation.source_eq (filters : List Filter) (d : Derivation) :
    d.source filters = ⟨d.path, (place? filters d.filter).getD d.origin, none, true, none⟩ := by
  unfold Derivation.source place?
  cases d.filter <;> rfl

/-! ## One generator -/

theorem foldl_addDerived (filter : Option Nat) (found : List Derivation) (p : Project) :
    (found.map Derivation.toDerived).foldl (addDerived filter) p =
      { p with sources := p.sources ++
          (firsts (fun d => d.path.components) p.pathKeys found).map fun d =>
            ⟨d.path, filter.getD d.origin, none, true, none⟩ } := by
  induction found generalizing p with
  | nil => simp [firsts]
  | cons d rest ih =>
      rw [List.map_cons, List.foldl_cons, ih, firsts]
      by_cases hthere : p.hasSource d.path = true
      · rw [if_pos (hasSource_iff_mem.1 hthere), addDerived, if_pos hthere]
      · rw [if_neg fun h => hthere (hasSource_iff_mem.2 h), addDerived, if_neg hthere, insertSource,
          if_neg hthere]
        simp [pathKeys]

theorem destination_eq (p : Project) (name : String) :
    let names := firsts nameKey p.filterKeys [name]
    let filters := p.filters ++ names.map fun name => .rooted name p.directory
    p.destination name =
      ⟨((filters.findIdx? fun f => Text.sameIgnoringCase f.name name).getD 0,
          { p with filters := filters }),
        names.map fun name => .missingFilter name p.name⟩ := by
  intro names filters
  unfold destination
  cases hfound : p.findFilter? name with
  | none =>
      have hnames : names = [name] := by
        simp only [names, firsts, if_neg (findFilter?_eq_none_iff.1 hfound)]
      have hplace : filters.findIdx? (fun f => Text.sameIgnoringCase f.name name) =
          some p.filters.length := by
        have hnone : p.filters.findIdx? (fun f => Text.sameIgnoringCase f.name name) = none :=
          hfound
        simp only [filters, hnames, List.findIdx?_append, hnone, Option.none_or]
        simp [Filter.rooted, Text.sameIgnoringCase]
      rw [hplace]
      simp only [filters, hnames]
      rfl
  | some i =>
      have hnames : names = [] := by
        have hthere : nameKey name ∈ p.filterKeys := by
          rw [← Decidable.not_not (p := _ ∈ _), ← findFilter?_eq_none_iff, hfound]
          exact Option.some_ne_none i
        simp only [names, firsts, if_pos hthere]
      have hplace : filters.findIdx? (fun f => Text.sameIgnoringCase f.name name) = some i := by
        simp only [filters, hnames, List.map_nil, List.append_nil]
        exact hfound
      rw [hplace]
      simp only [filters, hnames, List.map_nil, List.append_nil]
      rfl

theorem runGenerator_eq (p : Project) (turn : Turn) :
    runGenerator turn.1 p turn.2 =
      ⟨p.grown [turn], (p.missingNames [turn]).map fun name => .missingFilter name p.name⟩ := by
  have hsources (filters : List Filter) :
      (firsts (fun d => d.path.components) p.pathKeys (p.derivations turn)).map
          (Derivation.source filters) =
        (firsts (fun d => d.path.components) p.pathKeys (p.derivations turn)).map fun d =>
          ⟨d.path, (place? filters turn.2.filter).getD d.origin, none, true, none⟩ := by
    apply List.map_congr_left
    intro d hd
    obtain ⟨s, -, rfl⟩ := List.mem_map.1 ((firsts_sublist _ _).subset hd)
    exact Derivation.source_eq filters _
  unfold runGenerator grown missingNames newDerivations
  rw [derived_eq]
  simp only [List.flatMap_cons, List.flatMap_nil, List.append_nil, List.isEmpty_map, hsources]
  by_cases hnone : (p.derivations turn).isEmpty = true
  · rw [if_pos hnone]
    have hdemand : p.demand turn = [] := if_pos hnone
    simp only [hdemand, List.isEmpty_iff.1 hnone, firsts, List.map_nil, List.append_nil]
    rfl
  · rw [if_neg hnone]
    have hdemand : p.demand turn = turn.2.filter.toList := if_neg hnone
    rw [hdemand]
    cases turn.2.filter with
    | none =>
        simp only [Option.toList_none, firsts, List.map_nil, List.append_nil, foldl_addDerived]
        rfl
    | some name =>
        simp only [Option.toList_some]
        rw [destination_eq]
        simp only [foldl_addDerived, bind, pure, List.append_nil]
        rfl

/-! ## All generators -/

section Grown

variable (p : Project) (front back : List Turn)

theorem filters_grown :
    (p.grown front).filters =
      p.filters ++ (p.missingNames front).map fun name => .rooted name p.directory := rfl

theorem sources_grown :
    (p.grown front).sources =
      p.sources ++ (p.newDerivations front).map (Derivation.source (p.grown front).filters) := rfl

/-- What was added is generated, so it is not read by generators. -/
theorem derivations_grown (turn : Turn) :
    (p.grown front).derivations turn = p.derivations turn := by
  have hnew : (((p.newDerivations front).map (Derivation.source (p.grown front).filters)).filter
      fun s => s.target == some turn.1 && !s.generated) = [] := by
    rw [List.filter_eq_nil_iff]
    intro s hs
    obtain ⟨d, -, rfl⟩ := List.mem_map.1 hs
    exact Bool.false_ne_true
  unfold derivations
  rw [sources_grown, List.filter_append, hnew, List.append_nil]
  rfl

theorem demand_grown (turn : Turn) : (p.grown front).demand turn = p.demand turn := by
  unfold demand
  rw [derivations_grown]

theorem filterKeys_grown :
    (p.grown front).filterKeys = p.filterKeys ++ (p.missingNames front).map nameKey := by
  simp [filterKeys, grown, Filter.rooted, Function.comp_def]

theorem pathKeys_grown :
    (p.grown front).pathKeys =
      p.pathKeys ++ (p.newDerivations front).map fun d => d.path.components := by
  simp [pathKeys, grown, Derivation.source, Function.comp_def]

theorem missingNames_append :
    p.missingNames (front ++ back) = p.missingNames front ++ (p.grown front).missingNames back := by
  have hdemand : back.flatMap (p.grown front).demand = back.flatMap p.demand :=
    List.flatMap_congr fun turn _ => p.demand_grown front turn
  unfold missingNames
  rw [List.flatMap_append, firsts_append, filterKeys_grown, hdemand]
  rfl

theorem newDerivations_append :
    p.newDerivations (front ++ back) =
      p.newDerivations front ++ (p.grown front).newDerivations back := by
  have hderived : back.flatMap (p.grown front).derivations = back.flatMap p.derivations :=
    List.flatMap_congr fun turn _ => p.derivations_grown front turn
  unfold newDerivations
  rw [List.flatMap_append, firsts_append, pathKeys_grown, hderived]
  rfl

theorem exists_place_of_mem_newDerivations {d : Derivation} (hd : d ∈ p.newDerivations front)
    {name : String} (hname : d.filter = some name) :
    ∃ i, (p.grown front).findFilter? name = some i := by
  rw [← Option.isSome_iff_exists, Option.isSome_iff_ne_none, ne_eq, findFilter?_eq_none_iff,
    Decidable.not_not, filterKeys_grown, List.mem_append]
  obtain ⟨turn, hturn, hd⟩ := List.mem_flatMap.1 ((firsts_sublist _ _).subset hd)
  have hne : ¬ (p.derivations turn).isEmpty = true := by
    rw [List.isEmpty_iff]
    exact List.ne_nil_of_mem hd
  have hdemand : p.demand turn = [name] := by
    obtain ⟨s, -, rfl⟩ := List.mem_map.1 hd
    rw [demand, if_neg hne]
    exact congrArg Option.toList hname
  have hkey : nameKey name ∈ (front.flatMap p.demand).map nameKey :=
    List.mem_map_of_mem (List.mem_flatMap.2 ⟨turn, hturn, by simp [hdemand]⟩)
  by_cases hknown : nameKey name ∈ p.filterKeys
  · exact .inl hknown
  · exact .inr (mem_map_firsts.2 ⟨hkey, hknown⟩)

theorem source_append {filters more : List Filter} {d : Derivation}
    (h : ∀ name ∈ d.filter,
      ∃ i, filters.findIdx? (fun f => Text.sameIgnoringCase f.name name) = some i) :
    d.source (filters ++ more) = d.source filters := by
  unfold Derivation.source
  cases hname : d.filter with
  | none => rfl
  | some name =>
      obtain ⟨i, hi⟩ := h name hname
      simp only [List.findIdx?_append, hi, Option.some_or]

theorem grown_grown : (p.grown front).grown back = p.grown (front ++ back) := by
  have hfilters : (p.grown (front ++ back)).filters =
      (p.grown front).filters ++ ((p.grown front).missingNames back).map fun name =>
        .rooted name p.directory := by
    rw [filters_grown, filters_grown, missingNames_append, List.map_append, List.append_assoc]
  have hkept : (p.newDerivations front).map (Derivation.source (p.grown (front ++ back)).filters) =
      (p.newDerivations front).map (Derivation.source (p.grown front).filters) := by
    rw [hfilters]
    apply List.map_congr_left
    intro d hd
    apply source_append
    intro name hname
    exact p.exists_place_of_mem_newDerivations front hd hname
  have hsources : (p.grown (front ++ back)).sources =
      (p.grown front).sources ++ ((p.grown front).newDerivations back).map
        (Derivation.source (p.grown (front ++ back)).filters) := by
    rw [sources_grown, newDerivations_append, List.map_append, hkept, ← List.append_assoc,
      ← sources_grown]
  have hall : p.grown (front ++ back) = { p with
      filters := (p.grown (front ++ back)).filters
      sources := (p.grown (front ++ back)).sources } := rfl
  rw [hall, hsources, hfilters]
  rfl

end Grown

theorem foldlM_runGenerator (p : Project) (turns : List Turn) :
    turns.foldlM (fun p turn => runGenerator turn.1 p turn.2) p =
      ⟨p.grown turns, (p.missingNames turns).map fun name => .missingFilter name p.name⟩ := by
  induction turns generalizing p with
  | nil =>
      have hgrown : p.grown [] = p := by simp [grown, missingNames, newDerivations, firsts]
      rw [hgrown]
      rfl
  | cons turn rest ih =>
      rw [List.foldlM_cons, Logged.bind_eq (p.runGenerator_eq turn) (ih (p.grown [turn])),
        grown_grown, List.singleton_append]
      have hnames := p.missingNames_append [turn] rest
      rw [List.singleton_append] at hnames
      rw [hnames, List.map_append]
      rfl

theorem generate_eq (p : Project) (targets : List Target) :
    p.generate targets =
      (turns targets).foldlM (fun p turn => runGenerator turn.1 p turn.2) p := by
  unfold generate turns
  generalize targets.zipIdx = entries
  induction entries generalizing p with
  | nil => rfl
  | cons entry rest ih =>
      rw [List.foldlM_cons, List.flatMap_cons, List.foldlM_append, List.foldlM_map]
      simp only [ih]

theorem exists_newDerivations_iff (p : Project) (turns : List Turn) (path : Path) :
    (∃ d ∈ p.newDerivations turns, d.path.same path = true) ↔
      (∃ turn ∈ turns, ∃ d ∈ p.derivations turn, d.path.same path = true) ∧
        p.hasSource path = false := by
  have hmem (ds : List Derivation) : (∃ d ∈ ds, d.path.same path = true) ↔
      path.components ∈ ds.map fun d => d.path.components := by
    simp [Path.same_iff]
  have hflat : (∃ d ∈ turns.flatMap p.derivations, d.path.same path = true) ↔
      ∃ turn ∈ turns, ∃ d ∈ p.derivations turn, d.path.same path = true := by
    constructor
    · rintro ⟨d, hd, hsame⟩
      obtain ⟨turn, hturn, hd⟩ := List.mem_flatMap.1 hd
      exact ⟨turn, hturn, d, hd, hsame⟩
    · rintro ⟨turn, hturn, d, hd, hsame⟩
      exact ⟨d, List.mem_flatMap.2 ⟨turn, hturn, hd⟩, hsame⟩
  rw [← Bool.not_eq_true, hasSource_iff_mem, hmem, newDerivations, mem_map_firsts, ← hmem, hflat]

/--
Generation keeps every filter and every source in its place and puts new ones behind them. The new
sources are the paths that are derived from the sources that were there, in the order of their first
derivation, without those that are sources already: each path once, generated, without a target, in
the first filter of the name that its generator gives or else in that of its origin. The new filters
are the names that are asked for and missing, each once up to ASCII case, in the directory of the
project file, and each of them is recorded once.
-/
theorem generate_adds_first_derivations (p : Project) (targets : List Target) :
    let added := p.newDerivations (turns targets)
    let names := p.missingNames (turns targets)
    let filters := p.filters ++ names.map fun name => .rooted name p.directory
    (p.generate targets).value =
        { p with
          filters := filters
          sources := p.sources ++ added.map (Derivation.source filters) } ∧
      (p.generate targets).problems = names.map (fun name => .missingFilter name p.name) ∧
      ((added.map fun d => d.path.components).Nodup ∧
        ∀ path, (∃ d ∈ added, d.path.same path = true) ↔
          (∃ turn ∈ turns targets, ∃ d ∈ p.derivations turn, d.path.same path = true) ∧
            p.hasSource path = false) ∧
      (∀ d ∈ added, ∀ name ∈ d.filter,
        ∃ i, filters.findIdx? (fun f => Text.sameIgnoringCase f.name name) = some i) ∧
      (names.map nameKey).Nodup ∧ ∀ name ∈ names, p.findFilter? name = none := by
  intro added names filters
  rw [generate_eq, foldlM_runGenerator]
  refine ⟨rfl, rfl, ⟨nodup_map_firsts _ _, ?_⟩, ?_, nodup_map_firsts _ _, ?_⟩
  · exact p.exists_newDerivations_iff (turns targets)
  · intro d hd name hname
    exact p.exists_place_of_mem_newDerivations (turns targets) hd hname
  · intro name hname
    exact findFilter?_eq_none_iff.2 (mem_map_firsts.1 (List.mem_map_of_mem hname)).2

/-- Two generators derive the same path and ask for a missing filter in two spellings. -/
example :
    let p := { authored "Net" .cpp ⟨"/out/net.vcxproj"⟩ ⟨"/src"⟩ with
      filters := [.rooted "A" ⟨"/src"⟩]
      sources := [⟨⟨"/src/m.proto"⟩, 0, some 0, false, none⟩] }
    let generators := [⟨"$(FileBasename).h", some "gen"⟩, ⟨"m.h", some "GEN"⟩]
    let grown := p.generate [⟨"Proto", [], none, none, generators⟩]
    (grown.value.sources.drop 1, grown.problems) =
      ([⟨⟨"/src/m.h"⟩, 1, none, true, none⟩], [.missingFilter "gen" "Net"]) := by
  decide +kernel

end Project

end SolutionPlan
