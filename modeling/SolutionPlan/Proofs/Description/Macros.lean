import SolutionPlan.Proofs.Description.Solutions
import SolutionPlan.Proofs.Path.Slash

/-!
# Macros

A solution and an authored project record the macros of all their layers, and of those with one name
the last one. A macro that is marked as a path is recorded with slashes. Read back as a path, that
text denotes what the macro's own text denotes in the directory of its document, unless this is the
root.
-/

namespace SolutionPlan

namespace Node

def layerMacros (n : Node) : List Node := ((n.first? "macros").map Node.children).getD []

def ownerMacros (n : Node) : List Node := n.elements.flatMap layerMacros

end Node

namespace Workspace

variable {w : Workspace} {e m : Node} {name : String}

/-! ## What is recorded -/

theorem readMacros_value (w : Workspace) (e : Node) (macros : Table String) :
    (w.readMacros e macros).value =
      macros.putAll (e.layerMacros.map fun m => (w.readMacro m).value) := by
  unfold readMacros
  rw [Logged.bind_value, Logged.mapM_value]
  rfl

theorem macros_readSolutionLayer (w : Workspace) (s : Solution) (layer : Node) :
    (w.readSolutionLayer layer s).value.macros = (w.readMacros layer s.macros).value := by
  have hkeeps : w.ContentInvariant fun t => t.macros = (w.prepared layer s).macros :=
    ⟨fun _ _ ht => ht, fun _ _ _ _ _ ht => ht⟩
  have hcontents := hkeeps.readContents none (w.prepared layer s) layer rfl
  have hmacros : (readTargeted layer s).macros = s.macros := by
    have hbare := congrArg Solution.macros (bare_readTargeted layer s)
    exact hbare
  rw [readSolutionLayer_value, hcontents, ← hmacros]
  rfl

theorem macros_readProjectLayer (w : Workspace) (origin : Path) (p : Project) (layer : Node) :
    (w.readProjectLayer origin layer p).value.macros = (w.readMacros layer p.macros).value := by
  have hfilter (p : Project) (e : Node) : (w.readFilter p e).value.macros = p.macros := by
    have hbare := congrArg Project.macros (w.bare_readFilter p e)
    exact hbare
  have hreference (p : Project) (e : Node) : (readReference p e).value.macros = p.macros := by
    obtain ⟨references, hread⟩ := readReference_value p e
    rw [hread]
  have hdependency (p : Project) (e : Node) : (readDependency p e).value.macros = p.macros := by
    obtain ⟨references, hread⟩ := readDependency_value p e
    rw [hread]
  unfold readProjectLayer
  simp only [Logged.bind_value, Logged.foldlM_value]
  rw [foldl_keeps (g := Project.macros) hdependency, foldl_keeps (g := Project.macros) hreference,
    foldl_keeps (g := Project.macros) hfilter]

theorem foldl_readMacros {α : Type} {step : α → Node → α} {g : α → Table String}
    (hstep : ∀ a layer, g (step a layer) = (w.readMacros layer (g a)).value)
    (layers : List Node) (a : α) :
    g (layers.foldl step a) =
      (g a).putAll ((layers.flatMap Node.layerMacros).map fun m => (w.readMacro m).value) := by
  induction layers generalizing a with
  | nil => rfl
  | cons layer rest ih =>
      rw [List.foldl_cons, ih, hstep, readMacros_value, List.flatMap_cons, List.map_append]
      exact (List.foldl_append ..).symm

/-- The table has what is read from the last macro of each name, and nothing else. -/
def RecordsMacros (w : Workspace) (e : Node) (macros : Table String) : Prop :=
  ∀ name, macros.get? name =
    (e.ownerMacros.filter (·.name == name)).getLast?.map fun m => (w.readMacro m).value.2

theorem recordsMacros_putAll (w : Workspace) (e : Node) :
    w.RecordsMacros e (Table.putAll [] (e.ownerMacros.map fun m => (w.readMacro m).value)) := by
  intro name
  have hentries : (e.ownerMacros.map fun m => (w.readMacro m).value).filter (·.1 == name) =
      (e.ownerMacros.filter (·.name == name)).map fun m => (w.readMacro m).value := by
    rw [List.filter_map]
    rfl
  rw [Table.get?_putAll, hentries, List.getLast?_map, Option.map_map, Table.get?_nil,
    Option.or_none]
  rfl

theorem exists_solution_recordsMacros (h : e.attribute? "name" = some name) :
    ∃ s, (w.readSolution e).value = some s ∧ w.RecordsMacros e s.macros := by
  rw [readSolution_value, h]
  refine ⟨_, rfl, ?_⟩
  rw [foldl_readMacros (g := Solution.macros) w.macros_readSolutionLayer]
  exact w.recordsMacros_putAll e

theorem exists_project_recordsMacros (h : e.attribute? "name" = some name) :
    ∃ p, (w.readAuthored e).value = some p ∧ w.RecordsMacros e p.macros := by
  rw [readAuthored_value, h]
  refine ⟨_, rfl, ?_⟩
  rw [foldl_readMacros (g := Project.macros) (w.macros_readProjectLayer e.directory)]
  exact w.recordsMacros_putAll e

/-! ## Macros that are paths -/

def macroPath (w : Workspace) (m : Node) : Path := m.resolve (w.parameters.expand m.text)

/-- What is recorded for the macro, read as a path, denotes what its text denotes. -/
def KeepsPath (w : Workspace) (m : Node) : Prop :=
  (Path.mk (w.readMacro m).value.2).same (w.macroPath m) = true

theorem keepsPath_iff (h : (m.flag "path" false).value = true) :
    w.KeepsPath m ↔ (w.macroPath m).normal ≠ [.root] := by
  have hnormal : (w.macroPath m).normalize = w.macroPath m := by
    unfold macroPath Node.resolve
    exact Path.normalize_resolve _ _
  have hsame : (w.macroPath m).normalize.same (w.macroPath m) = true := by
    rw [hnormal]
    exact beq_self_eq_true _
  have hvalue : (w.readMacro m).value.2 = (w.macroPath m).toSlash := if_pos h
  rw [← Path.readsBack_iff hsame, KeepsPath, hvalue]
  rfl

/--
The text with slashes of a path that has its normal components is the text of its normal form, in
which no doubled slashes are left to be cleaned up, and it is read back as that path. The root alone
is not read back: it has the empty text. So what is recorded for a macro that is marked as a path is
read back as the path that its expanded text denotes in the directory of its document, exactly if
that path is not the root. What is recorded is in the tables of the solution and of the authored
project that an element with a name declares.
-/
theorem pathsReadBack_iff (w : Workspace) {p : Path} (hp : p.normalize.same p = true)
    (hmarked : (m.flag "path" false).value = true) (hname : e.attribute? "name" = some name) :
    (Path.mk p.toSlash = (if p.normal = [.root] then .empty else p.normalize) ∧
        Text.replace ['/', '/'] ['/'] p.toSlash.toList = p.toSlash.toList ∧
        (p.ReadsBack ↔ p.normal ≠ [.root])) ∧
      (w.KeepsPath m ↔ (w.macroPath m).normal ≠ [.root]) ∧
      (∃ s, (w.readSolution e).value = some s ∧ w.RecordsMacros e s.macros) ∧
      ∃ q, (w.readAuthored e).value = some q ∧ w.RecordsMacros e q.macros := by
  refine ⟨⟨Path.mk_toSlash hp, p.replace_toSlash, Path.readsBack_iff hp⟩, keepsPath_iff hmarked,
    ?_, ?_⟩
  · exact exists_solution_recordsMacros hname
  · exact exists_project_recordsMacros hname

def macroSolution (m : Node) (imports : List Imported) : Node :=
  .mk ⟨none, "solution", [⟨none, "name", "S"⟩], ""⟩ m.directory
    [.plain m.directory "macros" [] "" [m]] imports

/-- A parameter stands in the text of the macro, which has backslashes and climbs. -/
def libraryMacro : Node := .plain ⟨"/w/sln"⟩ "Lib" [("path", "true")] "..\\#[lib]\\.\\x" []

def importedMacro : Node := .plain ⟨"/w"⟩ "Lib" [("path", "true")] "other" []

theorem pathsReadBack_iff_library :
    let p : Path := ⟨"..//../lib/./x.h/"⟩
    let w : Workspace := { literal ⟨"/w/sln"⟩ with parameters := ⟨[("lib", ⟨some "lib", none⟩)]⟩ }
    let e := macroSolution libraryMacro [.loaded fun _ => macroSolution importedMacro []]
    p.normalize.same p = true ∧ (libraryMacro.flag "path" false).value = true ∧
      e.attribute? "name" = some "S" ∧ p.toSlash = "../../lib/x.h" ∧ p.ReadsBack ∧
      w.KeepsPath libraryMacro ∧
      ∃ s, (w.readSolution e).value = some s ∧ s.macros.get? "Lib" = some "/w/lib/x" := by
  intro p w e
  have hp : p.normalize.same p = true := by decide +kernel
  have hmarked : (libraryMacro.flag "path" false).value = true := by decide +kernel
  have hname : e.attribute? "name" = some "S" := rfl
  obtain ⟨⟨-, -, hreads⟩, hkeeps, ⟨s, hs, hrecords⟩, -⟩ := pathsReadBack_iff w hp hmarked hname
  refine ⟨hp, hmarked, hname, by decide +kernel, hreads.2 (by decide +kernel),
    hkeeps.2 (by decide +kernel), s, hs, ?_⟩
  rw [hrecords "Lib"]
  decide +kernel

/-- A macro whose text climbs to the root. -/
def topMacro : Node := .plain ⟨"/w"⟩ "Top" [("path", "true")] ".." []

/-- The root has the empty text, and that is what a solution records for a macro that denotes it. -/
theorem not_readsBack_root :
    (Path.mk "/").normalize.same ⟨"/"⟩ = true ∧ ¬ (Path.mk "/").ReadsBack ∧
      (topMacro.flag "path" false).value = true ∧
      (literal ⟨"/w"⟩).macroPath topMacro = ⟨"/"⟩ ∧ ¬ (literal ⟨"/w"⟩).KeepsPath topMacro ∧
      ((literal ⟨"/w"⟩).readSolution (macroSolution topMacro [])).value.map Solution.macros =
        some [("Top", "")] := by
  unfold Path.ReadsBack KeepsPath
  decide +kernel

end Workspace

end SolutionPlan
