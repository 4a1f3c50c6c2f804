import SolutionPlan.Description.Solutions
import SolutionPlan.Proofs.Diagnostics

/-!
# The problems of imports

Which imports of an element are followed depends on what it is read as, and each of them that fails
leaves one problem. What a reader records about imports is the list of these problems, in the order
of the document, whatever else there is to say about the description.
-/

namespace SolutionPlan

/-- The problem is one that only an import can have. Any document can be unreadable. -/
def Problem.isImport : Problem → Bool
  | .importWithoutFile | .importCycle _ | .malformedImport .. => true
  | _ => false

/-- The element declares something that needs a name. -/
def Xml.Tag.isDeclaration (t : Xml.Tag) : Bool := (t.attribute? "name").isSome

def Xml.Tag.isAuthored (t : Xml.Tag) : Bool := (t.attribute? "external").isNone && t.isDeclaration

/-! ## Failed imports -/

namespace Node

def Layer.problems (own : Node → List Problem) : Layer → List Problem
  | .problem p => [p]
  | .element e => own e

def layerProblems (own : Node → List Problem) (n : Node) : List Problem :=
  n.layers.flatMap (Layer.problems own)

def plainProblems (n : Node) : List Problem := n.layerProblems fun _ => []

def profileProblems (n : Node) : List Problem :=
  n.layerProblems fun e =>
    (e.first? "shared").toList.flatMap plainProblems ++
      (e.named "configuration").flatMap fun c =>
        if c.tag.isDeclaration then c.plainProblems else []

def projectProblems (n : Node) : List Problem :=
  n.layerProblems fun e => (e.first? "configurations").toList.flatMap profileProblems

mutual

def contentProblems : Node → List Problem
  | .mk _ _ children _ =>
      folderProblems children ++
        (children.filter fun e => e.name == "project").flatMap fun e =>
          if e.tag.isAuthored then e.projectProblems else []

def folderProblems : List Node → List Problem
  | [] => []
  | .mk tag directory children imports :: rest =>
      (if tag.name = "folder" then
        importedContentProblems imports ++ contentProblems (.mk tag directory children imports)
      else []) ++ folderProblems rest

def importedContentProblems : List Imported → List Problem
  | [] => []
  | .failed p :: rest => p :: importedContentProblems rest
  | .loaded root :: rest => contentProblems (root ()) ++ importedContentProblems rest

end

def solutionProblems (n : Node) : List Problem :=
  n.layerProblems fun e =>
    (e.first? "targets").toList.flatMap plainProblems ++
      (e.first? "configurations").toList.flatMap profileProblems ++ e.contentProblems

theorem recorded_readLayers {α : Type} {test : Problem → Bool} {read : Node → α → Logged α}
    {own : Node → List Problem} (h : ∀ e a, (read e a).recorded test = (own e).filter test)
    (n : Node) (start : α) :
    (n.readLayers read start).recorded test = (n.layerProblems own).filter test := by
  unfold readLayers layerProblems
  rw [List.filter_flatMap]
  apply Logged.recorded_foldlM
  intro layer _ a
  cases layer with
  | problem p =>
      simp only [Logged.recorded_bind, Logged.recorded_report, Logged.recorded_pure,
        List.append_nil, Layer.problems]
  | element e => exact h e a

end Node

/-! ## Settings -/

theorem imports_flag (e : Node) (name : String) (fallback : Bool) :
    (e.flag name fallback).recorded Problem.isImport = [] := by
  unfold Node.flag
  split
  · rfl
  · split <;> rfl

theorem imports_collect {α β : Type} {f : α → Logged (List β)}
    (h : ∀ x, (f x).recorded Problem.isImport = []) (xs : List α) :
    (collect xs f).recorded Problem.isImport = [] := by
  unfold collect
  rw [Logged.recorded_bind, Logged.recorded_mapM_eq_nil fun x _ => h x]
  rfl

theorem imports_read (key : SettingKey) (raw : String) :
    (key.read raw).recorded Problem.isImport = [] := by
  unfold SettingKey.read
  simp only
  split
  · split <;> rfl
  · split <;> rfl
  · split <;> rfl
  · rfl
  · rfl

theorem imports_ofText (scope : Scope) (name raw : String) :
    (Edit.ofText scope name raw).recorded Problem.isImport = [] := by
  unfold Edit.ofText SettingKey.readNamed?
  cases SettingKey.lookup? scope name with
  | none => rfl
  | some key =>
      simp only [Option.map_some, Logged.recorded_bind, imports_read]
      rfl

theorem imports_settingEdit (parameters : Parameters) (scope : Scope) (e : Node) :
    (settingEdit parameters scope e).recorded Problem.isImport = [] := by
  unfold settingEdit
  rw [Logged.recorded_bind, imports_ofText]
  rfl

theorem imports_compileEdit (parameters : Parameters) (e : Node) :
    (compileEdit parameters e).recorded Problem.isImport = [] := by
  unfold compileEdit
  simp only
  split
  · split <;> rfl
  · rw [Logged.recorded_bind, imports_ofText]
    rfl

theorem imports_blockWrites (origin : ProfileOrigin) (slot : Slot) (e : Node) :
    (blockWrites origin slot e).recorded Problem.isImport = [] := by
  have hcompile (rule : Option FilePattern) (found : List Edit → List Edit) :
      (do
        let edits ← collect e.children (compileEdit origin.parameters)
        pure ((found edits).map fun edit => (⟨⟨rule, slot⟩, edit⟩ : Write)) :
          Logged (List Write)).recorded Problem.isImport = [] := by
    rw [Logged.recorded_bind, imports_collect (imports_compileEdit _)]
    rfl
  unfold blockWrites
  simp only
  split
  · rfl
  · split
    · split
      · exact hcompile none id
      · split
        · rfl
        · exact hcompile _ (.mention :: ·)
    · split
      · rw [Logged.recorded_bind, imports_collect (imports_settingEdit _ _)]
        rfl
      · rw [Logged.recorded_bind, imports_settingEdit]
        rfl

theorem imports_slotWrites (origin : ProfileOrigin) (slot : Slot) (n : Node) :
    (slotWrites origin slot n).recorded Problem.isImport =
      n.plainProblems.filter Problem.isImport := by
  apply Node.recorded_readLayers
  intro e writes
  rw [Logged.recorded_bind, imports_collect (imports_blockWrites origin slot)]
  rfl

theorem imports_configurationWrites (origin : ProfileOrigin) (e : Node) :
    (configurationWrites origin e).recorded Problem.isImport =
      (if e.tag.isDeclaration then e.plainProblems else []).filter Problem.isImport := by
  unfold configurationWrites Xml.Tag.isDeclaration Node.attribute?
  cases e.tag.attribute? "name" with
  | none => rfl
  | some name => exact imports_slotWrites origin (.named name) e

theorem imports_profileWrites (origin : ProfileOrigin) (n : Node) :
    (profileWrites origin n).recorded Problem.isImport =
      n.profileProblems.filter Problem.isImport := by
  apply Node.recorded_readLayers
  intro e writes
  simp only [collect, Logged.recorded_bind, Logged.recorded_mapM, Logged.recorded_pure,
    imports_slotWrites, imports_configurationWrites, List.append_nil, List.filter_append,
    List.filter_flatMap]

theorem imports_readProfile (origin : ProfileOrigin) (e : Node) (profile : Profile) :
    (readProfile origin e profile).recorded Problem.isImport =
      ((e.first? "configurations").toList.flatMap Node.profileProblems).filter
        Problem.isImport := by
  unfold readProfile
  cases e.first? "configurations" with
  | none => rfl
  | some n =>
      rw [Logged.recorded_bind, imports_profileWrites]
      simp

/-! ## Targets -/

theorem imports_switch? (e : Node) (name : String) :
    (switch? e name).recorded Problem.isImport = [] := by
  unfold switch?
  split
  · rfl
  · simp only
    split <;> rfl

theorem imports_readStepOptions (e : Node) :
    (readStepOptions e).recorded Problem.isImport = [] := by
  unfold readStepOptions
  simp only [Logged.recorded_bind, imports_switch?]
  rfl

theorem imports_readStep (target : String) (e : Node) :
    (readStep target e).recorded Problem.isImport = [] := by
  unfold readStep
  rw [Logged.recorded_bind, Logged.recorded_mapM_eq_nil fun e _ => imports_readStepOptions e]
  apply Logged.recorded_foldlM_eq_nil
  intro block _ step
  unfold readStepBlock
  split
  · rfl
  · rw [Logged.recorded_bind, imports_readStepOptions]
    rfl

theorem imports_readCustomTarget (e : Node) (s : Solution) :
    (readCustomTarget e s).recorded Problem.isImport = [] := by
  unfold readCustomTarget
  split
  · rfl
  · simp only
    split
    · rfl
    · rw [Logged.recorded_bind, Logged.recorded_mapM_eq_nil fun e _ => imports_readStep _ e]
      rfl

theorem imports_readTargets (e : Node) (s : Solution) :
    (readTargets e s).recorded Problem.isImport =
      ((e.first? "targets").toList.flatMap Node.plainProblems).filter Problem.isImport := by
  unfold readTargets
  cases e.first? "targets" with
  | none => rfl
  | some targets =>
      rw [Option.toList_some, List.flatMap_singleton]
      apply Node.recorded_readLayers
      intro layer s
      exact Logged.recorded_foldlM_eq_nil (fun custom _ s => imports_readCustomTarget custom s) _

namespace Workspace

/-! ## Projects -/

theorem imports_readMacros (w : Workspace) (e : Node) (macros : Table String) :
    (w.readMacros e macros).recorded Problem.isImport = [] := by
  have hmacro (e : Node) : (w.readMacro e).recorded Problem.isImport = [] := by
    unfold readMacro
    rw [Logged.recorded_bind, imports_flag]
    rfl
  unfold readMacros
  rw [Logged.recorded_bind, Logged.recorded_mapM_eq_nil fun e _ => hmacro e]
  rfl

theorem imports_expandFiles (w : Workspace) (filter : Filter) (e : Node) :
    (w.expandFiles filter e).recorded Problem.isImport = [] := by
  unfold expandFiles
  split
  · rfl
  · rw [Logged.recorded_bind, imports_flag]
    split <;> rfl

theorem imports_readFilter (w : Workspace) (p : Project) (e : Node) :
    (w.readFilter p e).recorded Problem.isImport = [] := by
  unfold readFilter
  split
  · rfl
  · simp only [Logged.recorded_bind, imports_flag,
      Logged.recorded_mapM_eq_nil fun e _ => w.imports_expandFiles _ e]
    rfl

theorem imports_readReference (p : Project) (e : Node) :
    (readReference p e).recorded Problem.isImport = [] := by
  unfold readReference
  split <;> rfl

theorem imports_readDependency (p : Project) (e : Node) :
    (readDependency p e).recorded Problem.isImport = [] := by
  unfold readDependency
  split <;> rfl

theorem imports_readProjectLayer (w : Workspace) (origin : Path) (e : Node) (p : Project) :
    (w.readProjectLayer origin e p).recorded Problem.isImport =
      ((e.first? "configurations").toList.flatMap Node.profileProblems).filter
        Problem.isImport := by
  unfold readProjectLayer
  simp only [Logged.recorded_bind, imports_readProfile, imports_readMacros]
  rw [Logged.recorded_foldlM_eq_nil fun e _ p => w.imports_readFilter p e,
    Logged.recorded_foldlM_eq_nil fun e _ p => imports_readReference p e,
    Logged.recorded_foldlM_eq_nil fun e _ p => imports_readDependency p e]
  simp

theorem imports_readAuthored (w : Workspace) (e : Node) :
    (w.readAuthored e).recorded Problem.isImport =
      (if e.tag.isDeclaration then e.projectProblems else []).filter Problem.isImport := by
  have hkind (name : String) : (readKind name e).recorded Problem.isImport = [] := by
    unfold readKind
    split
    · rfl
    · split <;> rfl
  unfold readAuthored Xml.Tag.isDeclaration Node.attribute?
  cases e.tag.attribute? "name" with
  | none => rfl
  | some name =>
      simp only [Logged.recorded_bind, Logged.recorded_pure, hkind]
      rw [Node.recorded_readLayers (w.imports_readProjectLayer e.directory)]
      simp [Node.projectProblems]

theorem imports_readProject (w : Workspace) (e : Node) :
    (w.readProject e).recorded Problem.isImport =
      (if e.tag.isAuthored then e.projectProblems else []).filter Problem.isImport := by
  have hexternal (path : Path) (p : Problem) (h : w.readExternal path = .error p) :
      p.isImport = false := by
    unfold readExternal at h
    repeat' split at h
    all_goals cases h
    all_goals rfl
  unfold readProject Xml.Tag.isAuthored Node.attribute?
  cases hattribute : e.tag.attribute? "external" with
  | none =>
      simp only [Option.isNone_none, Bool.true_and]
      exact w.imports_readAuthored e
  | some external =>
      simp only
      split
      · rfl
      · next p hp =>
          simp only [Logged.recorded_bind, Logged.recorded_report, Logged.recorded_pure]
          simp [hexternal _ p hp]

/-! ## Solutions -/

theorem imports_readProjects (w : Workspace) (folder : Option Nat) (s : Solution)
    (es : List Node) :
    (w.readProjects folder s es).recorded Problem.isImport =
      ((es.filter fun e => e.name == "project").flatMap fun e =>
        if e.tag.isAuthored then e.projectProblems else []).filter Problem.isImport := by
  unfold readProjects
  rw [List.filter_flatMap]
  apply Logged.recorded_foldlM
  intro e _ s
  rw [Logged.recorded_bind, imports_readProject, Logged.recorded_pure, List.append_nil]

mutual

theorem imports_readContents (w : Workspace) (folder : Option Nat) (s : Solution) :
    (e : Node) → (w.readContents folder s e).recorded Problem.isImport =
      e.contentProblems.filter Problem.isImport
  | .mk tag directory children imports => by
      rw [readContents, Node.contentProblems, Logged.recorded_bind,
        w.imports_readFolders folder s children, imports_readProjects, List.filter_append]

theorem imports_readFolders (w : Workspace) (folder : Option Nat) (s : Solution) :
    (es : List Node) → (w.readFolders folder s es).recorded Problem.isImport =
      (Node.folderProblems es).filter Problem.isImport
  | [] => by
      rw [readFolders, Node.folderProblems]
      rfl
  | .mk tag directory children imports :: rest => by
      have hname : [Problem.folderWithoutName].filter Problem.isImport = [] := rfl
      rw [readFolders, Node.folderProblems]
      split
      · simp only
        split
        all_goals
          simp only [Logged.recorded_bind, Logged.recorded_report, hname, List.nil_append,
            w.imports_readImportedContents _ _ imports,
            w.imports_readContents _ _ (.mk tag directory children imports),
            w.imports_readFolders folder _ rest, List.filter_append, List.append_assoc]
      · simp only [Logged.recorded_bind, Logged.recorded_pure, List.nil_append,
          w.imports_readFolders folder _ rest]

theorem imports_readImportedContents (w : Workspace) (folder : Option Nat) (s : Solution) :
    (roots : List Imported) → (w.readImportedContents folder s roots).recorded Problem.isImport =
      (Node.importedContentProblems roots).filter Problem.isImport
  | [] => by
      rw [readImportedContents, Node.importedContentProblems]
      rfl
  | .failed p :: rest => by
      rw [readImportedContents, Node.importedContentProblems, Logged.recorded_bind,
        w.imports_readImportedContents folder s rest, Logged.recorded_report, ← List.filter_append]
      rfl
  | .loaded root :: rest => by
      rw [readImportedContents, Node.importedContentProblems, Logged.recorded_bind,
        w.imports_readContents folder s (root ()), w.imports_readImportedContents folder _ rest,
        List.filter_append]

end

theorem imports_readPlatform (s : Solution) (e : Node) :
    (readPlatform s e).recorded Problem.isImport = [] := by
  unfold readPlatform
  split <;> rfl

theorem imports_readSolutionLayer (w : Workspace) (e : Node) (s : Solution) :
    (w.readSolutionLayer e s).recorded Problem.isImport =
      ((e.first? "targets").toList.flatMap Node.plainProblems ++
        (e.first? "configurations").toList.flatMap Node.profileProblems ++
          e.contentProblems).filter Problem.isImport := by
  unfold readSolutionLayer
  simp only [Logged.recorded_bind, imports_readTargets, imports_readProfile, imports_readMacros,
    imports_readContents, List.filter_append, List.nil_append, List.append_assoc]
  rw [Logged.recorded_foldlM_eq_nil fun e _ s => imports_readPlatform s e]
  rfl

/-- Of the imports of a solution exactly the failed ones are recorded. -/
theorem imports_readSolution (w : Workspace) (e : Node) :
    (w.readSolution e).recorded Problem.isImport =
      (if e.tag.isDeclaration then e.solutionProblems else []).filter Problem.isImport := by
  unfold readSolution Xml.Tag.isDeclaration Node.attribute?
  cases e.tag.attribute? "name" with
  | none => rfl
  | some name =>
      simp only [Logged.recorded_bind, Logged.recorded_pure]
      rw [Node.recorded_readLayers w.imports_readSolutionLayer]
      exact List.append_nil _

end Workspace

end SolutionPlan
