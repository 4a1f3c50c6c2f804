import SolutionPlan.Proofs.Description.SectionOrder

/-!
# The turn of a flaw

By induction on the way from a flaw to the root of the tree, each element on it is read with one
turn for the flaw: the section that reads the child has it, and the others do not look at the child.
-/

namespace SolutionPlan

variable {F : Type} {problem : F → Problem} {w : Workspace}

/-- The tree is read with one turn for the flaw, whatever was read before it. -/
def Reading.Steady (w : Workspace) (problem : F → Problem) (tree : At F → Node) :
    Reading → Prop
  | .root => OneTurn problem fun x => w.readRoot (tree x)
  | .solution name directory => ∀ s : Solution, s.name = name ∧ s.directory = directory →
    OneTurn problem fun x => (tree x).readLayers (readSections w.solutionSections) s
  | .platforms =>
      ∀ s, OneTurn problem fun x => ((tree x).named "platform").foldlM Workspace.readPlatform s
  | .targets => ∀ s, OneTurn problem fun x => (tree x).readLayers (readSections targetSections) s
  | .custom target => (∀ x, (tree x).attribute? "name" = some target) →
    ∀ s, OneTurn problem fun x => readCustomTarget (tree x) s
  | .build target => OneTurn problem fun x => readStep target (tree x)
  | .profile owner directory => ∀ writes, OneTurn problem fun x =>
      (tree x).readLayers (readSections (profileSections ⟨w.parameters, directory, owner⟩)) writes
  | .slot directory => ∀ owner slot writes, OneTurn problem fun x =>
      (tree x).readLayers (readSections (slotSections ⟨w.parameters, directory, owner⟩ slot)) writes
  | .compile => OneTurn problem fun x => collect (tree x).children (compileEdit w.parameters)
  | .link => OneTurn problem fun x => collect (tree x).children (settingEdit w.parameters .link)
  | .contents =>
      ∀ folder s, OneTurn problem fun x => readSections (w.contentSections folder) (tree x) s
  | .folder => (∀ x, (tree x).name = "folder") →
    ∀ parent s, OneTurn problem fun x => w.readFolders parent s [tree x]
  | .project name directory => ∀ p : Project, p.name = name →
    OneTurn problem fun x => (tree x).readLayers (readSections (w.projectSections directory)) p
  | .filter name => (∀ x, (tree x).attribute? "name" = some name) →
    ∀ p, OneTurn problem fun x => w.readFilter p (tree x)

/-! ## One child -/

section Child

variable {tree : At F → Node}

theorem foldlM_singleton {S : Type} {step : S → Node → Logged S} {s : S}
    (h : OneTurn problem fun x => step s (tree x)) :
    OneTurn problem fun x => [tree x].foldlM step s := by
  simpa only [List.foldlM_cons, List.foldlM_nil, bind_pure] using h

theorem oneTurn_collect_singleton {β : Type} {read : Node → Logged (List β)}
    (h : OneTurn problem fun x => read (tree x)) :
    OneTurn problem fun x => collect [tree x] read := by
  simpa only [collect_singleton] using h

end Child

/-! ## One flaw -/

namespace Flaw

variable {around : Reading} {name : String}

theorem name_of_mem_nodes (x : At (Flaw w around name)) : ∀ e ∈ nodes x, e.name = name := by
  intro e he
  cases x with
  | nothing | stop => cases he
  | flaw flaw =>
      rw [List.mem_singleton.1 he]
      exact flaw.named

theorem imports_of_ne (h : name ≠ "import") :
    (imports : At (Flaw w around name) → List Imported) = fun _ => [] := by
  funext x
  cases x with
  | nothing | stop => rfl
  | flaw flaw => exact flaw.roots_of_ne h

theorem imports_of_import (h : name = "import") (hr : around.importsAs.isSome)
    (x : At (Flaw w around name)) :
    imports x = (x.problems Flaw.problem).map Imported.failed := by
  cases x with
  | nothing | stop => rfl
  | flaw flaw => exact flaw.roots_of_import h hr

theorem foldlM_nodes {S : Type} {step : S → Node → Logged S} {s : S}
    (h : ∀ flaw : Flaw w around name, step s flaw.node = ⟨s, [flaw.problem]⟩) :
    OneTurn Flaw.problem fun x : At (Flaw w around name) => (nodes x).foldlM step s := by
  apply OneTurn.of_report (a := s)
  · rfl
  · intro flaw
    change [flaw.node].foldlM step s = _
    simp only [List.foldlM_cons, List.foldlM_nil, bind_pure]
    exact h flaw
  · rfl

theorem collect_nodes {β : Type} {read : Node → Logged (List β)}
    (h : ∀ flaw : Flaw w around name, read flaw.node = ⟨[], [flaw.problem]⟩) :
    OneTurn Flaw.problem fun x : At (Flaw w around name) => collect (nodes x) read := by
  apply OneTurn.of_report (a := [])
  · rfl
  · intro flaw
    change collect [flaw.node] read = _
    rw [collect_singleton, h flaw]
  · rfl

end Flaw

/-! ## Sections that look at the place -/

section Readings

variable (frame : Frame F) {middle : At F → List Node} {name : String}

theorem steady_root (hnamed : ∀ x, ∀ e ∈ middle x, e.name = "solution")
    (roots : At F → List Imported)
    (h : OneTurn problem fun x =>
      collect (middle x) fun e => Option.toList <$> w.readSolution e) :
    Reading.root.Steady w problem (frame.fill Reading.root.rank "solution" middle roots) := by
  simp only [Reading.Steady, Workspace.readRoot, named_fill frame _ hnamed]
  exact h.collect _ _

theorem steady_platforms (hnamed : ∀ x, ∀ e ∈ middle x, e.name = "platform")
    (roots : At F → List Imported)
    (h : ∀ s, OneTurn problem fun x => (middle x).foldlM Workspace.readPlatform s) :
    Reading.platforms.Steady w problem
      (frame.fill Reading.platforms.rank "platform" middle roots) := by
  intro s
  simp only [named_fill frame _ hnamed]
  exact .foldlM (P := fun _ => True) (fun _ _ _ => trivial) (fun s _ => h s) _ _ trivial

theorem steady_solution {owner : String} {directory : Path}
    (hnamed : ∀ x, ∀ e ∈ middle x, e.name = name) {f : Section Solution}
    (hone : w.solutionSections.filter (fun f => f.looksAt name) = [f])
    (h : ∀ s : Solution, s.name = owner ∧ s.directory = directory → OneTurn problem fun x =>
      f.read (frame.fill (Reading.solution owner directory).rank name middle (fun _ => []) x) s) :
    (Reading.solution owner directory).Steady w problem
      (frame.fill (Reading.solution owner directory).rank name middle fun _ => []) := by
  intro s hs
  exact .readLayers_section frame hnamed (w.layered_solutionSections directory owner) hone
    (w.keeps_solutionSections owner directory) h hs

theorem steady_targets (hnamed : ∀ x, ∀ e ∈ middle x, e.name = "custom")
    (h : ∀ s, OneTurn problem fun x =>
      (middle x).foldlM (fun s custom => readCustomTarget custom s) s) :
    Reading.targets.Steady w problem
      (frame.fill Reading.targets.rank "custom" middle fun _ => []) := by
  intro s
  refine .readLayers_of_forall frame hnamed layered_targetSections rfl
    (.each_of_forall frame _ hnamed rfl ?_ h) s
  exact fun other hother => congrArg _ (beq_iff_eq.1 hother)

theorem steady_build {target : String} (hnamed : ∀ x, ∀ e ∈ middle x, e.name = name)
    (hname : name = "configuration" ∨ name = "configurations")
    (roots : At F → List Imported)
    (h : ∀ step, OneTurn problem fun x => (middle x).foldlM (readStepBlock target) step) :
    (Reading.build target).Steady w problem
      (frame.fill (Reading.build target).rank name middle roots) := by
  have hlooks : (name == "configuration" || name == "configurations") = true := by
    simpa using hname
  have hone : (buildSections target).filter (fun f => f.looksAt name) =
      [.each (fun name => name == "configuration" || name == "configurations")
        (readStepBlock target)] := by
    rcases hname with rfl | rfl <;> rfl
  have horder := inOrder_buildSections target
  simp only [Reading.Steady, readStep_eq_sections]
  refine .readSections_of_forall frame roots hnamed horder hone
    (.each_of_forall frame _ hnamed hlooks ?_ h) _
  intro other hother
  exact horder.level _ (List.mem_of_mem_tail List.mem_cons_self) _ _ hother hlooks

theorem steady_profile {owner : String} {directory : Path}
    (hnamed : ∀ x, ∀ e ∈ middle x, e.name = name) {f : Section (List Write)}
    (hone : (profileSections ⟨w.parameters, directory, owner⟩).filter
      (fun f => f.looksAt name) = [f])
    (h : ∀ writes, OneTurn problem fun x =>
      f.read (frame.fill (Reading.profile owner directory).rank name middle (fun _ => []) x)
        writes) :
    (Reading.profile owner directory).Steady w problem
      (frame.fill (Reading.profile owner directory).rank name middle fun _ => []) := by
  intro writes
  exact .readLayers_of_forall frame hnamed (layered_profileSections directory _ owner) hone h writes

theorem steady_slot {directory : Path} (hnamed : ∀ x, ∀ e ∈ middle x, e.name = name)
    (hname : name ≠ "import")
    (h : ∀ owner slot, OneTurn problem fun x =>
      collect (middle x) (blockWrites ⟨w.parameters, directory, owner⟩ slot)) :
    (Reading.slot directory).Steady w problem
      (frame.fill (Reading.slot directory).rank name middle fun _ => []) := by
  intro owner slot writes
  have hlooks : (name != "import") = true := by simpa using hname
  have hlayered := layered_slotSections directory ⟨w.parameters, directory, owner⟩ slot
  have hone : (slotSections ⟨w.parameters, directory, owner⟩ slot).filter
      (fun f => f.looksAt name) =
        [.gather (· != "import") (blockWrites ⟨w.parameters, directory, owner⟩ slot)] :=
    List.filter_eq_self.2 fun f hf => by rw [List.mem_singleton.1 hf]; exact hlooks
  refine .readLayers_of_forall frame hnamed hlayered hone
    (.gather frame _ hnamed hlooks ?_ (h owner slot)) writes
  exact fun other hother => hlayered.level _ List.mem_cons_self _ _ hother hlooks

theorem steady_compile (roots : At F → List Imported)
    (h : OneTurn problem fun x => collect (middle x) (compileEdit w.parameters)) :
    Reading.compile.Steady w problem (frame.fill Reading.compile.rank name middle roots) := by
  have hlevel (other : String) : Reading.compile.rank other = Reading.compile.rank name := rfl
  simp only [Reading.Steady, children_fill_of_level frame roots middle hlevel]
  exact h.collect _ _

theorem steady_link (roots : At F → List Imported)
    (h : OneTurn problem fun x => collect (middle x) (settingEdit w.parameters .link)) :
    Reading.link.Steady w problem (frame.fill Reading.link.rank name middle roots) := by
  have hlevel (other : String) : Reading.link.rank other = Reading.link.rank name := rfl
  simp only [Reading.Steady, children_fill_of_level frame roots middle hlevel]
  exact h.collect _ _

/-- Folders and projects are read in the same way from a folder and from a solution. -/
theorem steady_contents (hnamed : ∀ x, ∀ e ∈ middle x, e.name = name) {r : Reading}
    (hr : r.hasContents) (hname : name = "folder" ∨ name = "project")
    {step : Option Nat → Solution → Node → Logged Solution}
    (hone : ∀ folder, (w.contentSections folder).filter (fun f => f.looksAt name) =
      [.each (· == name) (step folder)])
    (h : ∀ folder s, OneTurn problem fun x => (middle x).foldlM (step folder) s) :
    r.Steady w problem (frame.fill r.rank name middle fun _ => []) := by
  have hsection (folder : Option Nat) (s : Solution) : OneTurn problem fun x =>
      (Section.each (· == name) (step folder)).read
        (frame.fill r.rank name middle (fun _ => []) x) s := by
    refine .each_of_forall frame _ hnamed ?_ ?_ (h folder) s
    · exact beq_self_eq_true name
    · exact fun other hother => congrArg _ (beq_iff_eq.1 hother)
  have hcontents (hrank : r.rank "folder" < r.rank "project") (folder : Option Nat)
      (s : Solution) : OneTurn problem fun x =>
        readSections (w.contentSections folder) (frame.fill r.rank name middle (fun _ => []) x) s :=
    .readSections_of_forall frame _ hnamed (w.inOrder_contentSections folder hrank) (hone folder)
      (hsection folder) s
  cases r with
  | contents => exact hcontents (by decide)
  | folder =>
      have himport : name ≠ "import" := by
        rcases hname with rfl | rfl <;> decide
      intro hfolder parent s
      simp only [w.readFolders_folder parent s (hfolder _), Frame.attribute?_fill,
        Frame.imports_fill_of_ne _ _ _ _ _ himport]
      apply OneTurn.bind_right
      apply OneTurn.bind_right
      exact hcontents (by decide) _ _
  | solution owner directory =>
      have hsolution : w.solutionSections.filter (fun f => f.looksAt name) =
          [.each (· == name) (step none)] := by
        unfold Workspace.solutionSections
        rw [List.filter_append, hone]
        rcases hname with rfl | rfl <;> rfl
      exact steady_solution frame hnamed hsolution fun s _ => hsection none s
  | root | platforms | targets | custom | build | profile | slot | compile | link | project
  | filter => cases hr

theorem steady_project {owner : String} {directory : Path}
    (hnamed : ∀ x, ∀ e ∈ middle x, e.name = name) {f : Section Project}
    (hone : (w.projectSections directory).filter (fun f => f.looksAt name) = [f])
    (h : ∀ p : Project, p.name = owner → OneTurn problem fun x =>
      f.read (frame.fill (Reading.project owner directory).rank name middle (fun _ => []) x) p) :
    (Reading.project owner directory).Steady w problem
      (frame.fill (Reading.project owner directory).rank name middle fun _ => []) := by
  intro p hp
  exact .readLayers_section frame hnamed (w.layered_projectSections directory owner) hone
    (w.keeps_projectSections directory owner) h hp

/-- A filter reads its `include` children before its `exclude` children. -/
theorem steady_filter {filter : String} (hnamed : ∀ x, ∀ e ∈ middle x, e.name = name)
    (hname : name = "include" ∨ name = "exclude") (roots : At F → List Imported)
    (h : ∀ f : Filter, f.name = filter →
      OneTurn problem fun x => collect (middle x) (w.expandFiles f)) :
    (Reading.filter filter).Steady w problem
      (frame.fill (Reading.filter filter).rank name middle roots) := by
  intro hattribute p
  have hfilter (x : At F) :
      (frame.fill (Reading.filter filter).rank name middle roots x).filter p.sourceRoot filter =
        (frame.fill (Reading.filter filter).rank name middle roots .nothing).filter p.sourceRoot
          filter := rfl
  have hfound := h ((frame.fill (Reading.filter filter).rank name middle roots .nothing).filter
    p.sourceRoot filter) rfl
  simp only [w.readFilter_eq_collect p (hattribute _), hfilter, Frame.flag_fill frame]
  apply OneTurn.bind_right
  rcases hname with rfl | rfl
  · simp only [named_fill frame _ hnamed]
    refine (hfound.collect _ _).bind_left ?after ?stop
    case after =>
      intro x hx
      rw [named_fill_of_ne frame roots hnamed (show "include" ≠ "exclude" by decide) hx]
    case stop =>
      intro found
      rw [named_stop_of_lt frame roots (show _ < _ from Nat.zero_lt_one) (hnamed .stop)]
      rfl
  · have hother (x : At F) := named_fill_of_lt frame roots hnamed
      (show (Reading.filter filter).rank "include" < _ from Nat.zero_lt_one) x
    simp only [hother]
    apply OneTurn.bind_right
    simp only [named_fill frame _ hnamed]
    exact (hfound.collect _ _).bind_pure _

end Readings

/-! ## Imports -/

section Imports

variable (frame : Frame F) {middle : At F → List Node}
  (hnamed : ∀ x, ∀ e ∈ middle x, e.name = "import")

include hnamed

/-- A folder reads its imports before its own contents. -/
theorem steady_folder_import {roots : At F → List Imported}
    (h : ∀ folder s, OneTurn problem fun x => w.readImportedContents folder s (roots x)) :
    Reading.folder.Steady w problem
      (frame.fill Reading.folder.rank "import" middle roots) := by
  intro hfolder parent s
  simp only [w.readFolders_folder parent s (hfolder _), Frame.attribute?_fill, Frame.imports_fill,
    w.readImportedContents_append]
  apply OneTurn.bind_right
  refine .bind_own frame hnamed (w.layered_contentSections _) ?_
  simp only [bind_assoc]
  apply OneTurn.bind_right
  refine OneTurn.bind_behind (h _ _) (fun roots s => w.readImportedContents _ s roots) ?_ _
  intro s
  rw [Workspace.readImportedContents]
  rfl

/-- No reading that follows imports looks at the `import` children. -/
theorem steady_failed {r : Reading} (hr : r.importsAs.isSome) {roots : At F → List Imported}
    (hroots : ∀ x, roots x = (x.problems problem).map Imported.failed) :
    r.Steady w problem (frame.fill r.rank "import" middle roots) := by
  have hlayers {S : Type} {rank : String → Nat} {sections : List (Section S)}
      (hlayered : Section.Layered rank sections) (s : S) :
      OneTurn problem fun x =>
        (frame.fill rank "import" middle roots x).readLayers (readSections sections) s :=
    .readLayers_failed frame hnamed hlayered hroots s
  cases r with
  | solution owner directory => exact fun s _ => hlayers (w.layered_solutionSections _ _) s
  | targets => exact hlayers layered_targetSections
  | profile owner directory => exact hlayers (layered_profileSections _ _ _)
  | slot directory => exact fun owner slot => hlayers (layered_slotSections _ _ slot)
  | project owner directory => exact fun p _ => hlayers (w.layered_projectSections _ _) p
  | folder =>
      refine steady_folder_import frame hnamed fun folder s => ?_
      simp only [hroots]
      apply OneTurn.of_report (a := s)
      · simp only [At.problems, List.map_nil, Workspace.readImportedContents]
      · intro flaw
        simp only [At.problems, List.map_cons, List.map_nil, Workspace.readImportedContents]
        rfl
      · simp only [At.problems, List.map_nil, Workspace.readImportedContents]
        rfl
  | root | platforms | custom | build | compile | link | contents | filter => cases hr

theorem steady_loaded {r inner : Reading} (hr : r.importsAs = some inner)
    {tree : At F → Node} (h : inner.Steady w problem tree) :
    r.Steady w problem
      (frame.fill r.rank "import" middle fun x => [.loaded fun _ => tree x]) := by
  have hfree {S : Type} {rank : String → Nat} {sections : List (Section S)}
      (hlayered : Section.Layered rank sections)
      (htree : ∀ s, OneTurn problem fun x => (tree x).readLayers (readSections sections) s)
      (s : S) :
      OneTurn problem fun x =>
        (frame.fill rank "import" middle (fun x => [.loaded fun _ => tree x]) x).readLayers
          (readSections sections) s :=
    .readLayers_loaded (P := fun _ => True) frame hnamed hlayered (fun _ _ _ _ _ => trivial)
      (fun s _ => htree s) trivial
  cases r with
  | solution owner directory =>
      obtain rfl := Option.some.inj hr
      exact fun s hs => .readLayers_loaded frame hnamed (w.layered_solutionSections _ _)
        (w.keeps_solutionSections owner directory) h hs
  | targets =>
      obtain rfl := Option.some.inj hr
      exact hfree layered_targetSections h
  | profile owner directory =>
      obtain rfl := Option.some.inj hr
      exact hfree (layered_profileSections _ _ _) h
  | slot directory =>
      obtain rfl := Option.some.inj hr
      exact fun owner slot => hfree (layered_slotSections _ _ slot) (h owner slot)
  | project owner directory =>
      obtain rfl := Option.some.inj hr
      exact fun p hp => .readLayers_loaded frame hnamed (w.layered_projectSections _ _)
        (w.keeps_projectSections directory owner) h hp
  | folder =>
      obtain rfl := Option.some.inj hr
      refine steady_folder_import frame hnamed fun folder s => ?_
      simp only [Workspace.readImportedContents, bind_pure, w.readContents_eq_sections]
      exact h folder s
  | root | platforms | custom | build | compile | link | contents | filter => cases hr

end Imports

/-! ## On the way to the root -/

section Way

variable (frame : Frame F) {tree : At F → Node}

/-- A custom target with child elements is told what it is by these alone. -/
theorem steady_custom {target : String} (hname : ∀ x, (tree x).name = "build")
    (hnew : ∀ e ∈ frame.before, e.name ≠ "build")
    (h : OneTurn problem fun x => readStep target (tree x)) :
    (Reading.custom target).Steady w problem
      (frame.fill (Reading.custom target).rank "build" (fun x => [tree x]) fun _ => []) := by
  intro hattribute s
  have hnamed := name_of_mem_singleton hname
  have hchildren (x : At F) :
      (frame.fill (Reading.custom target).rank "build" (fun x => [tree x]) (fun _ => [])
        x).children.isEmpty = false := by
    simp [Frame.fill, Node.children]
  have hbuild (x : At F) :
      (frame.fill (Reading.custom target).rank "build" (fun x => [tree x]) (fun _ => [])
        x).first? "build" = some (tree x) := by
    have hbefore : frame.before.filter (fun c => c.name == "build") = [] :=
      List.filter_eq_nil_iff.2 fun e he => mt beq_iff_eq.1 (hnew e he)
    rw [Node.first?, ← List.head?_filter]
    change ((frame.fill _ "build" _ (fun _ => []) x).named "build").head? = _
    rw [named_fill frame _ hnamed, hbefore]
    rfl
  unfold readCustomTarget
  simp only [hattribute, hchildren, hbuild, Frame.attribute?_fill, Frame.resolve_fill]
  simp only [Bool.false_eq_true, if_false, Option.toList_some, List.mapM_cons, List.mapM_nil,
    bind_assoc, pure_bind]
  refine h.bind_left ?after fun _ => rfl
  case after =>
    intro x hx
    rw [named_fill_of_ne frame _ hnamed (show "build" ≠ "extension" by decide) hx,
      named_fill_of_ne frame _ hnamed (show "build" ≠ "generate" by decide) hx]

variable (htag : SameTag tree)

include htag

theorem steady_solution_child {owner : String} (hname : (tree .nothing).name = "solution")
    (hcalled : (tree .nothing).attribute? "name" = some owner)
    (h : (Reading.solution owner (tree .nothing).directory).Steady w problem tree) :
    Reading.root.Steady w problem
      (frame.fill Reading.root.rank "solution" (fun x => [tree x]) fun _ => []) := by
  have hnamed := name_of_mem_singleton fun x => (htag.name x).trans hname
  refine steady_root frame hnamed _ (oneTurn_collect_singleton ?_)
  have hcalled (x : At F) := (htag.attribute? x "name").trans hcalled
  simp only [w.readSolution_named (hcalled _), htag.directory, map_bind]
  exact (h _ ⟨rfl, rfl⟩).bind_pure _

theorem steady_compile_child {directory : Path}
    (hname : Text.sameIgnoringCase (tree .nothing).name "compile")
    (hfiles : ∀ files, (tree .nothing).attribute? "files" = some files →
      (FilePattern.compile (relocatePattern (tree .nothing).directory directory files)).isOk)
    (h : Reading.compile.Steady w problem tree) :
    (Reading.slot directory).Steady w problem
      (frame.fill (Reading.slot directory).rank (tree .nothing).name (fun x => [tree x])
        fun _ => []) := by
  have himport : (tree .nothing).name ≠ "import" := by
    intro himport
    rw [himport] at hname
    exact absurd hname (by decide)
  refine steady_slot frame (name_of_mem_singleton htag.name) himport fun owner slot =>
    oneTurn_collect_singleton ?_
  simp only [blockWrites, htag.name, himport, hname, htag.directory, htag.attribute? _ "files",
    if_true, if_false]
  cases hwritten : (tree .nothing).attribute? "files" with
  | none => exact h.bind_pure _
  | some files =>
      have hok := hfiles files hwritten
      cases hpattern : FilePattern.compile
          (relocatePattern (tree .nothing).directory directory files) with
      | error problem => rw [hpattern] at hok; cases hok
      | ok pattern =>
          simp only [hpattern]
          exact h.bind_pure _

theorem steady_link_child {directory : Path}
    (hname : Text.sameIgnoringCase (tree .nothing).name "link")
    (h : Reading.link.Steady w problem tree) :
    (Reading.slot directory).Steady w problem
      (frame.fill (Reading.slot directory).rank (tree .nothing).name (fun x => [tree x])
        fun _ => []) := by
  have himport : (tree .nothing).name ≠ "import" := by
    intro himport
    rw [himport] at hname
    exact absurd hname (by decide)
  have hcompile : Text.sameIgnoringCase (tree .nothing).name "compile" = false := by
    unfold Text.sameIgnoringCase at hname ⊢
    rw [beq_iff_eq.1 hname]
    rfl
  refine steady_slot frame (name_of_mem_singleton htag.name) himport fun owner slot =>
    oneTurn_collect_singleton ?_
  simp only [blockWrites, htag.name, himport, hcompile, hname, Bool.false_eq_true, if_true,
    if_false]
  exact h.bind_pure _

theorem steady_project_child {r : Reading} (hr : r.hasContents) {owner : String}
    (hname : (tree .nothing).name = "project")
    (hexternal : (tree .nothing).attribute? "external" = none)
    (hcalled : (tree .nothing).attribute? "name" = some owner)
    (h : (Reading.project owner (tree .nothing).directory).Steady w problem tree) :
    r.Steady w problem (frame.fill r.rank "project" (fun x => [tree x]) fun _ => []) := by
  have hnamed := name_of_mem_singleton fun x => (htag.name x).trans hname
  refine steady_contents frame hnamed hr (.inr rfl) (fun _ => rfl) fun folder s =>
    foldlM_singleton ?_
  have hexternal (x : At F) := (htag.attribute? x "external").trans hexternal
  have hcalled (x : At F) := (htag.attribute? x "name").trans hcalled
  have hkind (name : String) (x : At F) :
      Workspace.readKind name (tree x) = Workspace.readKind name (tree .nothing) := by
    unfold Workspace.readKind
    rw [htag.attribute?]
  simp only [Workspace.addRead, w.readProject_authored (hexternal _) (hcalled _), htag.directory,
    htag.attribute?, hkind, bind_assoc, pure_bind]
  apply OneTurn.bind_right
  exact (h _ rfl).bind_pure _

theorem steady_child {r inner : Reading} (h : inner.Steady w problem tree)
    (hread : r.Descends (tree .nothing) inner)
    (hfirst : Reading.firstOnly (tree .nothing).name = true →
      ∀ e ∈ frame.before, e.name ≠ (tree .nothing).name) :
    r.Steady w problem
      (frame.fill r.rank (tree .nothing).name (fun x => [tree x]) fun _ => []) := by
  have hname := htag.name
  have hnamed := name_of_mem_singleton hname
  cases hread with
  | solution hsolution hcalled =>
      rw [hsolution]
      exact steady_solution_child frame htag hsolution hcalled h
  | platforms hplatforms | targets htargets =>
      rw [‹(tree .nothing).name = _›] at hnamed hfirst hname ⊢
      exact steady_solution frame hnamed rfl fun s _ => .first frame _ hname (hfirst rfl) (h s)
  | solutionProfile hprofile =>
      rw [hprofile] at hnamed hfirst hname ⊢
      refine steady_solution frame hnamed rfl fun s hs => .first frame _ hname (hfirst rfl) ?_
      obtain ⟨rfl, rfl⟩ := hs
      simp only [Option.elim_some, profileWrites_eq_sections]
      exact (h _).bind_pure _
  | custom hcustom hcalled =>
      rw [hcustom] at hnamed ⊢
      have hcalled (x : At F) := (htag.attribute? x "name").trans hcalled
      exact steady_targets frame hnamed fun s => foldlM_singleton (h hcalled s)
  | build hbuild =>
      rw [hbuild] at hname hfirst ⊢
      exact steady_custom frame hname (hfirst rfl) h
  | shared hshared =>
      rw [hshared] at hnamed hfirst hname ⊢
      refine steady_profile frame hnamed rfl fun writes => .first frame _ hname (hfirst rfl) ?_
      simp only [Option.toList_some, collect_singleton, slotWrites_eq_sections]
      exact (h _ _ _).bind_pure _
  | configuration hconfiguration hcalled =>
      rw [hconfiguration] at hnamed ⊢
      refine steady_profile frame hnamed rfl fun writes =>
        .gather frame _ hnamed rfl (fun _ hother => congrArg _ (beq_iff_eq.1 hother))
          (oneTurn_collect_singleton ?_) writes
      have hcalled (x : At F) := (htag.attribute? x "name").trans hcalled
      simp only [configurationWrites, hcalled, slotWrites_eq_sections]
      exact h _ _ _
  | compile hcompile hfiles => exact steady_compile_child frame htag hcompile hfiles h
  | link hlink => exact steady_link_child frame htag hlink h
  | folder hr hfolder =>
      rw [hfolder] at hnamed hname ⊢
      exact steady_contents frame hnamed hr (.inl rfl) (fun _ => rfl) fun folder s =>
        foldlM_singleton (h hname folder s)
  | project hr hproject hexternal hcalled =>
      rw [hproject]
      exact steady_project_child frame htag hr hproject hexternal hcalled h
  | projectProfile hprofile =>
      rw [hprofile] at hnamed hfirst hname ⊢
      refine steady_project frame hnamed rfl fun p hp => .first frame _ hname (hfirst rfl) ?_
      subst hp
      simp only [Option.elim_some, profileWrites_eq_sections]
      exact (h _).bind_pure _
  | filter hfilter hcalled =>
      rw [hfilter] at hnamed ⊢
      have hcalled (x : At F) := (htag.attribute? x "name").trans hcalled
      refine steady_project frame hnamed rfl fun p _ => .each_of_forall frame _ hnamed rfl ?_
        (fun p => foldlM_singleton (h hcalled p)) p
      exact fun _ hother => congrArg _ (beq_iff_eq.1 hother)

end Way

end SolutionPlan
