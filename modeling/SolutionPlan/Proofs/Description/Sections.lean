import SolutionPlan.Proofs.Description.ImportSites
import SolutionPlan.Proofs.Description.SectionTurns

/-!
# Readers as sections

Each reader of an element goes through it in sections, in a fixed order that does not depend on the
order of the children. Here they are listed: which children a section looks at, and what it does
with them.
-/

namespace SolutionPlan

/-! ## Configurations -/

def slotSections (origin : ProfileOrigin) (slot : Slot) : List (Section (List Write)) :=
  [.gather (· != "import") (blockWrites origin slot)]

theorem slotWrites_eq_sections (origin : ProfileOrigin) (slot : Slot) (n : Node) :
    slotWrites origin slot n =
      n.readLayers (readSections (slotSections origin slot)) [⟨⟨none, slot⟩, .mention⟩] := by
  unfold slotWrites
  congr 1
  funext layer writes
  have hsite : ∀ e : Node, (e.name != "import") = false → blockWrites origin slot e = pure [] := by
    intro e he
    have himport : e.name = "import" := by simpa using he
    unfold blockWrites
    exact if_pos himport
  rw [← collect_filter hsite layer.children]
  simp [readSections, slotSections, Section.read, Section.gather]

def profileSections (origin : ProfileOrigin) : List (Section (List Write)) :=
  [.first "shared" fun shared writes => do
      let own ← collect shared.toList (slotWrites origin (.shared (origin.owner ++ "_shared")))
      pure (writes ++ own),
    .gather (· == "configuration") (configurationWrites origin)]

theorem profileWrites_eq_sections (origin : ProfileOrigin) (n : Node) :
    profileWrites origin n = n.readLayers (readSections (profileSections origin)) [] := by
  unfold profileWrites
  congr 1
  funext layer writes
  simp only [readSections, profileSections, List.foldlM_cons, List.foldlM_nil, bind_pure,
    Section.read_first, Section.read_gather, bind_assoc, pure_bind]

/-! ## Targets -/

def buildSections (target : String) : List (Section BuildStep) :=
  [.first "shared" fun shared step => do
      let options ← shared.toList.mapM readStepOptions
      pure { step with shared := options.head? },
    .each (fun name => name == "configuration" || name == "configurations")
      (readStepBlock target)]

theorem readStep_eq_sections (target : String) (e : Node) :
    readStep target e = readSections (buildSections target) e ⟨none, []⟩ := by
  simp [readStep, readSections, buildSections, Section.read_first]
  rfl

def targetSections : List (Section Solution) :=
  [⟨(predefinedTargets.map Prod.fst).contains, fun es s =>
      pure (predefinedTargets.foldl (readPredefined (.plain ⟨""⟩ "targets" [] "" es)) s)⟩,
    .each (· == "custom") fun s custom => readCustomTarget custom s]

theorem foldl_readPredefined_eq (e : Node) (s : Solution) :
    predefinedTargets.foldl (readPredefined e) s =
      predefinedTargets.foldl
        (readPredefined (.plain ⟨""⟩ "targets" [] ""
          (e.children.filter fun c => (predefinedTargets.map Prod.fst).contains c.name))) s := by
  apply List.foldl_ext
  intro t entry hentry
  have hname : entry.1 ∈ predefinedTargets.map Prod.fst := List.mem_map_of_mem hentry
  have hsame : e.named entry.1 = (Node.plain ⟨""⟩ "targets" [] ""
      (e.children.filter fun c => (predefinedTargets.map Prod.fst).contains c.name)).named
        entry.1 := by
    unfold Node.named
    simp only [Node.plain, Node.children, List.filter_filter]
    apply List.filter_congr
    intro c _
    by_cases hc : c.name = entry.1
    · simp [hc, hname]
    · simp [hc]
  unfold readPredefined
  rw [hsame]

theorem readTargets_eq_sections (e : Node) (s : Solution) :
    readTargets e s =
      match e.first? "targets" with
      | none => pure s
      | some targets => targets.readLayers (readSections targetSections) s := by
  unfold readTargets
  cases e.first? "targets" with
  | none => rfl
  | some targets =>
      simp only
      congr 1
      funext layer s
      rw [foldl_readPredefined_eq]
      simp [readSections, targetSections, Section.read, Section.each, Node.named]

namespace Workspace

/-! ## Projects -/

theorem readFilter_eq_collect (w : Workspace) (p : Project) {e : Node} {name : String}
    (h : e.attribute? "name" = some name) :
    w.readFilter p e =
      e.flag "directories" false >>= fun _ =>
      collect (e.named "include") (w.expandFiles (e.filter p.sourceRoot name)) >>= fun included =>
      collect (e.named "exclude") (w.expandFiles (e.filter p.sourceRoot name)) >>= fun excluded =>
        pure (p.addFiltered (e.filter p.sourceRoot name) included excluded) := by
  unfold readFilter collect
  rw [h]
  simp only [bind_assoc, pure_bind]
  rfl

def projectSections (w : Workspace) (origin : Path) : List (Section Project) :=
  [.first "configurations" fun configurations p => do
      let writes ← configurations.elim (pure []) (profileWrites ⟨w.parameters, origin, p.name⟩)
      pure { p with profile := p.profile.writeAll writes },
    .first "macros" fun macros p => do
      let found ← ((macros.map Node.children).getD []).mapM w.readMacro
      pure { p with macros := p.macros.putAll found },
    .each (· == "filter") w.readFilter,
    .each (· == "reference") readReference,
    .each (· == "dependency") readDependency]

theorem readProjectLayer_eq_sections (w : Workspace) (origin : Path) :
    w.readProjectLayer origin = readSections (w.projectSections origin) := by
  funext e p
  unfold readProjectLayer readProfile readMacros
  simp only [readSections, projectSections, List.foldlM_cons, List.foldlM_nil, bind_pure,
    Section.read_first]
  cases e.first? "configurations" <;> simp <;> rfl

theorem readProject_authored (w : Workspace) {e : Node} {name : String}
    (hexternal : e.attribute? "external" = none) (h : e.attribute? "name" = some name) :
    w.readProject e =
      readKind name e >>= fun kind =>
        e.readLayers (readSections (w.projectSections e.directory))
          (.authored name kind (w.outputFile e.directory name "vcxproj")
            (sourceRootOf e.directory (e.attribute? "root"))) >>= fun p => pure (some p) := by
  unfold readProject readAuthored
  rw [hexternal, h, readProjectLayer_eq_sections]
  rfl

/-! ## Solutions -/

def addRead (w : Workspace) (folder : Option Nat) (s : Solution) (e : Node) : Logged Solution := do
  let project ← w.readProject e
  pure (match project with
    | some p => s.addProject { p with folder := folder }
    | none => s)

def contentSections (w : Workspace) (folder : Option Nat) : List (Section Solution) :=
  [.each (· == "folder") fun s f => w.readFolders folder s [f],
    .each (· == "project") (w.addRead folder)]

theorem readFolders_cons (w : Workspace) (folder : Option Nat) (s : Solution) (e : Node)
    (rest : List Node) :
    w.readFolders folder s (e :: rest) =
      w.readFolders folder s [e] >>= fun s => w.readFolders folder s rest := by
  obtain ⟨tag, directory, children, imports⟩ := e
  rw [readFolders, readFolders]
  simp only [readFolders, bind_pure]
  split
  · split <;> simp only [bind_assoc]
  · rfl

theorem readFolders_eq_foldlM (w : Workspace) (folder : Option Nat) (s : Solution)
    (es : List Node) :
    w.readFolders folder s es =
      (es.filter fun e => e.name == "folder").foldlM (fun s f => w.readFolders folder s [f]) s := by
  induction es generalizing s with
  | nil => rw [readFolders]; rfl
  | cons e rest ih =>
      rw [readFolders_cons, List.filter_cons]
      by_cases hfolder : e.name = "folder"
      · simp [hfolder, ih]
      · obtain ⟨tag, directory, children, imports⟩ := e
        have htag : ¬tag.name = "folder" := hfolder
        simp [hfolder, readFolders, htag, ih]

theorem readContents_eq_sections (w : Workspace) (folder : Option Nat) (s : Solution) (e : Node) :
    w.readContents folder s e = readSections (w.contentSections folder) e s := by
  obtain ⟨tag, directory, children, imports⟩ := e
  rw [readContents]
  simp only [readFolders_eq_foldlM w folder s children]
  simp only [readSections, contentSections, List.foldlM_cons, List.foldlM_nil, bind_pure]
  rfl

/-- A folder without a name is read all the same. -/
def checkFolderName (name : String) : Logged Unit :=
  if name = "" then Logged.report .folderWithoutName else pure ()

/-- A folder is added before the roots that it imports, and these before its own contents. -/
theorem readFolders_folder (w : Workspace) (parent : Option Nat) (s : Solution) {e : Node}
    (h : e.name = "folder") :
    w.readFolders parent s [e] =
      checkFolderName ((e.attribute? "name").getD "") >>= fun _ =>
        w.readImportedContents (some s.folders.length)
          (s.addFolder ⟨(e.attribute? "name").getD "", parent⟩) e.imports >>=
            readSections (w.contentSections (some s.folders.length)) e := by
  obtain ⟨tag, directory, children, imports⟩ := e
  have htag : tag.name = "folder" := h
  rw [readFolders, if_pos htag]
  change _ = checkFolderName ((tag.attribute? "name").getD "") >>= fun _ =>
    w.readImportedContents _ (s.addFolder ⟨_, parent⟩) imports >>= _
  simp only [readFolders, bind_pure, readContents_eq_sections, checkFolderName]
  by_cases hname : (tag.attribute? "name").getD "" = ""
  · rw [if_pos hname, if_pos hname]
    rfl
  · rw [if_neg hname, if_neg hname]
    rfl

theorem readImportedContents_append (w : Workspace) (folder : Option Nat) (s : Solution)
    (roots others : List Imported) :
    w.readImportedContents folder s (roots ++ others) =
      w.readImportedContents folder s roots >>= fun t =>
        w.readImportedContents folder t others := by
  induction roots generalizing s with
  | nil => rw [List.nil_append, readImportedContents, pure_bind]
  | cons first rest ih =>
      cases first with
      | failed p =>
          rw [List.cons_append, readImportedContents, readImportedContents, bind_assoc]
          simp only [ih]
      | loaded root =>
          rw [List.cons_append, readImportedContents, readImportedContents, bind_assoc]
          simp only [ih]

def solutionSections (w : Workspace) : List (Section Solution) :=
  [.first "platforms" fun platforms s =>
      ((platforms.map fun ps => ps.named "platform").getD []).foldlM readPlatform s,
    .first "targets" fun targets s =>
      match targets with
      | none => pure s
      | some targets => targets.readLayers (readSections targetSections) s,
    .first "configurations" fun configurations s => do
      let writes ← configurations.elim (pure [])
        (profileWrites ⟨w.parameters, s.directory, s.name⟩)
      pure { s with profile := s.profile.writeAll writes },
    .first "macros" fun macros s => do
      let found ← ((macros.map Node.children).getD []).mapM w.readMacro
      pure { s with macros := s.macros.putAll found }] ++ w.contentSections none

theorem readSolutionLayer_eq_sections (w : Workspace) :
    w.readSolutionLayer = readSections w.solutionSections := by
  funext e s
  unfold readSolutionLayer readProfile readMacros
  simp only [readSections, solutionSections, List.foldlM_append, List.foldlM_cons, List.foldlM_nil,
    bind_pure, Section.read_first, readTargets_eq_sections]
  simp only [readContents_eq_sections]
  cases e.first? "configurations" <;> simp <;> rfl

theorem readSolution_named (w : Workspace) {e : Node} {name : String}
    (h : e.attribute? "name" = some name) :
    w.readSolution e =
      e.readLayers (readSections w.solutionSections)
        (.named name (w.outputFile e.directory name "sln") e.directory) >>= fun s =>
          pure (some s) := by
  unfold readSolution
  rw [h, readSolutionLayer_eq_sections]

def readRoot (w : Workspace) (root : Node) : Logged (List Solution) :=
  collect (root.named "solution") fun e => Option.toList <$> w.readSolution e

end Workspace

theorem collect_toList {β γ : Type} (xs : List γ) (f : γ → Logged (Option β)) :
    collect xs (fun x => Option.toList <$> f x) =
      xs.mapM f >>= fun found => pure found.reduceOption := by
  induction xs with
  | nil => rfl
  | cons x rest ih =>
      rw [collect_cons, ih, List.mapM_cons]
      simp only [bind_assoc, pure_bind, bind_map_left]
      congr 1
      funext found
      cases found <;> rfl

theorem Description.readSolutions_eq_readRoot {fs : FileSystem} (parameters : Parameters)
    (opened : OpenDocuments fs) (directory : Path) (root : Xml.Element) :
    readSolutions parameters opened directory root =
      Workspace.readRoot ⟨fs, parameters, directory, outputDirectoryOf directory root⟩
        (Node.load parameters opened directory root) := by
  unfold readSolutions Workspace.readRoot
  rw [Node.named_load, collect_map, collect_toList]

end SolutionPlan
