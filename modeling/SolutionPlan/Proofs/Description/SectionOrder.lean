import SolutionPlan.Proofs.Description.Flaws

/-!
# The order of the sections

The sections of each reader come in the order that the reading has for the names of the children,
and after the imports. None of them changes the name of what is read, which later ones are told.
-/

namespace SolutionPlan

/-! ## Ranks -/

section Ranks

variable (directory : Path)

theorem layered_slotSections (origin : ProfileOrigin) (slot : Slot) :
    Section.Layered (Reading.slot directory).rank (slotSections origin slot) := by
  have hrank (a : String) (ha : a ≠ "import") : (Reading.slot directory).rank a = 1 := by
    simp [Reading.rank, Reading.order, List.findIdx_cons, ha]
  have himport : (Reading.slot directory).rank "import" = 0 := rfl
  refine ⟨⟨List.pairwise_singleton _ _, ?level, ?silent⟩, ?imports⟩
  case level =>
    simp only [slotSections, Section.gather, List.forall_mem_singleton, bne_iff_ne]
    exact fun a b ha hb => (hrank a ha).trans (hrank b hb).symm
  case silent => exact List.forall_mem_singleton.2 fun found => rfl
  case imports =>
    simp only [slotSections, Section.gather, List.forall_mem_singleton, bne_iff_ne, himport]
    exact fun a ha => (hrank a ha).symm ▸ Nat.one_pos

theorem layered_profileSections (origin : ProfileOrigin) (owner : String) :
    Section.Layered (Reading.profile owner directory).rank (profileSections origin) := by
  refine ⟨⟨?ranked, ?level, ?silent⟩, ?imports⟩
  case ranked =>
    simp [profileSections, Section.first, Section.gather, Reading.rank, Reading.order,
      List.findIdx_cons]
  case level => simp [profileSections, Section.first, Section.gather]
  case silent => simp [profileSections, Section.first, Section.gather, collect]
  case imports =>
    simp [profileSections, Section.first, Section.gather, Reading.rank, Reading.order,
      List.findIdx_cons]

theorem inOrder_buildSections (target : String) :
    Section.InOrder (Reading.build target).rank (buildSections target) := by
  have hrank (a : String) (ha : a = "configuration" ∨ a = "configurations") :
      (Reading.build target).rank a = 1 := by
    rcases ha with rfl | rfl <;> rfl
  have hshared : (Reading.build target).rank "shared" = 0 := rfl
  refine ⟨?ranked, ?level, ?silent⟩
  case ranked => simp +contextual [buildSections, Section.first, Section.each, hrank, hshared]
  case level => simp +contextual [buildSections, Section.first, Section.each, hrank]
  case silent => simp [buildSections, Section.first, Section.each]

theorem layered_targetSections : Section.Layered Reading.targets.rank targetSections := by
  have hrank : ∀ a ∈ predefinedTargets.map Prod.fst, Reading.targets.rank a = 1 := by decide
  have hcustom : Reading.targets.rank "custom" = 2 := rfl
  have himport : Reading.targets.rank "import" = 0 := rfl
  simp only [← List.contains_iff_mem] at hrank
  refine ⟨⟨?ranked, ?level, ?silent⟩, ?imports⟩
  case ranked => simp +contextual [targetSections, Section.each, hrank, hcustom]
  case level => simp +contextual [targetSections, Section.each, hrank]
  case silent => simp [targetSections, Section.each]
  case imports => simp +contextual [targetSections, Section.each, hrank, hcustom, himport]

namespace Workspace

variable (w : Workspace)

theorem inOrder_contentSections (folder : Option Nat) {rank : String → Nat}
    (h : rank "folder" < rank "project") : Section.InOrder rank (w.contentSections folder) := by
  refine ⟨?ranked, ?level, ?silent⟩
  case ranked => simpa [contentSections, Section.each] using h
  case level => simp [contentSections, Section.each]
  case silent => simp [contentSections, Section.each]

theorem layered_contentSections (folder : Option Nat) :
    Section.Layered Reading.folder.rank (w.contentSections folder) := by
  refine ⟨w.inOrder_contentSections folder (by decide), ?imports⟩
  simp [contentSections, Section.each, Reading.rank, Reading.order, List.findIdx_cons]

theorem layered_solutionSections (owner : String) :
    Section.Layered (Reading.solution owner directory).rank w.solutionSections := by
  refine ⟨⟨?ranked, ?level, ?silent⟩, ?imports⟩
  case ranked =>
    simp [solutionSections, contentSections, Section.first, Section.each, Reading.rank,
      Reading.order, List.findIdx_cons]
  case level => simp [solutionSections, contentSections, Section.first, Section.each]
  case silent => simp [solutionSections, contentSections, Section.first, Section.each]
  case imports =>
    simp [solutionSections, contentSections, Section.first, Section.each, Reading.rank,
      Reading.order, List.findIdx_cons]

theorem layered_projectSections (owner : String) :
    Section.Layered (Reading.project owner directory).rank (w.projectSections directory) := by
  refine ⟨⟨?ranked, ?level, ?silent⟩, ?imports⟩
  case ranked =>
    simp [projectSections, Section.first, Section.each, Reading.rank, Reading.order,
      List.findIdx_cons]
  case level => simp [projectSections, Section.first, Section.each]
  case silent => simp [projectSections, Section.first, Section.each]
  case imports =>
    simp [projectSections, Section.first, Section.each, Reading.rank, Reading.order,
      List.findIdx_cons]

end Workspace

end Ranks

/-! ## What sections keep -/

namespace Workspace

theorem header_solutionSections (w : Workspace) :
    ∀ f ∈ w.solutionSections, ∀ n s, (f.read n s).value.header = s.header := by
  have hkept (s : Solution) := w.keeping_contentInvariant s
  unfold solutionSections contentSections
  simp only [List.forall_mem_append, List.forall_mem_cons, List.not_mem_nil, false_implies,
    implies_true, and_true, Section.read_first, Section.read_each, Logged.foldlM_value]
  refine ⟨⟨?platforms, ?targets, ?profile, ?macros⟩, ?folders, ?projects⟩
  case platforms =>
    intro n s
    exact Solution.header_of_bare (foldl_keeps bare_readPlatform _ s)
  case targets =>
    intro n s
    rw [← readTargets_eq_sections]
    exact Solution.header_of_bare (bare_readTargets n s)
  case profile => exact fun n s => rfl
  case macros => exact fun n s => rfl
  case folders =>
    intro n s
    refine foldl_keeps (g := Solution.header) (fun s f => ?_) _ s
    exact ((hkept s).readFolders none s [f] ⟨rfl, rfl⟩).1
  case projects =>
    intro n s
    refine foldl_keeps (g := Solution.header) (fun s e => ?_) _ s
    unfold addRead
    simp only [Logged.bind_value, Logged.pure_value]
    cases (w.readProject e).value <;> rfl

theorem header_readFilter (w : Workspace) (p : Project) (e : Node) :
    (w.readFilter p e).value.header = p.header :=
  Project.header_of_bare (w.bare_readFilter p e)

theorem header_readReference (p : Project) (e : Node) :
    (readReference p e).value.header = p.header := by
  obtain ⟨references, hread⟩ := readReference_value p e
  rw [hread]
  rfl

theorem header_readDependency (p : Project) (e : Node) :
    (readDependency p e).value.header = p.header := by
  obtain ⟨references, hread⟩ := readDependency_value p e
  rw [hread]
  rfl

theorem header_projectSections (w : Workspace) (origin : Path) :
    ∀ f ∈ w.projectSections origin, ∀ n p, (f.read n p).value.header = p.header := by
  unfold projectSections
  simp only [List.forall_mem_cons, List.not_mem_nil, false_implies, implies_true, and_true,
    Section.read_first, Section.read_each, Logged.foldlM_value]
  refine ⟨?profile, ?macros, ?filters, ?references, ?dependencies⟩
  case profile => exact fun n p => rfl
  case macros => exact fun n p => rfl
  case filters => exact fun n p => foldl_keeps w.header_readFilter _ p
  case references => exact fun n p => foldl_keeps header_readReference _ p
  case dependencies => exact fun n p => foldl_keeps header_readDependency _ p

theorem keeps_solutionSections (w : Workspace) (owner : String) (directory : Path) :
    ∀ f ∈ w.solutionSections, ∀ n s, s.name = owner ∧ s.directory = directory →
      (f.read n s).value.name = owner ∧ (f.read n s).value.directory = directory := by
  intro f hf n s hs
  have hheader := w.header_solutionSections f hf n s
  exact ⟨(Solution.name_of_header hheader).trans hs.1,
    (Solution.directory_of_header hheader).trans hs.2⟩

theorem keeps_projectSections (w : Workspace) (origin : Path) (owner : String) :
    ∀ f ∈ w.projectSections origin, ∀ n p, p.name = owner → (f.read n p).value.name = owner :=
  fun f hf n p hp => (Project.name_of_header (w.header_projectSections origin f hf n p)).trans hp

end Workspace

end SolutionPlan
