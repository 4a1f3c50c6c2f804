import Mathlib.Logic.IsEmpty.Basic
import SolutionPlan.Proofs.Description.FlawTurns

/-!
# The cost of a flaw

Whatever a flawed child is read as, its reader records its problem and goes on with what it had.
So a place where a flaw stands has a turn for it, and with the place every element around it, up to
the root of the tree.
-/

namespace SolutionPlan

/-! ## Reading a flawed child -/

theorem settingEdit_of_unknown {parameters : Parameters} {scope : Scope} {e : Node}
    (h : SettingKey.lookup? scope e.name = none) :
    settingEdit parameters scope e = ⟨[], [.unknownSetting scope e.name]⟩ := by
  unfold settingEdit Edit.ofText SettingKey.readNamed?
  rw [h]
  rfl

namespace Flawed

variable {w : Workspace} {e : Node} {p : Problem}

theorem in_root (h : Flawed w .root e p) :
    e.name = "solution" ∧ w.readSolution e = ⟨none, [p]⟩ := by
  cases h with
  | solution hname hcalled =>
      refine ⟨hname, ?_⟩
      unfold Workspace.readSolution
      rw [hcalled]
      rfl
  | failedImport hr | external hr | project hr => cases hr

theorem in_platforms (h : Flawed w .platforms e p) :
    e.name = "platform" ∧ ∀ s, Workspace.readPlatform s e = ⟨s, [p]⟩ := by
  cases h with
  | platform hname hplatform =>
      refine ⟨hname, fun s => ?_⟩
      unfold Workspace.readPlatform
      rw [hplatform]
      rfl
  | failedImport hr | external hr | project hr => cases hr

theorem in_targets (h : Flawed w .targets e p) (himport : e.name ≠ "import") :
    e.name = "custom" ∧ ∀ s, readCustomTarget e s = ⟨s, [p]⟩ := by
  cases h with
  | target hname hcalled =>
      refine ⟨hname, fun s => ?_⟩
      unfold readCustomTarget
      rw [hcalled]
      rfl
  | failedImport hr hname => exact absurd hname himport
  | external hr | project hr => cases hr

theorem not_in_custom {target : String} : ¬Flawed w (.custom target) e p := by
  intro h
  cases h with
  | failedImport hr | external hr | project hr => cases hr

theorem in_build {target : String} (h : Flawed w (.build target) e p) :
    (e.name = "configuration" ∨ e.name = "configurations") ∧
      ∀ step, readStepBlock target step e = ⟨step, [p]⟩ := by
  cases h with
  | step hname hcalled =>
      refine ⟨hname, fun step => ?_⟩
      unfold readStepBlock
      rw [hcalled]
      rfl
  | failedImport hr | external hr | project hr => cases hr

theorem in_profile {owner : String} {directory : Path} (h : Flawed w (.profile owner directory) e p)
    (himport : e.name ≠ "import") :
    e.name = "configuration" ∧
      configurationWrites ⟨w.parameters, directory, owner⟩ e = ⟨[], [p]⟩ := by
  cases h with
  | configuration hname hcalled =>
      refine ⟨hname, ?_⟩
      unfold configurationWrites
      rw [hcalled]
      rfl
  | failedImport hr hname => exact absurd hname himport
  | external hr | project hr => cases hr

theorem in_slot {directory : Path} (h : Flawed w (.slot directory) e p)
    (himport : e.name ≠ "import") (owner : String) (slot : Slot) :
    blockWrites ⟨w.parameters, directory, owner⟩ slot e = ⟨[], [p]⟩ := by
  cases h with
  | rule hcompile hfiles hpattern =>
      simp only [blockWrites, himport, hcompile, hfiles, hpattern, if_true, if_false]
      rfl
  | setting himport hcompile hlink hunknown =>
      simp only [blockWrites, himport, hcompile, hlink, settingEdit_of_unknown hunknown, if_false,
        Bool.false_eq_true]
      rfl
  | failedImport hr hname => exact absurd hname himport
  | external hr | project hr => cases hr

theorem in_compile (h : Flawed w .compile e p) : compileEdit w.parameters e = ⟨[], [p]⟩ := by
  cases h with
  | compileSetting hexclude hswitch hunknown =>
      have hsetting : compileEdit w.parameters e = settingEdit w.parameters .compile e := by
        simp [compileEdit, settingEdit, hexclude, hswitch]
      rw [hsetting, settingEdit_of_unknown hunknown]
  | failedImport hr | external hr | project hr => cases hr

theorem in_link (h : Flawed w .link e p) : settingEdit w.parameters .link e = ⟨[], [p]⟩ := by
  cases h with
  | linkSetting hunknown => exact settingEdit_of_unknown hunknown
  | failedImport hr | external hr | project hr => cases hr

theorem in_contents {r : Reading} (h : Flawed w r e p) (hr : r.hasContents)
    (himport : r.importsAs.isSome → e.name ≠ "import") :
    e.name = "project" ∧ ∀ folder s, w.addRead folder s e = ⟨s, [p]⟩ := by
  cases h with
  | external hr hname hexternal hrejected =>
      refine ⟨hname, fun folder s => ?_⟩
      unfold Workspace.addRead Workspace.readProject
      rw [hexternal]
      simp only [hrejected]
      rfl
  | project hr hname hexternal hcalled =>
      refine ⟨hname, fun folder s => ?_⟩
      unfold Workspace.addRead Workspace.readProject Workspace.readAuthored
      rw [hexternal, hcalled]
      rfl
  | failedImport hr hname => exact absurd hname (himport hr)
  | solution | platform | target | step | configuration | rule | setting | compileSetting
  | linkSetting | filter | reference | dependency | files => cases hr

theorem in_project {owner : String} {directory : Path} (h : Flawed w (.project owner directory) e p)
    (himport : e.name ≠ "import") :
    (e.name = "filter" ∨ e.name = "reference" ∨ e.name = "dependency") ∧
      ∀ q : Project, q.name = owner →
        (e.name = "filter" → w.readFilter q e = ⟨q, [p]⟩) ∧
          (e.name = "reference" → Workspace.readReference q e = ⟨q, [p]⟩) ∧
            (e.name = "dependency" → Workspace.readDependency q e = ⟨q, [p]⟩) := by
  cases h with
  | filter hname hcalled =>
      refine ⟨.inl hname, ?_⟩
      rintro q rfl
      simp [hname, Workspace.readFilter, hcalled]
      rfl
  | reference hname hmissing =>
      refine ⟨.inr (.inl hname), ?_⟩
      rintro q rfl
      simp [hname, Workspace.readReference, hmissing]
      rfl
  | dependency hname hmissing =>
      refine ⟨.inr (.inr hname), ?_⟩
      rintro q rfl
      simp [hname, Workspace.readDependency, hmissing]
      rfl
  | failedImport hr hname => exact absurd hname himport
  | external hr | project hr => cases hr

theorem in_filter {filter : String} (h : Flawed w (.filter filter) e p) :
    (e.name = "include" ∨ e.name = "exclude") ∧
      ∀ f : Filter, f.name = filter → w.expandFiles f e = ⟨[], [p]⟩ := by
  cases h with
  | files hname hmissing =>
      refine ⟨hname, ?_⟩
      rintro f rfl
      unfold Workspace.expandFiles
      rw [hmissing]
      rfl
  | failedImport hr | external hr | project hr => cases hr

end Flawed

/-! ## The place of a flaw -/

section Place

variable {w : Workspace} {around : Reading} {name : String}

theorem steady_project_each {owner : String} {directory : Path}
    (frame : Frame (Flaw w (.project owner directory) name))
    {step : Project → Node → Logged Project}
    (hone : (w.projectSections directory).filter (fun f => f.looksAt name) =
      [.each (· == name) step])
    (hheader : ∀ q e, (step q e).value.header = q.header)
    (h : ∀ q : Project, q.name = owner → ∀ flaw : Flaw w (.project owner directory) name,
      step q flaw.node = ⟨q, [flaw.problem]⟩) :
    (Reading.project owner directory).Steady w Flaw.problem
      (frame.fill (Reading.project owner directory).rank name Flaw.nodes fun _ => []) := by
  refine steady_project frame Flaw.name_of_mem_nodes hone fun p hp => ?_
  refine .each (P := fun q => q.name = owner) frame _ Flaw.name_of_mem_nodes ?keeps ?sees ?level
    (fun q hq => Flaw.foldlM_nodes (h q hq)) hp
  case keeps => exact fun q e hq => (Project.name_of_header (hheader q e)).trans hq
  case sees => exact beq_self_eq_true name
  case level => exact fun other hother => congrArg _ (beq_iff_eq.1 hother)

theorem steady_contents_here (frame : Frame (Flaw w around name)) (flaw : Flaw w around name)
    (hr : around.hasContents)
    (himport : ∀ flaw : Flaw w around name, around.importsAs.isSome → flaw.node.name ≠ "import") :
    around.Steady w Flaw.problem (frame.fill around.rank name Flaw.nodes Flaw.imports) := by
  have hread (flaw : Flaw w around name) := flaw.flawed.in_contents hr (himport flaw)
  obtain rfl : name = "project" := flaw.named.symm.trans (hread flaw).1
  rw [Flaw.imports_of_ne (by decide)]
  exact steady_contents frame Flaw.name_of_mem_nodes hr (.inr rfl) (fun _ => rfl) fun folder s =>
    Flaw.foldlM_nodes fun flaw => (hread flaw).2 folder s

theorem steady_profile_here {owner : String} {directory : Path}
    (frame : Frame (Flaw w (.profile owner directory) name))
    (flaw : Flaw w (.profile owner directory) name)
    (himport : ∀ flaw : Flaw w (.profile owner directory) name, flaw.node.name ≠ "import") :
    (Reading.profile owner directory).Steady w Flaw.problem
      (frame.fill (Reading.profile owner directory).rank name Flaw.nodes Flaw.imports) := by
  have hread (flaw : Flaw w (.profile owner directory) name) :=
    flaw.flawed.in_profile (himport flaw)
  obtain rfl : name = "configuration" := flaw.named.symm.trans (hread flaw).1
  rw [Flaw.imports_of_ne (by decide)]
  refine steady_profile frame Flaw.name_of_mem_nodes rfl fun writes => ?_
  refine .gather frame _ Flaw.name_of_mem_nodes rfl ?level
    (Flaw.collect_nodes fun flaw => (hread flaw).2) writes
  case level => exact fun other hother => congrArg _ (beq_iff_eq.1 hother)

theorem steady_project_here {owner : String} {directory : Path}
    (frame : Frame (Flaw w (.project owner directory) name))
    (flaw : Flaw w (.project owner directory) name)
    (himport : ∀ flaw : Flaw w (.project owner directory) name, flaw.node.name ≠ "import") :
    (Reading.project owner directory).Steady w Flaw.problem
      (frame.fill (Reading.project owner directory).rank name Flaw.nodes Flaw.imports) := by
  have hread (flaw : Flaw w (.project owner directory) name) :=
    flaw.flawed.in_project (himport flaw)
  rw [Flaw.imports_of_ne (flaw.named ▸ himport flaw)]
  rcases flaw.named ▸ (hread flaw).1 with rfl | rfl | rfl
  · exact steady_project_each frame rfl w.header_readFilter fun q hq flaw =>
      ((hread flaw).2 q hq).1 flaw.named
  · exact steady_project_each frame rfl Workspace.header_readReference fun q hq flaw =>
      ((hread flaw).2 q hq).2.1 flaw.named
  · exact steady_project_each frame rfl Workspace.header_readDependency fun q hq flaw =>
      ((hread flaw).2 q hq).2.2 flaw.named

/-- One flaw says which name the place is for. Every flaw of that name is read in the same way. -/
theorem steady_here (frame : Frame (Flaw w around name)) (flaw : Flaw w around name) :
    around.Steady w Flaw.problem (frame.fill around.rank name Flaw.nodes Flaw.imports) := by
  have hnamed (x : At (Flaw w around name)) := Flaw.name_of_mem_nodes x
  by_cases hfailed : name = "import" ∧ around.importsAs.isSome
  · obtain ⟨himport, hr⟩ := hfailed
    subst himport
    exact steady_failed frame hnamed hr (Flaw.imports_of_import rfl hr)
  have himport (flaw : Flaw w around name) (hr : around.importsAs.isSome) :
      flaw.node.name ≠ "import" :=
    fun hname => hfailed ⟨flaw.named.symm.trans hname, hr⟩
  by_cases hr : around.hasContents
  · exact steady_contents_here frame flaw hr himport
  cases around with
  | solution | contents | folder => exact absurd rfl hr
  | root =>
      obtain rfl : name = "solution" := flaw.named.symm.trans flaw.flawed.in_root.1
      refine steady_root frame hnamed _ (Flaw.collect_nodes fun flaw => ?_)
      rw [flaw.flawed.in_root.2]
      rfl
  | platforms =>
      obtain rfl : name = "platform" := flaw.named.symm.trans flaw.flawed.in_platforms.1
      exact steady_platforms frame hnamed _ fun s =>
        Flaw.foldlM_nodes fun flaw => flaw.flawed.in_platforms.2 s
  | targets =>
      have hread (flaw : Flaw w .targets name) := flaw.flawed.in_targets (himport flaw rfl)
      obtain rfl : name = "custom" := flaw.named.symm.trans (hread flaw).1
      rw [Flaw.imports_of_ne (by decide)]
      exact steady_targets frame hnamed fun s => Flaw.foldlM_nodes fun flaw => (hread flaw).2 s
  | custom target => exact absurd flaw.flawed Flawed.not_in_custom
  | build target =>
      have hname := flaw.named ▸ flaw.flawed.in_build.1
      exact steady_build frame hnamed hname _ fun step =>
        Flaw.foldlM_nodes fun flaw => flaw.flawed.in_build.2 step
  | profile owner directory =>
      exact steady_profile_here frame flaw fun flaw => himport flaw rfl
  | slot directory =>
      have hname : name ≠ "import" := flaw.named ▸ himport flaw rfl
      rw [Flaw.imports_of_ne hname]
      exact steady_slot frame hnamed hname fun owner slot => Flaw.collect_nodes fun flaw =>
        flaw.flawed.in_slot (himport flaw rfl) owner slot
  | compile =>
      exact steady_compile frame _ (Flaw.collect_nodes fun flaw => flaw.flawed.in_compile)
  | link => exact steady_link frame _ (Flaw.collect_nodes fun flaw => flaw.flawed.in_link)
  | project owner directory =>
      exact steady_project_here frame flaw fun flaw => himport flaw rfl
  | filter filter =>
      have hname := flaw.named ▸ flaw.flawed.in_filter.1
      exact steady_filter frame hnamed hname _ fun f hf =>
        Flaw.collect_nodes fun flaw => flaw.flawed.in_filter.2 f hf

/-- Every element on the way from the place to the root has the turn. -/
theorem steady_of_spot {r : Reading} {tree : At (Flaw w around name) → Node}
    (h : Spot w around name r tree) (flaw : Flaw w around name) :
    r.Steady w Flaw.problem tree := by
  induction h with
  | here frame => exact steady_here frame flaw
  | child frame h hread hfirst ih => exact steady_child frame h.sameTag ih hread hfirst
  | imported frame h hread ih =>
      refine steady_loaded frame ?_ hread ih
      exact fun _ e he => absurd he List.not_mem_nil

end Place

/-! ## Root elements -/

/-- A flaw costs one error, which comes right after what is recorded before its place. -/
theorem Workspace.readRoot_flaw {w : Workspace} {around : Reading} {name : String}
    {tree : At (Flaw w around name) → Node} (h : Spot w around name .root tree) :
    ∃ solutions before after,
      w.readRoot (tree .nothing) = ⟨solutions, before ++ after⟩ ∧
        ∀ flaw, flaw.problem.severity = .error ∧
          (w.readRoot (tree .stop)).problems = before ∧
            w.readRoot (tree (.flaw flaw)) = ⟨solutions, before ++ flaw.problem :: after⟩ := by
  rcases isEmpty_or_nonempty (Flaw w around name) with hempty | ⟨⟨flaw⟩⟩
  · exact ⟨_, (w.readRoot (tree .nothing)).problems, [], by rw [List.append_nil], hempty.elim⟩
  obtain ⟨solutions, after, hrun⟩ := steady_of_spot h flaw
  refine ⟨solutions, _, after, ?_, fun flaw => ⟨flaw.flawed.severity, rfl, ?_⟩⟩
  · simpa [At.problems] using hrun .nothing (by simp)
  · simpa [At.problems] using hrun (.flaw flaw) (by simp)

end SolutionPlan
