import Mathlib.Data.List.Forall2
import SolutionPlan.Proofs.Description.Outline

/-!
# Solutions with one outline

Two elements with the same outline for a name are read as solutions that say the same about the
name, and so do their projects, one by one. What differs is what other configurations say.
-/

namespace SolutionPlan

/-- The projects differ in nothing that the overrides for the name depend on. -/
structure Project.Alike (name : String) (p q : Project) : Prop where
  called : p.name = q.name
  sourceRoot : p.sourceRoot = q.sourceRoot
  external : p.external = q.external
  profile : Profile.SameAbout name p.profile q.profile

def Project.EmptyIfExternal (p : Project) : Prop := p.external = true → p.profile = .empty

namespace Workspace

theorem emptyIfExternal_readProject {w : Workspace} {e : Node} {p : Project}
    (h : (w.readProject e).value = some p) : p.EmptyIfExternal := by
  intro hexternal
  unfold readProject at h
  cases hattribute : e.attribute? "external" with
  | none =>
      rw [hattribute] at h
      obtain ⟨name, -, hheader, -⟩ := readAuthored_spec h
      have hauthored := congrArg Project.external hheader
      have hfalse : p.external = false := hauthored
      rw [hfalse] at hexternal
      cases hexternal
  | some external =>
      rw [hattribute] at h
      simp only at h
      split at h
      · next hread =>
          obtain rfl := Option.some.inj h
          exact readExternal_profile hread
      · cases h

theorem emptyIfExternal_of_mem {w : Workspace} {e : Node} {s : Solution}
    (h : (w.readSolution e).value = some s) {p : Project} (hp : p ∈ s.projects) :
    p.EmptyIfExternal := by
  obtain ⟨n, q, hq, hsame⟩ := exists_readProject_of_mem h hp
  have hexternal := congrArg Project.external hsame
  have hprofile := congrArg Project.profile hsame
  have hempty := emptyIfExternal_readProject hq
  exact fun hp => hprofile.symm.trans (hempty (hexternal.trans hp))

/-! ## One outline -/

section Outlines

variable {name : String} {w v : Workspace} (hparameters : w.parameters = v.parameters)
  (hexternal : ∀ path, w.readExternal path = v.readExternal path)

include hparameters

theorem sameAbout_ownerWrites {e f : Node} (h : e.outline name false = f.outline name false)
    (directory : Path) (owner : String) :
    Profile.SameAbout name
      (Profile.empty.writeAll (e.ownerWrites ⟨w.parameters, directory, owner⟩))
      (Profile.empty.writeAll (f.ownerWrites ⟨v.parameters, directory, owner⟩)) := by
  apply Profile.sameAbout_writeAll
  rw [← filter_ownerWrites_outline, h, filter_ownerWrites_outline, hparameters]

theorem alike_readAuthored {e f : Node} (h : e.outline name false = f.outline name false) :
    Option.Rel (Project.Alike name) (w.readAuthored e).value (v.readAuthored f).value := by
  have hdirectory := Node.directory_eq_of_outline_eq h
  have hattribute := Node.attribute?_eq_of_outline_eq h
  cases hname : e.attribute? "name" with
  | none =>
      rw [readAuthored_value, readAuthored_value, ← hattribute, hname]
      exact .none
  | some own =>
      obtain ⟨p, hp⟩ := w.exists_readAuthored hname
      have hother : f.attribute? "name" = some own := (hattribute "name").symm.trans hname
      obtain ⟨q, hq⟩ := v.exists_readAuthored hother
      rw [hp, hq]
      obtain ⟨_, hpname, hpheader, hpprofile⟩ := readAuthored_spec hp
      obtain ⟨_, hqname, hqheader, hqprofile⟩ := readAuthored_spec hq
      obtain rfl := Option.some.inj (hname.symm.trans hpname)
      obtain rfl := Option.some.inj (hother.symm.trans hqname)
      refine .some ⟨?_, ?_, ?_, ?_⟩
      · exact (Project.name_of_header hpheader).trans (Project.name_of_header hqheader).symm
      · rw [sourceRoot_of_readAuthored hp, sourceRoot_of_readAuthored hq, hdirectory, hattribute]
      · have hpexternal := congrArg Project.external hpheader
        have hqexternal := congrArg Project.external hqheader
        exact hpexternal.trans hqexternal.symm
      · rw [hpprofile, hqprofile, hdirectory]
        exact sameAbout_ownerWrites hparameters h _ _

include hexternal

theorem alike_readProject {e f : Node} (h : e.outline name false = f.outline name false) :
    Option.Rel (Project.Alike name) (w.readProject e).value (v.readProject f).value := by
  have hdirectory := Node.directory_eq_of_outline_eq h
  have hattribute := Node.attribute?_eq_of_outline_eq h "external"
  unfold readProject Node.resolve
  rw [← hattribute, ← hdirectory]
  cases e.attribute? "external" with
  | none => exact alike_readAuthored hparameters h
  | some external =>
      simp only [← hexternal]
      cases w.readExternal (e.directory.resolve external) with
      | ok p => exact .some ⟨rfl, rfl, rfl, fun _ => rfl⟩
      | error problem => exact .none

theorem alike_readSolution {e f : Node} (h : e.outline name false = f.outline name false)
    {s t : Solution} (hs : (w.readSolution e).value = some s)
    (ht : (v.readSolution f).value = some t) :
    List.Forall₂ (Project.Alike name) s.projects t.projects := by
  have hsame : (e.elements.flatMap Node.contentProjects).map (Node.outline name false) =
      (f.elements.flatMap Node.contentProjects).map (Node.outline name false) := by
    rw [← Node.flatMap_contentProjects_outline, h, Node.flatMap_contentProjects_outline]
  have hnodes : List.Forall₂ (fun e f => e.outline name false = f.outline name false)
      (e.elements.flatMap Node.contentProjects) (f.elements.flatMap Node.contentProjects) := by
    rw [← List.forall₂_eq_eq_eq] at hsame
    simpa only [List.forall₂_map_left_iff, List.forall₂_map_right_iff] using hsame
  -- Which folder a project is shown in does not matter for its overrides.
  have hunplaced {found other : Option Project}
      (hread : Option.Rel (Project.Alike name) found other) :
      Option.Rel (Project.Alike name) (found.map Project.unplaced)
        (other.map Project.unplaced) := by
    cases hread with
    | none => exact .none
    | some halike =>
        exact .some ⟨halike.called, halike.sourceRoot, halike.external, halike.profile⟩
  have hprojects : List.Forall₂ (Project.Alike name) (s.projects.map Project.unplaced)
      (t.projects.map Project.unplaced) := by
    rw [projects_readSolution hs, projects_readSolution ht]
    refine List.rel_filterMap ?_ hnodes
    intro e f houtline
    exact hunplaced (alike_readProject hparameters hexternal houtline)
  rw [List.forall₂_map_left_iff, List.forall₂_map_right_iff] at hprojects
  exact hprojects.imp fun _ _ halike =>
    ⟨halike.called, halike.sourceRoot, halike.external, halike.profile⟩

omit hexternal

theorem alike_profiles {e f : Node} (h : e.outline name false = f.outline name false)
    {s t : Solution} (hs : (w.readSolution e).value = some s)
    (ht : (v.readSolution f).value = some t) :
    s.directory = t.directory ∧ Profile.SameAbout name s.profile t.profile := by
  obtain ⟨hsname, hsdirectory, hsprofile⟩ := readSolution_spec hs
  obtain ⟨htname, htdirectory, htprofile⟩ := readSolution_spec ht
  have hdirectory := Node.directory_eq_of_outline_eq h
  have hattribute := Node.attribute?_eq_of_outline_eq h "name"
  have hname : s.name = t.name :=
    Option.some.inj (hsname.symm.trans (hattribute.trans htname))
  refine ⟨hsdirectory.trans (hdirectory.trans htdirectory.symm), ?_⟩
  rw [hsprofile, htprofile, hdirectory, hname]
  exact sameAbout_ownerWrites hparameters h _ _

end Outlines

end Workspace

end SolutionPlan
