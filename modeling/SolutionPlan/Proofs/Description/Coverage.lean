import SolutionPlan.Proofs.Configuration.Coverage
import SolutionPlan.Proofs.Description.Alike

/-!
# Covered rules in a description

A configuration is mentioned before anything in it is read, and a `compile` block with a pattern is
read for compile settings only. So the profiles of a solution and its projects cover their rules.
-/

namespace SolutionPlan

/-! ## Compile settings -/

theorem SettingKey.scope_of_lookup? {scope : Scope} {name : String} {key : SettingKey}
    (h : lookup? scope name = some key) : key.scope = scope := by
  have hmem := List.mem_of_find?_eq_some h
  simpa using (List.mem_filter.1 hmem).2

theorem Edit.scope_of_ofText {scope : Scope} {name raw : String} {key : SettingKey}
    {value : SettingValue} (h : (Edit.ofText scope name raw).value = some (.set key value)) :
    key.scope = scope := by
  unfold Edit.ofText SettingKey.readNamed? at h
  cases hkey : SettingKey.lookup? scope name with
  | none =>
      rw [hkey] at h
      cases h
  | some found =>
      rw [hkey] at h
      simp only [Option.map_some, Logged.bind_value, Logged.pure_value, Option.some.injEq,
        Edit.set.injEq] at h
      exact h.1 ▸ SettingKey.scope_of_lookup? hkey

theorem scope_of_compileEdit {parameters : Parameters} {n : Node} {key : SettingKey}
    {value : SettingValue} (h : .set key value ∈ (compileEdit parameters n).value) :
    key.scope = .compile := by
  unfold compileEdit at h
  simp only at h
  split at h
  · split at h
    · cases List.mem_singleton.1 h
    · exact absurd h List.not_mem_nil
  · simp only [Logged.bind_value, Logged.pure_value, Option.mem_toList] at h
    exact Edit.scope_of_ofText h

theorem compileOnly_blockWrites {origin : ProfileOrigin} {slot : Slot} {block : Node} {w : Write}
    (h : w ∈ (blockWrites origin slot block).value) : w.CompileOnly := by
  have hforAll {edits : List Edit}
      (h : w ∈ edits.map fun edit => (⟨⟨none, slot⟩, edit⟩ : Write)) : w.CompileOnly := by
    obtain ⟨_, -, rfl⟩ := List.mem_map.1 h
    exact nofun
  unfold blockWrites at h
  simp only at h
  split at h
  · exact absurd h List.not_mem_nil
  split at h
  · split at h
    · exact hforAll h
    · split at h
      · exact absurd h List.not_mem_nil
      · simp only [Logged.bind_value, Logged.pure_value, List.mem_map, collect_value,
          List.mem_cons, List.mem_flatMap] at h
        obtain ⟨e, he, rfl⟩ := h
        rintro - key value rfl
        rcases he with he | ⟨child, -, he⟩
        · cases he
        · exact scope_of_compileEdit he
  · split at h
    · exact hforAll h
    · exact hforAll h

/-! ## All writes of an owner -/

theorem compileOnly_slotWrites {origin : ProfileOrigin} {slot : Slot} {n : Node} {w : Write}
    (h : w ∈ (slotWrites origin slot n).value) : w.CompileOnly := by
  rw [slotWrites_value] at h
  rcases List.mem_cons.1 h with rfl | h
  · exact nofun
  · obtain ⟨layer, -, h⟩ := List.mem_flatMap.1 h
    obtain ⟨block, -, h⟩ := List.mem_flatMap.1 h
    exact compileOnly_blockWrites h

theorem announced_slotWrites (origin : ProfileOrigin) (slot : Slot) (n : Node) :
    Announced (slotWrites origin slot n).value := by
  intro w hw
  rw [slot_of_mem_slotWrites hw, slotWrites_value]
  exact ⟨_, List.mem_cons_self, rfl⟩

theorem compileOnly_ownerWrites {origin : ProfileOrigin} {e : Node} {w : Write}
    (h : w ∈ e.ownerWrites origin) : w.CompileOnly := by
  obtain ⟨layer, -, h⟩ := List.mem_flatMap.1 h
  obtain ⟨n, -, h⟩ := List.mem_flatMap.1 h
  rw [profileWrites_value] at h
  obtain ⟨_, -, h⟩ := List.mem_flatMap.1 h
  obtain ⟨entry, -, h⟩ := List.mem_flatMap.1 h
  exact compileOnly_slotWrites h

theorem announced_ownerWrites (origin : ProfileOrigin) (e : Node) :
    Announced (e.ownerWrites origin) := by
  refine Announced.flatMap fun layer _ => Announced.flatMap fun n _ => ?_
  rw [profileWrites_value]
  exact Announced.flatMap fun _ _ => Announced.flatMap fun entry _ =>
    announced_slotWrites origin entry.1 entry.2

theorem covered_ownerWrites (origin : ProfileOrigin) (e : Node) :
    (Profile.empty.writeAll (e.ownerWrites origin)).Covered :=
  Profile.covered_writeAll (announced_ownerWrites origin e) (fun _ hw => wellFormed_ownerWrites hw)
    fun _ hw => compileOnly_ownerWrites hw

/-! ## Solutions and projects -/

namespace Workspace

theorem covered_readProject {w : Workspace} {e : Node} {p : Project}
    (h : (w.readProject e).value = some p) : p.profile.Covered := by
  unfold readProject at h
  cases hexternal : e.attribute? "external" with
  | none =>
      rw [hexternal] at h
      obtain ⟨name, -, -, hprofile⟩ := readAuthored_spec h
      rw [hprofile]
      exact covered_ownerWrites _ e
  | some external =>
      rw [hexternal] at h
      simp only at h
      split at h
      · next hread =>
          obtain rfl := Option.some.inj h
          rw [readExternal_profile hread]
          exact Profile.covered_empty
      · cases h

theorem covered_readSolution {w : Workspace} {e : Node} {s : Solution}
    (h : (w.readSolution e).value = some s) :
    s.profile.Covered ∧ ∀ p ∈ s.projects, p.profile.Covered := by
  constructor
  · obtain ⟨-, -, hprofile⟩ := readSolution_spec h
    rw [hprofile]
    exact covered_ownerWrites _ e
  · intro p hp
    obtain ⟨n, q, hread, hsame⟩ := exists_readProject_of_mem h hp
    have hprofile := congrArg Project.profile hsame
    have hcovered := covered_readProject hread
    exact hprofile ▸ hcovered

end Workspace

end SolutionPlan
