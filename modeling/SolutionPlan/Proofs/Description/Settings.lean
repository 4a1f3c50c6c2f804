import SolutionPlan.Description.Settings
import SolutionPlan.Proofs.Configuration.Writing
import SolutionPlan.Proofs.Description.Layers
import SolutionPlan.Proofs.Setting.Reading

/-!
# The writes of a description

A `configurations` element asks for one list of writes: those of the elements that it stands for,
each with its shared configuration first. All of them are well-formed, so whatever a description
says it leaves a written profile.
-/

namespace SolutionPlan

/-! ## Values that are read -/

theorem Edit.wellKinded_ofText {scope : Scope} {name raw : String} {e : Edit}
    (h : e ∈ (Edit.ofText scope name raw).value) : e.WellKinded := by
  unfold Edit.ofText SettingKey.readNamed? at h
  cases hkey : SettingKey.lookup? scope name with
  | none =>
      rw [hkey] at h
      exact absurd h (by simp)
  | some key =>
      rw [hkey] at h
      obtain rfl := Option.some.inj h
      exact key.read_hasKind raw

theorem wellKinded_settingEdit {parameters : Parameters} {scope : Scope} {n : Node} {e : Edit}
    (h : e ∈ (settingEdit parameters scope n).value) : e.WellKinded := by
  simp only [settingEdit, Logged.bind_value, Logged.pure_value, Option.mem_toList] at h
  exact Edit.wellKinded_ofText h

theorem wellKinded_compileEdit {parameters : Parameters} {n : Node} {e : Edit}
    (h : e ∈ (compileEdit parameters n).value) : e.WellKinded := by
  unfold compileEdit at h
  simp only at h
  split at h
  · split at h
    · obtain rfl := List.mem_singleton.1 h
      exact trivial
    · exact absurd h List.not_mem_nil
  · simp only [Logged.bind_value, Logged.pure_value, Option.mem_toList] at h
    exact Edit.wellKinded_ofText h

/-! ## Writes as values -/

theorem collect_value {α β : Type} (xs : List α) (f : α → Logged (List β)) :
    (collect xs f).value = xs.flatMap fun x => (f x).value := by
  simp [collect, List.flatMap_def]

theorem slotWrites_value (origin : ProfileOrigin) (slot : Slot) (n : Node) :
    (slotWrites origin slot n).value =
      ⟨⟨none, slot⟩, .mention⟩ ::
        n.elements.flatMap fun layer =>
          layer.children.flatMap fun block => (blockWrites origin slot block).value := by
  simp [slotWrites, Node.readLayers_value, collect_value, List.flatMap_def]

def Node.slots (owner : String) (layer : Node) : List (Slot × Node) :=
  (layer.first? "shared").toList.map (fun e => (.shared (owner ++ "_shared"), e)) ++
    (layer.named "configuration").filterMap fun e =>
      (e.attribute? "name").map fun name => (.named name, e)

theorem configurationWrites_value (origin : ProfileOrigin) (e : Node) :
    (configurationWrites origin e).value =
      ((e.attribute? "name").toList).flatMap fun name =>
        (slotWrites origin (.named name) e).value := by
  unfold configurationWrites
  cases e.attribute? "name" <;> simp

theorem profileWrites_value (origin : ProfileOrigin) (n : Node) :
    (profileWrites origin n).value =
      n.elements.flatMap fun layer =>
        (layer.slots origin.owner).flatMap fun entry =>
          (slotWrites origin entry.1 entry.2).value := by
  have hlayer (layer : Node) :
      ((layer.first? "shared").toList.flatMap fun e =>
          (slotWrites origin (.shared (origin.owner ++ "_shared")) e).value) ++
        ((layer.named "configuration").flatMap fun e => (configurationWrites origin e).value) =
      (layer.slots origin.owner).flatMap fun entry =>
        (slotWrites origin entry.1 entry.2).value := by
    unfold Node.slots
    rw [List.flatMap_append, List.flatMap_map]
    congr 1
    induction layer.named "configuration" with
    | nil => rfl
    | cons e rest ih =>
        rw [List.flatMap_cons, ih, configurationWrites_value, List.filterMap_cons]
        cases e.attribute? "name" <;> simp
  simp only [profileWrites, Node.readLayers_value, Logged.bind_value, Logged.pure_value,
    collect_value, List.append_assoc, hlayer]
  rw [List.foldl_append_eq_append, List.nil_append, List.flatMap_def]

/-! ## Well-formed writes -/

theorem wellFormed_blockWrites {origin : ProfileOrigin} {slot : Slot} {block : Node} {w : Write}
    (h : w ∈ (blockWrites origin slot block).value) : w.WellFormed := by
  unfold blockWrites at h
  simp only at h
  split at h
  · exact absurd h List.not_mem_nil
  split at h
  · split at h
    · simp only [Logged.bind_value, Logged.pure_value, List.mem_map, collect_value,
        List.mem_flatMap] at h
      obtain ⟨e, ⟨child, -, he⟩, rfl⟩ := h
      exact ⟨wellKinded_compileEdit he, nofun⟩
    · split at h
      · exact absurd h List.not_mem_nil
      · next pattern hpattern =>
        have hcompiled := (FilePattern.compiled_of_compile hpattern).2
        simp only [Logged.bind_value, Logged.pure_value, List.mem_map, collect_value,
          List.mem_cons, List.mem_flatMap] at h
        obtain ⟨e, he, rfl⟩ := h
        refine ⟨?_, by simpa using hcompiled⟩
        rcases he with rfl | ⟨child, -, he⟩
        · exact trivial
        · exact wellKinded_compileEdit he
  · split at h
    · simp only [Logged.bind_value, Logged.pure_value, List.mem_map, collect_value,
        List.mem_flatMap] at h
      obtain ⟨e, ⟨child, -, he⟩, rfl⟩ := h
      exact ⟨wellKinded_settingEdit he, nofun⟩
    · simp only [Logged.bind_value, Logged.pure_value, List.mem_map] at h
      obtain ⟨e, he, rfl⟩ := h
      exact ⟨wellKinded_settingEdit he, nofun⟩

theorem wellFormed_slotWrites {origin : ProfileOrigin} {slot : Slot} {n : Node} {w : Write}
    (h : w ∈ (slotWrites origin slot n).value) : w.WellFormed := by
  rw [slotWrites_value] at h
  rcases List.mem_cons.1 h with rfl | h
  · exact ⟨trivial, nofun⟩
  · obtain ⟨layer, -, h⟩ := List.mem_flatMap.1 h
    obtain ⟨block, -, h⟩ := List.mem_flatMap.1 h
    exact wellFormed_blockWrites h

theorem wellFormed_profileWrites {origin : ProfileOrigin} {n : Node} {w : Write}
    (h : w ∈ (profileWrites origin n).value) : w.WellFormed := by
  rw [profileWrites_value] at h
  obtain ⟨layer, -, h⟩ := List.mem_flatMap.1 h
  obtain ⟨entry, -, h⟩ := List.mem_flatMap.1 h
  exact wellFormed_slotWrites h

/-! ## The profile of an owner -/

def Node.layerWrites (origin : ProfileOrigin) (layer : Node) : List Write :=
  (layer.first? "configurations").toList.flatMap fun n => (profileWrites origin n).value

def Node.ownerWrites (origin : ProfileOrigin) (e : Node) : List Write :=
  e.elements.flatMap (layerWrites origin)

theorem wellFormed_ownerWrites {origin : ProfileOrigin} {e : Node} {w : Write}
    (h : w ∈ e.ownerWrites origin) : w.WellFormed := by
  obtain ⟨layer, -, h⟩ := List.mem_flatMap.1 h
  obtain ⟨n, -, h⟩ := List.mem_flatMap.1 h
  exact wellFormed_profileWrites h

theorem readProfile_value (origin : ProfileOrigin) (layer : Node) (profile : Profile) :
    (readProfile origin layer profile).value = profile.writeAll (layer.layerWrites origin) := by
  unfold readProfile Node.layerWrites
  cases layer.first? "configurations" <;> simp [Profile.writeAll]

theorem written_ownerWrites (origin : ProfileOrigin) (e : Node) :
    (Profile.empty.writeAll (e.ownerWrites origin)).Written :=
  Profile.written_empty.writeAll fun _ hw => wellFormed_ownerWrites hw

end SolutionPlan
