import SolutionPlan.Proofs.Configuration.LastWrite

/-!
# Rules covered by their owner

The configurations of a file rule are ones that its owner has too, and only compile settings stand
in them. This holds of every profile whose writes for the files of a pattern each come with a
mention of the same configuration for all files.
-/

namespace SolutionPlan

/-- For the files of a pattern the write gives compile settings only. -/
def Write.CompileOnly (w : Write) : Prop :=
  w.place.rule.isSome → ∀ key value, w.edit = .set key value → key.scope = .compile

/-- What is written anywhere is also mentioned for all files. -/
def Announced (writes : List Write) : Prop :=
  ∀ w ∈ writes, ∃ v ∈ writes, v.place = ⟨none, w.place.slot⟩

theorem Announced.flatMap {α : Type} {f : α → List Write} {xs : List α}
    (h : ∀ x ∈ xs, Announced (f x)) : Announced (xs.flatMap f) := by
  intro w hw
  obtain ⟨x, hx, hw⟩ := List.mem_flatMap.1 hw
  obtain ⟨v, hv, hplace⟩ := h x hx w hw
  exact ⟨v, List.mem_flatMap.2 ⟨x, hx, hv⟩, hplace⟩

def ConfigurationSet.members (s : ConfigurationSet) : List Configuration :=
  s.configurations ++ s.shared.toList

theorem ConfigurationSet.mem_names_iff (s : ConfigurationSet) (name : String) :
    name ∈ s.names ↔ (s.at? (.named name)).isSome := by
  rw [← Decidable.not_iff_not, ← find?_eq_none_iff, at?, Option.not_isSome_iff_eq_none]

theorem ConfigurationSet.exists_at?_of_mem {s : ConfigurationSet} (hs : s.names.Nodup)
    {c : Configuration} (hc : c ∈ s.members) : ∃ slot, s.at? slot = some c := by
  rcases List.mem_append.1 hc with h | h
  · exact ⟨.named c.name, find?_of_mem hs h⟩
  · exact ⟨.shared c.name, Option.mem_toList.1 h⟩

namespace Profile

/--
Names and patterns are distinct and every value is of its setting's kind. Each rule has only
configurations whose names its owner has, a shared one only if the owner has one, and gives nothing
but compile settings. Rules have no rules of their own, which their type says.
-/
structure Covered (p : Profile) : Prop where
  written : p.Written
  names : ∀ r ∈ p.rules, ∀ name ∈ r.overrides.names, name ∈ p.base.names
  shared : ∀ r ∈ p.rules, r.overrides.shared.isSome → p.base.shared.isSome
  compileOnly : ∀ r ∈ p.rules, ∀ c ∈ r.overrides.members, ∀ key, (c.get? key).isSome →
    key.scope = .compile

section Writes

variable {writes : List Write} (hannounced : Announced writes)

include hannounced

theorem isSome_base_of_rule {pattern : FilePattern} {slot : Slot}
    (h : (((empty.writeAll writes).overrides pattern).at? slot).isSome) :
    ((empty.writeAll writes).base.at? slot).isSome := by
  have hrule := (isSome_at?_writeAll empty writes (some pattern) slot).1 h
  rw [at?_empty, Option.isSome_none, or_iff_right Bool.false_ne_true] at hrule
  obtain ⟨w, hw, -, hslot⟩ := hrule
  obtain ⟨v, hv, hplace⟩ := hannounced w hw
  refine (isSome_at?_writeAll empty writes none slot).2 (.inr ⟨v, hv, ?_⟩)
  rw [Write.IsAt, hplace]
  exact ⟨rfl, hslot⟩

theorem covered_writeAll (hwritten : ∀ w ∈ writes, w.WellFormed)
    (hcompile : ∀ w ∈ writes, w.CompileOnly) : (empty.writeAll writes).Covered := by
  have hp : (empty.writeAll writes).Written := written_empty.writeAll hwritten
  refine ⟨hp, ?_, ?_, ?_⟩
  · intro r hr name hname
    rw [ConfigurationSet.mem_names_iff] at hname ⊢
    rw [← hp.overrides_of_mem hr] at hname
    exact isSome_base_of_rule hannounced hname
  · intro r hr hshared
    rw [← hp.overrides_of_mem hr] at hshared
    have hown : ((empty.writeAll writes).base.at? (.shared "")).isSome :=
      isSome_base_of_rule hannounced hshared
    exact hown
  · intro r hr c hc key hkey
    obtain ⟨value, hvalue⟩ := Option.isSome_iff_exists.1 hkey
    obtain ⟨slot, hslot⟩ := ConfigurationSet.exists_at?_of_mem (hp.overrides r hr).distinct hc
    have hlast := value_writeAll empty writes (some r.pattern) slot key
    rw [at?_empty, Option.bind_none, Option.or_none, Profile.set, hp.overrides_of_mem hr, hslot,
      Option.bind_some, hvalue] at hlast
    obtain ⟨w, hw, ⟨hrule, -⟩, hsaid⟩ := exists_of_lastAt_eq_some hlast.symm
    have hforRule : w.place.rule.isSome := by
      rw [← Option.isSome_map (f := FilePattern.text), hrule]
      rfl
    cases hedit : w.edit with
    | mention => rw [hedit] at hsaid; cases hsaid
    | exclude excluded => rw [hedit] at hsaid; cases hsaid
    | set other given =>
        rw [hedit, Edit.value?] at hsaid
        split at hsaid
        · next hsame => exact hsame ▸ hcompile w hw hforRule other given hedit
        · cases hsaid

end Writes

theorem covered_empty : empty.Covered :=
  @covered_writeAll [] (by simp [Announced]) (by simp) (by simp)

end Profile

end SolutionPlan
