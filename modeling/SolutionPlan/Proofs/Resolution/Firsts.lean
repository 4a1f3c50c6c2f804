import Mathlib.Data.List.Nodup

/-!
# First of each key

From a list of members those are kept that are the first of their key, unless the key is known
before. Each remaining key is kept once, in the order of the first occurrences, so a list in which
nothing comes without what has to come before it stays such a list.
-/

namespace SolutionPlan

variable {α κ : Type} [DecidableEq κ] {key : α → κ}

/-- The members whose key is not known and not that of a member before them. -/
def firsts (key : α → κ) (known : List κ) : List α → List α
  | [] => []
  | a :: rest =>
      if key a ∈ known then firsts key known rest
      else a :: firsts key (known ++ [key a]) rest

theorem firsts_append (known : List κ) (front back : List α) :
    firsts key known (front ++ back) =
      firsts key known front ++
        firsts key (known ++ (firsts key known front).map key) back := by
  induction front generalizing known with
  | nil => simp [firsts]
  | cons a rest ih =>
      rw [List.cons_append, firsts, firsts]
      split
      · exact ih known
      · rw [ih, List.cons_append, List.map_cons, List.append_assoc, List.singleton_append]

theorem firsts_sublist (known : List κ) (members : List α) :
    (firsts key known members).Sublist members := by
  induction members generalizing known with
  | nil => exact .slnil
  | cons a rest ih =>
      rw [firsts]
      split
      · exact (ih known).cons a
      · exact (ih _).cons_cons a

theorem mem_map_firsts {known : List κ} {members : List α} {k : κ} :
    k ∈ (firsts key known members).map key ↔ k ∈ members.map key ∧ k ∉ known := by
  induction members generalizing known with
  | nil => simp [firsts]
  | cons a rest ih =>
      rw [firsts, List.map_cons, List.mem_cons]
      split
      · next ha =>
          rw [ih]
          constructor
          · exact fun h => ⟨.inr h.1, h.2⟩
          · rintro ⟨rfl | h, hk⟩
            · exact absurd ha hk
            · exact ⟨h, hk⟩
      · next ha =>
          rw [List.map_cons, List.mem_cons, ih, List.mem_append, List.mem_singleton]
          constructor
          · rintro (rfl | ⟨h, hk⟩)
            · exact ⟨.inl rfl, ha⟩
            · exact ⟨.inr h, fun hknown => hk (.inl hknown)⟩
          · rintro ⟨rfl | h, hk⟩
            · exact .inl rfl
            · by_cases hka : k = key a
              · exact .inl hka
              · exact .inr ⟨h, fun hboth => hboth.elim hk hka⟩

theorem nodup_map_firsts (known : List κ) (members : List α) :
    ((firsts key known members).map key).Nodup := by
  induction members generalizing known with
  | nil => exact List.nodup_nil
  | cons a rest ih =>
      rw [firsts]
      split
      · exact ih known
      · rw [List.map_cons, List.nodup_cons]
        refine ⟨fun hmem => ?_, ih _⟩
        exact (mem_map_firsts.1 hmem).2 (by simp)

theorem firsts_eq_nil_iff {known : List κ} {members : List α} :
    firsts key known members = [] ↔ ∀ a ∈ members, key a ∈ known := by
  rw [← List.map_eq_nil_iff (f := key), List.eq_nil_iff_forall_not_mem]
  simp only [mem_map_firsts, not_and, not_not, List.forall_mem_map]

theorem eraseDups_concat {α : Type} [BEq α] [LawfulBEq α] (l : List α) (a : α) :
    (l ++ [a]).eraseDups = if a ∈ l.eraseDups then l.eraseDups else l.eraseDups ++ [a] := by
  rw [List.eraseDups_append]
  by_cases h : a ∈ l
  · simp [List.removeAll, h]
  · simp [List.removeAll, h, List.eraseDups_cons]

/-! ## What comes before -/

/-- Whatever is below a member is known or stands in front of that member. -/
def Downward (below : α → α → Prop) (known members : List α) : Prop :=
  ∀ front a back, members = front ++ a :: back → ∀ b, below b a → b ∈ known ∨ b ∈ front

section Downward

variable {below : α → α → Prop} {known front back : List α}

theorem Downward.append (hfront : Downward below known front)
    (hback : Downward below known back) : Downward below known (front ++ back) := by
  intro before a after h b hb
  rcases List.append_eq_append_iff.1 h with ⟨rest, rfl, hrest⟩ | ⟨rest, hrest, hafter⟩
  · exact (hback rest a after hrest b hb).imp_right (List.mem_append_right front)
  · cases rest with
    | nil =>
        rw [List.append_nil] at hrest
        subst hrest
        exact (hback [] a after hafter.symm b hb).imp_right nofun
    | cons c rest =>
        obtain ⟨rfl, -⟩ := List.cons.inj hafter
        exact hfront before a rest hrest b hb

theorem Downward.flatMap {β : Type} {xs : List β} {f : β → List α}
    (h : ∀ x ∈ xs, Downward below known (f x)) : Downward below known (xs.flatMap f) := by
  induction xs with
  | nil =>
      intro before a after hnil
      simp at hnil
  | cons x rest ih =>
      rw [List.flatMap_cons]
      exact (h x List.mem_cons_self).append (ih fun y hy => h y (List.mem_cons_of_mem x hy))

theorem Downward.tail {more : List α} {first : α} (h : Downward below known (first :: back))
    (hknown : ∀ b ∈ known, b ∈ more) (hfirst : first ∈ more) : Downward below more back := by
  intro before a after hback b hb
  rcases h (first :: before) a after (by rw [hback]; rfl) b hb with hmem | hbefore
  · exact .inl (hknown b hmem)
  · rcases List.mem_cons.1 hbefore with rfl | hbefore
    · exact .inl hfirst
    · exact .inr hbefore

theorem Downward.firsts [DecidableEq α] {members : List α} (h : Downward below known members) :
    Downward below known (firsts id known members) := by
  induction members generalizing known with
  | nil => exact h
  | cons first rest ih =>
      rw [SolutionPlan.firsts]
      split
      · next hfirst => exact ih (h.tail (fun _ => id) hfirst)
      · have hlater := ih (h.tail (fun _ => List.mem_append_left [id first]) (by simp))
        intro before a after hmembers b hb
        cases before with
        | nil =>
            obtain ⟨rfl, -⟩ := List.cons.inj hmembers
            exact h [] first rest rfl b hb
        | cons c before =>
            obtain ⟨rfl, hrest⟩ := List.cons.inj hmembers
            rcases hlater before a after hrest b hb with hmem | hbefore
            · rcases List.mem_append.1 hmem with hknown | hsame
              · exact .inl hknown
              · rw [List.mem_singleton.1 hsame]
                exact .inr List.mem_cons_self
            · exact .inr (List.mem_cons_of_mem _ hbefore)

end Downward

end SolutionPlan
