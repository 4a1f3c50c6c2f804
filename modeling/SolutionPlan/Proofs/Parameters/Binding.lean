import Mathlib.Data.List.Find
import Mathlib.Data.List.Induction
import SolutionPlan.Parameters
import SolutionPlan.Proofs.Resolution.Firsts

/-!
# Declared and bound parameters

A parameter stands where it is declared first and has the default of its last declaration. Bindings
do not change the names; of several for one name the last one counts. What is found wrong is the
first binding without a declaration, or else the first parameter without a value.
-/

namespace SolutionPlan.Parameters

/-! ## Declarations -/

def declarations (root : Xml.Element) : List (String × Option String) :=
  ((root.named "options").flatMap fun options => options.named "option").filterMap fun option =>
    (option.attribute? "name").map fun name => (name, option.attribute? "default")

/-- The names of the parameters, in the order of their first declarations. -/
def declaredNames (root : Xml.Element) : List String :=
  ((declarations root).map Prod.fst).eraseDups

def lastDefault? (root : Xml.Element) (name : String) : Option String :=
  ((declarations root).reverse.lookup name).join

variable {ps qs : Parameters} {root : Xml.Element} {name : String}

theorem declared_eq (root : Xml.Element) :
    declared root = (declarations root).foldl (fun ps d => ps.declare d.1 d.2) empty := by
  rw [declared, declarations, List.foldl_filterMap]
  congr
  funext ps option
  cases option.attribute? "name" <;> rfl

theorem names_declare (ps : Parameters) (name : String) (fallback : Option String) :
    (ps.declare name fallback).names =
      if name ∈ ps.names then ps.names else ps.names ++ [name] := by
  by_cases h : name ∈ ps.names
  · rw [if_pos h]
    exact Table.names_put_of_mem h
  · rw [if_neg h]
    exact Table.names_put_of_not_mem h

theorem names_declared (root : Xml.Element) : (declared root).names = declaredNames root := by
  rw [declared_eq, declaredNames]
  induction declarations root using List.reverseRecOn with
  | nil => rfl
  | append_singleton front d ih =>
      rw [List.foldl_concat, names_declare, ih, List.map_append, List.map_singleton,
        eraseDups_concat]

theorem nodup_names_declared (root : Xml.Element) : (declared root).names.Nodup := by
  rw [declared_eq]
  induction declarations root using List.reverseRecOn with
  | nil => exact List.nodup_nil
  | append_singleton front d ih =>
      rw [List.foldl_concat]
      exact Table.nodup_names_put ih _ _

theorem get?_declared (root : Xml.Element) (name : String) :
    (declared root).entries.get? name =
      ((declarations root).reverse.lookup name).map fun fallback => ⟨fallback, none⟩ := by
  rw [declared_eq]
  induction declarations root using List.reverseRecOn with
  | nil => rfl
  | append_singleton front d ih =>
      rw [List.foldl_concat, declare, Table.get?_put, ih, List.reverse_concat]
      change _ = Option.map _ (Table.get? (d :: front.reverse) name)
      rw [Table.get?_cons]
      split <;> rfl

/-! ## Bindings -/

theorem bind_of_not_mem (h : name ∉ ps.names) (value : String) :
    ps.bind name value = .error (.unknownOption name ps.names) := by
  rw [bind, Table.get?_eq_none_iff.2 h]

theorem exists_bind (h : name ∈ ps.names) (value : String) :
    ∃ qs, ps.bind name value = .ok qs ∧ qs.names = ps.names ∧
      ∀ other, qs.entries.get? other =
        if other = name then (ps.entries.get? name).map fun p => { p with bound := some value }
        else ps.entries.get? other := by
  cases hget : ps.entries.get? name with
  | none => exact absurd h (Table.get?_eq_none_iff.1 hget)
  | some parameter =>
      refine ⟨⟨ps.entries.put name { parameter with bound := some value }⟩, ?_, ?_, fun other => ?_⟩
      · rw [bind, hget]
      · exact Table.names_put_of_mem h
      · exact Table.get?_put ..

theorem exists_bindAll {bindings : List (String × String)} (h : ∀ b ∈ bindings, b.1 ∈ ps.names) :
    ∃ qs, ps.bindAll bindings = .ok qs ∧ qs.names = ps.names ∧
      ∀ name, qs.entries.get? name = (ps.entries.get? name).map fun p =>
        { p with bound := (bindings.reverse.lookup name).or p.bound } := by
  induction bindings generalizing ps with
  | nil => exact ⟨ps, rfl, rfl, fun name => by simp⟩
  | cons b rest ih =>
      obtain ⟨first, value⟩ := b
      obtain ⟨next, hnext, hnames, hget⟩ := exists_bind (h (first, value) (by simp)) value
      have hrest : ∀ other ∈ rest, other.1 ∈ next.names := fun other hother =>
        hnames ▸ h other (by simp [hother])
      obtain ⟨qs, hqs, hqnames, hqget⟩ := ih hrest
      refine ⟨qs, ?_, hqnames.trans hnames, fun name => ?_⟩
      · rw [bindAll, List.foldlM_cons, hnext]
        exact hqs
      · rw [hqget, hget, List.reverse_cons, List.lookup_append]
        by_cases hname : name = first
        · subst hname
          cases ps.entries.get? name <;> simp
        · simp [hname, List.lookup_cons, beq_false_of_ne hname]

theorem bindAll_eq_error {front back : List (String × String)} {b : String × String}
    (hfront : ∀ other ∈ front, other.1 ∈ ps.names) (hb : b.1 ∉ ps.names) :
    ps.bindAll (front ++ b :: back) = .error (.unknownOption b.1 ps.names) := by
  obtain ⟨qs, hqs, hnames, -⟩ := exists_bindAll hfront
  rw [bindAll] at hqs ⊢
  rw [List.foldlM_append, hqs]
  change (qs.bind b.1 b.2 >>= _) = _
  rw [bind_of_not_mem (hnames ▸ hb), hnames]
  rfl

theorem bindAll_cases (ps : Parameters) (bindings : List (String × String)) :
    (∃ front b back, bindings = front ++ b :: back ∧ (∀ other ∈ front, other.1 ∈ ps.names) ∧
      b.1 ∉ ps.names ∧ ps.bindAll bindings = .error (.unknownOption b.1 ps.names)) ∨
    ((∀ b ∈ bindings, b.1 ∈ ps.names) ∧
      ∃ qs, ps.bindAll bindings = .ok qs ∧ qs.names = ps.names) := by
  cases hfind : bindings.find? fun b => b.1 ∉ ps.names with
  | some b =>
      obtain ⟨hb, front, back, rfl, hfront⟩ := List.find?_eq_some_iff_append.1 hfind
      have hearlier : ∀ other ∈ front, other.1 ∈ ps.names := by simpa using hfront
      have hunknown : b.1 ∉ ps.names := by simpa using hb
      exact .inl ⟨front, b, back, rfl, hearlier, hunknown, bindAll_eq_error hearlier hunknown⟩
  | none =>
      have hknown : ∀ b ∈ bindings, b.1 ∈ ps.names := by simpa using hfind
      obtain ⟨qs, hqs, hnames, -⟩ := exists_bindAll hknown
      exact .inr ⟨hknown, qs, hqs, hnames⟩

/-! ## Values -/

theorem value?_of_bindAll {bindings : List (String × String)}
    (h : (declared root).bindAll bindings = .ok ps)
    (hknown : ∀ b ∈ bindings, b.1 ∈ (declared root).names) (hname : name ∈ declaredNames root) :
    ps.value? name = (bindings.reverse.lookup name).or (lastDefault? root name) := by
  obtain ⟨qs, hqs, -, hget⟩ := exists_bindAll hknown
  obtain rfl : ps = qs := Except.ok.inj (h.symm.trans hqs)
  rw [value?, hget, get?_declared, lastDefault?]
  cases hlast : (declarations root).reverse.lookup name with
  | none =>
      rw [← names_declared] at hname
      exact absurd hname (Table.get?_eq_none_iff.1 (by rw [get?_declared, hlast]; rfl))
  | some fallback =>
      cases bindings.reverse.lookup name <;> rfl

theorem checkRequired_eq (h : ps.names.Nodup) :
    ps.checkRequired =
      match ps.names.find? fun name => (ps.value? name).isNone with
      | some name => .error (.requiredOption name ps.names)
      | none => .ok () := by
  have hfind : (ps.names.find? fun name => (ps.value? name).isNone) =
      (ps.entries.find? fun e => e.2.bound.isNone && e.2.fallback.isNone).map Prod.fst := by
    rw [names, Table.names, List.find?_map]
    congr 1
    apply List.find?_congr
    intro e he
    simp [value?, Table.get?_of_mem h he]
  rw [hfind, checkRequired]
  cases ps.entries.find? fun e => e.2.bound.isNone && e.2.fallback.isNone <;> rfl

theorem checkRequired_cases (h : ps.names.Nodup) :
    (∃ front name back, ps.names = front ++ name :: back ∧
      (∀ other ∈ front, ps.value? other ≠ none) ∧ ps.value? name = none ∧
      ps.checkRequired = .error (.requiredOption name ps.names)) ∨
    ((∀ name ∈ ps.names, ps.value? name ≠ none) ∧ ps.checkRequired = .ok ()) := by
  rw [checkRequired_eq h]
  cases hfind : ps.names.find? fun name => (ps.value? name).isNone with
  | some name =>
      obtain ⟨hname, front, back, hsplit, hfront⟩ := List.find?_eq_some_iff_append.1 hfind
      refine .inl ⟨front, name, back, hsplit, fun other hother => ?_, by simpa using hname, rfl⟩
      simpa [Option.isSome_iff_ne_none] using hfront other hother
  | none => exact .inr ⟨by simpa using List.find?_eq_none.1 hfind, rfl⟩

end SolutionPlan.Parameters
