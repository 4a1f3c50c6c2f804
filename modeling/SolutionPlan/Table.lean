/-!
# Tables

Named values in the order in which the names were first put in. Putting a name again replaces its
value and keeps its place.
-/

namespace SolutionPlan

abbrev Table (β : Type) := List (String × β)

namespace Table

variable {β : Type}

def names (t : Table β) : List String := t.map Prod.fst

def get? (t : Table β) (name : String) : Option β := t.lookup name

def put (t : Table β) (name : String) (value : β) : Table β :=
  if t.names.contains name then t.map fun e => if e.1 = name then (name, value) else e
  else t ++ [(name, value)]

def putAll (t entries : Table β) : Table β := entries.foldl (fun t e => t.put e.1 e.2) t

theorem names_put_of_mem {t : Table β} {name : String} {value : β} (h : name ∈ t.names) :
    (t.put name value).names = t.names := by
  unfold put
  rw [if_pos (by simpa using h)]
  unfold names
  rw [List.map_map]
  apply List.map_congr_left
  intro e _
  by_cases he : e.1 = name <;> simp [he]

theorem names_put_of_not_mem {t : Table β} {name : String} {value : β} (h : name ∉ t.names) :
    (t.put name value).names = t.names ++ [name] := by
  unfold put
  rw [if_neg (by simpa using h)]
  simp [names]

theorem nodup_names_put {t : Table β} (h : t.names.Nodup) (name : String) (value : β) :
    (t.put name value).names.Nodup := by
  by_cases hmem : name ∈ t.names
  · rwa [names_put_of_mem hmem]
  · rw [names_put_of_not_mem hmem, List.nodup_append]
    refine ⟨h, by simp, ?_⟩
    rintro other hother _ hlast rfl
    exact hmem (List.mem_singleton.1 hlast ▸ hother)

@[simp] theorem get?_nil (name : String) : get? ([] : Table β) name = none := rfl

theorem get?_cons (e : String × β) (t : Table β) (name : String) :
    get? (e :: t) name = if name = e.1 then some e.2 else t.get? name := by
  obtain ⟨first, value⟩ := e
  by_cases h : name = first
  · simp [get?, h]
  · simp [get?, List.lookup_cons, h, beq_false_of_ne h]

theorem get?_append (t later : Table β) (name : String) :
    get? (t ++ later) name = (t.get? name).or (later.get? name) := by
  rw [get?, List.lookup_append]
  rfl

theorem get?_eq_none_iff {t : Table β} {name : String} : t.get? name = none ↔ name ∉ t.names := by
  induction t with
  | nil => simp [names]
  | cons e t ih =>
      by_cases h : name = e.1
      · simp [get?_cons, names, h]
      · rw [get?_cons, if_neg h, ih]
        simp [names, h]

theorem get?_of_mem {t : Table β} (h : t.names.Nodup) {e : String × β} (he : e ∈ t) :
    t.get? e.1 = some e.2 := by
  induction t with
  | nil => cases he
  | cons first rest ih =>
      obtain ⟨hfirst, hrest⟩ := List.nodup_cons.1 h
      rw [get?_cons]
      rcases List.mem_cons.1 he with rfl | he
      · simp
      · rw [if_neg, ih hrest he]
        exact fun hsame => hfirst (hsame ▸ List.mem_map_of_mem he)

theorem get?_put (t : Table β) (name other : String) (value : β) :
    (t.put name value).get? other = if other = name then some value else t.get? other := by
  have hreplaced (t : Table β) :
      get? (t.map fun e => if e.1 = name then (name, value) else e) other =
        if other = name then (t.get? name).map fun _ => value else t.get? other := by
    induction t with
    | nil => simp
    | cons e t ih =>
        rw [List.map_cons, get?_cons, get?_cons, get?_cons, ih]
        grind
  by_cases hmem : name ∈ t.names
  · rw [put, if_pos (by simpa using hmem), hreplaced]
    cases hget : t.get? name with
    | none => exact absurd hmem (get?_eq_none_iff.1 hget)
    | some _ => rfl
  · rw [put, if_neg (by simpa using hmem), get?_append, get?_cons]
    by_cases hsame : other = name
    · simp [hsame, get?_eq_none_iff.2 hmem]
    · simp [hsame]

theorem get?_putAll (t entries : Table β) (name : String) :
    (t.putAll entries).get? name =
      ((entries.filter fun e => e.1 == name).getLast?.map Prod.snd).or (t.get? name) := by
  induction entries generalizing t with
  | nil => rfl
  | cons e rest ih =>
      have hput : t.putAll (e :: rest) = (t.put e.1 e.2).putAll rest := rfl
      rw [hput, ih, get?_put, List.filter_cons]
      by_cases h : e.1 = name
      · rw [if_pos h.symm, if_pos (beq_iff_eq.2 h), List.getLast?_cons]
        cases (rest.filter fun e => e.1 == name).getLast? <;> rfl
      · rw [if_neg (Ne.symm h), if_neg (by simpa using h)]

end Table

end SolutionPlan
