import SolutionPlan.Configuration.Basic

/-!
# Sets of configurations

Named configurations in the order of their first mention, and a shared one that stands behind all of
them. The shared one is merged into the named ones once; a child set takes over what its parent says
about each of its names, every level of the parent once.
-/

namespace SolutionPlan

/-- Which configuration of a set is meant. A shared one is created under the name given here. -/
inductive Slot where
  | shared (name : String)
  | named (name : String)
deriving DecidableEq, Repr

def modifyFirst {α : Type} (p : α → Bool) (f : α → α) : List α → List α
  | [] => []
  | a :: rest => if p a then f a :: rest else a :: modifyFirst p f rest

theorem mem_modifyFirst {α : Type} {p : α → Bool} {f : α → α} {l : List α} {a : α}
    (h : a ∈ modifyFirst p f l) : a ∈ l ∨ ∃ b ∈ l, p b ∧ a = f b := by
  induction l with
  | nil => exact absurd h List.not_mem_nil
  | cons b rest ih =>
      unfold modifyFirst at h
      split at h
      · next hb =>
        rcases List.mem_cons.1 h with rfl | h
        · exact .inr ⟨b, List.mem_cons_self, hb, rfl⟩
        · exact .inl (List.mem_cons_of_mem _ h)
      · rcases List.mem_cons.1 h with rfl | h
        · exact .inl List.mem_cons_self
        · rcases ih h with h | ⟨c, hc, hp, rfl⟩
          · exact .inl (List.mem_cons_of_mem _ h)
          · exact .inr ⟨c, List.mem_cons_of_mem _ hc, hp, rfl⟩

/-- What the change leaves alone is the same in every member. -/
theorem map_modifyFirst {α β : Type} {p : α → Bool} {f : α → α} {g : α → β}
    (h : ∀ a, g (f a) = g a) (l : List α) : (modifyFirst p f l).map g = l.map g := by
  induction l with
  | nil => rfl
  | cons a rest ih =>
      unfold modifyFirst
      split
      · rw [List.map_cons, List.map_cons, h]
      · rw [List.map_cons, List.map_cons, ih]

theorem find?_modifyFirst_self {α : Type} {p : α → Bool} {f : α → α} (h : ∀ a, p (f a) = p a)
    (l : List α) : (modifyFirst p f l).find? p = (l.find? p).map f := by
  induction l with
  | nil => rfl
  | cons a rest ih =>
      unfold modifyFirst
      cases ha : p a with
      | true => simp [h, ha]
      | false => simpa [ha] using ih

theorem find?_modifyFirst_of_disjoint {α : Type} {p q : α → Bool} {f : α → α}
    (h : ∀ a, q (f a) = q a) (hdisjoint : ∀ a, p a = true → q a = false) (l : List α) :
    (modifyFirst p f l).find? q = l.find? q := by
  induction l with
  | nil => rfl
  | cons a rest ih =>
      unfold modifyFirst
      cases ha : p a with
      | true => simp [h, hdisjoint a ha]
      | false => simp [List.find?_cons, ih]

structure ConfigurationSet where
  configurations : List Configuration
  shared : Option Configuration
  sharedApplied : Bool
deriving DecidableEq

namespace ConfigurationSet

def empty : ConfigurationSet := ⟨[], none, false⟩

def names (s : ConfigurationSet) : List String := s.configurations.map Configuration.name

def find? (s : ConfigurationSet) (name : String) : Option Configuration :=
  s.configurations.find? fun c => c.name == name

def add (s : ConfigurationSet) (c : Configuration) : ConfigurationSet :=
  { s with configurations := s.configurations ++ [c] }

def ensure (s : ConfigurationSet) (name : String) : ConfigurationSet :=
  if (s.find? name).isSome then s else s.add (.named name)

def setShared (s : ConfigurationSet) (c : Configuration) : ConfigurationSet :=
  { s with shared := some { c with isShared := true } }

def entry (s : ConfigurationSet) : Slot → Configuration
  | .shared name => s.shared.getD { Configuration.named name with isShared := true }
  | .named name => (s.find? name).getD (.named name)

def update (s : ConfigurationSet) (slot : Slot) (f : Configuration → Configuration) :
    ConfigurationSet :=
  match slot with
  | .shared _ => { s with shared := some (f (s.entry slot)) }
  | .named name =>
      let s := s.ensure name
      { s with configurations := modifyFirst (fun c => c.name == name) f s.configurations }

/-! ## Inheritance -/

/-- Merges the shared configuration into the named ones, unless that was done before. -/
def applyShared (s : ConfigurationSet) : ConfigurationSet :=
  if s.sharedApplied then s
  else
    match s.shared with
    | some shared =>
        { s with
          configurations := s.configurations.map fun c => c.merge shared
          sharedApplied := true }
    | none => { s with sharedApplied := true }

/-- What a parent set says about a configuration of that name: its own one, and the shared one
unless that is already part of its own. -/
def mergeInto (parent : ConfigurationSet) (c : Configuration) : Configuration :=
  match parent.find? c.name, parent.shared with
  | some own, some shared =>
      if parent.sharedApplied then c.merge own else (c.merge own).merge shared
  | some own, none => c.merge own
  | none, some shared => c.merge shared
  | none, none => c

def mergeFrom (s parent : ConfigurationSet) : ConfigurationSet :=
  { s with configurations := s.configurations.map parent.mergeInto }

def inheritFrom (s parent : ConfigurationSet) : ConfigurationSet :=
  ((parent.names.foldl ensure s).applyShared).mergeFrom parent

end ConfigurationSet

end SolutionPlan
