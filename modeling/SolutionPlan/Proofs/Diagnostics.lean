import SolutionPlan.Diagnostics

/-!
# The problems that are recorded

What a computation records is followed through one test at a time: the problems that satisfy the
test, in the order in which they are recorded. A sequence of steps records what each of them does.
-/

namespace SolutionPlan

def Problem.isError (p : Problem) : Bool := p.severity == .error

namespace Logged

variable {α β : Type} {test : Problem → Bool}

def recorded (x : Logged α) (test : Problem → Bool) : List Problem := x.problems.filter test

theorem errorCount_eq (x : Logged α) : x.errorCount = (x.recorded Problem.isError).length := rfl

theorem recorded_isError_eq_nil_iff {x : Logged α} :
    x.recorded Problem.isError = [] ↔ ∀ p ∈ x.problems, p.severity = .warning := by
  unfold recorded Problem.isError
  rw [List.filter_eq_nil_iff]
  apply forall₂_congr
  intro p _
  cases p.severity <;> simp

@[simp] theorem recorded_pure (a : α) : (pure a : Logged α).recorded test = [] := rfl

@[simp] theorem recorded_report (p : Problem) : (report p).recorded test = [p].filter test := rfl

@[simp] theorem recorded_bind (x : Logged α) (f : α → Logged β) :
    (x >>= f).recorded test = x.recorded test ++ (f x.value).recorded test :=
  List.filter_append x.problems (f x.value).problems

theorem bind_eq {x : Logged α} {f : α → Logged β} {a : α} {b : β} {first later : List Problem}
    (hx : x = ⟨a, first⟩) (hf : f a = ⟨b, later⟩) : x >>= f = ⟨b, first ++ later⟩ := by
  subst hx
  simp only [bind, hf]

theorem recorded_foldlM {f : β → α → Logged β} {g : α → List Problem} {xs : List α}
    (h : ∀ x ∈ xs, ∀ b, (f b x).recorded test = g x) (b : β) :
    (xs.foldlM f b).recorded test = xs.flatMap g := by
  induction xs generalizing b with
  | nil => rfl
  | cons x rest ih =>
      rw [List.foldlM_cons, recorded_bind, h x List.mem_cons_self,
        ih fun y hy => h y (List.mem_cons_of_mem x hy), List.flatMap_cons]

theorem recorded_foldlM_eq_nil {f : β → α → Logged β} {xs : List α}
    (h : ∀ x ∈ xs, ∀ b, (f b x).recorded test = []) (b : β) :
    (xs.foldlM f b).recorded test = [] := by
  rw [recorded_foldlM (g := fun _ => []) h]
  simp

theorem recorded_mapM (f : α → Logged β) (xs : List α) :
    (xs.mapM f).recorded test = xs.flatMap fun x => (f x).recorded test := by
  induction xs with
  | nil => rfl
  | cons x rest ih =>
      rw [List.mapM_cons, recorded_bind, recorded_bind, recorded_pure, ih, List.append_nil,
        List.flatMap_cons]

theorem problems_mapM (f : α → Logged β) (xs : List α) :
    (xs.mapM f).problems = xs.flatMap fun x => (f x).problems := by
  have hall (ps : List Problem) : ps.filter (fun _ => true) = ps := List.filter_eq_self.2 (by simp)
  have hrecorded : (xs.mapM f).recorded (fun _ => true) = _ := recorded_mapM f xs
  simpa only [recorded, hall] using hrecorded

theorem recorded_mapM_eq_nil {f : α → Logged β} {xs : List α}
    (h : ∀ x ∈ xs, (f x).recorded test = []) : (xs.mapM f).recorded test = [] := by
  rw [recorded_mapM, List.flatMap_eq_nil_iff]
  exact h

end Logged

end SolutionPlan
