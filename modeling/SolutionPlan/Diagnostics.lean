import SolutionPlan.Problem

/-!
# Diagnostics

A collector of errors and warnings in the order in which they are recorded, and computations that
record problems on the way to their value. What a computation records never depends on what was
recorded before it.
-/

namespace SolutionPlan

structure Entry where
  severity : Severity
  message : String
deriving DecidableEq, Repr

structure Diagnostics where
  entries : List Entry
deriving DecidableEq, Repr

namespace Diagnostics

def empty : Diagnostics := ⟨[]⟩

def record (d : Diagnostics) (severity : Severity) (message : String) : Diagnostics :=
  ⟨d.entries ++ [⟨severity, message⟩]⟩

def absorb (d other : Diagnostics) : Diagnostics := ⟨d.entries ++ other.entries⟩

def messages (d : Diagnostics) (severity : Severity) : List String :=
  (d.entries.filter fun e => e.severity == severity).map Entry.message

def count (d : Diagnostics) (severity : Severity) : Nat := (d.messages severity).length

def hasErrors (d : Diagnostics) : Bool := d.count .error > 0

def ofProblems (problems : List Problem) : Diagnostics :=
  ⟨problems.map fun p => ⟨p.severity, p.message⟩⟩

end Diagnostics

/-! ## Recording -/

/-- A value with the problems recorded on the way to it. -/
structure Logged (α : Type) where
  value : α
  problems : List Problem

namespace Logged

instance : Monad Logged where
  pure a := ⟨a, []⟩
  bind x f := ⟨(f x.value).value, x.problems ++ (f x.value).problems⟩

def report (p : Problem) : Logged Unit := ⟨(), [p]⟩

@[simp] theorem pure_value {α : Type} (a : α) : (pure a : Logged α).value = a := rfl

@[simp] theorem pure_problems {α : Type} (a : α) : (pure a : Logged α).problems = [] := rfl

@[simp] theorem bind_value {α β : Type} (x : Logged α) (f : α → Logged β) :
    (x >>= f).value = (f x.value).value := rfl

@[simp] theorem bind_problems {α β : Type} (x : Logged α) (f : α → Logged β) :
    (x >>= f).problems = x.problems ++ (f x.value).problems := rfl

instance : LawfulMonad Logged := LawfulMonad.mk' Logged
  (fun x => by cases x; simp [Functor.map])
  (fun a f => by simp [bind, pure])
  (fun x f g => by simp [bind])

@[simp] theorem map_value {α β : Type} (f : α → β) (x : Logged α) :
    (f <$> x).value = f x.value := rfl

@[simp] theorem foldlM_value {α β : Type} (f : β → α → Logged β) (xs : List α) (b : β) :
    (xs.foldlM f b).value = xs.foldl (fun b x => (f b x).value) b := by
  induction xs generalizing b with
  | nil => rfl
  | cons x xs ih => rw [List.foldlM_cons, bind_value, ih, List.foldl_cons]

@[simp] theorem mapM_value {α β : Type} (f : α → Logged β) (xs : List α) :
    (xs.mapM f).value = xs.map fun x => (f x).value := by
  induction xs with
  | nil => rfl
  | cons x xs ih =>
      rw [List.mapM_cons, bind_value, bind_value, pure_value, ih, List.map_cons]

def errorCount {α : Type} (x : Logged α) : Nat :=
  (x.problems.filter fun p => p.severity == .error).length

end Logged

end SolutionPlan
