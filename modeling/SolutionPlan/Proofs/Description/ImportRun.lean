import Mathlib.Logic.Function.Iterate
import SolutionPlan.Proofs.Description.ImportProblems
import SolutionPlan.Proofs.Path.Normal

/-!
# Following imports step by step

A run keeps a stack of the documents that are open, the newest first, and the tasks that are left.
An import puts its document on the stack and everything in that document before the other tasks;
when all of that is done the document is taken off again.
-/

namespace SolutionPlan

/-- What an element is read as: it says which imports in it are followed, and what the imported
roots are read as. In a plain element, which is a `targets` element or a single configuration, there
are no others than its own. -/
inductive Role where
  | plain
  | profile
  | project
  | contents
  | solution
deriving DecidableEq, Repr

inductive Task where
  | read (role : Role) (directory : Path) (e : Xml.Element)
  | follow (role : Role) (directory : Path) (sites : List Xml.Element)
  | close

structure ImportRun where
  opened : List Path
  tasks : List Task
  problems : List Problem

def Xml.Element.first? (e : Xml.Element) (name : String) : Option Xml.Element :=
  e.children.find? (·.name == name)

def Role.tasks (directory : Path) (e : Xml.Element) : Role → List Task
  | .plain => [.follow .plain directory (e.named "import")]
  | .profile =>
      .follow .profile directory (e.named "import") ::
        ((e.first? "shared").toList.flatMap fun c => [.read .plain directory c]) ++
        (e.named "configuration").flatMap fun c =>
          if c.tag.isDeclaration then [.read .plain directory c] else []
  | .project =>
      .follow .project directory (e.named "import") ::
        (e.first? "configurations").toList.flatMap fun c => [.read .profile directory c]
  | .contents =>
      ((e.named "folder").flatMap fun f =>
        [.follow .contents directory (f.named "import"), .read .contents directory f]) ++
      (e.named "project").flatMap fun p =>
        if p.tag.isAuthored then [.read .project directory p] else []
  | .solution =>
      .follow .solution directory (e.named "import") ::
        ((e.first? "targets").toList.flatMap fun c => [.read .plain directory c]) ++
        ((e.first? "configurations").toList.flatMap fun c => [.read .profile directory c]) ++
        [.read .contents directory e]

def openDocument (fs : FileSystem) (parameters : Parameters) (opened : List Path)
    (directory : Path) (site : Xml.Element) : Except Problem (Path × Xml.Element) :=
  match site.attribute? "file" with
  | none => .error .importWithoutFile
  | some file =>
      let path := directory.resolve (parameters.expand file)
      if (opened.map Path.normal).contains path.normal then .error (.importCycle path)
      else
        match fs.read path with
        | .error e => .error (.unreadable path e)
        | .ok text =>
            match Xml.parse text with
            | .error e => .error (.malformedImport path e)
            | .ok root => .ok (path, root)

namespace ImportRun

def start (document : Path) (root : Xml.Element) : ImportRun where
  opened := [document]
  tasks := (root.named "solution").flatMap fun e =>
    if e.tag.isDeclaration then [.read .solution document.parentOrEmpty e] else []
  problems := []

def step (fs : FileSystem) (parameters : Parameters) (s : ImportRun) : ImportRun :=
  match s.tasks with
  | [] => s
  | .read role directory e :: rest => { s with tasks := role.tasks directory e ++ rest }
  | .follow _ _ [] :: rest => { s with tasks := rest }
  | .follow role directory (site :: sites) :: rest =>
      match openDocument fs parameters s.opened directory site with
      | .error p =>
          { s with tasks := .follow role directory sites :: rest, problems := s.problems ++ [p] }
      | .ok (path, root) =>
          { s with
            opened := path :: s.opened
            tasks := .read role path.parentOrEmpty root :: .close ::
              .follow role directory sites :: rest }
  | .close :: rest => { s with opened := s.opened.tail, tasks := rest }

/-! ## The stack of open documents -/

/-- The open documents are different readable documents with normal paths. -/
structure Sound (fs : FileSystem) (s : ImportRun) : Prop where
  distinct : (s.opened.map Path.normal).Nodup
  normal : ∀ p ∈ s.opened, p.normalize = p
  readable : ∀ p ∈ s.opened, (fs.read p).isOk

variable {fs : FileSystem} {parameters : Parameters}

theorem openDocument_eq_ok {opened : List Path} {directory path : Path}
    {site root : Xml.Element}
    (h : openDocument fs parameters opened directory site = .ok (path, root)) :
    path.normal ∉ opened.map Path.normal ∧ path.normalize = path ∧ (fs.read path).isOk := by
  unfold openDocument at h
  split at h
  · cases h
  · next file _ =>
      simp only at h
      split at h
      · cases h
      · next hnew =>
          split at h
          · cases h
          · next text hread =>
              split at h
              · cases h
              · obtain ⟨rfl, rfl⟩ := Prod.mk.inj (Except.ok.inj h)
                refine ⟨by simpa using hnew, Path.normalize_resolve directory _, ?_⟩
                rw [hread]
                rfl

theorem Sound.step {s : ImportRun} (hs : s.Sound fs) : (s.step fs parameters).Sound fs := by
  unfold ImportRun.step
  split
  · exact hs
  · exact ⟨hs.distinct, hs.normal, hs.readable⟩
  · exact ⟨hs.distinct, hs.normal, hs.readable⟩
  · split
    · exact ⟨hs.distinct, hs.normal, hs.readable⟩
    · next path root hopen =>
        obtain ⟨hnew, hnormal, hread⟩ := openDocument_eq_ok hopen
        refine ⟨List.nodup_cons.2 ⟨hnew, hs.distinct⟩, ?_, ?_⟩
        · exact List.forall_mem_cons.2 ⟨hnormal, hs.normal⟩
        · exact List.forall_mem_cons.2 ⟨hread, hs.readable⟩
  · refine ⟨?_, ?_, ?_⟩
    · exact hs.distinct.sublist ((List.tail_sublist _).map _)
    · exact fun p hp => hs.normal p (List.mem_of_mem_tail hp)
    · exact fun p hp => hs.readable p (List.mem_of_mem_tail hp)

theorem Sound.iterate {s : ImportRun} (hs : s.Sound fs) (n : Nat) :
    ((ImportRun.step fs parameters)^[n] s).Sound fs := by
  induction n with
  | zero => exact hs
  | succ n ih =>
      rw [Function.iterate_succ_apply']
      exact ih.step

/-! ## Tasks that are completed -/

/-- Some steps lead from one state to another, and until then there is more to do than `rest`. -/
def Reaches (fs : FileSystem) (parameters : Parameters) (rest : List Task)
    (s t : ImportRun) : Prop :=
  ∃ n, (step fs parameters)^[n] s = t ∧
    ∀ m < n, ∃ ahead, ahead ≠ [] ∧ ((step fs parameters)^[m] s).tasks = ahead ++ rest

namespace Reaches

variable {rest : List Task} {s t u : ImportRun}

theorem refl (s : ImportRun) : Reaches fs parameters rest s s :=
  ⟨0, rfl, fun _ h => absurd h (Nat.not_lt_zero _)⟩

theorem one {task : Task} (more : List Task) (htasks : s.tasks = task :: (more ++ rest))
    (hstep : s.step fs parameters = t) : Reaches fs parameters rest s t := by
  refine ⟨1, hstep, ?_⟩
  intro m hm
  obtain rfl := Nat.lt_one_iff.1 hm
  exact ⟨task :: more, List.cons_ne_nil task more, htasks⟩

theorem trans (h : Reaches fs parameters rest s t) (k : Reaches fs parameters rest t u) :
    Reaches fs parameters rest s u := by
  obtain ⟨n, rfl, hn⟩ := h
  obtain ⟨m, rfl, hm⟩ := k
  refine ⟨m + n, Function.iterate_add_apply _ m n s, ?_⟩
  intro i hi
  by_cases hin : i < n
  · exact hn i hin
  · obtain ⟨ahead, hne, hahead⟩ := hm (i - n) (by omega)
    refine ⟨ahead, hne, ?_⟩
    rw [← hahead, ← Function.iterate_add_apply, Nat.sub_add_cancel (by omega)]

theorem drop (front : List Task) (h : Reaches fs parameters (front ++ rest) s t) :
    Reaches fs parameters rest s t := by
  obtain ⟨n, hlast, hn⟩ := h
  refine ⟨n, hlast, ?_⟩
  intro m hm
  obtain ⟨ahead, hne, hahead⟩ := hn m hm
  exact ⟨ahead ++ front, by simp [hne], by rw [hahead, List.append_assoc]⟩

end Reaches

/-- Whatever comes behind them, the tasks are done at some time. Then the same documents are open as
in the beginning, and the problems have been recorded. -/
def Completes (fs : FileSystem) (parameters : Parameters) (opened : List Path)
    (tasks : List Task) (problems : List Problem) : Prop :=
  ∀ rest recorded, Reaches fs parameters rest ⟨opened, tasks ++ rest, recorded⟩
    ⟨opened, rest, recorded ++ problems⟩

namespace Completes

variable {opened : List Path} {tasks later : List Task} {problems others : List Problem}

theorem nil (opened : List Path) : Completes fs parameters opened [] [] := by
  intro rest recorded
  rw [List.append_nil]
  exact .refl _

theorem append (h : Completes fs parameters opened tasks problems)
    (k : Completes fs parameters opened later others) :
    Completes fs parameters opened (tasks ++ later) (problems ++ others) := by
  intro rest recorded
  have hfirst := h (later ++ rest) recorded
  have hsecond := k rest (recorded ++ problems)
  rw [List.append_assoc] at hsecond
  rw [List.append_assoc]
  exact (hfirst.drop later).trans hsecond

theorem cons {task : Task} (h : Completes fs parameters opened [task] problems)
    (k : Completes fs parameters opened tasks others) :
    Completes fs parameters opened (task :: tasks) (problems ++ others) := h.append k

theorem flatMap {α : Type} {f : α → List Task} {g : α → List Problem} {xs : List α}
    (h : ∀ x ∈ xs, Completes fs parameters opened (f x) (g x)) :
    Completes fs parameters opened (xs.flatMap f) (xs.flatMap g) := by
  induction xs with
  | nil => exact nil opened
  | cons x rest ih =>
      rw [List.flatMap_cons, List.flatMap_cons]
      exact (h x List.mem_cons_self).append (ih fun y hy => h y (List.mem_cons_of_mem x hy))

theorem read {role : Role} {directory : Path} {e : Xml.Element}
    (h : Completes fs parameters opened (role.tasks directory e) problems) :
    Completes fs parameters opened [.read role directory e] problems := by
  intro rest recorded
  have hfirst : Reaches fs parameters rest
      ⟨opened, .read role directory e :: rest, recorded⟩
      ⟨opened, role.tasks directory e ++ rest, recorded⟩ := .one [] rfl rfl
  exact hfirst.trans (h rest recorded)

theorem follow_nil (role : Role) (directory : Path) :
    Completes fs parameters opened [.follow role directory []] [] := by
  intro rest recorded
  rw [List.append_nil]
  exact .one [] rfl rfl

theorem follow_failed {role : Role} {directory : Path} {site : Xml.Element}
    {sites : List Xml.Element} {p : Problem}
    (hopen : openDocument fs parameters opened directory site = .error p)
    (h : Completes fs parameters opened [.follow role directory sites] problems) :
    Completes fs parameters opened [.follow role directory (site :: sites)] (p :: problems) := by
  intro rest recorded
  have hfirst : Reaches fs parameters rest
      ⟨opened, .follow role directory (site :: sites) :: rest, recorded⟩
      ⟨opened, .follow role directory sites :: rest, recorded ++ [p]⟩ :=
    .one [] rfl (by simp only [step, hopen])
  have hsecond := h rest (recorded ++ [p])
  rw [List.append_assoc] at hsecond
  exact hfirst.trans hsecond

/-- While the document is read it lies on the stack, and before the next import it is taken off. -/
theorem follow_opened {role : Role} {directory path : Path} {site root : Xml.Element}
    {sites : List Xml.Element}
    (hopen : openDocument fs parameters opened directory site = .ok (path, root))
    (hroot : Completes fs parameters (path :: opened) [.read role path.parentOrEmpty root]
      problems)
    (h : Completes fs parameters opened [.follow role directory sites] others) :
    Completes fs parameters opened [.follow role directory (site :: sites)]
      (problems ++ others) := by
  intro rest recorded
  have hopened : Reaches fs parameters rest
      ⟨opened, .follow role directory (site :: sites) :: rest, recorded⟩
      ⟨path :: opened, .read role path.parentOrEmpty root :: .close ::
        .follow role directory sites :: rest, recorded⟩ :=
    .one [] rfl (by simp only [step, hopen])
  have hread := hroot (.close :: .follow role directory sites :: rest) recorded
  have hclosed : Reaches fs parameters rest
      ⟨path :: opened, .close :: .follow role directory sites :: rest, recorded ++ problems⟩
      ⟨opened, .follow role directory sites :: rest, recorded ++ problems⟩ :=
    .one [.follow role directory sites] rfl rfl
  have hlast := h rest (recorded ++ problems)
  rw [List.append_assoc] at hlast
  have hmiddle := Reaches.drop [.close, .follow role directory sites] hread
  exact hopened.trans (hmiddle.trans (hclosed.trans hlast))

end Completes

end ImportRun

end SolutionPlan
