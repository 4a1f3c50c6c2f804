import SolutionPlan.FileSystem.Store
import SolutionPlan.Proofs.Description.Imports

/-!
# The stack of imported documents

For files in memory the whole run of a description is known: how deep its stack can get, what every
task leaves on it, which imports are cycles, and that it ends with the problems that are recorded.
-/

namespace SolutionPlan

theorem openDocument_eq_cycle_iff (fs : FileSystem) (parameters : Parameters)
    {opened : List Path} (hnormal : ∀ p ∈ opened, p.normalize = p) (directory : Path)
    (site : Xml.Element) (p : Path) :
    openDocument fs parameters opened directory site = .error (.importCycle p) ↔
      ∃ file, site.attribute? "file" = some file ∧
        p = directory.resolve (parameters.expand file) ∧ p ∈ opened := by
  unfold openDocument
  cases site.attribute? "file" with
  | none => simp
  | some file =>
      have hresolved := Path.normalize_resolve directory (parameters.expand file)
      simp only [Option.some.injEq, exists_eq_left']
      generalize directory.resolve (parameters.expand file) = path at hresolved ⊢
      have hmem : (opened.map Path.normal).contains path.normal = true ↔ path ∈ opened := by
        rw [List.contains_iff_mem, List.mem_map]
        constructor
        · rintro ⟨q, hq, hsame⟩
          rwa [Path.eq_of_normal_eq hresolved (hnormal q hq) hsame.symm]
        · exact fun h => ⟨path, h, rfl⟩
      split
      · next hcycle =>
          rw [Except.error.injEq, Problem.importCycle.injEq, eq_comm]
          exact (and_iff_left_of_imp fun hp => hp ▸ hmem.1 hcycle).symm
      · next hnew =>
          have hopened : ¬(p = path ∧ p ∈ opened) := fun h => hnew (hmem.2 (h.1 ▸ h.2))
          rw [iff_false_right hopened]
          cases fs.read path with
          | error e => simp
          | ok text =>
              simp only
              cases Xml.parse text <;> simp

namespace ImportRun

def MeetsCycle (parameters : Parameters) (s : ImportRun) (p : Path) : Prop :=
  match s.tasks with
  | .follow _ directory (site :: _) :: _ =>
      ∃ file, site.attribute? "file" = some file ∧
        p = directory.resolve (parameters.expand file) ∧ p ∈ s.opened
  | _ => False

structure Guarded (store : FileStore) (parameters : Parameters) (s : ImportRun) : Prop where
  distinct : s.opened.Nodup
  stored : ∀ p ∈ s.opened, p.normalize = p ∧ p.normal ∈ store.files
  bounded : s.opened.length ≤ store.size
  /-- Every task is done at some time, and then the same documents are open as before it. -/
  returns : ∀ task rest, s.tasks = task :: rest → task ≠ .close →
    ∃ problems, Reaches store.fileSystem parameters rest s
      ⟨s.opened, rest, s.problems ++ problems⟩
  /-- A step records a cycle exactly for an import of an open document. -/
  cycle : ∀ p, (s.step store.fileSystem parameters).problems = s.problems ++ [.importCycle p] ↔
    s.MeetsCycle parameters p

section Sound

variable {fs : FileSystem} {parameters : Parameters} {s : ImportRun}

theorem Sound.returns (hs : s.Sound fs) {task : Task} {rest : List Task}
    (htasks : s.tasks = task :: rest) (htask : task ≠ .close) :
    ∃ problems, Reaches fs parameters rest s ⟨s.opened, rest, s.problems ++ problems⟩ := by
  obtain ⟨problems, hdone⟩ : ∃ problems, Completes fs parameters s.opened [task] problems :=
    completes_task htask ⟨s.opened, hs.distinct, hs.readable⟩
  refine ⟨problems, ?_⟩
  have hstate : s = ⟨s.opened, [task] ++ rest, s.problems⟩ := by
    rw [List.singleton_append, ← htasks]
  have hreached := hdone rest s.problems
  rwa [← hstate] at hreached

theorem Sound.step_cycle_iff (hs : s.Sound fs) (p : Path) :
    (s.step fs parameters).problems = s.problems ++ [.importCycle p] ↔
      s.MeetsCycle parameters p := by
  unfold ImportRun.step MeetsCycle
  cases htasks : s.tasks with
  | nil => simp
  | cons task rest =>
      cases task with
      | read role directory e => simp
      | close => simp
      | follow role directory sites =>
          cases sites with
          | nil => simp
          | cons site sites =>
              have hopen := openDocument_eq_cycle_iff fs parameters hs.normal directory site p
              cases hfound : openDocument fs parameters s.opened directory site with
              | error problem =>
                  rw [hfound] at hopen
                  simpa [hfound] using hopen
              | ok found =>
                  rw [hfound] at hopen
                  simpa [hfound] using hopen

end Sound

theorem Sound.guarded {store : FileStore} {parameters : Parameters} {s : ImportRun}
    (hs : s.Sound store.fileSystem) : s.Guarded store parameters where
  distinct := List.Pairwise.of_map Path.normal
    (fun _ _ hne h => hne (congrArg Path.normal h)) hs.distinct
  stored p hp := ⟨hs.normal p hp, FileStore.mem_of_read_isOk (hs.readable p hp)⟩
  bounded := store.length_le_size s.opened hs.distinct hs.readable
  returns _ _ := hs.returns
  cycle := hs.step_cycle_iff

theorem sound_start {fs : FileSystem} {document : Path} (hnormal : document.normalize = document)
    (hopen : (fs.read document).isOk) (root : Xml.Element) : (start document root).Sound fs where
  distinct := by simp [start]
  normal := by simpa [start] using hnormal
  readable := by simpa [start] using hopen

end ImportRun

/--
The documents of a description are imported as a run of steps from its root document. In every state
of the run the open documents are different stored files with normal paths, whatever is to be done
next is done at some time and leaves the open documents as they were, and a cycle is recorded
exactly for an import of an open document. The run comes to an end, with the root document left
open, and it has recorded the import problems of the description.
-/
theorem Description.import_run_ends {store : FileStore} {workingDirectory path : Path}
    {bindings : List (String × String)} {d : Logged Description}
    (h : read store.fileSystem workingDirectory path bindings = .ok d) :
    ∃ text root, store.read d.value.root = .ok text ∧ Xml.parse text = .ok root ∧
      let step := ImportRun.step store.fileSystem d.value.parameters
      let start := ImportRun.start d.value.root root
      (∀ n, (step^[n] start).Guarded store d.value.parameters) ∧
        ∃ n problems, step^[n] start = ⟨[d.value.root], [], problems⟩ ∧
          problems.filter Problem.isImport = d.recorded Problem.isImport := by
  obtain ⟨document, text, root, parameters, hopen, hnormal, hread, hparse, rfl⟩ := read_eq_ok h
  refine ⟨text, root, hread, hparse, ?_, ?_⟩
  · exact fun n => ((ImportRun.sound_start hnormal hopen root).iterate n).guarded
  · obtain ⟨n, hlast⟩ := ImportRun.exists_iterate_start parameters hopen root
    refine ⟨n, _, hlast, ?_⟩
    rw [Logged.recorded_bind, Logged.recorded_pure, List.append_nil]
    unfold readSolutions
    simp only [Logged.recorded_bind, Logged.recorded_pure, List.append_nil, Logged.recorded_mapM,
      Workspace.imports_readSolution, Node.tag_load, List.filter_flatMap]

/-- A solution that imports the document it is written in, and a document without a name. -/
def FileStore.importingItself : FileStore :=
  FileStore.empty.add ⟨"/w/build.xml"⟩
    "<build><solution name=\"S\"><import file=\"build.xml\"/><import/></solution></build>"

theorem Description.import_run_ends_self :
    ∃ d root, read FileStore.importingItself.fileSystem ⟨"/w"⟩ ⟨"build.xml"⟩ [] = .ok d ∧
      let step := ImportRun.step FileStore.importingItself.fileSystem d.value.parameters
      ∃ n problems, step^[n] (.start d.value.root root) = ⟨[d.value.root], [], problems⟩ ∧
        problems.filter Problem.isImport = d.recorded Problem.isImport := by
  have hok : (read FileStore.importingItself.fileSystem ⟨"/w"⟩ ⟨"build.xml"⟩ []).isOk = true := by
    decide +kernel
  cases h : read FileStore.importingItself.fileSystem ⟨"/w"⟩ ⟨"build.xml"⟩ [] with
  | error e =>
      rw [h] at hok
      cases hok
  | ok d =>
      obtain ⟨_, root, -, -, -, hends⟩ := import_run_ends h
      exact ⟨d, root, rfl, hends⟩

end SolutionPlan
