import SolutionPlan.Description.Node
import SolutionPlan.Parameters
import SolutionPlan.Xml.Document

/-!
# Following imports

Every `import` child of an element is followed, unless its document is open already. The open
documents are different readable documents of one file system, so there are never more of them
than the file system has, and following imports comes to an end.
-/

namespace SolutionPlan

/-- The documents on the way from the root document to the current one, the current one first. -/
structure OpenDocuments (fs : FileSystem) where
  paths : List Path
  distinct : (paths.map Path.normal).Nodup
  readable : ∀ p ∈ paths, (fs.read p).isOk

namespace OpenDocuments

variable {fs : FileSystem}

def contains (opened : OpenDocuments fs) (p : Path) : Bool :=
  (opened.paths.map Path.normal).contains p.normal

def single (p : Path) (h : (fs.read p).isOk) : OpenDocuments fs where
  paths := [p]
  distinct := by simp
  readable := by simpa using h

def push (opened : OpenDocuments fs) (p : Path) (hnew : opened.contains p = false)
    (h : (fs.read p).isOk) : OpenDocuments fs where
  paths := p :: opened.paths
  distinct := by
    rw [List.map_cons, List.nodup_cons]
    refine ⟨fun hmem => ?_, opened.distinct⟩
    rw [contains, List.contains_eq_mem, decide_eq_false_iff_not] at hnew
    exact hnew hmem
  readable := by
    intro q hq
    rcases List.mem_cons.1 hq with rfl | hq
    · exact h
    · exact opened.readable q hq

/-- How many more documents can be opened at most. -/
def room (opened : OpenDocuments fs) : Nat := fs.capacity - opened.paths.length

theorem room_push_lt {opened : OpenDocuments fs} {p : Path} {hnew : opened.contains p = false}
    {h : (fs.read p).isOk} : (opened.push p hnew h).room < opened.room := by
  have hle := fs.length_le_capacity _ (opened.push p hnew h).distinct
    (opened.push p hnew h).readable
  have hlen : (opened.push p hnew h).paths.length = opened.paths.length + 1 := rfl
  unfold room
  omega

end OpenDocuments

structure Fetched {fs : FileSystem} (opened : OpenDocuments fs) where
  path : Path
  isNew : opened.contains path = false
  isReadable : (fs.read path).isOk
  root : Xml.Element

def fetch {fs : FileSystem} (parameters : Parameters) (opened : OpenDocuments fs)
    (directory : Path) (site : Xml.Element) : Except Problem (Fetched opened) :=
  match site.attribute? "file" with
  | none => .error .importWithoutFile
  | some file =>
      let path := directory.resolve (parameters.expand file)
      match hnew : opened.contains path with
      | true => .error (.importCycle path)
      | false =>
          match hread : fs.read path with
          | .error e => .error (.unreadable path e)
          | .ok text =>
              match Xml.parse text with
              | .error e => .error (.malformedImport path e)
              | .ok root => .ok ⟨path, hnew, by rw [hread]; rfl, root⟩

/-- The element with every import below it followed, each when its root is read. -/
def Node.load {fs : FileSystem} (parameters : Parameters) (opened : OpenDocuments fs)
    (directory : Path) (e : Xml.Element) : Node :=
  .mk e.tag directory
    (e.children.attach.map fun ⟨child, _⟩ => load parameters opened directory child)
    ((e.named "import").map fun site =>
      match fetch parameters opened directory site with
      | .error p => .failed p
      | .ok found =>
          .loaded fun _ => load parameters (opened.push found.path found.isNew found.isReadable)
            found.path.parentOrEmpty found.root)
termination_by (opened.room, sizeOf e)
decreasing_by
  · exact Prod.Lex.right _ (Xml.Element.sizeOf_lt_of_mem_children ‹_›)
  · exact Prod.Lex.left _ _ OpenDocuments.room_push_lt

end SolutionPlan
