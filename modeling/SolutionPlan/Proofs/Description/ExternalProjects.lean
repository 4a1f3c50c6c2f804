import Mathlib.Data.List.Basic
import Mathlib.Data.List.Induction
import SolutionPlan.FileSystem.Store
import SolutionPlan.Proofs.Description.Trees

/-!
# External projects

A foreign project file tells a name and an identifier in its property groups. The last property of
each kind counts whose text can be read, and only at the end it is asked whether it can be used. So
an empty name or the nil identifier hides the usable ones in front of it, where a text that is no
identifier does not, and a file that identifies its project may be rejected.
-/

namespace SolutionPlan

/-- The last member counts if it is not the bad one. Then the last one that is not bad is found,
unless a bad one at the end hides it. -/
theorem filter_getLast?_ne_iff {α : Type} [BEq α] [LawfulBEq α] {bad : α} {l : List α} :
    l.getLast?.filter (· != bad) = (l.filter (· != bad)).getLast? ↔
      (l.getLast? = some bad → ∀ a ∈ l, a = bad) := by
  rcases List.eq_nil_or_concat l with rfl | ⟨front, last, rfl⟩
  · simp
  · rw [List.concat_eq_append, List.getLast?_concat, List.filter_append]
    by_cases h : last = bad
    · subst h
      have hrefused : (some last).filter (· != last) = none := by simp [Option.filter]
      have hdropped : [last].filter (· != last) = [] := by simp
      rw [hrefused, hdropped, List.append_nil, eq_comm, List.getLast?_eq_none_iff,
        List.filter_eq_nil_iff, List.forall_mem_append]
      simp
    · simp [h]

namespace Workspace

namespace Identity

/-! ## What a project file says -/

def texts (space : Option String) (name : String) (properties : List Xml.Element) : List String :=
  (properties.filter (isNamed space name)).map fun e => Text.trimmed e.text

def properties (root : Xml.Element) : List Xml.Element :=
  (root.children.filter (isNamed root.tag.space "PropertyGroup")).flatMap Xml.Element.children

/-- In document order, with those that are empty. -/
def names (root : Xml.Element) : List String :=
  texts root.tag.space "RootNamespace" (properties root)

/-- In document order, with those that are nil. -/
def guids (root : Xml.Element) : List Guid :=
  (texts root.tag.space "ProjectGuid" (properties root)).filterMap Guid.parse?

def name? (found : Identity) : Option String := found.name.filter (· != "")

def guid? (found : Identity) : Option Guid := found.guid.filter fun g => !g.isNil

theorem complete?_eq (found : Identity) :
    found.complete? = found.name?.bind fun name => found.guid?.map fun guid => (name, guid) := by
  unfold complete? name? guid?
  cases found.name.filter (· != "") with
  | none => rfl
  | some name => cases found.guid.filter fun g => !g.isNil <;> rfl

theorem texts_concat (space : Option String) (name : String) (front : List Xml.Element)
    (e : Xml.Element) : texts space name (front ++ [e]) =
      texts space name front ++ if isNamed space name e then [Text.trimmed e.text] else [] := by
  unfold texts
  rw [List.filter_append, List.map_append]
  split <;> simp [*]

theorem not_isNamed_guid_of_name {space : Option String} {e : Xml.Element}
    (h : isNamed space "RootNamespace" e = true) : isNamed space "ProjectGuid" e = false := by
  unfold isNamed at h ⊢
  rw [Bool.and_eq_true, beq_iff_eq] at h
  rw [h.1]
  rfl

theorem foldl_add (space : Option String) (properties : List Xml.Element) :
    properties.foldl (add space) ⟨none, none⟩ =
      ⟨(texts space "RootNamespace" properties).getLast?,
        ((texts space "ProjectGuid" properties).filterMap Guid.parse?).getLast?⟩ := by
  induction properties using List.reverseRecOn with
  | nil => rfl
  | append_singleton front e ih =>
      rw [List.foldl_concat, ih, texts_concat, texts_concat]
      unfold add
      by_cases hname : isNamed space "RootNamespace" e = true
      · simp [hname, not_isNamed_guid_of_name hname]
      · by_cases hguid : isNamed space "ProjectGuid" e = true
        · cases hparse : Guid.parse? (Text.trimmed e.text) with
          | none => simp [hname, hguid, hparse]
          | some guid => simp [hname, hguid, hparse]
        · simp [hname, hguid]

/-- The last name counts and the last text that is an identifier, whether it can be used or not. -/
theorem ofElement_eq (root : Xml.Element) :
    ofElement root = ⟨(names root).getLast?, (guids root).getLast?⟩ :=
  foldl_add root.tag.space (properties root)

def YieldsLastUsable (root : Xml.Element) : Prop :=
  (ofElement root).name? = ((names root).filter (· != "")).getLast? ∧
    (ofElement root).guid? = ((guids root).filter fun g => !g.isNil).getLast?

theorem yieldsLastUsable_iff {root : Xml.Element} :
    YieldsLastUsable root ↔
      ((names root).getLast? = some "" → ∀ name ∈ names root, name = "") ∧
        ((guids root).getLast? = some .nil → ∀ guid ∈ guids root, guid = .nil) := by
  unfold YieldsLastUsable
  rw [ofElement_eq]
  exact and_congr filter_getLast?_ne_iff filter_getLast?_ne_iff

end Identity

/-! ## What the element adds -/

/-- The element names a foreign project file: its extension is known, and it is a well-formed
document with this root. -/
structure NamesProjectFile (w : Workspace) (e : Node) (path : Path) (kind : ProjectKind)
    (root : Xml.Element) : Prop where
  isProject : e.name = "project"
  external : ∃ external, e.attribute? "external" = some external ∧ e.resolve external = path
  known : path.extension?.bind ProjectKind.ofExtension? = some kind
  content : ∃ text, w.fs.read path = .ok text ∧ Xml.parse text = .ok root

/-- Adds the project that is identified by a name and an identifier, or records one error if there
is no name or no identifier. -/
def addExternal (path : Path) (kind : ProjectKind) (name : Option String) (guid : Option Guid)
    (folder : Option Nat) (s : Solution) : Logged Solution :=
  match name, guid with
  | some name, some guid =>
      pure (s.addProject { Project.ofExternal name kind path guid with folder := folder })
  | _, _ => ⟨s, [.unidentifiedExternal path]⟩

/-- The element adds one project exactly if its file tells a usable name and a usable identifier,
of which the last ones count. -/
def LoadsIdentified (w : Workspace) (e : Node) (path : Path) (kind : ProjectKind)
    (root : Xml.Element) : Prop :=
  Identity.YieldsLastUsable root ∧
    ∀ folder s, w.readProjects folder s [e] =
      addExternal path kind ((Identity.names root).filter (· != "")).getLast?
        ((Identity.guids root).filter fun g => !g.isNil).getLast? folder s

variable {w : Workspace} {e : Node} {path : Path} {kind : ProjectKind} {root : Xml.Element}

theorem readExternal_eq (h : w.NamesProjectFile e path kind root) :
    w.readExternal path =
      match (Identity.ofElement root).name?, (Identity.ofElement root).guid? with
      | some name, some guid => .ok (.ofExternal name kind path guid)
      | _, _ => .error (.unidentifiedExternal path) := by
  obtain ⟨text, hread, hparse⟩ := h.content
  unfold readExternal
  simp only [h.known, hread, hparse, Identity.complete?_eq]
  cases (Identity.ofElement root).name? with
  | none => rfl
  | some name => cases (Identity.ofElement root).guid? <;> rfl

theorem readProjects_eq_addExternal (h : w.NamesProjectFile e path kind root)
    (folder : Option Nat) (s : Solution) :
    w.readProjects folder s [e] =
      addExternal path kind (Identity.ofElement root).name? (Identity.ofElement root).guid?
        folder s := by
  obtain ⟨external, hexternal, rfl⟩ := h.external
  have hread := readExternal_eq h
  unfold readProjects readProject addExternal
  rw [List.filter_cons_of_pos (by simp [h.isProject]), List.filter_nil, List.foldlM_cons,
    hexternal]
  simp only [hread]
  cases (Identity.ofElement root).name? with
  | none => rfl
  | some name => cases (Identity.ofElement root).guid? <;> rfl

/--
An element that names a readable, well-formed project file adds one project if the last name in
the file is not empty and the last identifier is not nil, and else nothing and one error. That is
what the last usable properties ask for exactly if an empty name stands last only where all names
are empty, and the nil identifier only where all identifiers are nil.
-/
theorem loadsIdentified_iff (h : w.NamesProjectFile e path kind root) :
    (∀ folder s, w.readProjects folder s [e] =
        addExternal path kind ((Identity.names root).getLast?.filter (· != ""))
          ((Identity.guids root).getLast?.filter fun g => !g.isNil) folder s) ∧
      (Problem.unidentifiedExternal path).severity = .error ∧
      (w.LoadsIdentified e path kind root ↔
        ((Identity.names root).getLast? = some "" → ∀ name ∈ Identity.names root, name = "") ∧
          ((Identity.guids root).getLast? = some .nil →
            ∀ guid ∈ Identity.guids root, guid = .nil)) := by
  have hreads := readProjects_eq_addExternal h
  refine ⟨?_, rfl, ?_⟩
  · intro folder s
    rw [hreads, Identity.ofElement_eq]
    rfl
  · rw [← Identity.yieldsLastUsable_iff]
    refine ⟨And.left, fun hyields => ⟨hyields, ?_⟩⟩
    intro folder s
    rw [hreads, hyields.1, hyields.2]

/-! ## A file with several identifiers -/

/-- A project file with a name and then these identifiers. -/
def projectFile (guids : List String) : String :=
  let written := guids.map fun guid => "<ProjectGuid>" ++ guid ++ "</ProjectGuid>"
  "<Project><PropertyGroup><RootNamespace>Zed</RootNamespace>" ++ String.join written ++
    "</PropertyGroup></Project>"

def projectRoot (guids : List String) : Xml.Element :=
  let property (name text : String) : Xml.Element :=
    .mk { Xml.Tag.plain name [] with text := text } []
  .mk (.plain "Project" []) [.mk (.plain "PropertyGroup" [])
    (property "RootNamespace" "Zed" :: guids.map (property "ProjectGuid"))]

def externalWorkspace (guids : List String) : Workspace :=
  ⟨(FileStore.empty.add ⟨"/w/z.vcxproj"⟩ (projectFile guids)).fileSystem, .empty, ⟨"/w"⟩,
    ⟨"/w"⟩⟩

def externalElement : Node := .mk (.plain "project" [("external", "z.vcxproj")]) ⟨"/w"⟩ [] []

theorem namesProjectFile_external {guids : List String}
    (h : Xml.parse (projectFile guids) = .ok (projectRoot guids)) :
    (externalWorkspace guids).NamesProjectFile externalElement ⟨"/w/z.vcxproj"⟩ .cpp
      (projectRoot guids) where
  isProject := rfl
  external := ⟨"z.vcxproj", rfl, by decide +kernel⟩
  known := by decide +kernel
  content := ⟨projectFile guids,
    (FileStore.read_add_empty ⟨"/w/z.vcxproj"⟩ ⟨"/w/z.vcxproj"⟩ _).trans (if_pos rfl), h⟩

theorem loadsIdentified_iff_malformed :
    let guids := ["6E4F2A0B1C2D4E5F8A9B0C1D2E3F4A5B", "none"]
    (externalWorkspace guids).NamesProjectFile externalElement ⟨"/w/z.vcxproj"⟩ .cpp
        (projectRoot guids) ∧
      (externalWorkspace guids).LoadsIdentified externalElement ⟨"/w/z.vcxproj"⟩ .cpp
        (projectRoot guids) := by
  intro guids
  have h := @namesProjectFile_external guids (by decide +kernel)
  exact ⟨h, (loadsIdentified_iff h).2.2.2 ⟨by decide +kernel, by decide +kernel⟩⟩

/-- The nil identifier stands behind the usable one and hides it. -/
theorem not_loadsIdentified_nil :
    let guids := ["6E4F2A0B1C2D4E5F8A9B0C1D2E3F4A5B", "00000000000000000000000000000000"]
    (externalWorkspace guids).NamesProjectFile externalElement ⟨"/w/z.vcxproj"⟩ .cpp
        (projectRoot guids) ∧
      ¬ (externalWorkspace guids).LoadsIdentified externalElement ⟨"/w/z.vcxproj"⟩ .cpp
        (projectRoot guids) := by
  intro guids
  refine ⟨namesProjectFile_external (by decide +kernel), fun hloads => ?_⟩
  have hguids := (Identity.yieldsLastUsable_iff.1 hloads.1).2
  exact absurd hguids (by decide +kernel)

end Workspace

end SolutionPlan
