import SolutionPlan.Proofs.Configuration.LastWrite
import SolutionPlan.Proofs.Description.ImportSites

/-!
# Configurations flattened

A `configurations` element is flattened by visiting the imports of every element before what the
element says itself. The profile that is read from it is that of the last writes in this order, so
a block has the last word over its own imports, wherever they stand in it.
-/

namespace SolutionPlan

namespace Node

mutual

/-- What the visited elements say: those that the element imports, in order and each after its own
imports, and then the element. -/
def flatten {α : Type} (own : Node → List α) : Node → List α
  | .mk tag directory children imports =>
      flattenImports own imports ++ own (.mk tag directory children imports)

/-- Imports that failed are passed over. -/
def flattenImports {α : Type} (own : Node → List α) : List Imported → List α
  | [] => []
  | .failed _ :: rest => flattenImports own rest
  | .loaded root :: rest => flatten own (root ()) ++ flattenImports own rest

end

theorem flatten_eq {α : Type} (own : Node → List α) (n : Node) :
    n.flatten own = flattenImports own n.imports ++ own n := by
  obtain ⟨tag, directory, children, imports⟩ := n
  rw [flatten]
  rfl

mutual

theorem flatten_eq_flatMap {α : Type} (own : Node → List α) : (n : Node) →
      n.flatten own = n.elements.flatMap own
  | .mk tag directory children imports => by
      rw [flatten, flattenImports_eq_flatMap own imports, elements, layers, List.filterMap_append,
        List.flatMap_append]
      simp [Layer.element?]

theorem flattenImports_eq_flatMap {α : Type} (own : Node → List α) : (roots : List Imported) →
      flattenImports own roots = ((importedLayers roots).filterMap Layer.element?).flatMap own
  | [] => rfl
  | .failed p :: rest => by
      rw [flattenImports, importedLayers, flattenImports_eq_flatMap own rest]
      rfl
  | .loaded root :: rest => by
      rw [flattenImports, importedLayers, flatten_eq_flatMap own (root ()),
        flattenImports_eq_flatMap own rest, List.filterMap_append, List.flatMap_append]
      rfl

end

/-! ## What elements say -/

def ownWrites (origin : ProfileOrigin) (slot : Slot) (layer : Node) : List Write :=
  layer.children.flatMap fun block => (blockWrites origin slot block).value

def flatConfiguration (origin : ProfileOrigin) (slot : Slot) (n : Node) : List Write :=
  ⟨⟨none, slot⟩, .mention⟩ :: n.flatten (ownWrites origin slot)

/-- What a layer of a `configurations` element says without its imports: its shared configuration
and then the named ones, each flattened. -/
def ownConfigurations (origin : ProfileOrigin) (layer : Node) : List Write :=
  (layer.slots origin.owner).flatMap fun entry => entry.2.flatConfiguration origin entry.1

def flatConfigurations (origin : ProfileOrigin) (n : Node) : List Write :=
  n.flatten (ownConfigurations origin)

end Node

theorem slotWrites_eq_flat (origin : ProfileOrigin) (slot : Slot) (n : Node) :
    (slotWrites origin slot n).value = n.flatConfiguration origin slot := by
  rw [slotWrites_value, Node.flatConfiguration, Node.flatten_eq_flatMap]
  rfl

theorem profileWrites_eq_flat (origin : ProfileOrigin) (n : Node) :
    (profileWrites origin n).value = n.flatConfigurations origin := by
  rw [profileWrites_value, Node.flatConfigurations, Node.flatten_eq_flatMap]
  simp only [slotWrites_eq_flat]
  rfl

/-- An own word of a block is the last one there, after those of the imports. -/
theorem lastAt_flatten {α : Type} {said : Edit → Option α} {rule : Option FilePattern}
    {slot : Slot} {own : Node → List Write} {n : Node} {a : α}
    (h : lastAt said rule slot (own n) = some a) :
    lastAt said rule slot (n.flatten own) = some a := by
  rw [Node.flatten_eq, lastAt_append, h, Option.some_or]

theorem lastAt_flatConfiguration {α : Type} {said : Edit → Option α} {rule : Option FilePattern}
    {slot own : Slot} {origin : ProfileOrigin} {block : Node} {a : α}
    (h : lastAt said rule slot (block.ownWrites origin own) = some a) :
    lastAt said rule slot (block.flatConfiguration origin own) = some a := by
  rw [Node.flatConfiguration, ← List.singleton_append, lastAt_append, lastAt_flatten h,
    Option.some_or]

/-! ## The last write wins -/

/-- Every configuration of the profile says what the last writes to it say. Names and patterns
stand in the order in which they are mentioned first. -/
structure Profile.LastWriteWins (p : Profile) (writes : List Write) : Prop where
  value : ∀ rule slot key, ((p.set rule).at? slot).bind (fun c => c.get? key) =
    lastAt (Edit.value? key) rule slot writes
  excluded : ∀ rule slot, ((p.set rule).at? slot).bind Configuration.excluded =
    lastAt Edit.excluded? rule slot writes
  present : ∀ rule slot, ((p.set rule).at? slot).isSome ↔ ∃ w ∈ writes, w.IsAt rule slot
  names : ∀ rule, (p.set rule).names = (writes.filterMap (mentioned? rule)).eraseDups
  patterns : p.patterns =
    (writes.filterMap fun w => w.place.rule.map FilePattern.text).eraseDups

theorem Profile.lastWriteWins_writeAll (writes : List Write) :
    (empty.writeAll writes).LastWriteWins writes where
  value rule slot key := by
    rw [value_writeAll, at?_empty, Option.bind_none, Option.or_none]
  excluded rule slot := by
    rw [excluded_writeAll, at?_empty, Option.bind_none, Option.or_none]
  present rule slot := by
    rw [isSome_at?_writeAll, at?_empty]
    simp
  names rule := names_writeAll writes rule
  patterns := patterns_writeAll writes

/--
The profile that is read from a `configurations` element says what the last writes in the flattened
element say. Two such elements that differ only in where their imports stand are read alike, with
the same problems; so are two elements of one document that differ by moved imports. What a
`configurations` element says itself holds whatever it imports, and so does what a single
configuration says itself, whatever was read before.
-/
theorem readProfile_last_write_wins (origin : ProfileOrigin) (e n : Node)
    (h : e.first? "configurations" = some n) :
    (readProfile origin e .empty).value.LastWriteWins (n.flatConfigurations origin) ∧
      (∀ f m profile, f.first? "configurations" = some m → m.withoutSites 2 = n.withoutSites 2 →
        readProfile origin f profile = readProfile origin e profile) ∧
      (∀ {fs : FileSystem} (parameters : Parameters) (opened : OpenDocuments fs)
        (directory : Path) (x y : Xml.Element), x.SitesMoved 2 y →
          profileWrites origin (Node.load parameters opened directory x) =
            profileWrites origin (Node.load parameters opened directory y)) ∧
      (∀ profile rule slot key value,
        lastAt (Edit.value? key) rule slot (n.ownConfigurations origin) = some value →
          (((readProfile origin e profile).value.set rule).at? slot).bind (fun c => c.get? key) =
            some value) ∧
      ∀ (profile : Profile) (own : Slot) (block : Node) rule slot key value,
        lastAt (Edit.value? key) rule slot (block.ownWrites origin own) = some value →
          (((profile.writeAll (slotWrites origin own block).value).set rule).at? slot).bind
            (fun c => c.get? key) = some value := by
  have hread (profile : Profile) : (readProfile origin e profile).value =
      profile.writeAll (n.flatConfigurations origin) := by
    rw [readProfile_value, Node.layerWrites, h]
    simp [profileWrites_eq_flat]
  refine ⟨?_, ?_, ?_, ?_, ?_⟩
  · rw [hread]
    exact Profile.lastWriteWins_writeAll _
  · intro f m profile hm hsame
    unfold readProfile
    rw [hm, h]
    simp only
    rw [← profileWrites_withoutSites origin m, hsame, profileWrites_withoutSites]
  · intro fs parameters opened directory x y hmoved
    have hsame := Node.withoutSites_load_congr parameters opened directory hmoved
    rw [← profileWrites_withoutSites, hsame, profileWrites_withoutSites]
  · intro profile rule slot key value hown
    have hlast : lastAt (Edit.value? key) rule slot (n.flatConfigurations origin) = some value :=
      lastAt_flatten hown
    rw [hread, Profile.value_writeAll, hlast, Option.some_or]
  · intro profile own block rule slot key value hown
    rw [slotWrites_eq_flat, Profile.value_writeAll, lastAt_flatConfiguration hown, Option.some_or]

/-- A configuration that imports a warning level and definitions, and gives its own level in front
of the import. -/
def importingDebug : Node :=
  .mk ⟨none, "configuration", [⟨none, "name", "Debug"⟩], ""⟩ ⟨"/w"⟩
    [.plain ⟨"/w"⟩ "compile" [] "" [.plain ⟨"/w"⟩ "WarningLevel" [] "4" []],
      .plain ⟨"/w"⟩ "import" [("file", "common/c.xml")] "" []]
    [.loaded fun _ => .plain ⟨"/w/common"⟩ "configuration" [] ""
      [.plain ⟨"/w/common"⟩ "compile" [] ""
        [.plain ⟨"/w/common"⟩ "WarningLevel" [] "1" [],
          .plain ⟨"/w/common"⟩ "PreprocessorDefinitions" [] "COMMON" []]]]

def importingConfigurations : Node :=
  .plain ⟨"/w"⟩ "configurations" [] "" [importingDebug]

theorem readProfile_last_write_wins_importing :
    let e := Node.plain ⟨"/w"⟩ "project" [("name", "P")] "" [importingConfigurations]
    let debug := (readProfile ⟨.empty, ⟨"/w"⟩, "P"⟩ e .empty).value.base.find? "Debug"
    e.first? "configurations" = some importingConfigurations ∧
      debug.bind (fun c => c.get? 7) = some (.warningLevel .level4) ∧
        debug.bind (fun c => c.get? 13) = some (.list ["COMMON"]) := by
  intro e debug
  have hlast := (readProfile_last_write_wins ⟨.empty, ⟨"/w"⟩, "P"⟩ e importingConfigurations rfl).1
  refine ⟨rfl, (hlast.value none (.named "Debug") 7).trans ?_,
    (hlast.value none (.named "Debug") 13).trans ?_⟩
  · decide +kernel
  · decide +kernel

end SolutionPlan
