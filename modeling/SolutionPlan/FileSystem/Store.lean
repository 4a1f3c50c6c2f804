import Std.Data.TreeMap
import SolutionPlan.FileSystem.Basic

/-!
# File stores

Files in memory: a map from the normal components of a path to a text. There are no directories but
those that stored files lie in. Reading looks up the normal form of a path, and a search lists files
in the order of their paths.
-/

namespace SolutionPlan

structure FileStore where
  files : Std.TreeMap (List Component) String

namespace FileStore

def empty : FileStore := ⟨∅⟩

def size (store : FileStore) : Nat := store.files.size

def isEmpty (store : FileStore) : Bool := store.files.isEmpty

def add (store : FileStore) (p : Path) (text : String) : FileStore :=
  ⟨store.files.insert p.normal text⟩

/-- The components of the path, as they are written, are those of a stored file. -/
def contains (store : FileStore) (p : Path) : Bool := store.files.contains p.components

def read? (store : FileStore) (p : Path) : Option String := store.files[p.normal]?

def read (store : FileStore) (p : Path) : Except ReadError String :=
  match store.read? p with
  | some text => .ok text
  | none => .error (.fileNotFound p)

/-! ## Searching -/

def below? (directory file : List Component) : Option (List Component) :=
  directory.isPrefixOf? file

def hasDirectory (store : FileStore) (directory : List Component) : Bool :=
  store.files.keys.any fun file => file != directory && directory.isPrefixOf file

def matchesSearch (search : Search) (recursive : Bool) (file : List Component) : Bool :=
  match below? search.directory.components file, file.getLast? with
  | some rest, some (.name name) => (recursive || rest.length == 1) && search.accepts name
  | _, _ => false

def find (store : FileStore) (root : Path) (pattern : String) (recursive : Bool) :
    Except SearchError (List Path) :=
  match Search.ofPattern root pattern with
  | .error e => .error (.pattern e)
  | .ok search =>
      if store.hasDirectory search.directory.components then
        .ok ((store.files.keys.filter (matchesSearch search recursive)).map Path.ofComponents)
      else .error (.directoryNotFound search.directory)

theorem keys_add_empty (p : Path) (text : String) :
    (empty.add p text).files.keys = [p.normal] := rfl

theorem read_add_empty (p q : Path) (text : String) :
    (empty.add p text).read q =
      if p.normal = q.normal then .ok text else .error (.fileNotFound q) := by
  unfold read read? add empty
  simp only [Std.TreeMap.getElem?_insert]
  by_cases h : p.normal = q.normal <;> simp [h]

/-! ## As a file system -/

theorem mem_of_read_isOk {store : FileStore} {p : Path} (h : (store.read p).isOk) :
    p.normal ∈ store.files := by
  unfold read read? at h
  split at h
  · next text htext =>
    rw [Std.TreeMap.mem_iff_contains, ← Std.TreeMap.isSome_getElem?_eq_contains, htext]
    rfl
  · cases h

theorem length_le_size (store : FileStore) (paths : List Path)
    (hdistinct : (paths.map Path.normal).Nodup) (hread : ∀ p ∈ paths, (store.read p).isOk) :
    paths.length ≤ store.size := by
  have hsub : paths.map Path.normal ⊆ store.files.keys := fun key hkey => by
    obtain ⟨p, hp, rfl⟩ := List.mem_map.1 hkey
    exact Std.TreeMap.mem_keys.2 (mem_of_read_isOk (hread p hp))
  have hle := hdistinct.length_le_of_subset hsub
  rwa [List.length_map, Std.TreeMap.length_keys] at hle

def fileSystem (store : FileStore) : FileSystem where
  read := store.read
  find := store.find
  capacity := store.size
  length_le_capacity := store.length_le_size

end FileStore

end SolutionPlan
