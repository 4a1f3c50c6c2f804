import Std.Data.TreeMap
import SolutionPlan.FileSystem.Basic

/-!
# Disks

A tree of directories, files and symbolic links. A path is looked up one segment at a time from the
root, each link on the way being followed, and no lookup follows more than forty links. An entry is
added in the directory that the links above it lead to. A search follows the link that its directory
may be and none below it.
-/

namespace SolutionPlan

/-- What stands at a place of the tree; a link holds the path that it leads to. A file whose text
cannot be read is a file all the same. -/
inductive DiskEntry where
  | file (text : String)
  | unreadable (error : ReadError)
  | directory
  | link (target : String)
deriving DecidableEq, Repr

def DiskEntry.isFile : DiskEntry → Bool
  | .file _ | .unreadable _ => true
  | .directory | .link _ => false

/-- Places are lists of names from the root. The directory of every entry is an entry too. -/
structure Disk where
  entries : Std.TreeMap (List String) DiskEntry

namespace Disk

def empty : Disk := ⟨∅⟩

def entry? (disk : Disk) : List String → Option DiskEntry
  | [] => some .directory
  | place => disk.entries[place]?

def directoriesAbove (place : List String) : List (List String) :=
  ((List.range place.length).map place.take).filter (· != [])

/-- Puts an entry at a place, and directories where some are missing above it. What stands there
already stays, but a file is replaced by a file. -/
def add (disk : Disk) (place : List String) (entry : DiskEntry) : Disk :=
  let above := (directoriesAbove place).foldl
    (fun entries directory => entries.insertIfNew directory .directory) disk.entries
  match disk.entry? place with
  | none => ⟨above.insert place entry⟩
  | some old => if old.isFile && entry.isFile then ⟨above.insert place entry⟩ else ⟨above⟩

/-! ## Looking up a path -/

def maxLinks : Nat := 40

def pathLimit : Nat := 4096

def nameLimit : Nat := 255

def segmentsFromRoot (path : String) : List (List Char) :=
  match path.toList with
  | '/' :: s => Path.segments s
  | s => Path.segments s

/-- The place that the segments `ahead` lead to from `here`, where at most `links` links may still
be followed. -/
def locate (disk : Disk) (links : Nat) (here : List String) (ahead : List (List Char)) :
    Except ReadError (List String) :=
  match ahead with
  | [] => .ok here
  | segment :: rest =>
      if disk.entry? here != some .directory then .error .notDirectory
      else if segment = [] ∨ segment = ['.'] then disk.locate links here rest
      else if segment = ['.', '.'] then disk.locate links here.dropLast rest
      else
        let name := String.ofList segment
        let next := here ++ [name]
        if name.utf8ByteSize > nameLimit then .error .nameTooLong
        else
          match disk.entry? next with
          | none => .error .noEntry
          | some (.link target) =>
              match links with
              | 0 => .error .tooManyLinks
              | links + 1 =>
                  if target = "" then .error .noEntry
                  else
                    let start := if target.toList.head? == some '/' then [] else here
                    disk.locate links start (segmentsFromRoot target ++ rest)
          | some _ => disk.locate links next rest
termination_by (links, ahead.length)

def place (disk : Disk) (p : Path) : Except ReadError (List String) :=
  if p.toList.contains '\x00' then .error .nulByte
  else if p.text.utf8ByteSize ≥ pathLimit then .error .nameTooLong
  else if p.text = "" then .error .noEntry
  else disk.locate maxLinks [] (segmentsFromRoot p.text)

def lookup (disk : Disk) (p : Path) : Except ReadError DiskEntry := do
  let place ← disk.place p
  match disk.entry? place with
  | some entry => .ok entry
  | none => .error .noEntry

def read (disk : Disk) (p : Path) : Except ReadError String :=
  match disk.lookup p with
  | .ok (.file text) => .ok text
  | .ok (.unreadable e) => .error e
  | .ok .directory => .error .isDirectory
  | .ok (.link _) => .error .tooManyLinks
  | .error e => .error e

def isFile (disk : Disk) (p : Path) : Bool :=
  match disk.lookup p with
  | .ok entry => entry.isFile
  | .error _ => false

/-! ## Writing at a path -/

/-- The names of a path if no link is on the way. -/
def namesOf (p : Path) : List String :=
  p.normal.filterMap fun c =>
    match c with
    | .name name => some name
    | _ => none

/-- The place that a name leads to from `here`. A name that leads nowhere yet stands for itself. -/
def enter (disk : Disk) (here : List String) (name : String) : List String :=
  match disk.locate maxLinks here [name.toList] with
  | .ok place => place
  | .error _ => here ++ [name]

/-- Adds an entry under the last name of a path. Links above that name are followed. -/
def addAt (disk : Disk) (p : Path) (entry : DiskEntry) : Disk :=
  let names := namesOf p
  disk.add (names.dropLast.foldl disk.enter [] ++ names.getLast?.toList) entry

/-! ## Searching -/

def namesBelow (disk : Disk) (place : List String) : List (List String) :=
  (disk.entries.keys.filterMap fun entry => place.isPrefixOf? entry).filter (· != [])

def find (disk : Disk) (root : Path) (pattern : String) (recursive : Bool) :
    Except SearchError (List Path) :=
  match Search.ofPattern root pattern with
  | .error e => .error (.pattern e)
  | .ok search =>
      match disk.place search.directory with
      | .error _ => .error (.directoryNotFound search.directory)
      | .ok place =>
          if disk.entry? place != some .directory then .error (.directoryNotFound search.directory)
          else
            let entries := (disk.namesBelow place).filter fun names =>
              (recursive || names.length == 1) && names.getLast?.any search.accepts
            let paths := entries.map fun names =>
              names.foldl (fun p name => p.join ⟨name⟩) search.directory
            .ok (((paths.filter disk.isFile).map Path.normalize).mergeSort
              fun p q => (compare p q).isLE)

/-! ## As a file system -/

/-- How many lists of at most that many bytes there are. -/
def byteListCount : Nat → Nat
  | 0 => 1
  | n + 1 => 1 + 256 * byteListCount n

/-- A number for each list of bytes, by digits from 1 to 256 in base 256. -/
def byteCode : List UInt8 → Nat
  | [] => 0
  | b :: bytes => 1 + b.toNat + 256 * byteCode bytes

theorem byteListCount_mono {m n : Nat} (h : m ≤ n) : byteListCount m ≤ byteListCount n := by
  induction n generalizing m with
  | zero =>
      obtain rfl := Nat.le_zero.1 h
      exact Nat.le_refl _
  | succ n ih =>
      cases m with
      | zero => simp only [byteListCount]; omega
      | succ m =>
          have := ih (Nat.le_of_succ_le_succ h)
          simp only [byteListCount]
          omega

theorem byteCode_lt (bytes : List UInt8) : byteCode bytes < byteListCount bytes.length := by
  induction bytes with
  | nil => simp [byteCode, byteListCount]
  | cons b bytes ih =>
      have := b.toNat_lt
      simp only [byteCode, List.length_cons, byteListCount]
      omega

theorem byteCode_injective {a b : List UInt8} (h : byteCode a = byteCode b) : a = b := by
  induction a generalizing b with
  | nil =>
      cases b with
      | nil => rfl
      | cons y b => simp only [byteCode] at h; omega
  | cons x a ih =>
      cases b with
      | nil => simp only [byteCode] at h; omega
      | cons y b =>
          have hx := x.toNat_lt
          have hy := y.toNat_lt
          simp only [byteCode] at h
          have hxy : x = y := UInt8.toNat_inj.1 (by omega)
          have hab : a = b := ih (by omega)
          rw [hxy, hab]

private def pathCode (p : Path) : Nat := byteCode p.text.toByteArray.data.toList

private theorem pathCode_injective {p q : Path} (h : pathCode p = pathCode q) : p = q := by
  have hbytes := Array.toList_inj.1 (byteCode_injective h)
  have htext := String.toByteArray_inj.1 (ByteArray.ext hbytes)
  cases p
  cases q
  exact congrArg Path.mk htext

private theorem utf8ByteSize_lt_of_read {disk : Disk} {p : Path} (h : (disk.read p).isOk) :
    p.text.utf8ByteSize < pathLimit := by
  apply Nat.lt_of_not_ge
  intro hge
  obtain ⟨e, hplace⟩ : ∃ e, disk.place p = .error e := by
    simp only [place, hge, if_true]
    split <;> exact ⟨_, rfl⟩
  have hlookup : disk.lookup p = .error e := by simp [lookup, hplace, bind, Except.bind]
  have hread : disk.read p = .error e := by simp [read, hlookup]
  simp [hread, Except.isOk, Except.toBool] at h

theorem length_le_byteListCount (disk : Disk) (paths : List Path)
    (hdistinct : (paths.map Path.normal).Nodup) (hread : ∀ p ∈ paths, (disk.read p).isOk) :
    paths.length ≤ byteListCount pathLimit := by
  have hpaths : paths.Nodup :=
    List.Pairwise.of_map Path.normal (fun p q hne he => hne (congrArg Path.normal he)) hdistinct
  have hcodes : (paths.map pathCode).Nodup :=
    List.Pairwise.map pathCode (fun p q hne he => hne (pathCode_injective he)) hpaths
  have hsub : paths.map pathCode ⊆ List.range (byteListCount pathLimit) := fun n hn => by
    obtain ⟨p, hp, rfl⟩ := List.mem_map.1 hn
    have hsize : p.text.toByteArray.data.toList.length ≤ pathLimit :=
      Nat.le_of_lt (utf8ByteSize_lt_of_read (hread p hp))
    exact List.mem_range.2 (Nat.lt_of_lt_of_le (byteCode_lt _) (byteListCount_mono hsize))
  have hle := hcodes.length_le_of_subset hsub
  rwa [List.length_map, List.length_range] at hle

def fileSystem (disk : Disk) : FileSystem where
  read := disk.read
  find := disk.find
  capacity := byteListCount pathLimit
  length_le_capacity := disk.length_le_byteListCount

end Disk

end SolutionPlan
