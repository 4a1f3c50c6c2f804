import SolutionPlan.Text.Basic

/-!
# Paths

A path is a written text, and means the list of its components: repeated slashes, slashes at the end
and inner `.` components do not count. A normal path has no `.` and keeps `..` only in front of a
relative path; relating two paths compares their normal components.
-/

namespace SolutionPlan

structure Path where
  text : String
deriving DecidableEq, Inhabited, Repr

inductive Component where
  | root
  | current
  | parent
  | name (text : String)
deriving DecidableEq, Repr

namespace Component

/-- The written form between two slashes; the root stands before the first one. -/
def segment : Component → List Char
  | root => []
  | current => ['.']
  | parent => ['.', '.']
  | name text => text.toList

/-- Components order by their kind and names by their characters. -/
def key : Component → Nat × String
  | root => (0, "")
  | current => (1, "")
  | parent => (2, "")
  | name text => (3, text)

instance : Ord Component := ⟨compareLex (compareOn fun c => c.key.1) (compareOn fun c => c.key.2)⟩

theorem key_injective {a b : Component} (h : a.key = b.key) : a = b := by
  cases a <;> cases b <;> simp_all [key]

instance : Std.TransOrd Component :=
  inferInstanceAs (Std.TransCmp (compareLex (compareOn fun c : Component => c.key.1)
    (compareOn fun c => c.key.2)))

instance : Std.LawfulEqOrd Component where
  eq_of_compare {a b} h := by
    have hkey : compareLex (compareOn fun c : Component => c.key.1)
        (compareOn fun c => c.key.2) a b = .eq := h
    simp only [compareLex_eq_eq, compareOn, Std.compare_eq_iff_eq] at hkey
    exact key_injective (Prod.ext hkey.1 hkey.2)

/-- Empty segments and `.` name no component. -/
def ofSegment? : List Char → Option Component
  | [] => none
  | ['.'] => none
  | ['.', '.'] => some parent
  | segment => some (name (String.ofList segment))

end Component

namespace Path

def ofList (s : List Char) : Path := ⟨String.ofList s⟩

def toList (p : Path) : List Char := p.text.toList

def empty : Path := ⟨""⟩

def isAbsolute (p : Path) : Bool := p.toList.head? == some '/'

/-! ## Components -/

def segments (s : List Char) : List (List Char) := Text.splitWhere (· == '/') s

/-- A `.` counts only as the first segment of a relative path. -/
def components (p : Path) : List Component :=
  match p.toList with
  | '/' :: s => .root :: (segments s).filterMap Component.ofSegment?
  | s =>
      match segments s with
      | ['.'] :: rest => .current :: rest.filterMap Component.ofSegment?
      | all => all.filterMap Component.ofSegment?

/-- The path that is written with the given components and no more slashes than they need. -/
def ofComponents : List Component → Path
  | [.root] => ofList ['/']
  | cs => ofList (Text.joinWith '/' (cs.map Component.segment))

def same (p q : Path) : Bool := p.components == q.components

instance : Ord Path := ⟨fun p q => compare p.components q.components⟩

def startsWith (p base : Path) : Bool := base.components.isPrefixOf p.components

/-! ## Normal form -/

/-- Extends a reversed list of normal components: `.` is dropped, and `..` takes back a name, is
dropped at the root and is kept otherwise. -/
def pushNormal : List Component → Component → List Component
  | done, .current => done
  | .name _ :: done, .parent => done
  | .root :: done, .parent => .root :: done
  | done, c => c :: done

def normalComponents (cs : List Component) : List Component := (cs.foldl pushNormal []).reverse

/-- The normal components of a path, which identify it on a disk without links. -/
def normal (p : Path) : List Component := normalComponents p.components

def normalize (p : Path) : Path := ofComponents p.normal

/-! ## Joining -/

/-- An absolute path replaces the base; any other text is appended after one slash. -/
def join (base p : Path) : Path :=
  if p.isAbsolute then p
  else if base.toList = [] ∨ base.toList.getLast? = some '/' then ofList (base.toList ++ p.toList)
  else ofList (base.toList ++ '/' :: p.toList)

/-- A path as a description writes it: with either kind of slash and blanks around it. -/
def ofDocument (text : String) : Path :=
  ofList (Text.replaceChar '\\' '/' (Text.trim text.toList))

def resolve (base : Path) (text : String) : Path := (base.join (ofDocument text)).normalize

/-! ## Relating two paths -/

/-- How to reach the components `p` from the components `b`: up once for each component of `b` that
is not shared, then down. A root cannot be reached by going down, so it starts anew. -/
def relativeComponents : List Component → List Component → List Component
  | p, [] => p
  | [], b => b.map fun _ => .parent
  | c :: p, d :: b =>
      if c = d then relativeComponents p b
      else if c = .root then c :: p
      else (d :: b).map (fun _ => .parent) ++ c :: p

def relativeTo (p base : Path) : Path := ofComponents (relativeComponents p.normal base.normal)

/-! ## Parts of a path -/

private def isBlankSegment (s : List Char) : Bool := s == [] || s == ['.']

/-- Leaves out the last segment that counts, with all that follows it. The input and the output are
reversed. -/
private def dropLast? (reversed : List (List Char)) : Option (List (List Char)) :=
  match reversed.dropWhile isBlankSegment with
  | [] => none
  | _ :: above => some (above.dropWhile isBlankSegment)

/-- The path without its last component, as it is written; the root and the empty path have none. -/
def parent? (p : Path) : Option Path :=
  match p.toList with
  | '/' :: s =>
      (dropLast? (segments s).reverse).map fun above =>
        ofList ('/' :: Text.joinWith '/' above.reverse)
  | s =>
      match segments s with
      | ['.'] :: rest =>
          some (match dropLast? rest.reverse with
            | some above => ofList (Text.joinWith '/' (['.'] :: above.reverse))
            | none => empty)
      | all => (dropLast? all.reverse).map fun above => ofList (Text.joinWith '/' above.reverse)

private theorem filterMap_dropWhile_blank (pieces : List (List Char)) :
    (pieces.dropWhile isBlankSegment).filterMap Component.ofSegment? =
      pieces.filterMap Component.ofSegment? := by
  induction pieces with
  | nil => rfl
  | cons piece rest ih =>
      rw [List.dropWhile_cons]
      split
      · next hblank =>
        have hnone : Component.ofSegment? piece = none := by
          simp only [isBlankSegment, Bool.or_eq_true, beq_iff_eq] at hblank
          rcases hblank with rfl | rfl <;> rfl
        rw [ih, List.filterMap_cons_none hnone]
      · rfl

/-- What is left stands in front, and names all components but the last. -/
private theorem dropLast?_reverse {pieces : List (List Char)} {front : List Component}
    {last : Component} (h : pieces.filterMap Component.ofSegment? = front ++ [last]) :
    ∃ above, dropLast? pieces.reverse = some above ∧ above.reverse <+: pieces ∧
      above.reverse.filterMap Component.ofSegment? = front := by
  have hreversed : (pieces.reverse.dropWhile isBlankSegment).filterMap Component.ofSegment? =
      last :: front.reverse := by
    rw [filterMap_dropWhile_blank, List.filterMap_reverse, h, List.reverse_append]
    rfl
  unfold dropLast?
  cases hcounts : pieces.reverse.dropWhile isBlankSegment with
  | nil => simp [hcounts] at hreversed
  | cons piece above =>
      have hblank : isBlankSegment piece = false := by
        have hhead := List.head?_dropWhile_not isBlankSegment pieces.reverse
        rwa [hcounts] at hhead
      rw [hcounts] at hreversed
      cases hread : Component.ofSegment? piece with
      | none =>
          unfold Component.ofSegment? at hread
          split at hread <;> simp_all [isBlankSegment]
      | some c =>
          rw [List.filterMap_cons_some hread] at hreversed
          obtain ⟨-, hfront⟩ := List.cons.inj hreversed
          refine ⟨above.dropWhile isBlankSegment, rfl, ?_, ?_⟩
          · have hsuffix : above.dropWhile isBlankSegment <:+ pieces.reverse :=
              ((List.dropWhile_suffix _).trans (List.suffix_cons piece above)).trans
                (hcounts ▸ List.dropWhile_suffix _)
            rwa [← List.reverse_prefix, List.reverse_reverse] at hsuffix
          · rw [List.filterMap_reverse, filterMap_dropWhile_blank, hfront, List.reverse_reverse]

private theorem filterMap_segments_joinWith {pieces : List (List Char)}
    (h : ∀ piece ∈ pieces, '/' ∉ piece) :
    (segments (Text.joinWith '/' pieces)).filterMap Component.ofSegment? =
      pieces.filterMap Component.ofSegment? := by
  cases pieces with
  | nil => rfl
  | cons piece rest =>
      unfold segments
      rw [Text.splitWhere_joinWith (List.cons_ne_nil _ _) h]

private theorem joinWith_prefix {front pieces : List (List Char)} (h : front <+: pieces) :
    Text.joinWith '/' front <+: Text.joinWith '/' pieces := by
  obtain ⟨back, rfl⟩ := h
  by_cases hfront : front = []
  · subst hfront
    exact List.nil_prefix
  · by_cases hback : back = []
    · simp [hback]
    · rw [Text.joinWith_append '/' hfront hback]
      exact List.prefix_append _ _

private theorem components_joinWith {pieces : List (List Char)} :
    (∀ piece ∈ pieces, '/' ∉ piece) → (∀ t, Text.joinWith '/' pieces ≠ '/' :: t) →
      (ofList (Text.joinWith '/' pieces)).components =
        match pieces with
        | ['.'] :: rest => .current :: rest.filterMap Component.ofSegment?
        | all => all.filterMap Component.ofSegment? := by
  intro h hrelative
  cases pieces with
  | nil => rfl
  | cons piece rest =>
      have hsegments := Text.splitWhere_joinWith (List.cons_ne_nil piece rest) h
      unfold components ofList toList
      rw [String.toList_ofList]
      split
      · next t ht => exact absurd ht (hrelative t)
      · rw [segments, hsegments]

theorem parent?_eq_some {p : Path} {s : List Char} {front : List (List Char)} {last : List Char}
    (hp : p.toList = '/' :: s) (hs : segments s = front ++ [last])
    (hcount : ∀ piece ∈ front ++ [last], piece ∉ [[], ['.']]) :
    p.parent? = some (ofList ('/' :: Text.joinWith '/' front)) := by
  have hblank : ∀ piece ∈ front ++ [last], isBlankSegment piece = false := by
    intro piece hpiece
    simpa [isBlankSegment] using hcount piece hpiece
  have hlast : isBlankSegment last = false := hblank last (by simp)
  have hfront : front.reverse.dropWhile isBlankSegment = front.reverse := by
    cases hreversed : front.reverse with
    | nil => rfl
    | cons piece rest =>
        have hmem : piece ∈ front := List.mem_reverse.1 (hreversed ▸ List.mem_cons_self)
        rw [List.dropWhile_cons_of_neg (by simp [hblank piece (List.mem_append_left _ hmem)])]
  unfold parent?
  simp only [hp, hs, List.reverse_append, List.reverse_singleton, List.singleton_append]
  simp [dropLast?, hlast, hfront]

def parentOrEmpty (p : Path) : Path := p.parent?.getD empty

def fileName? (p : Path) : Option String :=
  match p.components.getLast? with
  | some (.name text) => some text
  | _ => none

theorem slash_not_mem_of_mem_segments {s piece : List Char} (h : piece ∈ segments s) :
    '/' ∉ piece := by
  intro hmem
  have hsep := Text.splitWhere_pieces h '/' hmem
  simp at hsep

private theorem components_of_fileName? {p : Path} {name : String}
    (h : p.fileName? = some name) : ∃ front, p.components = front ++ [.name name] := by
  unfold fileName? at h
  split at h
  · next text htext =>
    obtain rfl := Option.some.inj h
    exact List.getLast?_eq_some_iff.1 htext
  · cases h

/-- What stands in front in a relative text is relative as well. -/
private theorem relative_joinWith {s : List Char} {pieces : List (List Char)}
    (hrelative : ∀ t, s ≠ '/' :: t) (h : pieces <+: segments s) (t : List Char) :
    Text.joinWith '/' pieces ≠ '/' :: t := by
  intro ht
  have htext := joinWith_prefix h
  rw [segments, Text.joinWith_splitWhere, ht] at htext
  obtain ⟨back, hback⟩ := htext
  exact hrelative _ hback.symm

theorem exists_parent? {p : Path} {name : String} (h : p.fileName? = some name) :
    ∃ q, p.parent? = some q ∧ p.components = q.components ++ [.name name] := by
  obtain ⟨front, hfront⟩ := components_of_fileName? h
  have hslash {s : List Char} {pieces : List (List Char)} (hpieces : pieces <+: segments s) :
      ∀ piece ∈ pieces, '/' ∉ piece :=
    fun piece hpiece => slash_not_mem_of_mem_segments (hpieces.subset hpiece)
  rw [hfront]
  unfold components at hfront
  unfold parent?
  split at hfront
  · next s hs =>
    cases front with
    | nil => simp at hfront
    | cons c front =>
        obtain ⟨rfl, hpieces⟩ := List.cons.inj hfront
        obtain ⟨above, habove, hbefore, hread⟩ := dropLast?_reverse hpieces
        refine ⟨_, by simp only [habove]; rfl, ?_⟩
        have hcomponents := filterMap_segments_joinWith (hslash hbefore)
        rw [hread] at hcomponents
        simp [components, ofList, toList, hcomponents]
  · next s hs =>
    split at hfront
    · next rest hrest =>
      cases front with
      | nil => simp at hfront
      | cons c front =>
          obtain ⟨rfl, hpieces⟩ := List.cons.inj hfront
          obtain ⟨above, habove, hbefore, hread⟩ := dropLast?_reverse hpieces
          have hleft : ['.'] :: above.reverse <+: segments p.toList := by
            rw [hrest, List.cons_prefix_cons]
            exact ⟨rfl, hbefore⟩
          refine ⟨_, by simp only [habove]; rfl, ?_⟩
          rw [components_joinWith (hslash hleft) (relative_joinWith hs hleft)]
          simp [hread]
    · next hfirst =>
      obtain ⟨above, habove, hbefore, hread⟩ := dropLast?_reverse hfront
      refine ⟨_, by simp only [habove]; rfl, ?_⟩
      rw [components_joinWith (hslash hbefore) (relative_joinWith hs hbefore)]
      split
      · next rest hrest =>
        rw [hrest] at hbefore
        obtain ⟨back, hback⟩ := hbefore
        exact absurd hback.symm (hfirst _)
      · rw [hread]

/-- A file name as stem and extension. A name without a dot, or with its only dot in front, has no
extension. -/
def splitName (name : String) : String × Option String :=
  let reversed := name.toList.reverse
  match reversed.dropWhile (· != '.') with
  | [] => (name, none)
  | [_] => (name, none)
  | _ :: stem =>
      (String.ofList stem.reverse,
        some (String.ofList (reversed.takeWhile (· != '.')).reverse))

def fileStem? (p : Path) : Option String := p.fileName?.map fun name => (splitName name).1

def extension? (p : Path) : Option String := p.fileName?.bind fun name => (splitName name).2

/-- The components with slashes between them. The root itself has the empty text. -/
def toSlash (p : Path) : String :=
  String.ofList
    (Text.joinWith '/' ((p.components.filter (· != .current)).map Component.segment))

end Path

end SolutionPlan
