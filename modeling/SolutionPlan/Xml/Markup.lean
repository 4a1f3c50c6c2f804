import SolutionPlan.Text.Basic
import SolutionPlan.Xml.Character

/-!
# Markup

A document as the list of its tags, texts and marked sections, each as it is written. Reading
stops at the first place that fits no markup; what the pieces say to each other is not looked at
here.
-/

namespace SolutionPlan.Xml

/-- A name as written, with the text before its colon. -/
structure QualifiedName where
  space : List Char
  base : List Char
deriving DecidableEq, Repr

structure RawAttribute where
  name : QualifiedName
  value : List Char
deriving DecidableEq, Repr

inductive Markup where
  | opening (name : QualifiedName) (attributes : List RawAttribute) (closed : Bool)
  | closing (name : QualifiedName)
  | text (raw : List Char)
  | literal (raw : List Char)
  | aside
deriving DecidableEq, Repr

/-- Reading a part of a text gives the part and what follows it, no longer than the text. -/
def Shortens {α : Type} (s : List Char) (result : Except Malformed (α × List Char)) : Prop :=
  ∀ value rest, result = .ok (value, rest) → rest.length ≤ s.length

/-! ## Runs of characters -/

/-- The characters before the first place where `stop` holds. All of them have to be allowed. -/
def allowedUntil (stop : List Char → Bool) :
    List Char → Except Malformed (List Char × List Char)
  | [] => .ok ([], [])
  | c :: s =>
      if !isAllowed c then .error (.character c)
      else if stop (c :: s) then .ok ([], c :: s)
      else (allowedUntil stop s).map fun (run, rest) => (c :: run, rest)

theorem allowedUntil_shortens (stop : List Char → Bool) (s : List Char) :
    Shortens s (allowedUntil stop s) := by
  induction s with
  | nil => intro run rest h; simp_all [allowedUntil]
  | cons c s ih =>
      intro run rest h
      simp only [allowedUntil] at h
      split at h
      · simp at h
      · split at h
        · obtain ⟨-, rfl⟩ := by simpa using h
          exact Nat.le_refl _
        · cases hs : allowedUntil stop s with
          | error e => simp [hs, Except.map] at h
          | ok result =>
              obtain ⟨-, rfl⟩ := by simpa [hs, Except.map] using h
              exact Nat.le_succ_of_le (ih _ _ hs)

def skipSpaces (s : List Char) : List Char := s.dropWhile isSpace

theorem length_skipSpaces_le (s : List Char) : (skipSpaces s).length ≤ s.length :=
  (List.dropWhile_sublist _).length_le

def expect (lead : List Char) (problem : Malformed) (s : List Char) :
    Except Malformed (List Char) :=
  if lead.isPrefixOf s then .ok (s.drop lead.length) else .error problem

theorem expect_eq_ok {lead s rest : List Char} {problem : Malformed}
    (h : expect lead problem s = .ok rest) : s = lead ++ rest := by
  unfold expect at h
  split at h
  · next hlead =>
    obtain ⟨t, rfl⟩ := List.isPrefixOf_iff_prefix.1 hlead
    obtain rfl := by simpa using h
    rfl
  · simp at h

theorem length_of_expect {lead s rest : List Char} {problem : Malformed}
    (h : expect lead problem s = .ok rest) : rest.length + lead.length = s.length := by
  have := congrArg List.length (expect_eq_ok h)
  simp only [List.length_append] at this
  omega

/-! ## Names and attributes -/

def QualifiedName.ofWritten (written : List Char) : QualifiedName :=
  match Text.cutAt? ':' written with
  | some (space, base) => ⟨space, base⟩
  | none => ⟨[], written⟩

/-- A name holds at most one colon, and neither part starts with a digit or the like. Only the part
before the colon may be empty. -/
def QualifiedName.isValid (name : QualifiedName) : Bool :=
  name.base != [] && !name.base.contains ':' && name.base.head?.all isNameStart &&
    name.space.head?.all isNameStart

def qualifiedName (s : List Char) : Except Malformed (QualifiedName × List Char) :=
  let name := QualifiedName.ofWritten (s.takeWhile isName)
  if name.isValid then .ok (name, s.dropWhile isName) else .error .name

theorem length_of_qualifiedName {s rest : List Char} {name : QualifiedName}
    (h : qualifiedName s = .ok (name, rest)) : rest.length ≤ s.length := by
  unfold qualifiedName at h
  simp only at h
  split at h
  · obtain ⟨-, rfl⟩ := by simpa using h
    exact (List.dropWhile_sublist _).length_le
  · simp at h

def attributeText (s : List Char) : Except Malformed (List Char × List Char) := do
  let s ← expect ['='] .startTag (skipSpaces s)
  match skipSpaces s with
  | [] => .error .startTag
  | quote :: s =>
      if quote = '"' ∨ quote = '\'' then do
        let (value, s) ←
          allowedUntil (fun rest => rest.head? == some quote || rest.head? == some '<') s
        let s ← expect [quote] .startTag s
        .ok (value, s)
      else .error .startTag

theorem length_of_attributeText {s value rest : List Char}
    (h : attributeText s = .ok (value, rest)) : rest.length < s.length := by
  unfold attributeText at h
  cases he : expect ['='] .startTag (skipSpaces s) with
  | error e => simp [he, bind, Except.bind] at h
  | ok t =>
      have ht := length_of_expect he
      have hs := length_skipSpaces_le s
      have hts := length_skipSpaces_le t
      simp only [he, bind, Except.bind] at h
      split at h
      · simp at h
      · next quote u hu =>
        rw [hu] at hts
        simp only [List.length_cons, List.length_nil] at ht hts
        split at h
        · split at h
          · simp at h
          · next found hfound =>
            have hle := allowedUntil_shortens _ _ _ _ hfound
            split at h
            · simp at h
            · next v hv =>
              have := length_of_expect hv
              simp only [List.length_cons, List.length_nil] at this
              obtain ⟨-, rfl⟩ := by simpa using h
              omega
        · simp at h

/-- The attributes of a start tag, and whether the tag also ends its element. White space has to
stand before each attribute. -/
def attributes (s : List Char) :
    Except Malformed ((List RawAttribute × Bool) × List Char) :=
  match _ht : skipSpaces s with
  | '>' :: rest => .ok (([], false), rest)
  | '/' :: '>' :: rest => .ok (([], true), rest)
  | t =>
      if !(s.head?.any isSpace) then .error .startTag
      else
        match _hname : qualifiedName t with
        | .error e => .error e
        | .ok (name, u) =>
            match _hvalue : attributeText u with
            | .error e => .error e
            | .ok (value, rest) =>
                (attributes rest).map fun ((more, closed), rest) =>
                  ((⟨name, value⟩ :: more, closed), rest)
termination_by s.length
decreasing_by
  have hskip := length_skipSpaces_le s
  have hname := length_of_qualifiedName _hname
  have hvalue := length_of_attributeText _hvalue
  rw [_ht] at hskip
  omega

/-! ## Pieces of markup -/

def upTo (stop : List Char) (problem : Malformed) (s : List Char) :
    Except Malformed (List Char × List Char) := do
  let (run, rest) ← allowedUntil (fun rest => stop.isPrefixOf rest) s
  let rest ← expect stop problem rest
  .ok (run, rest)

theorem upTo_shortens (stop : List Char) (problem : Malformed) (s : List Char) :
    Shortens s (upTo stop problem s) := by
  intro run rest h
  unfold upTo at h
  cases hr : allowedUntil (fun rest => stop.isPrefixOf rest) s with
  | error e => simp [hr, bind, Except.bind] at h
  | ok found =>
      have hle := allowedUntil_shortens _ _ _ _ hr
      simp only [hr, bind, Except.bind] at h
      split at h
      · simp at h
      · next v hv =>
        have := length_of_expect hv
        obtain ⟨-, rfl⟩ := by simpa using h
        omega

/-- A comment holds no two hyphens in a row and does not end in one. -/
def commentBody (s : List Char) : Except Malformed (Markup × List Char) := do
  let (run, rest) ← upTo "-->".toList .comment s
  if Text.occurs ['-', '-'] run || run.getLast? == some '-' then .error .comment
  else .ok (.aside, rest)

/-- An instruction starts with a name; a second declaration is none. -/
def instructionBody (s : List Char) : Except Malformed (Markup × List Char) :=
  if "xml ".toList.isPrefixOf s then .error .declaration
  else if s.head?.any isNameStart then do
    let (_, rest) ← upTo "?>".toList .declaration (s.dropWhile isName)
    .ok (.aside, rest)
  else .error .name

def sectionBody (s : List Char) : Except Malformed (Markup × List Char) := do
  let (run, rest) ← upTo "]]>".toList .characterData s
  .ok (.literal run, rest)

def endTag (s : List Char) : Except Malformed (Markup × List Char) := do
  let (name, rest) ← qualifiedName s
  let rest ← expect ['>'] .endTag (skipSpaces rest)
  .ok (.closing name, rest)

def startTag (s : List Char) : Except Malformed (Markup × List Char) := do
  let (name, rest) ← qualifiedName s
  let ((values, closed), rest) ← attributes rest
  .ok (.opening name values closed, rest)

/-- Text that starts with the character `c` runs to the next tag and does not hold the end of a
marked section. -/
def textRun (c : Char) (s : List Char) : Except Malformed (Markup × List Char) := do
  if !isAllowed c then .error (.character c)
  else
    let (run, rest) ← allowedUntil (fun rest => rest.head? == some '<') s
    if Text.occurs "]]>".toList (c :: run) then .error .characterData
    else .ok (.text (c :: run), rest)

theorem attributes_shortens (s : List Char) : Shortens s (attributes s) := by
  intro found rest h
  induction hn : s.length using Nat.strongRecOn generalizing s found rest with
  | ind n ih =>
      rw [attributes] at h
      have hskip := length_skipSpaces_le s
      split at h
      · next t ht =>
        rw [ht] at hskip
        simp only [List.length_cons] at hskip
        obtain ⟨-, rfl⟩ := by simpa using h
        omega
      · next t ht =>
        rw [ht] at hskip
        simp only [List.length_cons] at hskip
        obtain ⟨-, rfl⟩ := by simpa using h
        omega
      · split at h
        · simp at h
        · split at h
          · simp at h
          · next name u hname =>
            split at h
            · simp at h
            · next value more hvalue =>
              have hu := length_of_qualifiedName hname
              have hmore := length_of_attributeText hvalue
              cases ha : attributes more with
              | error e => simp [ha, Except.map] at h
              | ok result =>
                  have hle := ih more.length (by omega) more result.1 result.2 ha rfl
                  obtain ⟨-, rfl⟩ := by simpa [ha, Except.map] using h
                  omega

def nextMarkup (c : Char) (s : List Char) : Except Malformed (Markup × List Char) :=
  if c = '<' then
    match s with
    | '!' :: '-' :: '-' :: rest => commentBody rest
    | '!' :: rest => do
        let rest ← expect "[CDATA[".toList .declaration rest
        sectionBody rest
    | '?' :: rest => instructionBody rest
    | '/' :: rest => endTag rest
    | rest => startTag rest
  else textRun c s

private theorem of_bind_ok {α β : Type} {x : Except Malformed α} {f : α → Except Malformed β}
    {b : β} (h : (x >>= f) = .ok b) : ∃ a, x = .ok a ∧ f a = .ok b := by
  cases x with
  | error e => simp [bind, Except.bind] at h
  | ok a => exact ⟨a, rfl, h⟩

private theorem commentBody_shortens (s : List Char) : Shortens s (commentBody s) := by
  intro found rest h
  obtain ⟨⟨run, t⟩, ht, h⟩ := of_bind_ok h
  have := upTo_shortens _ _ _ _ _ ht
  simp only at h
  split at h
  · simp at h
  · obtain ⟨-, rfl⟩ := by simpa using h
    exact this

private theorem sectionBody_shortens (s : List Char) : Shortens s (sectionBody s) := by
  intro found rest h
  obtain ⟨⟨run, t⟩, ht, h⟩ := of_bind_ok h
  have := upTo_shortens _ _ _ _ _ ht
  obtain ⟨-, rfl⟩ := by simpa using h
  exact this

private theorem instructionBody_shortens (s : List Char) : Shortens s (instructionBody s) := by
  intro found rest h
  unfold instructionBody at h
  split at h
  · simp at h
  · split at h
    · obtain ⟨⟨run, t⟩, ht, h⟩ := of_bind_ok h
      have := upTo_shortens _ _ _ _ _ ht
      have hname : (s.dropWhile isName).length ≤ s.length := (List.dropWhile_sublist _).length_le
      obtain ⟨-, rfl⟩ := by simpa using h
      omega
    · simp at h

private theorem endTag_shortens (s : List Char) : Shortens s (endTag s) := by
  intro found rest h
  obtain ⟨⟨name, t⟩, ht, h⟩ := of_bind_ok h
  obtain ⟨u, hu, h⟩ := of_bind_ok h
  have h1 := length_of_qualifiedName ht
  have h2 := length_skipSpaces_le t
  have h3 := length_of_expect hu
  obtain ⟨-, rfl⟩ := by simpa using h
  omega

private theorem startTag_shortens (s : List Char) : Shortens s (startTag s) := by
  intro found rest h
  obtain ⟨⟨name, t⟩, ht, h⟩ := of_bind_ok h
  obtain ⟨⟨⟨values, closed⟩, u⟩, hu, h⟩ := of_bind_ok h
  have h1 := length_of_qualifiedName ht
  have h2 := attributes_shortens t _ _ hu
  obtain ⟨-, rfl⟩ := by simpa using h
  omega

private theorem textRun_shortens (c : Char) (s : List Char) : Shortens s (textRun c s) := by
  intro found rest h
  unfold textRun at h
  split at h
  · simp at h
  · obtain ⟨⟨run, t⟩, ht, h⟩ := of_bind_ok h
    have := allowedUntil_shortens _ _ _ _ ht
    simp only at h
    split at h
    · simp at h
    · obtain ⟨-, rfl⟩ := by simpa using h
      exact this

theorem nextMarkup_shortens (c : Char) (s : List Char) : Shortens s (nextMarkup c s) := by
  intro found rest h
  unfold nextMarkup at h
  split at h
  · split at h
    · have := commentBody_shortens _ _ _ h
      simp only [List.length_cons]
      omega
    · obtain ⟨t, ht, h⟩ := of_bind_ok h
      have h1 := length_of_expect ht
      have h2 := sectionBody_shortens _ _ _ h
      simp only [List.length_cons]
      omega
    · exact Nat.le_succ_of_le (instructionBody_shortens _ _ _ h)
    · exact Nat.le_succ_of_le (endTag_shortens _ _ _ h)
    · exact startTag_shortens _ _ _ h
  · exact textRun_shortens _ _ _ _ h

def markups (s : List Char) : Except Malformed (List Markup) :=
  match s with
  | [] => .ok []
  | c :: s =>
      match _hnext : nextMarkup c s with
      | .error e => .error e
      | .ok (markup, rest) => (markups rest).map (markup :: ·)
termination_by s.length
decreasing_by
  have := nextMarkup_shortens _ _ _ _ _hnext
  simp only [List.length_cons]
  omega

end SolutionPlan.Xml
