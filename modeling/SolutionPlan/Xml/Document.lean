import SolutionPlan.Xml.Element
import SolutionPlan.Xml.Markup
import SolutionPlan.Xml.Reference

/-!
# Documents

The root element of a well-formed text. The markup is folded over a stack of open elements: an end
tag has to be written like the start tag it ends, prefixes have to be bound, and the root has to
be the only thing outside comments and instructions.
-/

namespace SolutionPlan.Xml

/-! ## Namespaces -/

/-- The namespaces in force; the first binding of a prefix counts, and `none` is the prefix of names
without a colon. -/
abbrev Bindings := List (Option String × String)

private def standardSpace (path : List String) : String :=
  String.intercalate "/" (["http:", "", "www.w3.org"] ++ path)

/-- The namespace that the prefix `xml` always has. -/
def xmlSpace : String := standardSpace ["XML", "1998", "namespace"]

/-- The namespace of the declarations themselves, which nothing else may use. -/
def declarationSpace : String := standardSpace ["2000", "xmlns", ""]

def Bindings.space? (bindings : Bindings) (written : List Char) :
    Except Malformed (Option String) :=
  if written = [] then .ok (bindings.lookup none)
  else
    match bindings.lookup (some (String.ofList written)) with
    | some space => .ok (some space)
    | none => .error (.unknownPrefix (String.ofList written))

/-! ## Start tags -/

/-- The attributes of a start tag as far as they are read: its namespace declarations and the
rest. -/
structure TagParts where
  declared : Bindings
  plain : List (QualifiedName × String)

def TagParts.add (parts : TagParts) (raw : RawAttribute) : Except Malformed TagParts := do
  let value ← attributeValue raw.value
  let base := String.ofList raw.name.base
  if raw.name.space = "xmlns".toList then
    if value = declarationSpace then .error .reservedNamespace
    else if base = "xml" then
      if value = xmlSpace then .ok parts else .error .reservedNamespace
    else if value = xmlSpace then .error .reservedNamespace
    else if parts.declared.any (·.1 == some base) then .error (.duplicateAttribute base)
    else .ok { parts with declared := parts.declared ++ [(some base, value)] }
  else if base = "xmlns" then
    if value = xmlSpace ∨ value = declarationSpace then .error .reservedNamespace
    else .ok { parts with declared := parts.declared ++ [(none, value)] }
  else .ok { parts with plain := parts.plain ++ [(raw.name, value)] }

/-- Appends one attribute; two of the same namespace and name are refused. -/
def addAttribute (bindings : Bindings) (done : List Attribute) (entry : QualifiedName × String) :
    Except Malformed (List Attribute) := do
  let (name, value) := entry
  let space ←
    if name.space = [] then .ok none
    else if name.space = "xml".toList then .ok (some xmlSpace)
    else bindings.space? name.space
  let base := String.ofList name.base
  if done.any fun a => a.space == space && a.name == base then .error (.duplicateAttribute base)
  else .ok (done ++ [⟨space, base, value⟩])

/-- A start tag in the scope of `outer`, with the namespaces in force inside its element. -/
def readTag (outer : Bindings) (name : QualifiedName) (raws : List RawAttribute) :
    Except Malformed (Tag × Bindings) := do
  let parts ← raws.foldlM TagParts.add ⟨[], []⟩
  let bindings := parts.declared ++ outer
  if name.space = "xmlns".toList then .error .reservedNamespace
  else
    let space ← bindings.space? name.space
    let read ← parts.plain.foldlM (addAttribute bindings) []
    .ok (⟨space, String.ofList name.base, read, ""⟩, bindings)

/-! ## Elements -/

/-- An element whose end tag is still to come. Text is `leading` as long as nothing but text stands
behind the start tag. The children are reversed. -/
structure OpenElement where
  name : QualifiedName
  tag : Tag
  bindings : Bindings
  leading : Bool
  children : List Element

def OpenElement.close (e : OpenElement) : Element := .mk e.tag e.children.reverse

def OpenElement.addText (e : OpenElement) (text : List Char) : OpenElement :=
  if e.leading then { e with tag := { e.tag with text := e.tag.text ++ String.ofList text } } else e

structure Progress where
  opened : List OpenElement
  root : Option Element

def Progress.addElement (p : Progress) (e : Element) : Except Malformed Progress :=
  match p.opened with
  | top :: rest =>
      .ok { p with opened := { top with leading := false, children := e :: top.children } :: rest }
  | [] => if p.root.isSome then .error .severalRoots else .ok ⟨[], some e⟩

def Progress.addText (p : Progress) (text : List Char) : Progress :=
  match p.opened with
  | top :: rest => { p with opened := top.addText text :: rest }
  | [] => p

def Progress.add (p : Progress) : Markup → Except Malformed Progress
  | .opening name raws closed => do
      let outer := match p.opened with
        | top :: _ => top.bindings
        | [] => []
      let (tag, bindings) ← readTag outer name raws
      if closed then p.addElement (.mk tag [])
      else .ok { p with opened := ⟨name, tag, bindings, true, []⟩ :: p.opened }
  | .closing name =>
      match p.opened with
      | top :: rest =>
          if top.name = name then ({ p with opened := rest } : Progress).addElement top.close
          else .error .endTag
      | [] => .error .endTag
  | .text raw => do
      if p.opened.isEmpty && !raw.all isSpace then .error .misplacedText
      else
        let text ← textValue raw
        .ok (p.addText text)
  | .literal raw =>
      if p.opened.isEmpty then .error .misplacedText else .ok (p.addText (sectionValue raw))
  | .aside =>
      match p.opened with
      | top :: rest => .ok { p with opened := { top with leading := false } :: rest }
      | [] => .ok p

/-! ## Documents -/

/-- White space has to stand here unless the declaration ends. -/
private def declarationSpaces (s : List Char) : Except Malformed (List Char) :=
  if s.head?.any isSpace then .ok (skipSpaces s)
  else if s = [] ∨ "?>".toList.isPrefixOf s then .ok s
  else .error .declaration

private def declarationField (s : List Char) : Except Malformed (List Char) := do
  let (_, s) ← qualifiedName s
  let (_, s) ← attributeText s
  .ok s

private def optionalField (name : List Char) (s : List Char) : Except Malformed (List Char) :=
  if name.isPrefixOf s then declarationField s else .ok s

/-- What follows the declaration of a document: a version, an encoding and whether it stands alone,
the last two optional. -/
def afterDeclaration (s : List Char) : Except Malformed (List Char) :=
  if "<?xml ".toList.isPrefixOf s then do
    let s ← declarationSpaces (s.drop 5)
    let s ← if "version".toList.isPrefixOf s then declarationField s else .error .declaration
    let s ← declarationSpaces s
    let s ←
      if "encoding".toList.isPrefixOf s then do
        let s ← declarationField s
        declarationSpaces s
      else .ok s
    let s ← optionalField "standalone".toList s
    expect "?>".toList .declaration (skipSpaces s)
  else .ok s

private def dropByteOrderMark : List Char → List Char
  | '\ufeff' :: s => s
  | s => s

def parse (text : String) : Except Malformed Element := do
  let s ← afterDeclaration (dropByteOrderMark text.toList)
  let found ← markups s
  let final ← found.foldlM Progress.add ⟨[], none⟩
  match final.opened, final.root with
  | [], some root => .ok root
  | [], none => .error .missingRoot
  | _ :: _, _ => .error .unclosed

end SolutionPlan.Xml
