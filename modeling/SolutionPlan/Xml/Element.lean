/-!
# Elements

What a description needs of an XML document: the elements with their names, namespaces and
attributes, and the text that directly follows each start tag. Text behind a child element or a
comment is not kept.
-/

namespace SolutionPlan.Xml

structure Attribute where
  space : Option String
  name : String
  value : String
deriving DecidableEq, Repr

/-- A start tag without the prefix of its name, and the text directly behind it. -/
structure Tag where
  space : Option String
  name : String
  attributes : List Attribute
  text : String
deriving DecidableEq, Repr

/-- The value of the first attribute with this local name, whatever its namespace. -/
def Tag.attribute? (tag : Tag) (name : String) : Option String :=
  (tag.attributes.find? fun a => a.name == name).map Attribute.value

inductive Element where
  | mk (tag : Tag) (children : List Element)

namespace Element

def tag : Element → Tag
  | mk tag _ => tag

def children : Element → List Element
  | mk _ children => children

def name (e : Element) : String := e.tag.name

def text (e : Element) : String := e.tag.text

def attribute? (e : Element) (name : String) : Option String := e.tag.attribute? name

def named (e : Element) (name : String) : List Element := e.children.filter (·.name == name)

theorem sizeOf_lt_of_mem_children {e child : Element} (h : child ∈ e.children) :
    sizeOf child < sizeOf e := by
  cases e with
  | mk tag children =>
      have := List.sizeOf_lt_of_mem (show child ∈ children from h)
      simp only [mk.sizeOf_spec]
      omega

/-! ## Equality -/

mutual

def decEq : (e f : Element) → Decidable (e = f)
  | mk tag children, mk tag' children' =>
      match inferInstanceAs (Decidable (tag = tag')), decEqList children children' with
      | isTrue htag, isTrue hchildren => isTrue (by rw [htag, hchildren])
      | isFalse htag, _ => isFalse fun h => htag (mk.inj h).1
      | _, isFalse hchildren => isFalse fun h => hchildren (mk.inj h).2

def decEqList : (es fs : List Element) → Decidable (es = fs)
  | [], [] => isTrue rfl
  | [], _ :: _ | _ :: _, [] => isFalse nofun
  | e :: es, f :: fs =>
      match decEq e f, decEqList es fs with
      | isTrue he, isTrue hes => isTrue (by rw [he, hes])
      | isFalse he, _ => isFalse fun h => he (List.cons.inj h).1
      | _, isFalse hes => isFalse fun h => hes (List.cons.inj h).2

end

instance : DecidableEq Element := decEq

end Element

end SolutionPlan.Xml
