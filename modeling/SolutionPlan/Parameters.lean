import SolutionPlan.BuildError
import SolutionPlan.Setting.Value
import SolutionPlan.Table
import SolutionPlan.Xml.Element

/-!
# Parameters

The options that a description declares and a command line binds. Each has a value in the end, its
bound one or its default, and `#[name]` in a text stands for it; `#[!name]` stands for the
opposite of a truth value. A text is expanded in one pass, and a token without a value stays as it
is.
-/

namespace SolutionPlan

structure Parameter where
  fallback : Option String
  bound : Option String
deriving DecidableEq, Repr

structure Parameters where
  entries : Table Parameter
deriving DecidableEq, Repr

namespace Parameters

def empty : Parameters := ⟨[]⟩

def names (ps : Parameters) : List String := ps.entries.names

/-- Declaring a name again forgets its value and keeps its place. -/
def declare (ps : Parameters) (name : String) (fallback : Option String) : Parameters :=
  ⟨ps.entries.put name ⟨fallback, none⟩⟩

def bind (ps : Parameters) (name value : String) : Except BuildError Parameters :=
  match ps.entries.get? name with
  | some parameter => .ok ⟨ps.entries.put name { parameter with bound := some value }⟩
  | none => .error (.unknownOption name ps.names)

/-- Each parameter has a value; the first one without is reported. -/
def checkRequired (ps : Parameters) : Except BuildError Unit :=
  match ps.entries.find? fun e => e.2.bound.isNone && e.2.fallback.isNone with
  | some (name, _) => .error (.requiredOption name ps.names)
  | none => .ok ()

def value? (ps : Parameters) (name : String) : Option String :=
  (ps.entries.get? name).bind fun parameter => parameter.bound <|> parameter.fallback

/-! ## Expanding a text -/

structure Token where
  negated : Bool
  name : List Char
deriving DecidableEq, Repr

/-- An exclamation mark negates unless it is the whole name. -/
def Token.ofWritten : List Char → Token
  | '!' :: c :: rest => ⟨true, c :: rest⟩
  | written => ⟨false, written⟩

def isTokenChar (c : Char) : Bool := c != ']' && !Text.isBlank c

def tokenText? : List Char → Option (List Char)
  | '#' :: '[' :: rest =>
      let written := rest.takeWhile isTokenChar
      if written ≠ [] ∧ (rest.dropWhile isTokenChar).head? = some ']' then some written else none
  | _ => none

def tokenValue? (ps : Parameters) (token : Token) : Option String :=
  match ps.value? (String.ofList token.name) with
  | none => none
  | some value =>
      if token.negated then (parseBool? value).map fun b => if b then "false" else "true"
      else some value

/-- The replacement of the token that the text starts with, and the characters behind its first one
that it covers. -/
def replacement? (ps : Parameters) (s : List Char) : Option (Nat × List Char) :=
  (tokenText? s).map fun written =>
    (written.length + 2,
      match ps.tokenValue? (Token.ofWritten written) with
      | some value => value.toList
      | none => '#' :: '[' :: written ++ [']'])

/-- Without parameters the text is not looked at. -/
def expand (ps : Parameters) (text : String) : String :=
  if ps.entries.isEmpty then text
  else String.ofList (Text.substitute ps.replacement? text.toList)

/-! ## Reading the declarations -/

/-- Every named `option` in an `options` child of the root, in document order. -/
def declared (root : Xml.Element) : Parameters :=
  ((root.named "options").flatMap fun options => options.named "option").foldl
    (fun ps option =>
      match option.attribute? "name" with
      | some name => ps.declare name (option.attribute? "default")
      | none => ps)
    empty

def bindAll (ps : Parameters) (bindings : List (String × String)) :
    Except BuildError Parameters :=
  bindings.foldlM (fun ps b => ps.bind b.1 b.2) ps

def ofDocument (root : Xml.Element) (bindings : List (String × String)) :
    Except BuildError Parameters := do
  let ps ← (declared root).bindAll bindings
  ps.checkRequired
  .ok ps

end Parameters

end SolutionPlan
