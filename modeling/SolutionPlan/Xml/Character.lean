/-!
# Characters of a document

Which characters may stand in a document at all and which may stand in names, and what makes a
document malformed.
-/

namespace SolutionPlan.Xml

inductive Malformed where
  | character (c : Char)
  | name
  | startTag
  | endTag
  | comment
  | declaration
  | characterData
  | misplacedText
  | reference
  | unknownEntity (name : String)
  | unknownPrefix (name : String)
  | reservedNamespace
  | duplicateAttribute (name : String)
  | severalRoots
  | unclosed
  | missingRoot
deriving DecidableEq, Repr

def Malformed.message : Malformed → String
  | character c => s!"character {c.toNat} is not allowed"
  | name => "invalid name"
  | startTag => "invalid start tag"
  | endTag => "unexpected end tag"
  | comment => "invalid comment"
  | declaration => "invalid declaration"
  | characterData => "invalid character data"
  | misplacedText => "text outside the root element"
  | reference => "malformed reference"
  | unknownEntity entity => s!"unknown entity {entity}"
  | unknownPrefix used => s!"unknown namespace prefix {used}"
  | reservedNamespace => "reserved namespace"
  | duplicateAttribute repeated => s!"attribute {repeated} is repeated"
  | severalRoots => "more than one root element"
  | unclosed => "unclosed element"
  | missingRoot => "no root element"

def isSpace (c : Char) : Bool := c == ' ' || c == '\t' || c == '\n' || c == '\r'

def isAllowed (c : Char) : Bool :=
  (c.toNat ≥ 0x20 || isSpace c) && c.toNat != 0xfffe && c.toNat != 0xffff

def nameStartRanges : List (Nat × Nat) :=
  [(0xc0, 0xd6), (0xd8, 0xf6), (0xf8, 0x2ff), (0x370, 0x37d), (0x37f, 0x1fff), (0x200c, 0x200d),
    (0x2070, 0x218f), (0x2c00, 0x2fef), (0x3001, 0xd7ff), (0xf900, 0xfdcf), (0xfdf0, 0xfffd),
    (0x10000, 0xeffff)]

private def inNameRanges (ranges : List (Nat × Nat)) (c : Char) : Bool :=
  ranges.any fun r => r.1 ≤ c.toNat && c.toNat ≤ r.2

def isNameStart (c : Char) : Bool :=
  c.isAlpha || c == '_' || c == ':' || inNameRanges nameStartRanges c

def isName (c : Char) : Bool :=
  isNameStart c || c.isDigit || c == '-' || c == '.' ||
    inNameRanges [(0xb7, 0xb7), (0x300, 0x36f), (0x203f, 0x2040)] c

end SolutionPlan.Xml
