import FrameCode.Xml.Declaration
import FrameCode.Xml.Markup
import FrameCode.Xml.Node

/-!
# Element trees

The parser of documents that the program runs with.  Names lose their qualifiers in the tree.
Before they go, every qualifier has to be declared, and no element may have two attributes that
mean the same name.  The qualifier `xml` needs no declaration; it is for attributes only.
-/

namespace FrameCode.Xml

/-! ## Namespaces -/

/-- The namespace of the qualifier `xml`. -/
def xmlNamespace : String := "http://www.w3.org/XML/1998/namespace"

/-- The namespace of declarations. -/
def declarationNamespace : String := "http://www.w3.org/2000/xmlns/"

/-- The namespaces of qualifiers, the innermost declaration first. -/
abbrev Namespaces := List (String × String)

/-- The attribute declares a namespace for a qualifier. -/
def Attribute.declaresQualifier (a : Attribute) : Bool := a.name.qualifier == "xmlns"

/-- The attribute declares the namespace of names without a qualifier. -/
def Attribute.declaresDefault (a : Attribute) : Bool :=
  !a.declaresQualifier && a.name.name == "xmlns"

/-- The two namespaces that are fixed can only be declared as what they are. -/
def Attribute.declarationAllowed (a : Attribute) : Bool :=
  a.value != declarationNamespace &&
    if a.declaresQualifier then (a.name.name == "xml") == (a.value == xmlNamespace)
    else a.value != xmlNamespace

/-- No entry occurs twice. -/
def distinct {α : Type} [BEq α] : List α → Bool
  | [] => true
  | x :: rest => !rest.contains x && distinct rest

/-- The namespaces in an element with the given attributes.  A declaration of `xml` adds nothing,
and one of the default namespace concerns no name that is looked up. -/
def declare? (outer : Namespaces) (attributes : List Attribute) : Option Namespaces :=
  let declarations := attributes.filter fun a => a.declaresQualifier || a.declaresDefault
  let added := declarations.filter fun a => a.declaresQualifier && a.name.name != "xml"
  if declarations.all (·.declarationAllowed) && distinct (added.map (·.name.name)) then
    some (added.map (fun a => (a.name.name, a.value)) ++ outer)
  else none

/-- The namespace of an attribute; `some none` if its name has no qualifier. -/
def Attribute.namespace? (scope : Namespaces) (a : Attribute) : Option (Option String) :=
  if a.name.qualifier.isEmpty then some none
  else if a.name.qualifier == "xml" then some (some xmlNamespace)
  else (scope.lookup a.name.qualifier).map some

/-- The name and the attributes of an element whose names are all known, the attributes reduced to
those without a namespace. -/
def resolve? (scope : Namespaces) (name : QName) (attributes : List Attribute) :
    Option (String × List (String × String)) := do
  let attributes := attributes.filter fun a => !a.declaresQualifier && !a.declaresDefault
  let spaces ← attributes.mapM (·.namespace? scope)
  let known := name.qualifier.isEmpty ||
    (name.qualifier != "xmlns" && (scope.lookup name.qualifier).isSome)
  if known && distinct (spaces.zip (attributes.map (·.name.name))) then
    let bare := (spaces.zip attributes).filter (·.1.isNone)
    some (name.name, bare.map fun (_, a) => (a.name.name, a.value))
  else none

/-! ## The tree -/

/-- An element whose closing tag has not come yet, with its parts so far, the latest first. -/
structure OpenElement where
  tag : QName
  scope : Namespaces
  name : String
  attributes : List (String × String)
  parts : List Node

/-- The element, closed. -/
def OpenElement.close (e : OpenElement) : Node := .element e.name e.attributes e.parts.reverse

/-- The element of an opening tag among open elements, the innermost first. -/
def openElement? (stack : List OpenElement) (tag : QName) (attributes : List Attribute) :
    Option OpenElement := do
  let outer := (stack.head?.map (·.scope)).getD []
  let scope ← declare? outer attributes
  let (name, attributes) ← resolve? scope tag attributes
  some ⟨tag, scope, name, attributes, []⟩

/-- The state between two pieces: the open elements, the innermost first, and the root element
once it is closed. -/
structure Growth where
  stack : List OpenElement
  root : Option Node

namespace Growth

/-- Adds a part to the innermost open element; without one, an element becomes the root. -/
def add (g : Growth) (n : Node) : Growth :=
  match g.stack with
  | [] => { g with root := some n }
  | e :: outer => { g with stack := { e with parts := n :: e.parts } :: outer }

/-- Takes a tag. -/
def takeTag? (g : Growth) (tag : Tag) : Option Growth :=
  match tag with
  | .opening name attributes =>
    if g.stack.isEmpty && g.root.isSome then none
    else (openElement? g.stack name attributes).map fun e => { g with stack := e :: g.stack }
  | .empty name attributes =>
    if g.stack.isEmpty && g.root.isSome then none
    else (openElement? g.stack name attributes).map fun e => g.add e.close
  | .closing name =>
    match g.stack with
    | [] => none
    | e :: outer =>
      if e.tag = name then some (({ g with stack := outer } : Growth).add e.close) else none

/-- Takes the next piece.  Around the root there is nothing but blanks, comments and
instructions. -/
def take? (g : Growth) : Piece → Option Growth
  | .text content =>
    if g.stack.isEmpty then if content.all isSpace then some g else none
    else (readText? content).map fun cs => g.add (.text (String.ofList cs))
  | .cdata content =>
    if g.stack.isEmpty then none
    else (readCdata? content).map fun cs => g.add (.text (String.ofList cs))
  | .comment content => if commentAllowed content then some g else none
  | .instruction content => if instructionAllowed content then some g else none
  | .tag content => (Tag.read? content).bind g.takeTag?

end Growth

/-! ## Documents -/

/-- The text without the byte order mark at its start. -/
def withoutMark (cs : List Char) : List Char := if cs.head? = some '\ufeff' then cs.tail else cs

/-- The root element of a well-formed document. -/
def parse? : Parser := fun cs => do
  let content ← Declaration.skip? (withoutMark cs)
  let pieces ← Piece.split? content
  let g ← pieces.foldlM Growth.take? ⟨[], none⟩
  if g.stack.isEmpty then g.root else none

end FrameCode.Xml
