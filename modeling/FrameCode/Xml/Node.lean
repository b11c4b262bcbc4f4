/-!
# Documents

A well-formed XML document is one element with attributes, text and further elements in it.  Names
have no qualifiers here: `Node.name?` is the name after the colon, and of the attributes there are
only those without a namespace.

How a document is read from text is left open: what reads documents takes a `Parser`.
-/

namespace FrameCode.Xml

/-- A part of a document. -/
inductive Node where
  | text (content : String)
  | element (name : String) (attributes : List (String × String)) (children : List Node)

namespace Node

/-- The name of an element. -/
def name? : Node → Option String
  | text _ => none
  | element name _ _ => some name

/-- The value of an attribute. -/
def attribute? : Node → String → Option String
  | text _, _ => none
  | element _ attributes _, name => attributes.lookup name

/-- The parts of an element. -/
def children : Node → List Node
  | text _ => []
  | element _ _ children => children

/-- The elements with the given name among the parts of an element. -/
def childrenNamed (n : Node) (name : String) : List Node :=
  n.children.filter fun child => child.name? == some name

mutual

/-- The text in a part of a document and in the elements below it. -/
def allText : Node → String
  | text content => content
  | element _ _ children => textOf children

/-- The text in several parts, one after the other. -/
def textOf : List Node → String
  | [] => ""
  | n :: rest => n.allText ++ textOf rest

end

end Node

/-- A parser gives the root element of a well-formed document, and `none` for any other text. -/
abbrev Parser := List Char → Option Node

end FrameCode.Xml
