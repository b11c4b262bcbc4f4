import FrameCode.Text.Split
import FrameCode.Value

/-!
# Operands

An operand is a literal, a variable, a label or the name of a type.  A variable is addressed by
its `Place`: a scope and a name in it.  Nothing here looks a variable up.

`Operand.read` builds an operand from a tag and a text, as a document holds them; `Operand.print`
writes an operand as a program shows it.
-/

namespace FrameCode

/-! ## Variables -/

/-- The scopes of variables: the global frame, the topmost local frame, the temporary frame. -/
inductive Scope where
  | global
  | topLocal
  | temporary
  deriving DecidableEq, Repr

namespace Scope

/-- The mark of a scope in a program. -/
def mark : Scope → String
  | global => "GF"
  | topLocal => "LF"
  | temporary => "TF"

/-- The scope with the given mark. -/
def ofMark? (s : String) : Option Scope := [global, topLocal, temporary].find? (·.mark == s)

end Scope

/-- Where a variable is found. -/
structure Place where
  scope : Scope
  name : String
  deriving DecidableEq, Repr

namespace Place

/-- The variable as a program writes it. -/
def print (p : Place) : String := p.scope.mark ++ "@" ++ p.name

/-- Reads a scope mark, `@` and a name that is not empty. -/
def ofText? (s : String) : Option Place := do
  let (mark, name) ← Text.cut '@' s.toList
  let scope ← Scope.ofMark? (String.ofList mark)
  if name.isEmpty then none else some ⟨scope, String.ofList name⟩

end Place

/-! ## Operands and their tags -/

/-- The tags of operands in a document. -/
inductive OperandTag where
  | int
  | bool
  | string
  | nil
  | label
  | type
  | var
  deriving DecidableEq, Repr

namespace OperandTag

/-- All tags. -/
def all : List OperandTag := [int, bool, string, nil, label, type, var]

/-- The text of a tag. -/
def name : OperandTag → String
  | int => "int"
  | bool => "bool"
  | string => "string"
  | nil => "nil"
  | label => "label"
  | type => "type"
  | var => "var"

/-- The tag with the given text. -/
def ofName? (s : String) : Option OperandTag := all.find? (·.name == s)

end OperandTag

/-- Operands of an instruction. -/
inductive Operand where
  | literal (value : Value)
  | place (place : Place)
  | label (name : String)
  | type (name : String)
  deriving DecidableEq, Repr

/-- Why an operand cannot be built. -/
inductive OperandError where
  | missingTag
  | unknownTag (tag : String)
  | malformedPlace (text : String)
  deriving DecidableEq, Repr

namespace OperandError

/-- The wording of an error. -/
def message : OperandError → String
  | missingTag => "operand has no type"
  | unknownTag tag => s!"unknown operand type '{tag}'"
  | malformedPlace text => s!"malformed variable reference '{text}'"

/-- The exit status of an error. -/
def status : OperandError → Nat
  | missingTag => 32
  | unknownTag _ => 53
  | malformedPlace _ => 32

end OperandError

namespace Operand

/-- The tag of an operand. -/
def tag : Operand → OperandTag
  | literal (.int _) => .int
  | literal (.bool _) => .bool
  | literal (.str _) => .string
  | literal .nil => .nil
  | place _ => .var
  | label _ => .label
  | type _ => .type

/-- The operand denotes a value. -/
def isSymbol : Operand → Bool
  | literal _ => true
  | place _ => true
  | label _ => false
  | type _ => false

/-- Equality of operands, with string literals compared by their characters. -/
def same : Operand → Operand → Bool
  | literal x, literal y => x.same y
  | place p, place q => p == q
  | label x, label y => x == y
  | type x, type y => x == y
  | _, _ => false

/-- The operand with a string literal in canonical form. -/
def canonical : Operand → Operand
  | literal v => literal v.canonical
  | x => x

/-- The operand as it is shown: literals and variables with their marks, names bare. -/
def print : Operand → String
  | literal v => v.print
  | place p => p.print
  | label name => name
  | type name => name

/-! ## Reading a tagged text -/

/-- The operand with a given tag and a text without blanks around it.  Integers are read leniently
and only the text `true` is true. -/
def ofTagged (tag : OperandTag) (text : String) : Except OperandError Operand :=
  match tag with
  | .int => .ok (literal (.int (Numeral.lenient text.toList)))
  | .bool => .ok (literal (.bool (text == "true")))
  | .string => .ok (literal (.str text))
  | .nil => .ok (literal .nil)
  | .label => .ok (label text)
  | .type => .ok (type text)
  | .var =>
    match Place.ofText? text with
    | some p => .ok (place p)
    | none => .error (.malformedPlace text)

/-- The operand with the given tag and text, both without the blanks around them. -/
def read (tag text : String) : Except OperandError Operand :=
  let tag := String.ofList (Text.trim tag.toList)
  if tag.isEmpty then .error .missingTag
  else
    match OperandTag.ofName? tag with
    | none => .error (.unknownTag tag)
    | some t => ofTagged t (String.ofList (Text.trim text.toList))

end Operand

end FrameCode
