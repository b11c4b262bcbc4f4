import FrameCode.Xml.CharData

/-!
# Markup

A document is a sequence of pieces: runs of text, tags, comments, processing instructions and
CDATA sections.  `Piece.split?` finds their bounds, and each piece is then read on its own; a tag
with its name and attributes is a `Tag`.
-/

namespace FrameCode.Xml

/-! ## Pieces -/

/-- A piece of a document, without the marks around it. -/
inductive Piece where
  | text (content : List Char)
  | cdata (content : List Char)
  | comment (content : List Char)
  | instruction (content : List Char)
  | tag (content : List Char)
  deriving DecidableEq, Repr

/-- The quote that is open after one more character of a tag. -/
def quoteAfter (quote : Option Char) (c : Char) : Option Char :=
  match quote with
  | some q => if c = q then none else some q
  | none => if c = '"' ∨ c = '\'' then some c else none

/-- The parts of a text before and after the first `>` that is not in quotes. -/
def cutTag (quote : Option Char) : List Char → Option (List Char × List Char)
  | [] => none
  | c :: cs =>
    if quote = none ∧ c = '>' then some ([], cs)
    else (cutTag (quoteAfter quote c) cs).map fun (before, after) => (c :: before, after)

theorem length_le_of_cutTag {quote : Option Char} {cs before after : List Char}
    (found : cutTag quote cs = some (before, after)) : after.length ≤ cs.length := by
  induction cs generalizing quote before with
  | nil => simp [cutTag] at found
  | cons c cs ih =>
    unfold cutTag at found
    split at found
    · obtain ⟨-, rfl⟩ := Prod.mk.inj (Option.some.inj found)
      exact Nat.le_succ _
    · obtain ⟨⟨a, b⟩, deeper, eq⟩ := Option.map_eq_some_iff.1 found
      obtain ⟨-, rfl⟩ := Prod.mk.inj eq
      exact Nat.le_succ_of_le (ih deeper)

namespace Piece

/-- The piece that follows a `<`, and the rest. -/
def ofMarkup? : List Char → Option (Piece × List Char)
  | '!' :: '-' :: '-' :: cs =>
    (Text.cutAt ['-', '-', '>'] cs).map fun (content, rest) => (comment content, rest)
  | '!' :: '[' :: 'C' :: 'D' :: 'A' :: 'T' :: 'A' :: '[' :: cs =>
    (Text.cutAt [']', ']', '>'] cs).map fun (content, rest) => (cdata content, rest)
  | '?' :: cs => (Text.cutAt ['?', '>'] cs).map fun (content, rest) => (instruction content, rest)
  | cs => (cutTag none cs).map fun (content, rest) => (tag content, rest)

/-- The piece at the start of the text `c :: cs`, and the rest. -/
def first? (c : Char) (cs : List Char) : Option (Piece × List Char) :=
  if c = '<' then ofMarkup? cs
  else some (text (c :: cs.takeWhile (· != '<')), cs.dropWhile (· != '<'))

theorem length_le_of_ofMarkup? {cs rest : List Char} {p : Piece}
    (found : ofMarkup? cs = some (p, rest)) : rest.length ≤ cs.length := by
  unfold ofMarkup? at found
  split at found <;> obtain ⟨⟨a, b⟩, cut, eq⟩ := Option.map_eq_some_iff.1 found <;>
    obtain ⟨-, rfl⟩ := Prod.mk.inj eq
  · have := Text.length_le_of_cutAt cut
    simp only [List.length_cons]
    omega
  · have := Text.length_le_of_cutAt cut
    simp only [List.length_cons]
    omega
  · have := Text.length_le_of_cutAt cut
    simp only [List.length_cons]
    omega
  · exact length_le_of_cutTag cut

theorem length_le_of_first? {c : Char} {cs rest : List Char} {p : Piece}
    (found : first? c cs = some (p, rest)) : rest.length ≤ cs.length := by
  unfold first? at found
  split at found
  · exact length_le_of_ofMarkup? found
  · obtain ⟨-, rfl⟩ := Prod.mk.inj (Option.some.inj found)
    exact (List.dropWhile_sublist _).length_le

/-- The pieces of a text. -/
def split? : List Char → Option (List Piece)
  | [] => some []
  | c :: cs =>
    match found : first? c cs with
    | none => none
    | some (p, rest) =>
      have : rest.length ≤ cs.length := length_le_of_first? found
      (split? rest).map (p :: ·)
termination_by cs => cs.length

end Piece

/-! ## Comments and processing instructions -/

/-- A comment holds no two hyphens in a row and does not end with one. -/
def commentAllowed (content : List Char) : Bool :=
  content.all isXmlChar && (Text.cutAt ['-', '-'] content).isNone && content.getLast? != some '-'

/-- The content of a processing instruction starts like an XML declaration. -/
def declares (content : List Char) : Bool := ['x', 'm', 'l', ' '].isPrefixOf content

/-- A processing instruction has a name and is no XML declaration. -/
def instructionAllowed (content : List Char) : Bool :=
  content.all isXmlChar && !declares content && content.head?.any isNameStart

/-! ## Tags -/

/-- An attribute with its value. -/
structure Attribute where
  name : QName
  value : String
  deriving DecidableEq, Repr

/-- The tags of elements. -/
inductive Tag where
  | opening (name : QName) (attributes : List Attribute)
  | empty (name : QName) (attributes : List Attribute)
  | closing (name : QName)
  deriving DecidableEq, Repr

/-- The parts of a text outside and inside quotes, in turn. -/
def segments (quote : Option Char) : List Char → List Char × List (List Char)
  | [] => ([], [])
  | c :: cs =>
    let (segment, rest) := segments (quoteAfter quote c) cs
    if quoteAfter quote c = quote then (c :: segment, rest) else ([], segment :: rest)

/-- Reads what stands before the value of an attribute: a blank, the name and an equals sign. -/
def attributeName? (cs : List Char) : Option QName := do
  let (q, rest) ← QName.read? (cs.dropWhile isSpace)
  let rest := rest.dropWhile isSpace
  if cs.head?.any isSpace && rest.head? = some '=' && rest.tail.all isSpace then some q else none

/-- Reads attributes from segments, of which the last one tells whether the tag is closed at
once. -/
def attributes? : List Char → List (List Char) → Option (List Attribute × Bool)
  | last, [] =>
    let rest := last.dropWhile isSpace
    if rest = [] then some ([], false) else if rest = ['/'] then some ([], true) else none
  | before, value :: after :: rest => do
    let name ← attributeName? before
    let value ← readValue? value
    let (attributes, closed) ← attributes? after rest
    some (⟨name, String.ofList value⟩ :: attributes, closed)
  | _, [_] => none

/-- Reads the content of a tag. -/
def Tag.read? (content : List Char) : Option Tag :=
  if content.head? = some '/' then do
    let (q, rest) ← QName.read? content.tail
    if rest.all isSpace then some (closing q) else none
  else do
    let (q, rest) ← QName.read? content
    let (first, others) := segments none rest
    let (attributes, closed) ← attributes? first others
    some (if closed then empty q attributes else opening q attributes)

end FrameCode.Xml
