import FrameCode.Proofs.NumeralReaders
import FrameCode.Proofs.RoundTrip

/-!
# Two forms of operands

Source text holds an operand as a token, a document holds it as a tag with a text.  Each form has
a reader of its own: source text is read strictly, a document leniently.

`Operand.entry` is the tag and the text of an operand that is written in source text.
`read_entry` says that both readers give the same operand, for every token that a position of
source text accepts.  Left out are the truth values with a capital letter, since in a document
only the text `true` is true.
-/

namespace FrameCode

/-! ## Reading a tagged text -/

/-- A tag with a text without blanks is read as the operand with that tag. -/
theorem Operand.read_name (tag : OperandTag) {text : String}
    (free : ∀ c ∈ text.toList, Text.isBlank c = false) :
    Operand.read tag.name text = Operand.ofTagged tag text := by
  have named : String.ofList (Text.trim tag.name.toList) = tag.name := by
    cases tag <;> decide
  have nonempty : tag.name.isEmpty = false := by
    cases tag <;> decide
  have known : OperandTag.ofName? tag.name = some tag := by
    cases tag <;> decide
  simp only [Operand.read, named, nonempty, known, Text.trim_of_blank_free free,
    String.ofList_toList, Bool.false_eq_true, if_false]

/-- A variable that is printed is read back, if its name is a name. -/
theorem Place.ofText?_print {p : Place} (named : Source.isName p.name.toList = true) :
    Place.ofText? p.print = some p := by
  have divided : Text.cut '@' p.print.toList = some (p.scope.mark.toList, p.name.toList) := by
    have text : p.print.toList =
      p.scope.mark.toList ++ '@' :: p.name.toList := by simp [Place.print]
    have marked := Source.not_mem_of_isName (Source.isName_mark p.scope) (c := '@') (by decide)
    exact Text.cut_eq_some_iff.2 ⟨text, marked⟩
  have nonempty : p.name.toList.isEmpty = false :=
    List.isEmpty_eq_false_iff.2 (Source.isWord_of_isName named).1
  simp only [Place.ofText?, divided, String.ofList_toList, Source.ofMark?_mark, nonempty,
    Option.bind_eq_bind, Option.bind_some, Bool.false_eq_true, if_false]

/-! ## From a token to an entry -/

/-- The tag and the text that a document holds for an operand that is written so in source
text. -/
def Operand.entry (written : String) : Operand → String × String
  | place _ => (OperandTag.var.name, written)
  | literal _ =>
    match Text.cut '@' written.toList with
    | some (tag, body) => (String.ofList tag, String.ofList body)
    | none => (written, "")
  | label _ => (OperandTag.label.name, written)
  | type _ => (OperandTag.type.name, written)

namespace Source

/-- If the token is a truth value, it is written without capital letters. -/
def Token.Uncapitalized (t : Token) : Prop :=
  ∀ body, t = .tagged "bool" body → body.toList.any Char.isUpper = false

/-! ## Truth values -/

/-- Two characters with the same capital form are the same if neither is a capital letter. -/
theorem eq_of_toUpper_eq {c d : Char} (left : c.isUpper = false) (right : d.isUpper = false)
    (same : c.toUpper = d.toUpper) : c = d := by
  have code {e : Char} (plain : e.isUpper = false) : ¬(65 ≤ e.toNat ∧ e.toNat ≤ 90) :=
    of_decide_eq_false plain
  have codes := congrArg Char.toNat same
  rw [toNat_toUpper, toNat_toUpper] at codes
  have first := code left
  have second := code right
  refine Char.toNat_inj.1 ?_
  split at codes <;> split at codes <;> omega

/-- A text without capital letters is determined by its form in upper case. -/
theorem eq_of_map_toUpper_eq {cs ds : List Char} (left : cs.any Char.isUpper = false)
    (right : ds.any Char.isUpper = false) (same : cs.map Char.toUpper = ds.map Char.toUpper) :
    cs = ds := by
  induction cs generalizing ds with
  | nil => exact (List.map_eq_nil_iff.1 same.symm).symm
  | cons c cs ih =>
    cases ds with
    | nil => cases same
    | cons d ds =>
      obtain ⟨first, others⟩ := List.cons.inj same
      rw [List.any_cons, Bool.or_eq_false_iff] at left right
      rw [eq_of_toUpper_eq left.1 right.1 first, ih left.2 right.2 others]

/-- A truth value that is written without capital letters is its name. -/
theorem eq_of_foldCase_eq {body name : String} (lower : body.toList.any Char.isUpper = false)
    (small : name.toList.any Char.isUpper = false)
    (same : Text.foldCase body = Text.foldCase name) : body = name :=
  String.toList_inj.1 (eq_of_map_toUpper_eq lower small (String.ofList_inj.1 same))

/-! ## Both readers -/

/-- A literal of source text has the same value in a document. -/
theorem read_of_readLiteral {tag body : String} {v : Value}
    (free : ∀ c ∈ body.toList, Text.isBlank c = false)
    (lower : (Token.tagged tag body).Uncapitalized)
    (accepted : readLiteral (.tagged tag body) = .ok v) :
    Operand.read tag body = .ok (.literal v) := by
  rcases typed : ValueType.ofName? tag with - | type
  · simp only [readLiteral, typed, reduceCtorEq] at accepted
  · obtain rfl := name_of_ofName? typed
    cases type with
    | int =>
      simp only [readLiteral, typed] at accepted
      split at accepted
      · next n read =>
        cases accepted
        show Operand.read OperandTag.int.name body = _
        rw [Operand.read_name .int free, Operand.ofTagged, Numeral.lenient_eq_of_literal? read]
      · cases accepted
    | bool =>
      show Operand.read OperandTag.bool.name body = _
      rw [Operand.read_name .bool free, Operand.ofTagged]
      simp only [readLiteral, typed] at accepted
      split at accepted
      · next isTrue =>
        cases accepted
        have small : "true".toList.any Char.isUpper = false := by decide
        rw [eq_of_foldCase_eq (lower body rfl) small isTrue]
        rfl
      · split at accepted
        · next isFalse =>
          cases accepted
          have small : "false".toList.any Char.isUpper = false := by decide
          rw [eq_of_foldCase_eq (lower body rfl) small isFalse]
          rfl
        · cases accepted
    | string =>
      simp only [readLiteral, typed] at accepted
      split at accepted
      · cases accepted
        exact Operand.read_name .string free
      · cases accepted
    | nil =>
      simp only [readLiteral, typed] at accepted
      split at accepted
      · cases accepted
        exact Operand.read_name .nil free
      · cases accepted

/-- A variable of source text is the same variable in a document. -/
theorem read_of_readPlace {t : Token} {p : Place} (accepted : readPlace t = .ok p) :
    Operand.read OperandTag.var.name t.print = .ok (.place p) := by
  have named := isName_of_readPlace accepted
  have written : t.print = p.print := by
    unfold readPlace at accepted
    split at accepted
    · split at accepted
      · cases accepted
      · next scope found =>
        have spelled := List.find?_some found
        split at accepted
        · cases accepted
          rw [← beq_iff_eq.1 spelled]
          rfl
        · cases accepted
    · cases accepted
  have free : ∀ c ∈ p.print.toList, Text.isBlank c = false :=
    fun c mem => ((isWord_place named).2 c mem).1
  rw [written, Operand.read_name .var free, Operand.ofTagged, Place.ofText?_print named]

/-- A label of source text is the same label in a document. -/
theorem read_of_readLabel {t : Token} {x : Operand} (accepted : readLabel t = .ok x) :
    Operand.read (x.entry t.print).1 (x.entry t.print).2 = .ok x := by
  unfold readLabel at accepted
  split at accepted
  · split at accepted
    · next named =>
      cases accepted
      exact Operand.read_name .label fun c mem => ((isWord_of_isName named).2 c mem).1
    · cases accepted
  · cases accepted

/-- A type that can be read from the input is the same type in a document. -/
theorem read_of_readType {t : Token} {x : Operand} (accepted : readType t = .ok x) :
    Operand.read (x.entry t.print).1 (x.entry t.print).2 = .ok x := by
  unfold readType at accepted
  split at accepted
  · next name =>
    split at accepted
    · next known =>
      cases accepted
      obtain ⟨type, found, -⟩ := (Option.any_eq_true _ _).1 known
      obtain rfl := name_of_ofName? found
      have word := isWord_of_isName (isName_typeName type)
      exact Operand.read_name .type fun c mem => (word.2 c mem).1
    · cases accepted
  · cases accepted

/-- A literal that is written with a tag and a text is divided into them. -/
theorem entry_of_readLiteral {t : Token} {v : Value} (accepted : readLiteral t = .ok v) :
    ∃ tag body, t = .tagged tag body ∧ (Operand.literal v).entry t.print = (tag, body) := by
  cases t with
  | header => cases accepted
  | word => cases accepted
  | tagged tag body =>
    refine ⟨tag, body, rfl, ?_⟩
    have bare : '@' ∉ tag.toList := by
      rcases typed : ValueType.ofName? tag with - | type
      · simp only [readLiteral, typed, reduceCtorEq] at accepted
      · obtain rfl := name_of_ofName? typed
        exact not_mem_of_isName (isName_typeName type) (by decide)
    have text : (Token.tagged tag body).print.toList = tag.toList ++ '@' :: body.toList := by
      simp [Token.print]
    have divided := Text.cut_eq_some_iff.2 ⟨text, bare⟩
    simp only [Operand.entry, divided, String.ofList_toList]

/-- **Both readers give the same operand.**  If a position of source text accepts a token of a
line, then a document that holds the token's tag and text at this position holds the same operand,
unless the token is a truth value with a capital letter. -/
theorem read_entry {line : List Char} {ts : List Token} {t : Token} {s : Slot} {x : Operand}
    (made : Token.ofLine line = .ok ts) (mem : t ∈ ts) (accepted : readOperand s t = .ok x)
    (lower : t.Uncapitalized) :
    Operand.read (x.entry t.print).1 (x.entry t.print).2 = .ok x := by
  have unspaced := unspaced_of_ofLine made t mem
  have literal {v : Value} (read : readLiteral t = .ok v) :
      Operand.read ((Operand.literal v).entry t.print).1 ((Operand.literal v).entry t.print).2 =
        .ok (.literal v) := by
    obtain ⟨tag, body, rfl, divided⟩ := entry_of_readLiteral read
    rw [divided]
    exact read_of_readLiteral unspaced lower read
  cases s with
  | place =>
    obtain ⟨p, read, rfl⟩ := map_eq_ok_iff.1 accepted
    exact read_of_readPlace read
  | symbol =>
    rcases read : readPlace t with e | p
    · rw [readOperand, readSymbol, read] at accepted
      obtain ⟨v, read, rfl⟩ := map_eq_ok_iff.1 accepted
      exact literal read
    · rw [readOperand, readSymbol, read] at accepted
      cases accepted
      exact read_of_readPlace read
  | label => exact read_of_readLabel accepted
  | type => exact read_of_readType accepted

/-- A variable, the least integer in hexadecimal digits and a truth value are read alike. -/
theorem read_entry_comparison :
    Operand.read "var" "GF@a" = .ok (.place ⟨.global, "a"⟩) ∧
      Operand.read "int" "-0x8000000000000000" = .ok (.literal (.int Int64.minValue)) ∧
      Operand.read "bool" "true" = .ok (.literal (.bool true)) := by
  have made : Token.ofLine "EQ GF@a int@-0x8000000000000000 bool@true # no".toList =
      .ok [.word "EQ", .tagged "GF" "a", .tagged "int" "-0x8000000000000000",
        .tagged "bool" "true"] := by decide
  have destination := read_entry (t := .tagged "GF" "a") (s := .place)
    (x := .place ⟨.global, "a"⟩)
    made (by decide) (by decide) (by simp [Token.Uncapitalized])
  have least := read_entry (t := .tagged "int" "-0x8000000000000000") (s := .symbol)
    (x := .literal (.int Int64.minValue)) made (by decide) (by decide)
      (by simp [Token.Uncapitalized])
  have truth := read_entry (t := .tagged "bool" "true") (s := .symbol)
    (x := .literal (.bool true)) made (by decide) (by decide) (by
      rintro body ⟨⟩
      decide)
  exact ⟨destination, least, truth⟩

example : readOperand .symbol (.tagged "bool" "TRUE") = .ok (.literal (.bool true)) ∧
    Operand.read "bool" "TRUE" = .ok (.literal (.bool false)) := by decide

end Source

end FrameCode
