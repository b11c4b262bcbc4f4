import FrameCode.Proofs.Execution
import FrameCode.Proofs.NumeralReaders
import FrameCode.Proofs.Sameness

/-!
# Lines of an input

`Input.contents` divides the bytes of an input into lines at once: at the newlines, with a last
part that has no newline if it is not empty.  `next_eq` says that taking a line gives the first of
them and leaves the others, whether or not the bytes of the line are UTF-8.

`Input.Yields` says which value a type has on a line.  It is the default value of the type on
a line that is not UTF-8 and on one that is missing.  `yields_of_value?` says that a read
gets this value.
-/

namespace FrameCode

/-- The line with the given bytes, once what ends it is removed. -/
def Line.ofContent (content : List UInt8) : Line :=
  match String.fromUTF8? content.toByteArray with
  | some s => text s
  | none => garbled

namespace Input

/-! ## Division into lines -/

/-- The bytes without a carriage return at their end. -/
def dropReturn (bytes : List UInt8) : List UInt8 :=
  if bytes.getLast? = some 13 then bytes.dropLast else bytes

/-- The bytes of the lines: the parts between the newlines, each without a carriage return before
its newline.  What follows the last newline is a line as it is, unless it is empty. -/
def contents (bytes : List UInt8) : List (List UInt8) :=
  let parts := bytes.splitOn 10
  parts.dropLast.map dropReturn ++ parts.getLast?.toList.filter (!·.isEmpty)

/-- Bytes without a newline are at most one line. -/
theorem contents_of_not_mem {bytes : List UInt8} (free : 10 ∉ bytes) :
    contents bytes = [bytes].filter (!·.isEmpty) := by
  rw [contents, List.splitOn_eq_singleton free]
  rfl

/-- The first newline ends the first line. -/
theorem contents_append {line : List UInt8} (free : 10 ∉ line) (rest : List UInt8) :
    contents (line ++ 10 :: rest) = dropReturn line :: contents rest := by
  have parts : (line ++ 10 :: rest).splitOn 10 = line :: rest.splitOn 10 :=
    List.splitOn_append_cons_self_of_not_mem free rest
  have others := List.splitOn_ne_nil 10 rest
  have last := List.getLast?_eq_some_getLast others
  simp only [contents, parts, List.dropLast_cons_of_ne_nil others, List.getLast?_cons, last,
    Option.getD_some, List.map_cons, List.cons_append]

theorem splitLine_of_not_mem {bytes : List UInt8} (free : 10 ∉ bytes) :
    splitLine bytes = (bytes, []) := by
  induction bytes with
  | nil => rfl
  | cons b bytes ih =>
    obtain ⟨ne, free⟩ := not_or.1 (mt List.mem_cons.2 free)
    rw [splitLine, if_neg (Ne.symm ne), ih free]

theorem splitLine_append {line : List UInt8} (free : 10 ∉ line) (rest : List UInt8) :
    splitLine (line ++ 10 :: rest) = (line ++ [10], rest) := by
  induction line with
  | nil => rfl
  | cons b line ih =>
    obtain ⟨ne, free⟩ := not_or.1 (mt List.mem_cons.2 free)
    rw [List.cons_append, splitLine, if_neg (Ne.symm ne), ih free]
    rfl

/-! ## Taking a line -/

/-- The end of a line is not part of its content. -/
theorem ofBytes_append (line : List UInt8) :
    Line.ofBytes (line ++ [10]) = .ofContent (dropReturn line) := by
  have reversed : (line ++ [10]).reverse = 10 :: line.reverse := List.reverse_concat
  unfold Line.ofBytes
  rw [reversed]
  by_cases returned : line.getLast? = some 13
  · obtain ⟨front, rfl⟩ := List.getLast?_eq_some_iff.1 returned
    rw [dropReturn, if_pos returned, List.dropLast_concat, List.reverse_concat]
    simp only [List.reverse_reverse]
    rfl
  · rw [dropReturn, if_neg returned]
    split
    · next rest eq =>
      obtain ⟨-, marked⟩ := List.cons.inj eq
      refine absurd ?_ returned
      rw [← List.head?_reverse, marked]
      rfl
    · next rest _ eq =>
      obtain ⟨-, rfl⟩ := List.cons.inj eq
      simp only [List.reverse_reverse]
      rfl
    · next unended => exact absurd rfl (unended line.reverse)

theorem ofBytes_of_not_mem {bytes : List UInt8} (free : 10 ∉ bytes) :
    Line.ofBytes bytes = .ofContent bytes := by
  have unended {tail : List UInt8} : bytes.reverse ≠ 10 :: tail := fun eq =>
    free (List.mem_reverse.1 (eq ▸ List.mem_cons_self))
  unfold Line.ofBytes
  split
  · next eq => exact absurd eq unended
  · next eq => exact absurd eq unended
  · rfl

theorem next_of_ne_nil {bytes : List UInt8} (ne : bytes ≠ []) :
    next ⟨bytes⟩ = (.ofBytes (splitLine bytes).1, ⟨(splitLine bytes).2⟩) := by
  cases bytes with
  | nil => exact absurd rfl ne
  | cons b bytes => rfl

theorem next_append {line : List UInt8} (free : 10 ∉ line) (rest : List UInt8) :
    next ⟨line ++ 10 :: rest⟩ = (.ofContent (dropReturn line), ⟨rest⟩) := by
  rw [next_of_ne_nil (List.append_ne_nil_of_right_ne_nil line (List.cons_ne_nil 10 rest)),
    splitLine_append free, ofBytes_append]

/-- Taking a line gives the first of the lines, if there is one, and leaves the others. -/
theorem next_eq (input : Input) :
    input.next.1 = (contents input.rest).head?.elim .missing .ofContent ∧
      contents input.next.2.rest = (contents input.rest).tail := by
  obtain ⟨bytes⟩ := input
  by_cases mem : 10 ∈ bytes
  · obtain ⟨line, rest, rfl, free⟩ := List.eq_append_cons_of_mem mem
    rw [next_append free, contents_append free]
    exact ⟨rfl, rfl⟩
  · cases bytes with
    | nil => exact ⟨rfl, rfl⟩
    | cons b bytes =>
      rw [next_of_ne_nil (List.cons_ne_nil b bytes), splitLine_of_not_mem mem,
        contents_of_not_mem mem, ofBytes_of_not_mem mem]
      exact ⟨rfl, rfl⟩

end Input

/-! ## Values of lines -/

/-- The value that a readable type has on a text: a truth value or an integer between blanks, or
just the characters of the text. -/
inductive Text.Denotes (text : String) : ValueType → Value → Prop
  | string {stored : String} :
    Value.chars stored = text.toList → Denotes text .string (.str stored)
  | true : Text.foldCase (String.ofList (Text.trim text.toList)) = Text.foldCase "true" →
      Denotes text .bool (.bool true)
  | false : Text.foldCase (String.ofList (Text.trim text.toList)) ≠ Text.foldCase "true" →
      Denotes text .bool (.bool false)
  | int {n : Int64} : Numeral.IsDecimal (Text.trim text.toList) n.toInt →
    Denotes text .int (.int n)
  | malformed : (∀ n : Int64, ¬Numeral.IsDecimal (Text.trim text.toList) n.toInt) →
      Denotes text .int (.int 0)

/-- The value that a readable type has on a line with the given content, if there is
such a line. -/
inductive Input.Yields : Option (List UInt8) → ValueType → Value → Prop
  | text {content : List UInt8} {text : String} {t : ValueType} {v : Value} :
      String.fromUTF8? content.toByteArray = some text → Text.Denotes text t v →
      Yields (some content) t v
  | garbled {content : List UInt8} {t : ValueType} :
      String.fromUTF8? content.toByteArray = none → Yields (some content) t (.default t)
  | missing {t : ValueType} : Yields none t (.default t)

/-- The value of a line with a text is the value of the text. -/
theorem Text.denotes_of_value? {text : String} {t : ValueType} {v : Value}
    (valued : (Line.text text).value? t = some v) : Text.Denotes text t v := by
  cases t with
  | int =>
    cases valued
    show Text.Denotes text .int (.int ((Numeral.decimal? (Text.trim text.toList)).getD 0))
    cases read : Numeral.decimal? (Text.trim text.toList) with
    | some n => exact .int (Numeral.decimal?_eq_some_iff.1 read)
    | none =>
      refine .malformed fun n decimal => ?_
      rw [Numeral.decimal?_eq_some_iff.2 decimal] at read
      cases read
  | bool =>
    cases valued
    show Text.Denotes text .bool
      (.bool (Text.foldCase (String.ofList (Text.trim text.toList)) == Text.foldCase "true"))
    by_cases truth : Text.foldCase (String.ofList (Text.trim text.toList)) = Text.foldCase "true"
    · rw [beq_iff_eq.2 truth]
      exact .true truth
    · rw [beq_eq_false_iff_ne.2 truth]
      exact .false truth
  | string =>
    cases valued
    exact .string (Value.chars_ofList_encode text.toList)
  | nil => cases valued

/-- Without a text, a line has the default value of each readable type. -/
theorem Line.default_of_value? {line : Line} {t : ValueType} {v : Value}
    (textless : line = .missing ∨ line = .garbled) (valued : line.value? t = some v) :
    v = .default t := by
  rcases textless with rfl | rfl <;> cases t <;> cases valued <;> rfl

/-- The value that a read takes from an input is the one on its first line. -/
theorem Input.yields_of_value? {input : Input} {t : ValueType} {v : Value}
    (valued : input.next.1.value? t = some v) :
    Input.Yields (Input.contents input.rest).head? t v := by
  rw [input.next_eq.1] at valued
  cases content : (Input.contents input.rest).head? with
  | none =>
    rw [content] at valued
    rw [Line.default_of_value? (.inl rfl) valued]
    exact .missing
  | some bytes =>
    rw [content] at valued
    replace valued : (Line.ofContent bytes).value? t = some v := valued
    unfold Line.ofContent at valued
    split at valued
    · next text decoded => exact .text decoded (Text.denotes_of_value? valued)
    · next undecoded =>
      rw [Line.default_of_value? (.inr rfl) valued]
      exact .garbled undecoded

end FrameCode
