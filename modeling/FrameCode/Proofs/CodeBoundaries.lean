import FrameCode.Proofs.Concatenation

/-!
# Boundaries of codes

The decoder takes a stored text in `pieces` from the left: complete codes, and characters that
stand for themselves.  `wellFormed` looks at every backslash instead, also at those that the
decoder would pass over within a code.  The two agree, since the digits of a code are no
backslashes: a text is well-formed just if no backslash is a piece of its own.

A text can be decoded apart from everything that may follow it just if it does not end
within a code.
-/

namespace FrameCode

namespace Text.Escape

/-! ## Pieces -/

/-- What the decoder takes at once: a complete code, or a character that stands for itself. -/
inductive Piece where
  | code (a b c : Char)
  | literal (c : Char)
  deriving DecidableEq, Repr

namespace Piece

/-- The stored text of a piece. -/
def text : Piece → List Char
  | code a b c => ['\\', a, b, c]
  | literal c => [c]

/-- The character that a piece denotes. -/
def char : Piece → Char
  | code a b c => charOfDigits a b c
  | literal c => c

end Piece

/-- The pieces of a stored text in the order in which the decoder takes them. -/
def pieces : List Char → List Piece
  | [] => []
  | '\\' :: a :: b :: c :: rest =>
    if a.isDigit && b.isDigit && c.isDigit then .code a b c :: pieces rest
    else .literal '\\' :: pieces (a :: b :: c :: rest)
  | c :: rest => .literal c :: pieces rest

/-- The decoder gives one character for each piece. -/
theorem map_char_pieces (cs : List Char) : (pieces cs).map Piece.char = decode cs := by
  fun_induction pieces cs with
  | case1 => rfl
  | case2 a b c rest digits ih => rw [List.map_cons, ih, decode, if_pos digits, Piece.char]
  | case3 a b c rest other ih => rw [List.map_cons, ih, decode, if_neg other, Piece.char]
  | case4 c rest short ih => rw [List.map_cons, ih, decode.eq_3 c rest short, Piece.char]

/-- The pieces make up the whole text. -/
theorem flatMap_text_pieces (cs : List Char) : (pieces cs).flatMap Piece.text = cs := by
  fun_induction pieces cs with
  | case1 => rfl
  | case2 a b c rest digits ih => rw [List.flatMap_cons, ih]; rfl
  | case3 a b c rest other ih => rw [List.flatMap_cons, ih]; rfl
  | case4 c rest short ih => rw [List.flatMap_cons, ih]; rfl

/-- A text is well-formed just if the decoder takes no backslash for itself. -/
theorem wellFormed_iff_literal_not_mem (cs : List Char) :
    wellFormed cs = true ↔ Piece.literal '\\' ∉ pieces cs := by
  fun_induction pieces cs with
  | case1 => exact iff_of_true rfl List.not_mem_nil
  | case2 a b c rest digits ih =>
    -- The decoder skips the digits, and `wellFormed` passes each of them, as none is a backslash.
    simp only [Bool.and_eq_true] at digits
    obtain ⟨⟨da, db⟩, dc⟩ := digits
    rw [wellFormed_code da db dc, ih, List.mem_cons, not_or]
    exact ⟨fun formed => ⟨nofun, formed⟩, And.right⟩
  | case3 a b c rest other ih =>
    have other : startsWithCode (a :: b :: c :: rest) = false := Bool.eq_false_iff.2 other
    rw [wellFormed_backslash_cons other]
    exact iff_of_false nofun fun absent => absent List.mem_cons_self
  | case4 c rest short ih =>
    by_cases backslash : c = '\\'
    · subst backslash
      have small : rest.length < 3 := length_lt_three fun a b d more => short a b d more rfl
      rw [wellFormed_backslash_cons (startsWithCode_of_length_lt small)]
      exact iff_of_false nofun fun absent => absent List.mem_cons_self
    · rw [wellFormed_cons_of_ne backslash, ih, List.mem_cons, not_or, Piece.literal.injEq]
      exact ⟨fun formed => ⟨fun eq => backslash eq.symm, formed⟩, And.right⟩

/-! ## Texts that end within a code -/

/-- The text ends in a backslash and fewer than three digits. -/
def Unfinished (x : List Char) : Prop :=
  ∃ front start, x = front ++ '\\' :: start ∧ start.length < 3 ∧ ∀ d ∈ start, d.isDigit = true

/-- A text that ends within a code is one that some other text can complete, such as zeros. -/
theorem unfinished_iff_exists_meetInCode {x : List Char} :
    Unfinished x ↔ ∃ y, MeetInCode x y := by
  constructor
  · rintro ⟨front, start, rfl, short, digits⟩
    refine ⟨['0', '0', '0'], front, start, rfl, short, ?_⟩
    match start, short, digits with
    | [], _, _ => decide
    | [a], _, digits => simp [startsWithCode, digits a]
    | [a, b], _, digits => simp [startsWithCode, digits a, digits b]
  · rintro ⟨y, front, start, rfl, short, code⟩
    obtain ⟨a, b, c, fill, rest, three, -, digits⟩ := exists_fill short code
    exact ⟨front, start, rfl, short, fun d mem =>
      digits d (three ▸ List.mem_append_left fill mem)⟩

end Text.Escape

namespace Value

open Text.Escape

/-- **Stored texts divide at complete boundaries.**  The decoder takes a text piece by piece
and gives one character for each.  The text is well-formed just if no backslash is taken for
itself.  Whatever follows the text, the characters of both are decoded one after the other:
this holds just if the text does not end in a backslash and fewer than three digits, and so of
every well-formed text. -/
theorem forall_chars_append_iff (x : String) :
    ((pieces x.toList).flatMap Piece.text = x.toList ∧
      chars x = (pieces x.toList).map Piece.char) ∧
    (wellFormed x.toList = true ↔ Piece.literal '\\' ∉ pieces x.toList) ∧
    ((∀ y, chars (x ++ y) = chars x ++ chars y) ↔ ¬Unfinished x.toList) ∧
    (wellFormed x.toList = true → ∀ y, chars (x ++ y) = chars x ++ chars y) := by
  refine ⟨⟨flatMap_text_pieces x.toList, (map_char_pieces x.toList).symm⟩,
    wellFormed_iff_literal_not_mem x.toList, ?_, fun formed y => ?_⟩
  · rw [unfinished_iff_exists_meetInCode, not_exists]
    constructor
    · intro divides y
      have apart := Operation.chars_append_iff.1 (divides (String.ofList y))
      rwa [String.toList_ofList] at apart
    · exact fun apart y => Operation.chars_append_iff.2 (apart y.toList)
  · exact Operation.chars_append (not_meetInCode_of_wellFormed formed y.toList)

/-- A blank and a backslash, both by their codes, can be followed by digits; a backslash and
two digits cannot. -/
theorem forall_chars_append_iff_digits :
    wellFormed "\\032\\092".toList = true ∧
      chars ("\\032\\092" ++ "035") = chars "\\032\\092" ++ chars "035" ∧
      ¬∀ y, chars ("\\032\\03" ++ y) = chars "\\032\\03" ++ chars y := by
  have formed : wellFormed "\\032\\092".toList = true := by decide
  obtain ⟨-, -, -, divides⟩ := forall_chars_append_iff "\\032\\092"
  obtain ⟨-, -, finished, -⟩ := forall_chars_append_iff "\\032\\03"
  refine ⟨formed, divides formed "035", fun all => ?_⟩
  exact finished.1 all ⟨"\\032".toList, ['0', '3'], by decide, by decide, List.all_eq_true.1 rfl⟩

end Value

end FrameCode
