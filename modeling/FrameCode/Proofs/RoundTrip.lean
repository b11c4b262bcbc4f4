import FrameCode.Proofs.NumeralPrint
import FrameCode.Proofs.Sameness
import FrameCode.Proofs.SourceLines
import FrameCode.Source.Printer

/-!
# Reading printed programs

A valid program that is printed and read again comes back in canonical form, numbered from 1.  The
words of a printed line are the mnemonic and the printed operands, each of which is read as the
operand it shows; `readLine_print` and `readLines_print` put them together.
-/

namespace FrameCode

namespace Source

/-! ## Words -/

/-- The text is read as one word: it is not empty and has no blank and no `#` in it. -/
def IsWord (w : List Char) : Prop := w ≠ [] ∧ ∀ c ∈ w, Text.isBlank c = false ∧ c ≠ '#'

theorem isBlank_of_visible {c : Char} (low : 33 ≤ c.toNat) (high : c.toNat ≤ 126) :
    Text.isBlank c = false := by
  simp only [Text.isBlank, Bool.or_eq_false_iff, Bool.and_eq_false_iff, decide_eq_false_iff_not,
    beq_eq_false_iff_ne]
  omega

theorem isAlpha_iff_toNat {c : Char} :
    c.isAlpha = true ↔ (65 ≤ c.toNat ∧ c.toNat ≤ 90) ∨ (97 ≤ c.toNat ∧ c.toNat ≤ 122) := by
  have upper : c.isUpper = true ↔ 65 ≤ c.toNat ∧ c.toNat ≤ 90 := decide_eq_true_iff
  have lower : c.isLower = true ↔ 97 ≤ c.toNat ∧ c.toNat ≤ 122 :=
    (Bool.and_eq_true_iff).trans (and_congr decide_eq_true_iff decide_eq_true_iff)
  exact Bool.or_eq_true_iff.trans (or_congr upper lower)

theorem visible_of_nameChar {c : Char} (named : startsName c = true ∨ c.isDigit = true) :
    33 ≤ c.toNat ∧ c.toNat ≤ 126 := by
  rcases named with start | digit
  · rw [startsName, Bool.or_eq_true, List.contains_iff_mem] at start
    rcases start with letter | mark
    · have bounds := isAlpha_iff_toNat.1 letter
      omega
    · have marks : nameMarks.all (fun d => 33 ≤ d.toNat ∧ d.toNat ≤ 126) = true := by decide
      exact of_decide_eq_true (List.all_eq_true.1 marks c mark)
  · have bounds := Char.isDigit_iff_toNat.1 digit
    simp only [Char.reduceToNat] at bounds
    omega

theorem toNat_toUpper (c : Char) :
    c.toUpper.toNat = if 97 ≤ c.toNat ∧ c.toNat ≤ 122 then c.toNat - 32 else c.toNat := by
  unfold Char.toUpper
  split
  · next small =>
    change 97 ≤ c.toNat ∧ c.toNat ≤ 122 at small
    rw [if_pos small, Char.toNat, UInt32.toNat_add]
    change (c.toNat + (4294967296 - 32)) % 4294967296 = c.toNat - 32
    omega
  · next other => exact (if_neg other).symm

/-- Only letters are changed to upper case. -/
theorem toUpper_eq_iff {c mark : Char} (caseless : mark.isAlpha = false) :
    c.toUpper = mark ↔ c = mark := by
  have other := mt isAlpha_iff_toNat.2 (Bool.eq_false_iff.1 caseless)
  rw [← Char.toNat_inj, ← Char.toNat_inj, toNat_toUpper]
  split <;> omega

/-- A word that does not start with a dot is split at its first `@`, if it has one. -/
theorem ofWord?_cons {c : Char} (ne : c ≠ '.') (cs : List Char) :
    Token.ofWord? (c :: cs) =
      match Text.cut '@' (c :: cs) with
      | some (tag, body) => some (.tagged (String.ofList tag) (String.ofList body))
      | none => some (.word (String.ofList (c :: cs))) := by
  refine ofWord?_of_plain (fun named => ?_) fun stray => ne (Option.some.inj stray.1)
  have heads := congrArg (fun s => s.toList.head?) named
  simp only [Text.foldCase, String.toList_ofList, List.map_cons, List.head?_cons] at heads
  exact ne ((toUpper_eq_iff rfl).1 (Option.some.inj heads))

/-! ## Names and tagged texts -/

theorem nameChar_of_isName {name : List Char} (named : isName name = true) :
    ∀ c ∈ name, startsName c = true ∨ c.isDigit = true := by
  cases name with
  | nil => cases named
  | cons c cs =>
    simp only [isName, Bool.and_eq_true, List.all_eq_true, Bool.or_eq_true] at named
    intro d mem
    rcases List.mem_cons.1 mem with rfl | mem
    · exact .inl named.1
    · exact named.2 d mem

theorem isWord_of_isName {name : List Char} (named : isName name = true) : IsWord name := by
  refine ⟨fun empty => ?_, fun c mem => ?_⟩
  · subst empty
    cases named
  · have char := nameChar_of_isName named c mem
    obtain ⟨low, high⟩ := visible_of_nameChar char
    refine ⟨isBlank_of_visible low high, ?_⟩
    rintro rfl
    exact absurd char (by decide)

theorem not_mem_of_isName {name : List Char} (named : isName name = true) {c : Char}
    (other : ¬(startsName c = true ∨ c.isDigit = true)) : c ∉ name :=
  fun mem => other (nameChar_of_isName named c mem)

/-- A name is read as a token of its own. -/
theorem ofWord?_name {name : String} (named : isName name.toList = true) :
    Token.ofWord? name.toList = some (.word name) := by
  have undivided := Text.cut_eq_none_iff.2 (not_mem_of_isName named (c := '@') (by decide))
  have undotted := not_mem_of_isName named (c := '.') (by decide)
  cases eq : name.toList with
  | nil =>
    rw [eq] at named
    cases named
  | cons c cs =>
    rw [eq] at undivided undotted
    rw [ofWord?_cons (fun dot => undotted (by simp [dot])), undivided, ← eq, String.ofList_toList]

/-- A tag that is a name is divided from what follows at the first `@`. -/
theorem ofWord?_tagged {tag : String} (named : isName tag.toList = true) (body : String) :
    Token.ofWord? (tag ++ "@" ++ body).toList = some (.tagged tag body) := by
  have divided : Text.cut '@' (tag.toList ++ '@' :: body.toList) =
      some (tag.toList, body.toList) :=
    Text.cut_eq_some_iff.2 ⟨rfl, not_mem_of_isName named (by decide)⟩
  have undotted := not_mem_of_isName named (c := '.') (by decide)
  have text : (tag ++ "@" ++ body).toList = tag.toList ++ '@' :: body.toList := by simp
  rw [text]
  cases eq : tag.toList with
  | nil =>
    rw [eq] at named
    cases named
  | cons c cs =>
    rw [eq] at divided undotted
    rw [List.cons_append] at divided ⊢
    rw [ofWord?_cons (fun dot => undotted (by simp [dot])), divided]
    simp only [← eq, String.ofList_toList]

theorem isWord_tagged {tag body : String} (named : isName tag.toList = true)
    (plain : ∀ c ∈ body.toList, Text.isBlank c = false ∧ c ≠ '#') :
    IsWord (tag ++ "@" ++ body).toList := by
  have text : (tag ++ "@" ++ body).toList = tag.toList ++ '@' :: body.toList := by simp
  rw [text]
  refine ⟨by simp, fun c mem => ?_⟩
  rcases List.mem_append.1 mem with mem | mem
  · exact (isWord_of_isName named).2 c mem
  · rcases List.mem_cons.1 mem with rfl | mem
    · decide
    · exact plain c mem

/-! ## Operands -/

/-- The text is one word, which is read as the operand at a position of the given kind. -/
def ReadsAs (s : Slot) (text : String) (x : Operand) : Prop :=
  IsWord text.toList ∧ ∃ t, Token.ofWord? text.toList = some t ∧ readOperand s t = .ok x

theorem ofMark?_mark (scope : Scope) : Scope.ofMark? scope.mark = some scope := by
  cases scope <;> decide

theorem isName_mark (scope : Scope) : isName scope.mark.toList = true := by
  cases scope <;> decide

theorem readPlace_print_iff {p q : Place} :
    readPlace (.tagged p.scope.mark p.name) = .ok q ↔ isName p.name.toList = true ∧ p = q := by
  rw [readPlace, ofMark?_mark]
  by_cases named : isName p.name.toList = true
  · simp [named]
  · simp [named]

theorem readPlace_print {p : Place} (named : isName p.name.toList = true) :
    readPlace (.tagged p.scope.mark p.name) = .ok p :=
  readPlace_print_iff.2 ⟨named, rfl⟩

theorem isWord_place {p : Place} (named : isName p.name.toList = true) : IsWord p.print.toList :=
  isWord_tagged (isName_mark p.scope) (isWord_of_isName named).2

theorem isWord_int (n : Int64) : ∀ c ∈ (Numeral.print n).toList,
    Text.isBlank c = false ∧ c ≠ '#' := by
  intro c mem
  have char : startsName c = true ∨ c.isDigit = true := by
    rcases Numeral.mem_print mem with rfl | digit
    · exact .inl (by decide)
    · exact .inr digit
  obtain ⟨low, high⟩ := visible_of_nameChar char
  refine ⟨isBlank_of_visible low high, ?_⟩
  rintro rfl
  exact absurd char (by decide)

/-- A string in canonical form has no blank and no `#` in it. -/
theorem isWord_encode {cs : List Char}
    (printable : ∀ c ∈ cs, Text.isBlank c = true → c.toNat ≤ 999) :
    ∀ c ∈ Text.Escape.encode cs, Text.isBlank c = false ∧ c ≠ '#' := by
  intro c mem
  rcases Text.Escape.mem_encode mem with rfl | digit | ⟨found, plain⟩
  · decide
  · obtain ⟨low, high⟩ := visible_of_nameChar (.inr digit)
    refine ⟨isBlank_of_visible low high, ?_⟩
    rintro rfl
    exact absurd digit (by decide)
  · constructor
    · by_contra blank
      have blank := Bool.not_eq_false _ ▸ blank
      have small := printable c found blank
      simp [Text.Escape.needsCode, blank, small] at plain
    · rintro rfl
      exact absurd plain (by decide)

/-- The text of a literal after its tag. -/
def literalBody : Value → String
  | .int n => Numeral.print n
  | .bool b => Value.boolName b
  | .str stored => stored
  | .nil => "nil"

theorem print_eq_tagged (v : Value) : v.print = v.type.name ++ "@" ++ literalBody v := by
  cases v with
  | int n => exact congrArg (· ++ Numeral.print n) (show "int@" = "int" ++ "@" by decide)
  | bool b => exact congrArg (· ++ Value.boolName b) (show "bool@" = "bool" ++ "@" by decide)
  | str stored => exact congrArg (· ++ stored) (show "string@" = "string" ++ "@" by decide)
  | nil => decide

theorem ofName?_name (t : ValueType) : ValueType.ofName? t.name = some t := by
  cases t <;> decide

theorem isName_typeName (t : ValueType) : isName t.name.toList = true := by
  cases t <;> decide

/-- The literal of a value in canonical form is read back. -/
theorem readLiteral_canonical (v : Value) :
    readLiteral (.tagged v.canonical.type.name (literalBody v.canonical)) = .ok v.canonical := by
  cases v with
  | int n => simp only [readLiteral, ofName?_name, Value.canonical, Value.type, literalBody,
      Numeral.literal?_print]
  | bool b => cases b <;> rfl
  | str stored =>
    simp only [readLiteral, ofName?_name, Value.canonical, Value.ofChars, Value.type, literalBody,
      String.toList_ofList, Text.Escape.wellFormed_encode, if_true]
  | nil => rfl

/-- The literal of a printable value in canonical form has no blank and no `#` in it. -/
theorem isWord_canonical {v : Value} (printable : v.Printable) :
    IsWord v.canonical.print.toList := by
  rw [print_eq_tagged]
  refine isWord_tagged (isName_typeName _) ?_
  cases v with
  | int n => exact isWord_int n
  | bool b =>
    have named : isName (Value.boolName b).toList = true := by cases b <;> decide
    exact (isWord_of_isName named).2
  | str stored =>
    simp only [Value.canonical, Value.ofChars, literalBody, String.toList_ofList]
    exact isWord_encode printable
  | nil =>
    have named : isName "nil".toList = true := by decide
    exact (isWord_of_isName named).2

/-- A printable literal is read back in canonical form. No tag of a literal marks a scope, so it
is not taken for a variable. -/
theorem readsAs_literal {v : Value} (printable : v.Printable) :
    ReadsAs .symbol v.canonical.print (.literal v.canonical) := by
  have word := isWord_canonical printable
  rw [print_eq_tagged] at word ⊢
  have other : Scope.ofMark? v.canonical.type.name = none := by
    cases v.canonical.type <;> decide
  refine ⟨word, _, ofWord?_tagged (isName_typeName _) _, ?_⟩
  rw [readOperand, readSymbol, readPlace, other]
  simp only [readLiteral_canonical]
  rfl

/-- Every operand that source text can hold at a position is read back there in canonical form. -/
theorem readsAs_print {s : Slot} {x : Operand} (fits : s.Admits x) :
    ReadsAs s x.canonical.print x.canonical := by
  cases fits with
  | @place p named =>
    refine ⟨isWord_place named, _, ofWord?_tagged (isName_mark p.scope) p.name, ?_⟩
    rw [readOperand, readPlace_print named]
    rfl
  | @content p named =>
    refine ⟨isWord_place named, _, ofWord?_tagged (isName_mark p.scope) p.name, ?_⟩
    rw [readOperand, readSymbol, readPlace_print named]
    rfl
  | literal printable => exact readsAs_literal printable
  | @label name named =>
    exact ⟨isWord_of_isName named, _, ofWord?_name named, if_pos named⟩
  | @type name listed =>
    have named : isName name.toList = true := by
      revert name
      decide
    have known : (ValueType.ofName? name).any ValueType.readable = true := by
      revert name
      decide
    exact ⟨isWord_of_isName named, _, ofWord?_name named, if_pos known⟩

/-! ## Lines -/

/-- The printed operands are words, and their tokens are read as the operands in canonical
form. -/
theorem readOperands_print {slots : List Slot} {xs : List Operand}
    (fits : List.Forall₂ Slot.Admits slots xs) :
    (∀ w ∈ xs.map fun x => x.canonical.print.toList, IsWord w) ∧
      ∃ ts, Token.ofWords (xs.map fun x => x.canonical.print.toList) = .ok ts ∧
        ts.length = slots.length ∧ readOperands slots ts = .ok (xs.map Operand.canonical) := by
  induction fits with
  | nil => exact ⟨fun _ mem => absurd mem List.not_mem_nil, [], rfl, rfl, rfl⟩
  | @cons s x slots xs fit _ ih =>
    obtain ⟨word, t, made, read⟩ := readsAs_print fit
    obtain ⟨words, ts, others, size, reads⟩ := ih
    refine ⟨List.forall_mem_cons.2 ⟨word, words⟩, t :: ts, ?_, congrArg (· + 1) size, ?_⟩
    · simp only [List.map_cons, Token.ofWords, made, others]
    · simp only [readOperands, read, reads, List.map_cons]

theorem isName_mnemonic (op : Opcode) : isName op.mnemonic.toList = true := by
  cases op <;> decide

theorem ofMnemonic?_mnemonic (op : Opcode) : Opcode.ofMnemonic? op.mnemonic = some op := by
  cases op <;> decide

theorem uncommented_of_not_mem {line : List Char} (free : '#' ∉ line) :
    Token.uncommented line = line := by
  have kept : ∀ c ∈ line, (c != '#') = true := fun c mem => bne_iff_ne.2 fun eq => free (eq ▸ mem)
  have whole : (line ++ []).takeWhile (· != '#') = line ++ [].takeWhile (· != '#') :=
    List.takeWhile_append_of_pos kept
  rw [List.append_nil, List.takeWhile_nil, List.append_nil] at whole
  exact whole

/-- A character other than the space that is in none of the words is not in their line. -/
theorem not_mem_spaced {c : Char} (other : c ≠ ' ') {w : List Char} {ws : List (List Char)}
    (absent : ∀ v ∈ w :: ws, c ∉ v) : c ∉ w ++ ws.flatMap (' ' :: ·) := by
  intro mem
  rcases List.mem_append.1 mem with mem | mem
  · exact absent w List.mem_cons_self mem
  · obtain ⟨v, inside, mem⟩ := List.mem_flatMap.1 mem
    rcases List.mem_cons.1 mem with space | mem
    · exact other space
    · exact absent v (List.mem_cons_of_mem _ inside) mem

theorem newline_not_mem_spaced {w : List Char} {ws : List (List Char)}
    (word : ∀ v ∈ w :: ws, IsWord v) :
    '\n' ∉ w ++ ws.flatMap (' ' :: ·) :=
  not_mem_spaced (by decide) fun v inside mem => absurd ((word v inside).2 _ mem).1 (by decide)

/-- Words with spaces between them are the words of the line. -/
theorem words_uncommented_spaced {w : List Char} {ws : List (List Char)}
    (word : ∀ v ∈ w :: ws, IsWord v) :
    Text.words (Token.uncommented (w ++ ws.flatMap (' ' :: ·))) = w :: ws := by
  have free : '#' ∉ w ++ ws.flatMap (' ' :: ·) :=
    not_mem_spaced (by decide) fun v inside mem => ((word v inside).2 _ mem).2 rfl
  rw [uncommented_of_not_mem free, Text.words_spaced (fun v mem => (word v mem).1)
    fun v mem c inside => ((word v mem).2 c inside).1]

/-- Words with spaces between them become the tokens of the line. -/
theorem ofLine_spaced {w : List Char} {ws : List (List Char)} (word : ∀ v ∈ w :: ws, IsWord v) :
    Token.ofLine (w ++ ws.flatMap (' ' :: ·)) = Token.ofWords (w :: ws) :=
  congrArg Token.ofWords (words_uncommented_spaced word)

theorem toList_print (i : Instruction) :
    i.print.toList = i.mnemonic.text.toList ++
      (i.operands.map fun x => x.print.toList).flatMap (' ' :: ·) := by
  simp [Instruction.print, String.toList_join, List.flatMap_map]

/-- The words that an instruction is printed as, if each part of it is one word. -/
def printedWords (i : Instruction) : List (List Char) :=
  i.mnemonic.text.toList :: i.operands.map fun x => x.canonical.print.toList

theorem toList_canonical_print (i : Instruction) :
    i.canonical.print.toList = i.mnemonic.text.toList ++
      (i.operands.map fun x => x.canonical.print.toList).flatMap (' ' :: ·) := by
  rw [toList_print, Instruction.canonical, List.map_map]
  rfl

/-- An instruction whose parts are words has these words on its line. -/
theorem ofLine_print {i : Instruction} (words : ∀ w ∈ printedWords i, IsWord w) :
    Token.ofLine i.canonical.print.toList = Token.ofWords (printedWords i) := by
  rw [toList_canonical_print]
  exact ofLine_spaced words

theorem isWord_printedWords {i : Instruction} {op : Opcode} (named : i.mnemonic = .known op)
    (words : ∀ w ∈ i.operands.map fun x => x.canonical.print.toList, IsWord w) :
    ∀ w ∈ printedWords i, IsWord w := by
  refine List.forall_mem_cons.2 ⟨?_, words⟩
  rw [named]
  exact isWord_of_isName (isName_mnemonic op)

theorem isWord_of_valid {i : Instruction} (valid : i.Valid) : ∀ w ∈ printedWords i, IsWord w := by
  obtain ⟨op, named, fits⟩ := valid
  exact isWord_printedWords named (readOperands_print fits).1

/-- The line of a valid instruction is read as the instruction in canonical form. -/
theorem readLine_print {i : Instruction} (valid : i.Valid) (order : Nat) :
    readLine true order i.canonical.print.toList =
      .ok (.instruction { i.canonical with order }) := by
  have words := isWord_of_valid valid
  obtain ⟨op, named, fits⟩ := valid
  obtain ⟨-, ts, made, size, reads⟩ := readOperands_print fits
  have first := ofWord?_name (isName_mnemonic op)
  have tokens : Token.ofLine i.canonical.print.toList = .ok (.word op.mnemonic :: ts) := by
    rw [ofLine_print words, printedWords, named]
    exact (show Token.ofWords (op.mnemonic.toList :: _) = _ by
      simp only [Token.ofWords, first, made])
  have read : readInstruction order (.word op.mnemonic) ts =
      .ok { i.canonical with order } := by
    have known : opcode? (.word op.mnemonic) = some op := ofMnemonic?_mnemonic op
    simp only [readInstruction, known, if_pos size, Opcode.arity, reads, Instruction.canonical,
      named]
  simp only [readLine, tokens, if_true, read]
  rfl

theorem newline_not_mem_print {i : Instruction} (words : ∀ w ∈ printedWords i, IsWord w) :
    '\n' ∉ i.canonical.print.toList := by
  rw [toList_canonical_print]
  exact newline_not_mem_spaced words

theorem readLines_print {is : List Instruction} (valid : ∀ i ∈ is, i.Valid) (line order : Nat) :
    readLines true line order (is.map fun i => i.canonical.print.toList) =
      .ok (Program.numberFrom order (is.map Instruction.canonical)) := by
  induction is generalizing line order with
  | nil => rfl
  | cons i is ih =>
    obtain ⟨first, others⟩ := List.forall_mem_cons.1 valid
    simp only [List.map_cons, readLines, readLine_print first, ih others, Program.numberFrom]

end Source

/-! ## Programs -/

namespace Program

/-- The program with its string literals in canonical form. -/
def canonical (p : Program) : Program := ⟨p.instructions.map Instruction.canonical⟩

theorem toList_toSource (p : Program) :
    p.toSource.toList = (Source.header.toList ::
      p.instructions.map fun i => i.canonical.print.toList).flatMap (· ++ ['\n']) := by
  simp [toSource, Instruction.sourceLine, String.toList_join, List.flatMap_map]

/-- A printed program is read line by line, after its header. -/
theorem ofSource_toSource_lines {p : Program}
    (words : ∀ i ∈ p.instructions, ∀ w ∈ Source.printedWords i, Source.IsWord w) :
    ofSource p.toSource =
      (Source.readLines true 2 1 (p.instructions.map fun i => i.canonical.print.toList)).map
        Program.mk := by
  have lines : Text.lines p.toSource.toList =
      Source.header.toList :: p.instructions.map fun i => i.canonical.print.toList := by
    rw [toList_toSource]
    refine Text.lines_terminated (List.forall_mem_cons.2 ⟨by decide, fun l mem => ?_⟩)
    obtain ⟨i, inside, rfl⟩ := List.mem_map.1 mem
    exact Source.newline_not_mem_print (words i inside)
  have header : Source.readLine false 1 Source.header.toList = .ok .header := rfl
  rw [ofSource, lines, Source.readLines, header]

/-- A valid program that is printed is read in canonical form, numbered from 1. -/
theorem ofSource_toSource_eq {p : Program} (valid : p.Valid) :
    ofSource p.toSource = .ok p.canonical.renumbered := by
  rw [ofSource_toSource_lines fun i mem => Source.isWord_of_valid (valid i mem),
    Source.readLines_print valid]
  rfl

theorem numberFrom_same {is js : List Instruction} (order : Nat)
    (same : List.Forall₂ (fun i j => Instruction.same i j = true) is js) :
    List.Forall₂ (fun i j => Instruction.same i j = true) (numberFrom order is)
      (numberFrom order js) := by
  induction same generalizing order with
  | nil => exact .nil
  | cons first _ ih =>
    obtain ⟨mnemonic, -, operands⟩ := Instruction.same_iff.1 first
    exact .cons (Instruction.same_iff.2 ⟨mnemonic, rfl, operands⟩) (ih (order + 1))

/-- Neither numbering nor the canonical form changes what is printed. -/
theorem map_sourceLine_numberFrom (order : Nat) (is : List Instruction) :
    (numberFrom order (is.map Instruction.canonical)).map Instruction.sourceLine =
      is.map Instruction.sourceLine := by
  induction is generalizing order with
  | nil => rfl
  | cons i is ih =>
    have printed := congrArg Instruction.print (Instruction.canonical_canonical i)
    have line : Instruction.sourceLine { i.canonical with order } = i.sourceLine :=
      congrArg (· ++ "\n") printed
    simp only [List.map_cons, numberFrom, line, ih]

theorem toSource_canonical_renumbered (p : Program) :
    p.canonical.renumbered.toSource = p.toSource := by
  simp only [toSource, renumbered, canonical, map_sourceLine_numberFrom]

theorem canonical_renumbered_same (p : Program) :
    p.canonical.renumbered.same p.renumbered = true := by
  refine same_iff.2 (numberFrom_same 1 ?_)
  exact List.forall₂_map_left_iff.2 (List.forall₂_same.2 fun i _ => Instruction.canonical_same i)

/-- **Printing and reading are inverse.**  A valid program that is printed can be read, the result
is the program numbered from 1, and it prints as the same text.  Every program that is read is
valid and numbered from 1 already, so it comes back as it was. -/
theorem ofSource_toSource (p : Program) :
    (p.Valid → ∃ q, ofSource p.toSource = .ok q ∧ q.same p.renumbered = true ∧
      q.toSource = p.toSource) ∧
    (∀ text, ofSource text = .ok p → p.Valid ∧ p.renumbered = p ∧
      ∃ q, ofSource p.toSource = .ok q ∧ q.same p = true) := by
  refine ⟨fun valid => ?_, fun text read => ?_⟩
  · exact ⟨_, ofSource_toSource_eq valid, canonical_renumbered_same p,
      toSource_canonical_renumbered p⟩
  · obtain ⟨valid, numbered⟩ := valid_of_ofSource read
    have same := canonical_renumbered_same p
    rw [numbered] at same
    exact ⟨valid, numbered, _, ofSource_toSource_eq valid, same⟩

/-- A program with its order numbers out of step, a code that stands for a letter, a string with
blanks and `#` in it, and the least integer. -/
theorem ofSource_toSource_codes :
    let p : Program := ⟨[
      ⟨.known .jumpIfEq,
        [.label "end-1", .literal (.int (-9223372036854775808)), .literal .nil], 9⟩,
      ⟨.known .write, [.literal (.str "\\097 b#\n")], 0⟩,
      ⟨.known .read, [.place ⟨.temporary, "x"⟩, .type "bool"], 9⟩]⟩
    p.Valid ∧ ∃ q, ofSource p.toSource = .ok q ∧ q.same p.renumbered = true ∧
      q.toSource = p.toSource ∧ q.Valid ∧ q.renumbered = q := by
  intro p
  have valid : p.Valid := by
    refine List.forall_mem_cons.2 ⟨⟨.jumpIfEq, rfl, ?_⟩, List.forall_mem_cons.2
      ⟨⟨.write, rfl, ?_⟩, List.forall_mem_singleton.2 ⟨.read, rfl, ?_⟩⟩⟩
    · exact .cons (.label (by decide)) (.cons (.literal trivial) (.cons (.literal trivial) .nil))
    · have small : (Value.chars "\\097 b#\n").all (fun c => c.toNat ≤ 999) = true := by decide
      have coded : (Value.str "\\097 b#\n").Printable :=
        fun c mem _ => of_decide_eq_true (List.all_eq_true.1 small c mem)
      exact .cons (.literal coded) .nil
    · exact .cons (.place (by decide)) (.cons (.type (by decide)) .nil)
  obtain ⟨q, read, same, text⟩ := (ofSource_toSource p).1 valid
  obtain ⟨valid', numbered, -⟩ := (ofSource_toSource q).2 p.toSource read
  exact ⟨valid, q, read, same, text, valid', numbered⟩

end Program

end FrameCode
