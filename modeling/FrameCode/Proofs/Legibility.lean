import FrameCode.Proofs.Ordering
import FrameCode.Proofs.RoundTrip
import FrameCode.Xml.Program
import FrameCode.Xml.Tree

/-!
# Legible programs

A program need not come from source text, and printing shows the names of its variables, labels
and types as they are.  What is printed can then be accepted as source text and be another
program: a `#` in a label starts a comment, and the name of a type in the place of a label is read
as a label.

An instruction is legible if it has an opcode, an operand of the right kind in each of its
positions, and each operand is printed as one word.  `ofSource_toSource_same_iff` says that a
printed program which is accepted comes back the same just if all of its instructions are legible.
-/

namespace FrameCode

/-! ## Legible instructions -/

/-- The operand is of a kind that source text has at the position. -/
inductive Slot.Suits : Slot → Operand → Prop
  | place (p : Place) : Slot.Suits .place (.place p)
  | content (p : Place) : Slot.Suits .symbol (.place p)
  | literal (v : Value) : Slot.Suits .symbol (.literal v)
  | label (name : String) : Slot.Suits .label (.label name)
  | type (name : String) : Slot.Suits .type (.type name)

/-- The operand suits the position and is printed as one word. -/
def Slot.Shows (s : Slot) (x : Operand) : Prop :=
  s.Suits x ∧ Source.IsWord x.canonical.print.toList

/-- The instruction has an opcode, and in each of its positions an operand that is printed as one
word and suits the position. -/
def Instruction.Legible (i : Instruction) : Prop :=
  ∃ op, i.mnemonic = .known op ∧ List.Forall₂ Slot.Shows op.signature i.operands

theorem Slot.Admits.shows {s : Slot} {x : Operand} (admits : s.Admits x) : s.Shows x := by
  refine ⟨?_, (Source.readsAs_print admits).1⟩
  cases admits with
  | place => exact .place _
  | content => exact .content _
  | literal => exact .literal _
  | label => exact .label _
  | type => exact .type _

theorem Instruction.Valid.legible {i : Instruction} (valid : i.Valid) : i.Legible := by
  obtain ⟨op, named, admits⟩ := valid
  exact ⟨op, named, admits.imp fun _ _ admitted => admitted.shows⟩

/-! ## Same operands -/

theorem Slot.suits_canonical_iff {s : Slot} {x : Operand} : s.Suits x.canonical ↔ s.Suits x := by
  cases x with
  | literal v =>
    constructor
    · rintro ⟨⟩
      exact .literal v
    · rintro ⟨⟩
      exact .literal v.canonical
  | _ => rfl

/-- A position shows an operand if it shows one that is the same. -/
theorem Slot.Shows.of_same {s : Slot} {x y : Operand} (shows : s.Shows x)
    (same : x.same y = true) :
    s.Shows y := by
  obtain ⟨suits, word⟩ := shows
  have canonical : x.canonical = y.canonical := Operand.canonical_eq_of_same same
  have suits : s.Suits y.canonical := canonical ▸ Slot.suits_canonical_iff.2 suits
  rw [canonical] at word
  exact ⟨Slot.suits_canonical_iff.1 suits, word⟩

theorem Slot.forall₂_shows_of_same {slots : List Slot} {xs ys : List Operand}
    (shows : List.Forall₂ Slot.Shows slots xs)
    (same : List.Forall₂ (fun x y => Operand.same x y = true) xs ys) :
    List.Forall₂ Slot.Shows slots ys := by
  induction shows generalizing ys with
  | nil =>
    cases same
    exact .nil
  | cons first _ ih =>
    cases same with
    | cons alike others => exact .cons (first.of_same alike) (ih others)

theorem Instruction.Legible.of_same {i j : Instruction} (legible : i.Legible)
    (same : i.same j = true) : j.Legible := by
  obtain ⟨op, named, shows⟩ := legible
  obtain ⟨mnemonic, -, operands⟩ := Instruction.same_iff.1 same
  exact ⟨op, mnemonic.symm.trans named, Slot.forall₂_shows_of_same shows operands⟩

/-! ## What is accepted is valid -/

namespace Source

/-- What is written with the mark of a scope is no literal. -/
theorem readLiteral_place_ne (p : Place) (v : Value) :
    readLiteral (.tagged p.scope.mark p.name) ≠ .ok v := by
  have other : ValueType.ofName? p.scope.mark = none := by
    cases p.scope <;> decide
  simp [readLiteral, other]

/-- A string that is printed as one word is printable: a blank without a code would show in it. -/
theorem printable_of_isWord {v : Value} (word : IsWord v.canonical.print.toList) :
    v.Printable := by
  cases v with
  | str stored =>
    intro c mem blank
    by_contra large
    have kept : Text.Escape.needsCode c = false := by
      simp [Text.Escape.needsCode, large]
    have written : c ∈ Text.Escape.encode (Value.chars stored) := by
      refine List.mem_flatMap.2 ⟨c, mem, ?_⟩
      rw [Text.Escape.encodeChar, if_neg (by simp [kept])]
      exact List.mem_singleton_self c
    have shown : c ∈ (Value.str stored).canonical.print.toList := by
      simp [Value.canonical, Value.ofChars, Value.print, written]
    rw [(word.2 c shown).1] at blank
    cases blank
  | _ => trivial

/-- A token that is a word is all that it was made of. -/
theorem toList_of_ofWord?_word {w : List Char} {text : String}
    (made : Token.ofWord? w = some (.word text)) : text.toList = w := by
  unfold Token.ofWord? at made
  split at made
  · cases made
  · split at made
    · cases made
    · split at made
      · cases made
      · cases made
        exact String.toList_ofList

/-- An operand that is printed as one word and then read for its position is admitted there. -/
theorem admits_of_shows {s : Slot} {x y : Operand} (shows : s.Shows x) {t : Token}
    (made : Token.ofWord? x.canonical.print.toList = some t) (read : readOperand s t = .ok y) :
    s.Admits x := by
  obtain ⟨suits, word⟩ := shows
  cases suits with
  | place p =>
    obtain rfl := Option.some.inj ((ofWord?_tagged (isName_mark p.scope) p.name).symm.trans made)
    obtain ⟨q, found, -⟩ := map_eq_ok_iff.1 read
    exact .place (readPlace_print_iff.1 found).1
  | content p =>
    obtain rfl := Option.some.inj ((ofWord?_tagged (isName_mark p.scope) p.name).symm.trans made)
    have read : readSymbol (.tagged p.scope.mark p.name) = .ok y := read
    unfold readSymbol at read
    split at read
    · next q found => exact .content (readPlace_print_iff.1 found).1
    · obtain ⟨v, found, -⟩ := map_eq_ok_iff.1 read
      exact absurd found (readLiteral_place_ne p v)
  | literal v => exact .literal (printable_of_isWord word)
  | label name =>
    have read : readLabel t = .ok y := read
    cases t with
    | word text =>
      have whole : text = name := String.toList_inj.1 (toList_of_ofWord?_word made)
      simp only [readLabel] at read
      split at read
      · next named => exact .label (whole ▸ named)
      · cases read
    | _ => cases read
  | type name =>
    have read : readType t = .ok y := read
    cases t with
    | word text =>
      have whole : text = name := String.toList_inj.1 (toList_of_ofWord?_word made)
      simp only [readType] at read
      split at read
      · next known => exact .type (mem_of_readable (whole ▸ known))
      · cases read
    | _ => cases read

theorem forall₂_admits_of_shows {slots : List Slot} {xs ys : List Operand}
    (shows : List.Forall₂ Slot.Shows slots xs) {ts : List Token}
    (made : Token.ofWords (xs.map fun x => x.canonical.print.toList) = .ok ts)
    (read : readOperands slots ts = .ok ys) : List.Forall₂ Slot.Admits slots xs := by
  induction shows generalizing ts ys with
  | nil => exact .nil
  | @cons s x slots xs first _ ih =>
    rw [List.map_cons] at made
    unfold Token.ofWords at made
    split at made
    · cases made
    · next t token =>
      split at made
      · cases made
      · next us others =>
        cases made
        unfold readOperands at read
        split at read
        · cases read
        · next y operand =>
          split at read
          · cases read
          · next zs rest =>
            exact .cons (admits_of_shows first token operand) (ih others rest)

/-- A legible instruction is printed as its words. -/
theorem isWord_of_legible {i : Instruction} (legible : i.Legible) :
    ∀ w ∈ printedWords i, IsWord w := by
  obtain ⟨op, named, shows⟩ := legible
  have words : ∀ x ∈ i.operands, IsWord x.canonical.print.toList :=
    forall_of_forall₂ (shows.imp fun _ _ shown => shown.2)
  refine isWord_printedWords named fun w mem => ?_
  obtain ⟨x, inside, rfl⟩ := List.mem_map.1 mem
  exact words x inside

/-- A legible instruction whose line is accepted is valid. -/
theorem valid_of_readLine {i : Instruction} (legible : i.Legible) {order : Nat}
    {content : Content}
    (read : readLine true order i.canonical.print.toList = .ok content) : i.Valid := by
  have line := ofLine_print (isWord_of_legible legible)
  obtain ⟨op, named, shows⟩ := legible
  have first : Token.ofWord? i.mnemonic.text.toList = some (.word op.mnemonic) := by
    rw [named]
    exact ofWord?_name (isName_mnemonic op)
  have known : opcode? (.word op.mnemonic) = some op := ofMnemonic?_mnemonic op
  unfold readLine at read
  rw [line, printedWords, Token.ofWords, first] at read
  cases made : Token.ofWords (i.operands.map fun x => x.canonical.print.toList) with
  | error e =>
    rw [made] at read
    cases read
  | ok ts =>
    simp only [made, if_true] at read
    obtain ⟨j, found, -⟩ := map_eq_ok_iff.1 read
    unfold readInstruction at found
    rw [known] at found
    dsimp only at found
    split at found
    · split at found
      · cases found
      · next ys operands => exact ⟨op, named, forall₂_admits_of_shows shows made operands⟩
    · cases found

/-- Legible instructions whose lines are accepted are valid.  The line of a valid instruction
holds an instruction, so the lines after it are read with the header seen. -/
theorem valid_of_readLines {is js : List Instruction} (legible : ∀ i ∈ is, i.Legible)
    {line order : Nat}
    (read : readLines true line order (is.map fun i => i.canonical.print.toList) = .ok js) :
    ∀ i ∈ is, i.Valid := by
  induction is generalizing line order js with
  | nil => exact List.forall_mem_nil _
  | cons i is ih =>
    obtain ⟨first, others⟩ := List.forall_mem_cons.1 legible
    rw [List.map_cons, readLines] at read
    cases accepted : readLine true order i.canonical.print.toList with
    | error e =>
      rw [accepted] at read
      cases read
    | ok content =>
      have valid : i.Valid := valid_of_readLine first accepted
      rw [readLine_print valid] at read
      dsimp only at read
      split at read
      · cases read
      · next js rest => exact List.forall_mem_cons.2 ⟨valid, ih others rest⟩

end Source

/-! ## Printed programs that are accepted -/

namespace Program

/-- A program with legible instructions is valid if it is accepted once it is printed. -/
theorem valid_of_legible {p r : Program} (legible : ∀ i ∈ p.instructions, i.Legible)
    (read : ofSource p.toSource = .ok r) : p.Valid := by
  rw [ofSource_toSource_lines fun i mem => Source.isWord_of_legible (legible i mem)] at read
  obtain ⟨is, found, -⟩ := map_eq_ok_iff.1 read
  exact Source.valid_of_readLines legible found

/-- Instructions that are, up to their numbers, the same as valid ones are legible. -/
theorem forall_legible_of_same {is js : List Instruction} {order : Nat}
    (valid : ∀ j ∈ js, j.Valid)
    (same : List.Forall₂ (fun j i => Instruction.same j i = true) js (numberFrom order is)) :
    ∀ i ∈ is, i.Legible := by
  induction is generalizing js order with
  | nil => exact List.forall_mem_nil _
  | cons i is ih =>
    obtain ⟨j, rest, first, others, rfl⟩ := List.forall₂_cons_right_iff.1 same
    obtain ⟨sound, sounds⟩ := List.forall_mem_cons.1 valid
    have legible : Instruction.Legible { i with order } := sound.legible.of_same first
    exact List.forall_mem_cons.2 ⟨legible, ih sounds others⟩

/-- **Printing changes just the programs that are not legible.**  A program that is put in
order and printed, and then accepted as source text, comes back the same, numbered from 1, just
if each of its instructions has an opcode and operands of the right kinds that are printed as
one word each. -/
theorem ofSource_toSource_same_iff {p q r : Program} (ordered : p.ordered = .ok q)
    (read : ofSource q.toSource = .ok r) :
    r.same q.renumbered = true ↔ ∀ i ∈ p.instructions, i.Legible := by
  constructor
  · intro same i mem
    have legible : ∀ i ∈ q.instructions, i.Legible :=
      forall_legible_of_same (valid_of_ofSource read).1 (same_iff.1 same)
    exact legible i ((mem_of_ordered ordered).2 mem)
  · intro legible
    have valid : q.Valid := by
      refine valid_of_legible (fun i mem => ?_) read
      exact legible i ((mem_of_ordered ordered).1 mem)
    rw [ofSource_toSource_eq valid] at read
    obtain rfl := Except.ok.inj read
    exact canonical_renumbered_same q

/-- The name of a type in the place of a label, which is read as a label, after a string with a
blank in it. -/
theorem ofSource_toSource_same_iff_type :
    let write : Instruction := ⟨.known .write, [.literal (.str "\\097 b")], 2⟩
    let p : Program := ⟨[⟨.known .label, [.type "int"], 9⟩, write]⟩
    let q : Program := ⟨[write, ⟨.known .label, [.type "int"], 9⟩]⟩
    let r : Program := ⟨[⟨.known .write, [.literal (.str "a\\032b")], 1⟩,
      ⟨.known .label, [.label "int"], 2⟩]⟩
    p.ordered = .ok q ∧ ofSource q.toSource = .ok r ∧ r.same q.renumbered = false ∧
      (r.same q.renumbered = true ↔ ∀ i ∈ p.instructions, i.Legible) := by
  intro write p q r
  have ordered : p.ordered = .ok q := by decide
  have read : ofSource q.toSource = .ok r := by decide
  exact ⟨ordered, read, by decide, ofSource_toSource_same_iff ordered read⟩

/-- A document whose program is printed, accepted as source text and another program then: the
label of its jump is cut at the `#`. -/
theorem not_forall_ofXml_toSource_same :
    ¬ ∀ (text : String) (p q r : Program), ofXml Xml.parse? text = .ok p → p.ordered = .ok q →
      ofSource q.toSource = .ok r → r.same q.renumbered = true := by
  intro kept
  let text := "<program language=\"IPPcode24\"><instruction order=\"1\" opcode=\"JUMP\">"
    ++ "<arg1 type=\"label\">a#b</arg1></instruction></program>"
  let p : Program := ⟨[⟨.known .jump, [.label "a#b"], 1⟩]⟩
  let r : Program := ⟨[⟨.known .jump, [.label "a"], 1⟩]⟩
  have loaded : ofXml Xml.parse? text = .ok p := by decide +kernel
  have ordered : p.ordered = .ok p := by decide
  have read : ofSource p.toSource = .ok r := by decide
  have same : r.same p.renumbered = true := kept text p p r loaded ordered read
  exact absurd same (by decide)

end Program

end FrameCode
