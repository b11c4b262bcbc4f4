import FrameCode.Proofs.Results
import FrameCode.Proofs.StoredText
import FrameCode.Proofs.Words
import FrameCode.Source.Reader
import Mathlib.Data.List.Forall2

/-!
# Valid programs

A program is valid if source text can hold it: every instruction has an opcode and an operand of
the right kind in each of its positions, names are names, types can be read, and no string denotes
a blank that has no code.  The order numbers play no part; `Program.renumbered` replaces them by
the ones that reading gives.

`valid_of_ofSource` says that every program read from source text is valid and numbered
in that way.
-/

namespace FrameCode

/-! ## What source text can hold -/

/-- The literal has a written form: a blank in a string has a code of at most three digits. -/
def Value.Printable : Value → Prop
  | .str stored => ∀ c ∈ Value.chars stored, Text.isBlank c = true → c.toNat ≤ 999
  | _ => True

/-- The operands that source text can hold at a position. -/
inductive Slot.Admits : Slot → Operand → Prop
  | place {p : Place} : Source.isName p.name.toList = true → Slot.Admits .place (.place p)
  | content {p : Place} : Source.isName p.name.toList = true → Slot.Admits .symbol (.place p)
  | literal {v : Value} : v.Printable → Slot.Admits .symbol (.literal v)
  | label {name : String} : Source.isName name.toList = true → Slot.Admits .label (.label name)
  | type {name : String} : name ∈ ["int", "bool", "string"] → Slot.Admits .type (.type name)

/-- The instruction has an opcode and exactly the operands that its signature asks for. -/
def Instruction.Valid (i : Instruction) : Prop :=
  ∃ op, i.mnemonic = .known op ∧ List.Forall₂ Slot.Admits op.signature i.operands

/-- All instructions are valid; their order numbers are arbitrary. -/
def Program.Valid (p : Program) : Prop := ∀ i ∈ p.instructions, i.Valid

/-- The instructions with consecutive order numbers in place of their own. -/
def Program.numberFrom (order : Nat) : List Instruction → List Instruction
  | [] => []
  | i :: rest => { i with order } :: numberFrom (order + 1) rest

/-- The program with the order numbers 1, 2, … in listing order. -/
def Program.renumbered (p : Program) : Program := ⟨numberFrom 1 p.instructions⟩

/-! ## Operands that are read are admitted -/

namespace Source

/-- The texts of a token stand in the word it was made of. -/
theorem mem_of_ofWord?_tagged {w : List Char} {tag body : String}
    (made : Token.ofWord? w = some (.tagged tag body)) : ∀ c ∈ body.toList, c ∈ w := by
  unfold Token.ofWord? at made
  split at made
  · cases made
  · split at made
    · cases made
    · split at made
      · next before after found =>
        cases made
        intro c mem
        rw [String.toList_ofList] at mem
        rw [(Text.cut_eq_some_iff.1 found).1]
        exact List.mem_append_right _ (List.mem_cons_of_mem _ mem)
      · cases made

/-- The token has no blank in its body. -/
def Token.Unspaced : Token → Prop
  | .tagged _ body => ∀ c ∈ body.toList, Text.isBlank c = false
  | _ => True

theorem unspaced_of_ofWord? {w : List Char} {t : Token} (made : Token.ofWord? w = some t)
    (free : ∀ c ∈ w, Text.isBlank c = false) : t.Unspaced := by
  cases t with
  | header => trivial
  | word => trivial
  | tagged tag body => exact fun c mem => free c (mem_of_ofWord?_tagged made c mem)

theorem unspaced_of_ofWords {ws : List (List Char)} {ts : List Token}
    (made : Token.ofWords ws = .ok ts) (free : ∀ w ∈ ws, ∀ c ∈ w, Text.isBlank c = false) :
    ∀ t ∈ ts, t.Unspaced := by
  induction ws generalizing ts with
  | nil =>
    cases made
    intro t mem
    cases mem
  | cons w ws ih =>
    unfold Token.ofWords at made
    split at made
    · cases made
    · next t first =>
      split at made
      · cases made
      · next rest others =>
        cases made
        intro u mem
        rcases List.mem_cons.1 mem with rfl | mem
        · exact unspaced_of_ofWord? first (free w List.mem_cons_self)
        · exact ih others (fun v inside => free v (List.mem_cons_of_mem _ inside)) u mem

/-- The tokens of a line have no blanks in them. -/
theorem unspaced_of_ofLine {line : List Char} {ts : List Token}
    (made : Token.ofLine line = .ok ts) : ∀ t ∈ ts, t.Unspaced :=
  unspaced_of_ofWords made fun _ mem c inside => (Text.mem_words mem c inside).1

/-- A variable that is read has a name. -/
theorem isName_of_readPlace {t : Token} {p : Place} (read : readPlace t = .ok p) :
    isName p.name.toList = true := by
  unfold readPlace at read
  split at read
  · split at read
    · cases read
    · split at read
      · next named =>
        cases read
        exact named
      · cases read
  · cases read

/-- A literal that is read can be printed: what is written without a code is no blank. -/
theorem printable_of_readLiteral {t : Token} {v : Value} (unspaced : t.Unspaced)
    (read : readLiteral t = .ok v) : v.Printable := by
  cases v with
  | int => trivial
  | bool => trivial
  | nil => trivial
  | str stored =>
    have body : ∃ tag, t = .tagged tag stored := by
      unfold readLiteral at read
      repeat' split at read
      all_goals cases read
      exact ⟨_, rfl⟩
    obtain ⟨tag, rfl⟩ := body
    intro c mem blank
    rcases Text.Escape.mem_decode mem with literal | coded
    · exact absurd blank (by simp [unspaced c literal])
    · exact coded

/-- A type is found by its own name only. -/
theorem name_of_ofName? {name : String} {t : ValueType}
    (found : ValueType.ofName? name = some t) :
    t.name = name := by
  have spelled := List.find?_some found
  exact beq_iff_eq.1 spelled

theorem mem_of_readable {name : String}
    (known : (ValueType.ofName? name).any ValueType.readable = true) :
    name ∈ ["int", "bool", "string"] := by
  obtain ⟨t, found, readable⟩ := (Option.any_eq_true _ _).1 known
  obtain rfl := name_of_ofName? found
  cases t with
  | nil => cases readable
  | _ => decide

theorem admits_of_readOperand {s : Slot} {t : Token} {x : Operand} (unspaced : t.Unspaced)
    (read : readOperand s t = .ok x) : s.Admits x := by
  cases s with
  | place =>
    obtain ⟨p, found, rfl⟩ := map_eq_ok_iff.1 read
    exact .place (isName_of_readPlace found)
  | symbol =>
    have read : readSymbol t = .ok x := read
    unfold readSymbol at read
    split at read
    · next p found =>
      cases read
      exact .content (isName_of_readPlace found)
    · obtain ⟨v, found, rfl⟩ := map_eq_ok_iff.1 read
      exact .literal (printable_of_readLiteral unspaced found)
  | label =>
    have read : readLabel t = .ok x := read
    unfold readLabel at read
    split at read
    · split at read
      · next named =>
        cases read
        exact .label named
      · cases read
    · cases read
  | type =>
    have read : readType t = .ok x := read
    unfold readType at read
    split at read
    · next name =>
      split at read
      · next known =>
        cases read
        exact .type (mem_of_readable known)
      · cases read
    · cases read

/-! ## Lines that are read

`R` is a relation between the positions of a signature and the operands that are read for them. -/

section Reading

variable {R : Slot → Operand → Prop}
  (each : ∀ {s t x}, Token.Unspaced t → readOperand s t = .ok x → R s x)

include each

theorem forall₂_of_readOperands {slots : List Slot} {ts : List Token} {xs : List Operand}
    (size : ts.length = slots.length) (unspaced : ∀ t ∈ ts, t.Unspaced)
    (read : readOperands slots ts = .ok xs) : List.Forall₂ R slots xs := by
  induction slots generalizing ts xs with
  | nil =>
    cases read
    exact .nil
  | cons s slots ih =>
    cases ts with
    | nil => cases size
    | cons t ts =>
      unfold readOperands at read
      split at read
      · cases read
      · next x first =>
        split at read
        · cases read
        · next rest others =>
          cases read
          exact .cons (each (unspaced t List.mem_cons_self) first)
            (ih (Nat.succ.inj size) (fun u mem => unspaced u (List.mem_cons_of_mem _ mem)) others)

theorem forall₂_of_readInstruction {order : Nat} {first : Token} {ts : List Token}
    {i : Instruction}
    (unspaced : ∀ t ∈ ts, t.Unspaced) (read : readInstruction order first ts = .ok i) :
    (∃ op, i.mnemonic = .known op ∧ List.Forall₂ R op.signature i.operands) ∧
      i.order = order := by
  unfold readInstruction at read
  split at read
  · cases read
  · next op named =>
    split at read
    · next size =>
      split at read
      · cases read
      · next xs found =>
        cases read
        exact ⟨⟨op, rfl, forall₂_of_readOperands each size unspaced found⟩, rfl⟩
    · cases read

theorem forall₂_of_readLine {seen : Bool} {order : Nat} {line : List Char} {i : Instruction}
    (read : readLine seen order line = .ok (.instruction i)) :
    (∃ op, i.mnemonic = .known op ∧ List.Forall₂ R op.signature i.operands) ∧
      i.order = order := by
  unfold readLine at read
  split at read
  · cases read
  · cases read
  · split at read
    · cases read
    · split at read <;> cases read
  · next first ts _ made =>
    split at read
    · obtain ⟨j, found, eq⟩ := map_eq_ok_iff.1 read
      cases eq
      exact forall₂_of_readInstruction each
        (fun t mem => unspaced_of_ofLine made t (List.mem_cons_of_mem _ mem)) found
    · cases read

/-- Instructions that are read have opcodes, operands that were read for the positions of those,
and consecutive order numbers. -/
theorem forall₂_of_readLines {seen : Bool} {line order : Nat} {ls : List (List Char)}
    {is : List Instruction} (read : readLines seen line order ls = .ok is) :
    (∀ i ∈ is, ∃ op, i.mnemonic = .known op ∧ List.Forall₂ R op.signature i.operands) ∧
      Program.numberFrom order is = is := by
  induction ls generalizing seen line order is with
  | nil =>
    cases read
    exact ⟨fun _ mem => absurd mem List.not_mem_nil, rfl⟩
  | cons l ls ih =>
    unfold readLines at read
    split at read
    · cases read
    · exact ih read
    · exact ih read
    · next i found =>
      split at read
      · cases read
      · next rest others =>
        cases read
        obtain ⟨fits, rfl⟩ := forall₂_of_readLine each found
        obtain ⟨fit, numbered⟩ := ih others
        exact ⟨List.forall_mem_cons.2 ⟨fits, fit⟩, congrArg (i :: ·) numbered⟩

end Reading

end Source

/-- What source text holds is valid, and numbered from 1 in the order of its lines. -/
theorem Program.valid_of_ofSource {text : String} {p : Program}
    (read : Program.ofSource text = .ok p) : p.Valid ∧ p.renumbered = p := by
  obtain ⟨is, found, rfl⟩ := map_eq_ok_iff.1 read
  obtain ⟨valid, numbered⟩ := Source.forall₂_of_readLines Source.admits_of_readOperand found
  exact ⟨valid, congrArg Program.mk numbered⟩

end FrameCode
