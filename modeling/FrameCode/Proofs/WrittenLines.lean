import FrameCode.Proofs.InputLines
import FrameCode.Proofs.Outlets
import FrameCode.Proofs.Requests
import FrameCode.Proofs.RoundTrip

/-!
# Written lines

What is written one value to a line is read back.  `readAll_written` says that reads of the types
of some values, from the text that these values were written as, yield the same values in the same
order.  A string has to fit on a line: it denotes no newline, and no carriage return at its end,
which a line does not keep.

The bytes of a text are those of its characters.  A byte below 128 is a character of its own, so
the newlines among the bytes are the newlines of the text.
-/

namespace FrameCode

namespace Text

/-! ## Bytes of a text -/

/-- The bytes of some characters. -/
def bytes (cs : List Char) : List UInt8 := cs.flatMap String.utf8EncodeChar

/-- A byte below 128 stands for the character with this code. -/
theorem toNat_eq_of_mem_utf8 {c : Char} {b : UInt8} (mem : b ∈ String.utf8EncodeChar c)
    (low : b.toNat < 128) : c.toNat = b.toNat := by
  have code : c.val.toNat = c.toNat := rfl
  have value {n : Nat} (eq : b = UInt8.ofNat n) : b.toNat = n % 256 := by
    rw [eq]
    exact UInt8.toNat_ofNat'
  unfold String.utf8EncodeChar at mem
  simp only at mem
  split at mem
  · have coded := value (List.mem_singleton.1 mem)
    omega
  · -- All bytes of a character that has more than one are 128 or more.
    exfalso
    split at mem
    · simp only [List.mem_cons, List.not_mem_nil, or_false] at mem
      rcases mem with eq | eq <;> have coded := value eq <;> omega
    · split at mem
      · simp only [List.mem_cons, List.not_mem_nil, or_false] at mem
        rcases mem with eq | eq | eq <;> have coded := value eq <;> omega
      · simp only [List.mem_cons, List.not_mem_nil, or_false] at mem
        rcases mem with eq | eq | eq | eq <;> have coded := value eq <;> omega

/-- A character below 128 is among the characters if its code is among the bytes. -/
theorem mem_of_mem_bytes {cs : List Char} {b : UInt8} (mem : b ∈ bytes cs) (low : b.toNat < 128) :
    Char.ofNat b.toNat ∈ cs := by
  obtain ⟨c, inside, mem⟩ := List.mem_flatMap.1 mem
  rw [← toNat_eq_of_mem_utf8 mem low, Char.ofNat_toNat]
  exact inside

/-- The last byte, if it is below 128, is the code of the last character. -/
theorem getLast?_of_getLast?_bytes {cs : List Char} {b : UInt8}
    (last : (bytes cs).getLast? = some b) (low : b.toNat < 128) :
    cs.getLast? = some (Char.ofNat b.toNat) := by
  rcases List.eq_nil_or_concat' cs with rfl | ⟨front, c, rfl⟩
  · cases last
  · have mem : b ∈ String.utf8EncodeChar c := by
      rw [bytes, List.flatMap_append, List.flatMap_singleton,
        List.getLast?_append_of_ne_nil _ String.utf8EncodeChar_ne_nil] at last
      exact List.mem_of_getLast? last
    rw [← toNat_eq_of_mem_utf8 mem low, Char.ofNat_toNat, List.getLast?_concat]

/-- The bytes of some characters are decoded to the text of these characters. -/
theorem fromUTF8?_bytes (cs : List Char) :
    String.fromUTF8? (bytes cs).toByteArray = some (String.ofList cs) := by
  show String.fromUTF8? cs.utf8Encode = _
  rw [← String.toByteArray_ofList, String.fromUTF8?, dif_pos (String.ofList cs).isValidUTF8]
  rfl

/-! ## Lines of a text -/

/-- The characters are a line as it is read: it ends with the newline after it, and nothing is
dropped from it. -/
def IsLine (cs : List Char) : Prop := '\n' ∉ cs ∧ cs.getLast? ≠ some '\r'

/-- A text without blanks is a line. -/
theorem isLine_of_blank_free {cs : List Char} (free : ∀ c ∈ cs, isBlank c = false) :
    IsLine cs := by
  constructor
  · intro mem
    cases free '\n' mem
  · intro last
    cases free '\r' (List.mem_of_getLast? last)

end Text

namespace Input

theorem rest_ofText (s : String) : (ofText s).rest = Text.bytes s.toList := by
  rw [ofText, String.toUTF8_eq_toByteArray, ← String.utf8Encode_toList, List.utf8Encode,
    List.data_toByteArray]
  rfl

/-- A line of a text is taken as it was written. -/
theorem next_line {cs : List Char} (line : Text.IsLine cs) (rest : List UInt8) :
    next ⟨Text.bytes (cs ++ ['\n']) ++ rest⟩ = (.text (String.ofList cs), ⟨rest⟩) := by
  have free : 10 ∉ Text.bytes cs := fun mem => line.1 (Text.mem_of_mem_bytes mem (by decide))
  have kept : dropReturn (Text.bytes cs) = Text.bytes cs :=
    if_neg fun last => line.2 (Text.getLast?_of_getLast?_bytes last (by decide))
  have ended : Text.bytes (cs ++ ['\n']) ++ rest = Text.bytes cs ++ 10 :: rest := by
    rw [Text.bytes, List.flatMap_append, List.append_assoc]
    rfl
  rw [ended, next_append free, kept, Line.ofContent, Text.fromUTF8?_bytes]

end Input

/-! ## Values on lines -/

/-- The value is written as a line: only a string can have a character that ends one.  Nil is left
out, since it cannot be read. -/
def Value.OneLine : Value → Prop
  | .int _ => True
  | .bool _ => True
  | .str stored => Text.IsLine (chars stored)
  | .nil => False

/-- What is written for the value is a line, and the value is read from it. -/
theorem Value.exists_value?_output {v : Value} (single : v.OneLine) :
    Text.IsLine v.output.toList ∧
      ∃ w, (Line.text v.output).value? v.type = some w ∧ v.same w = true := by
  cases v with
  | int n =>
    have free : ∀ c ∈ (Numeral.print n).toList, Text.isBlank c = false :=
      fun c mem => (Source.isWord_int n c mem).1
    refine ⟨Text.isLine_of_blank_free free, .int n, ?_, beq_self_eq_true n⟩
    show some (Value.int ((Numeral.decimal? (Text.trim (Numeral.print n).toList)).getD 0)) = _
    rw [Text.trim_of_blank_free free, Numeral.decimal?_print]
    rfl
  | bool b =>
    have named : Source.isName (Value.boolName b).toList = true := by
      cases b <;> decide
    have free : ∀ c ∈ (Value.boolName b).toList, Text.isBlank c = false :=
      fun c mem => ((Source.isWord_of_isName named).2 c mem).1
    refine ⟨Text.isLine_of_blank_free free, .bool b, ?_, beq_self_eq_true b⟩
    cases b <;> decide
  | str stored =>
    have text : (Value.str stored).output.toList = Value.chars stored := String.toList_ofList
    refine ⟨text ▸ single, .ofChars (Value.str stored).output.toList, rfl, ?_⟩
    rw [text]
    exact beq_iff_eq.2 (Value.chars_ofList_encode _).symm
  | nil => cases single

/-- The text of some values, each with a newline after it. -/
def Value.lines (vs : List Value) : List Char := vs.flatMap fun v => v.output.toList ++ ['\n']

/-! ## Writing -/

namespace Outlet

/-- Writes what printing a value produces, and a newline after it. -/
def writeLine (o : Outlet) (v : Value) : Outlet := ((o.write v.output).2.write "\n").2

variable {o : Outlet}

/-- A text is taken after all earlier ones. -/
theorem Unfailing.text_write (unfailing : o.Unfailing) (s : String) :
    (o.write s).2.text = o.text ++ s := by
  unfold Outlet.write
  rw [unfailing.write]
  simp [text, String.join_append]

theorem Unfailing.writeLine (unfailing : o.Unfailing) (v : Value) :
    (o.writeLine v).Unfailing ∧
      (o.writeLine v).text.toList = o.text.toList ++ (v.output.toList ++ ['\n']) := by
  have first : (o.write v.output).2.Unfailing :=
    unfailing.of_sameRules (o.sameRules_write v.output)
  refine ⟨first.of_sameRules (Outlet.sameRules_write _ "\n"), ?_⟩
  rw [Outlet.writeLine, first.text_write, unfailing.text_write]
  simp

theorem Unfailing.writeLines (unfailing : o.Unfailing) (vs : List Value) :
    (vs.foldl Outlet.writeLine o).text.toList =
      o.text.toList ++ Value.lines vs := by
  induction vs generalizing o with
  | nil => exact (List.append_nil _).symm
  | cons v vs ih =>
    obtain ⟨later, text⟩ := unfailing.writeLine v
    rw [List.foldl_cons, ih later, text, List.append_assoc]
    rfl

end Outlet

/-! ## Reading back -/

namespace Machine

/-- The values that reads of the given types leave in a variable, one read after the other; `none`
if one of them fails. -/
def readAll (m : Machine) (p : Place) : List ValueType → Option (List Value)
  | [] => some []
  | t :: types =>
    match m.read p t.name with
    | .next k =>
      match k.memory.value p with
      | .ok v => (k.readAll p types).map (v :: ·)
      | .error _ => none
    | .halted _ _ => none
    | .failed _ _ => none

/-- A read assigns the value of a line to a variable that is there. -/
theorem read_of_value? {m : Machine} {p : Place} {c : Cell} {t : ValueType} {v : Value}
    (defined : m.memory.read p = .ok c) (valued : m.input.next.1.value? t = some v) :
    ∃ k, m.read p t.name = .next k ∧ k.memory.read p = .ok ⟨p.name, some v⟩ ∧
      k.input = m.input.next.2 := by
  have line : (ValueType.ofName? t.name).bind m.input.next.1.value? = some v := by
    rw [Source.ofName?_name]
    exact valued
  obtain ⟨after, written, cell⟩ := Memory.exists_write defined v
  rw [read_eq, line]
  simp only [store, readLine_memory, written]
  exact ⟨_, rfl, cell, readLine_input m⟩

/-- Reads take the lines that some values were written on, one line for each. -/
theorem readAll_lines {vs : List Value} (single : ∀ v ∈ vs, v.OneLine) {m : Machine} {p : Place}
    {c : Cell} (defined : m.memory.read p = .ok c)
    (input : m.input.rest = Text.bytes (Value.lines vs)) :
    ∃ ws, m.readAll p (vs.map Value.type) = some ws ∧
      List.Forall₂ (fun v w => v.same w = true) vs ws := by
  induction vs generalizing m c with
  | nil => exact ⟨[], rfl, .nil⟩
  | cons v vs ih =>
    obtain ⟨line, w, valued, same⟩ := Value.exists_value?_output (single v List.mem_cons_self)
    have parted : m.input =
        ⟨Text.bytes (v.output.toList ++ ['\n']) ++ Text.bytes (Value.lines vs)⟩ := by
      rw [Text.bytes, Text.bytes, ← List.flatMap_append]
      exact congrArg Input.mk input
    have next := Input.next_line line (Text.bytes (Value.lines vs))
    rw [← parted, String.ofList_toList] at next
    have valued : m.input.next.1.value? v.type = some w := by
      rw [next]
      exact valued
    obtain ⟨k, read, cell, left⟩ := read_of_value? defined valued
    have others : k.input.rest = Text.bytes (Value.lines vs) := by
      rw [left, next]
    obtain ⟨ws, later, sames⟩ :=
      ih (fun u mem => single u (List.mem_cons_of_mem _ mem)) cell others
    have value : k.memory.value p = .ok w := by
      rw [Memory.value, cell]
    refine ⟨w :: ws, ?_, .cons same sames⟩
    rw [List.map_cons, readAll, read]
    simp only [value, later]
    rfl

/-- **What is written is read back.**  If some integers, truth values and strings that fit on
a line are printed, each with a newline after it, and a machine has the text as its input,
then as many reads of their types assign the same values in the same order to any variable
that is there. -/
theorem readAll_written {vs : List Value} (single : ∀ v ∈ vs, v.OneLine) {m : Machine} {p : Place}
    {c : Cell} (defined : m.memory.read p = .ok c)
    (input : m.input = .ofText (vs.foldl Outlet.writeLine .reliable).text) :
    ∃ ws, m.readAll p (vs.map Value.type) = some ws ∧
      List.Forall₂ (fun v w => v.same w = true) vs ws := by
  have unfailing : Outlet.reliable.Unfailing := ⟨fun _ => rfl, fun _ _ => rfl⟩
  refine readAll_lines single defined ?_
  rw [input, Input.rest_ofText, unfailing.writeLines]
  rfl

/-- The least integer, a truth value and a string with blanks at both ends and a carriage return
inside, which is stored with codes. -/
theorem readAll_written_blanks :
    let x : Place := ⟨.global, "x"⟩
    let vs : List Value := [.int Int64.minValue, .bool true, .str "\\032\\009ž\\013\\035\\032"]
    let text := (vs.foldl Outlet.writeLine .reliable).text
    ∃ m : Machine, m.input = .ofText text ∧ text = "-9223372036854775808\ntrue\n \tž\r# \n" ∧
      ∃ ws, m.readAll x [.int, .bool, .string] = some ws ∧
        List.Forall₂ (fun v w => v.same w = true) vs ws := by
  intro x vs text
  have single : ∀ v ∈ vs, v.OneLine := by
    intro v mem
    simp only [vs, List.mem_cons, List.not_mem_nil, or_false] at mem
    rcases mem with rfl | rfl | rfl
    · trivial
    · trivial
    · show '\n' ∉ Value.chars _ ∧ (Value.chars _).getLast? ≠ some '\r'
      decide
  obtain ⟨memory, -, defined⟩ : ∃ memory, Memory.empty.define x = (.ok (), memory) ∧
      memory.read x = .ok ⟨"x", none⟩ := ⟨_, rfl, rfl⟩
  let m : Machine := { new ⟨[]⟩ (.ofText text) .reliable .reliable with memory }
  have written : text = "-9223372036854775808\ntrue\n \tž\r# \n" := by decide
  exact ⟨m, rfl, written, readAll_written (m := m) single defined rfl⟩

end Machine

end FrameCode
