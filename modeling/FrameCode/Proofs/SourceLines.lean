import FrameCode.Proofs.ValidProgram

/-!
# Source text line by line

A line of source text counts by its words alone, `wordsOf`.  `ofWord?_eq_none_iff` and
`ofWord?_eq_header_iff` say which words are no token and which are the header, `readLine_cases`
what a line holds that is read, and `readLines_cons_of_ok` and `readLines_cons_of_error` what one
line does to the reading of all.

`ofSource_line_by_line` puts them together: the first line with a fault decides how a text is
refused, whatever follows it, and an accepted text has an instruction for each line that is
neither blank nor the header.
-/

namespace FrameCode

namespace Source

/-! ## Words of lines -/

/-- The words of a line before its comment. -/
def wordsOf (line : List Char) : List (List Char) := Text.words (Token.uncommented line)

/-- The words of each line of a text. -/
def lineWords (text : String) : List (List (List Char)) := (Text.lines text.toList).map wordsOf

/-- The word is the header, in any case of its letters. -/
def IsHeader (w : List Char) : Prop := Text.foldCase (String.ofList w) = Text.foldCase header

instance (w : List Char) : Decidable (IsHeader w) := inferInstanceAs (Decidable (_ = _))

/-- The word starts with a dot without being the header, so it is no token. -/
def IsStray (w : List Char) : Prop := w.head? = some '.' ∧ ¬IsHeader w

instance (w : List Char) : Decidable (IsStray w) := inferInstanceAs (Decidable (_ ∧ _))

theorem ofWord?_of_header {w : List Char} (named : IsHeader w) : Token.ofWord? w = some .header :=
  if_pos named

theorem ofWord?_of_stray {w : List Char} (stray : IsStray w) : Token.ofWord? w = none :=
  (if_neg stray.2).trans (if_pos stray.1)

/-- A word that is neither the header nor stray is split at its first `@`, if it has one. -/
theorem ofWord?_of_plain {w : List Char} (other : ¬IsHeader w) (plain : ¬IsStray w) :
    Token.ofWord? w =
      match Text.cut '@' w with
      | some (tag, body) => some (.tagged (String.ofList tag) (String.ofList body))
      | none => some (.word (String.ofList w)) :=
  (if_neg other).trans (if_neg fun dot => plain ⟨dot, other⟩)

theorem ofWord?_eq_none_iff {w : List Char} : Token.ofWord? w = none ↔ IsStray w := by
  refine ⟨fun refused => ?_, ofWord?_of_stray⟩
  by_contra plain
  by_cases named : IsHeader w
  · rw [ofWord?_of_header named] at refused
    cases refused
  · rw [ofWord?_of_plain named plain] at refused
    split at refused <;> cases refused

theorem ofWord?_eq_header_iff {w : List Char} : Token.ofWord? w = some .header ↔ IsHeader w := by
  refine ⟨fun read => ?_, ofWord?_of_header⟩
  by_contra other
  by_cases stray : IsStray w
  · rw [ofWord?_of_stray stray] at read
    cases read
  · rw [ofWord?_of_plain other stray] at read
    split at read <;> cases read

theorem ofWords_cons_of_some {w : List Char} {t : Token} (first : Token.ofWord? w = some t)
    (ws : List (List Char)) : Token.ofWords (w :: ws) = (Token.ofWords ws).map (t :: ·) := by
  rw [Token.ofWords, first]
  cases Token.ofWords ws <;> rfl

theorem ofWords_cons_of_none {w : List Char} (first : Token.ofWord? w = none)
    (ws : List (List Char)) :
    Token.ofWords (w :: ws) = .error (String.ofList w) := by
  rw [Token.ofWords, first]

/-- The tokens of words are the tokens of each of them. -/
theorem ofWords_eq_ok_iff {ws : List (List Char)} {ts : List Token} :
    Token.ofWords ws = .ok ts ↔ List.Forall₂ (fun w t => Token.ofWord? w = some t) ws ts := by
  induction ws generalizing ts with
  | nil =>
    constructor
    · rintro ⟨⟩
      exact .nil
    · rintro ⟨⟩
      rfl
  | cons w ws ih =>
    constructor
    · intro made
      rcases first : Token.ofWord? w with - | t
      · rw [ofWords_cons_of_none first] at made
        cases made
      · rw [ofWords_cons_of_some first] at made
        obtain ⟨others, read, rfl⟩ := map_eq_ok_iff.1 made
        exact .cons first (ih.1 read)
    · rintro (_ | ⟨first, others⟩)
      rw [ofWords_cons_of_some first, ih.2 others]
      rfl

/-- Words are refused for the first stray one. -/
theorem ofWords_eq_error_iff {ws : List (List Char)} {text : String} :
    Token.ofWords ws = .error text ↔ ∃ before w after, ws = before ++ w :: after ∧
      (∀ v ∈ before, ¬IsStray v) ∧ IsStray w ∧ text = String.ofList w := by
  induction ws with
  | nil =>
    refine ⟨nofun, ?_⟩
    rintro ⟨before, w, after, split, -⟩
    cases before <;> cases split
  | cons w ws ih =>
    rcases first : Token.ofWord? w with - | t
    · have stray := ofWord?_eq_none_iff.1 first
      rw [ofWords_cons_of_none first]
      constructor
      · rintro ⟨⟩
        exact ⟨[], w, ws, rfl, fun _ mem => absurd mem List.not_mem_nil, stray, rfl⟩
      · rintro ⟨before, v, after, split, plain, -, rfl⟩
        cases before with
        | nil =>
          cases split
          rfl
        | cons u before =>
          cases split
          exact absurd stray (plain w List.mem_cons_self)
    · have kept : ¬IsStray w := fun stray => by
        rw [ofWord?_of_stray stray] at first
        cases first
      rw [ofWords_cons_of_some first, map_eq_error_iff, ih]
      constructor
      · rintro ⟨before, v, after, rfl, plain, here⟩
        exact ⟨w :: before, v, after, rfl, List.forall_mem_cons.2 ⟨kept, plain⟩, here⟩
      · rintro ⟨before, v, after, split, plain, here⟩
        cases before with
        | nil =>
          cases split
          exact absurd here.1 kept
        | cons u before =>
          cases split
          exact ⟨before, v, after, rfl, (List.forall_mem_cons.1 plain).2, here⟩

/-- Words are tokens if none of them is stray. -/
theorem exists_ofWords_iff {ws : List (List Char)} :
    (∃ ts, Token.ofWords ws = .ok ts) ↔ ∀ w ∈ ws, ¬IsStray w := by
  constructor
  · rintro ⟨ts, made⟩
    have read := ofWords_eq_ok_iff.1 made
    clear made
    induction read with
    | nil => exact fun _ mem => absurd mem List.not_mem_nil
    | cons first _ ih =>
      refine List.forall_mem_cons.2 ⟨fun stray => ?_, ih⟩
      rw [ofWord?_of_stray stray] at first
      cases first
  · intro plain
    rcases made : Token.ofWords ws with text | ts
    · obtain ⟨before, w, after, rfl, -, stray, -⟩ := ofWords_eq_error_iff.1 made
      exact absurd stray (plain w List.mem_append_cons_self)
    · exact ⟨ts, rfl⟩

/-! ## One line -/

/-- The line is neither blank nor the header. -/
def isBody (line : List Char) : Bool := (wordsOf line).head?.any fun w => !decide (IsHeader w)

/-- The line is read as the instruction, with the given order number. -/
def Holds (order : Nat) (line : List Char) (i : Instruction) : Prop :=
  ∃ t ts, Token.ofLine line = .ok (t :: ts) ∧ readInstruction order t ts = .ok i

/-- Lines with the same words are read alike. -/
theorem readLine_congr {l k : List Char} (same : wordsOf l = wordsOf k) (seen : Bool)
    (order : Nat) :
    readLine seen order l = readLine seen order k := by
  have tokens : Token.ofLine l = Token.ofLine k := congrArg Token.ofWords same
  rw [readLine, tokens]
  rfl

theorem readLine_of_blank {l : List Char} (blank : wordsOf l = []) (seen : Bool)
    (order : Nat) : readLine seen order l = .ok .blank := by
  have tokens : Token.ofLine l = .ok [] := congrArg Token.ofWords blank
  rw [readLine, tokens]

/-- A line that starts with another token than the header is an instruction after the header. -/
theorem readLine_of_instruction {l : List Char} {t : Token} {ts : List Token}
    (made : Token.ofLine l = .ok (t :: ts)) (other : t ≠ .header) {seen : Bool} {order : Nat} :
    readLine seen order l =
      if seen then (readInstruction order t ts).map .instruction else .error .missingHeader := by
  rw [readLine, made]
  cases t with
  | header => exact absurd rfl other
  | word => rfl
  | tagged => rfl

/-- What a line holds that is read: nothing, the header before any instruction, or an instruction
after the header. -/
theorem readLine_cases {seen : Bool} {order : Nat} {l : List Char} {content : Content}
    (read : readLine seen order l = .ok content) :
    (content = .blank ∧ wordsOf l = []) ∨
      (content = .header ∧ seen = false ∧ ∃ w, wordsOf l = [w] ∧ IsHeader w) ∨
      ∃ i, content = .instruction i ∧ seen = true ∧ isBody l = true ∧ Holds order l i := by
  unfold readLine at read
  split at read
  · cases read
  · next made =>
    cases read
    exact .inl ⟨rfl, List.forall₂_nil_right_iff.1 (ofWords_eq_ok_iff.1 made)⟩
  · next rest made =>
    split at read
    · cases read
    · next unseen =>
      split at read
      · cases read
        obtain ⟨w, ws, first, others, words⟩ :=
          List.forall₂_cons_right_iff.1 (ofWords_eq_ok_iff.1 made)
        have alone := List.forall₂_nil_right_iff.1 others
        subst alone
        exact .inr (.inl ⟨rfl, Bool.eq_false_iff.2 unseen, w, words,
          ofWord?_eq_header_iff.1 first⟩)
      · cases read
  · next t ts other made =>
    split at read
    · next seen =>
      obtain ⟨i, found, rfl⟩ := map_eq_ok_iff.1 read
      obtain ⟨w, ws, first, -, words⟩ := List.forall₂_cons_right_iff.1 (ofWords_eq_ok_iff.1 made)
      have words : wordsOf l = w :: ws := words
      have unnamed : ¬IsHeader w := fun named => by
        rw [ofWord?_of_header named] at first
        exact other (Option.some.inj first).symm
      have body : isBody l = true := by
        simp [isBody, words, unnamed]
      exact .inr (.inr ⟨i, rfl, seen, body, t, ts, made, found⟩)
    · cases read

/-! ## All lines -/

namespace Content

/-- The header has been seen after a line with this content. -/
def seenAfter (seen : Bool) : Content → Bool
  | header => true
  | _ => seen

/-- The instructions on a line with this content. -/
def instructions : Content → List Instruction
  | instruction i => [i]
  | _ => []

end Content

variable {seen : Bool} {line order : Nat} {l : List Char} {ls : List (List Char)}

/-- A line that is read hands on whether the header was seen and how many
instructions there are. -/
theorem readLines_cons_of_ok {content : Content} (read : readLine seen order l = .ok content) :
    readLines seen line order (l :: ls) =
      (readLines (content.seenAfter seen) (line + 1) (order + content.instructions.length) ls).map
        (content.instructions ++ ·) := by
  have unchanged (r : Except SourceError (List Instruction)) : r = r.map ([] ++ ·) := by
    cases r <;> rfl
  rw [readLines, read]
  cases content with
  | blank => exact unchanged _
  | header => exact unchanged _
  | instruction i =>
    show _ = (readLines seen (line + 1) (order + 1) ls).map (i :: ·)
    cases readLines seen (line + 1) (order + 1) ls <;> rfl

/-- A line with a fault ends the reading. -/
theorem readLines_cons_of_error {cause : LineFault}
    (refused : readLine seen order l = .error cause) :
    readLines seen line order (l :: ls) = .error ⟨line, cause⟩ := by
  rw [readLines, refused]

theorem readLines_cons_of_blank (blank : wordsOf l = []) :
    readLines seen line order (l :: ls) = readLines seen (line + 1) order ls := by
  rw [readLines, readLine_of_blank blank]

theorem readLines_cons_eq_ok_iff {is : List Instruction} :
    readLines seen line order (l :: ls) = .ok is ↔
      ∃ content js, readLine seen order l = .ok content ∧
        readLines (content.seenAfter seen) (line + 1)
          (order + content.instructions.length) ls = .ok js ∧
        is = content.instructions ++ js := by
  constructor
  · intro read
    rcases first : readLine seen order l with cause | content
    · rw [readLines_cons_of_error first] at read
      cases read
    · rw [readLines_cons_of_ok first] at read
      obtain ⟨js, others, rfl⟩ := map_eq_ok_iff.1 read
      exact ⟨content, js, rfl, others, rfl⟩
  · rintro ⟨content, js, first, others, rfl⟩
    rw [readLines_cons_of_ok first, others]
    rfl

theorem readLines_congr {ks : List (List Char)} (same : ls.map wordsOf = ks.map wordsOf) :
    readLines seen line order ls = readLines seen line order ks := by
  induction ls generalizing seen line order ks with
  | nil =>
    cases ks with
    | nil => rfl
    | cons => cases same
  | cons l ls ih =>
    cases ks with
    | nil => cases same
    | cons k ks =>
      obtain ⟨first, others⟩ := List.cons.inj same
      have alike := readLine_congr first seen order
      rcases read : readLine seen order k with cause | content
      · rw [readLines_cons_of_error (alike.trans read), readLines_cons_of_error read]
      · rw [readLines_cons_of_ok (alike.trans read), readLines_cons_of_ok read, ih others]

/-- Lines are refused at one of them: the lines before it are read, and what follows it
does not matter. -/
theorem readLines_eq_error {e : SourceError} (failed : readLines seen line order ls = .error e) :
    ∃ before l after, ls = before ++ l :: after ∧ e.line = line + before.length ∧
      (∃ is, readLines seen line order before = .ok is) ∧
      ∀ rest, readLines seen line order (before ++ l :: rest) = .error e := by
  induction ls generalizing seen line order with
  | nil => cases failed
  | cons l ls ih =>
    rcases read : readLine seen order l with cause | content
    · rw [readLines_cons_of_error read] at failed
      cases failed
      exact ⟨[], l, ls, rfl, rfl, ⟨[], rfl⟩, fun rest => readLines_cons_of_error read⟩
    · rw [readLines_cons_of_ok read, map_eq_error_iff] at failed
      obtain ⟨before, k, after, rfl, number, ⟨is, accepted⟩, refused⟩ := ih failed
      refine ⟨l :: before, k, after, rfl, ?_, ⟨content.instructions ++ is, ?_⟩, fun rest => ?_⟩
      · rw [number, List.length_cons]
        omega
      · rw [readLines_cons_of_ok read, accepted]
        rfl
      · rw [List.cons_append, readLines_cons_of_ok read, refused rest]
        rfl

/-- The first of some lines that are read hold the first of their instructions. -/
theorem readLines_take {is : List Instruction}
    (read : readLines seen line order ls = .ok is) (k : Nat) :
    ∃ js, readLines seen line order (ls.take k) = .ok js ∧ js <+: is := by
  induction ls generalizing seen line order is k with
  | nil =>
    rw [List.take_nil]
    exact ⟨is, read, List.prefix_rfl⟩
  | cons l ls ih =>
    cases k with
    | zero => exact ⟨[], rfl, List.nil_prefix⟩
    | succ k =>
      obtain ⟨content, rest, first, others, rfl⟩ := readLines_cons_eq_ok_iff.1 read
      obtain ⟨js, taken, starts⟩ := ih others k
      refine ⟨content.instructions ++ js, ?_, (List.prefix_append_right_inj _).2 starts⟩
      rw [List.take_succ_cons, readLines_cons_of_ok first, taken]
      rfl

/-- The lines that are read hold one instruction each, blank lines and the header left out. -/
theorem readLines_body {is : List Instruction}
    (read : readLines seen line order ls = .ok is) (j : Nat) :
    Option.Rel (fun l i => i.order = j + order ∧ Holds (j + order) l i)
      (ls.filter isBody)[j]? is[j]? := by
  induction ls generalizing seen line order is j with
  | nil =>
    cases read
    exact .none
  | cons l ls ih =>
    obtain ⟨content, js, first, others, rfl⟩ := readLines_cons_eq_ok_iff.1 read
    have later := ih others
    rcases readLine_cases first with
      ⟨rfl, words⟩ | ⟨rfl, -, w, words, named⟩ | ⟨i, rfl, -, body, held⟩
    · rw [List.filter_cons_of_neg (by simp [isBody, words])]
      exact later j
    · rw [List.filter_cons_of_neg (by simp [isBody, words, named])]
      exact later j
    · rw [List.filter_cons_of_pos body]
      cases j with
      | zero =>
        have numbered := (forall₂_of_readLine (R := fun _ _ => True) (fun _ _ => trivial) first).2
        rw [Nat.zero_add]
        exact .some ⟨numbered, held⟩
      | succ j =>
        rw [Nat.add_right_comm j 1 order]
        exact later j

end Source

/-! ## Texts -/

namespace Program

/-- The text made of the first `k` lines of a text. -/
def firstLines (k : Nat) (text : String) : String :=
  String.ofList (((Text.lines text.toList).take k).flatMap (· ++ ['\n']))

theorem lines_firstLines (k : Nat) (text : String) :
    Text.lines (firstLines k text).toList = (Text.lines text.toList).take k := by
  rw [firstLines, String.toList_ofList]
  exact Text.lines_terminated fun l mem =>
    Text.newline_not_mem_of_mem_lines (List.mem_of_mem_take mem)

theorem ofSource_eq_error_iff {text : String} {e : SourceError} :
    ofSource text = .error e ↔ Source.readLines false 1 1 (Text.lines text.toList) = .error e :=
  map_eq_error_iff

/-- **Source text is read line by line.**  A text that is refused is refused at one of its lines:
the text made of the lines before it is accepted, and every text with the same words on its lines
up to this one is refused in the same way.  Of a text that is accepted, the first lines hold the
first instructions, and the instruction with the number `j` is the one on the `j`-th line that is
neither blank nor the header. -/
theorem ofSource_line_by_line (text : String) :
    (∀ e, ofSource text = .error e →
      1 ≤ e.line ∧ e.line ≤ (Text.lines text.toList).length ∧
        (∃ q, ofSource (firstLines (e.line - 1) text) = .ok q) ∧
        ∀ other, (Source.lineWords other).take e.line = (Source.lineWords text).take e.line →
          ofSource other = .error e) ∧
      ∀ p, ofSource text = .ok p →
        (∀ k, ∃ q, ofSource (firstLines k text) = .ok q ∧ q.instructions <+: p.instructions) ∧
          ∀ j, Option.Rel (fun l i => i.order = j + 1 ∧ Source.Holds (j + 1) l i)
            ((Text.lines text.toList).filter Source.isBody)[j]? p.instructions[j]? := by
  constructor
  · intro e failed
    obtain ⟨before, l, after, split, number, ⟨is, accepted⟩, refused⟩ :=
      Source.readLines_eq_error (ofSource_eq_error_iff.1 failed)
    refine ⟨by omega, ?_, ⟨⟨is⟩, ?_⟩, fun other same => ?_⟩
    · rw [split, List.length_append, List.length_cons]
      omega
    · have taken : (Text.lines text.toList).take (e.line - 1) = before := by
        rw [split, number, Nat.add_sub_cancel_left]
        exact List.take_left
      rw [ofSource, lines_firstLines, taken, accepted]
      rfl
    · -- The other text has other lines, but its first ones count the same.
      have start : (Source.lineWords text).take e.line = (before ++ [l]).map Source.wordsOf := by
        rw [Source.lineWords, split, number, List.append_cons, List.map_append, Nat.add_comm]
        exact List.take_left' (by simp)
      have alike : Source.lineWords other =
          (before ++ l :: (Text.lines other.toList).drop e.line).map Source.wordsOf := by
        rw [List.append_cons, List.map_append, ← start, ← same, Source.lineWords, List.map_drop]
        exact (List.take_append_drop _ _).symm
      exact ofSource_eq_error_iff.2 ((Source.readLines_congr alike).trans (refused _))
  · intro p read
    obtain ⟨is, found, rfl⟩ := map_eq_ok_iff.1 read
    refine ⟨fun k => ?_, Source.readLines_body found⟩
    obtain ⟨js, taken, starts⟩ := Source.readLines_take found k
    refine ⟨⟨js⟩, ?_, starts⟩
    rw [ofSource, lines_firstLines, taken]
    rfl

/-- A text with an unknown opcode on its fourth line, the same lines with other line ends and
comments, and a text whose second instruction stands on its fifth line. -/
theorem ofSource_line_by_line_returns :
    let text := ".IPPcode24\n\nBREAK # x\nFOO\nBREAK\n"
    let other := ".IPPcode24 # x\r\n \r\n  BREAK\r\nFOO"
    let e : SourceError := ⟨4, .unknownOpcode "FOO"⟩
    let accepted := ".IPPcode24\n# x\nBREAK\n\nPUSHFRAME"
    let p : Program := ⟨[⟨.known .break, [], 1⟩, ⟨.known .pushFrame, [], 2⟩]⟩
    ofSource text = .error e ∧ (∃ q, ofSource (firstLines 3 text) = .ok q) ∧
      ofSource other = .error e ∧
      ofSource accepted = .ok p ∧
      (∃ q, ofSource (firstLines 3 accepted) = .ok q ∧ q.instructions <+: p.instructions) ∧
      Option.Rel (fun l i => i.order = 2 ∧ Source.Holds 2 l i) (some "PUSHFRAME".toList)
        p.instructions[1]? := by
  intro text other e accepted p
  have failed : ofSource text = .error e := by decide
  have read : ofSource accepted = .ok p := by decide
  obtain ⟨-, -, before, alike⟩ := (ofSource_line_by_line text).1 e failed
  obtain ⟨starts, held⟩ := (ofSource_line_by_line accepted).2 p read
  have same : (Source.lineWords other).take 4 = (Source.lineWords text).take 4 := by decide
  have body : ((Text.lines accepted.toList).filter Source.isBody)[1]? =
    some "PUSHFRAME".toList := by decide
  refine ⟨failed, before, alike other same, read, starts 3, ?_⟩
  rw [← body]
  exact held 1

end Program

end FrameCode
