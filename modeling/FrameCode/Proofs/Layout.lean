import FrameCode.Proofs.RoundTrip
import FrameCode.Proofs.SourceLines
import Mathlib.Data.List.TakeWhile

/-!
# The layout of source text

Comments, blanks between words, blank lines and the case of the letters in headers and in first
words are the layout of a text.  `readLine_relettered` says that a line with its words in another
case holds the same, `readLines_eq_ok_iff_written` that blank lines can be dropped, and
`ofSource_relaid` that a text is read as the same program in every layout.
-/

namespace FrameCode

namespace Source

/-! ## The case of letters -/

/-- The texts are the same but for the case of their letters. -/
def Recased (w v : List Char) : Prop := w.map Char.toUpper = v.map Char.toUpper

instance (w v : List Char) : Decidable (Recased w v) := inferInstanceAs (Decidable (_ = _))

theorem isBlank_toUpper (c : Char) : Text.isBlank c.toUpper = Text.isBlank c := by
  rw [Bool.eq_iff_iff]
  simp only [Text.isBlank, Bool.or_eq_true, Bool.and_eq_true, decide_eq_true_eq,
    beq_iff_eq, toNat_toUpper]
  split <;> omega

namespace Recased

variable {w v : List Char}

theorem symm (same : Recased w v) : Recased v w := Eq.symm same

theorem ne_nil (same : Recased w v) (nonempty : w ≠ []) : v ≠ [] := by
  rintro rfl
  exact nonempty (List.map_eq_nil_iff.1 same)

/-- A character of one text stands in the other one, in upper or lower case. -/
theorem exists_mem (same : Recased w v) {d : Char} (mem : d ∈ v) :
    ∃ c ∈ w, c.toUpper = d.toUpper := by
  have mem : d.toUpper ∈ w.map Char.toUpper := same ▸ List.mem_map_of_mem mem
  exact List.mem_map.1 mem

/-- A character that is no letter stands in both texts or in none. -/
theorem mem_iff (same : Recased w v) {mark : Char} (caseless : mark.isAlpha = false) :
    mark ∈ w ↔ mark ∈ v := by
  have iff (u : List Char) : mark ∈ u ↔ mark ∈ u.map Char.toUpper := by
    simp only [List.mem_map, toUpper_eq_iff caseless, exists_eq_right]
  rw [iff, iff v, same]

theorem isWord (same : Recased w v) (word : IsWord w) : IsWord v := by
  refine ⟨same.ne_nil word.1, fun d mem => ⟨?_, ?_⟩⟩
  · obtain ⟨c, inside, eq⟩ := same.exists_mem mem
    rw [← isBlank_toUpper, ← eq, isBlank_toUpper]
    exact (word.2 c inside).1
  · rintro rfl
    exact (word.2 '#' ((same.mem_iff rfl).2 mem)).2 rfl

theorem foldCase_eq (same : Recased w v) :
    Text.foldCase (String.ofList w) = Text.foldCase (String.ofList v) := by
  rw [Text.foldCase, Text.foldCase, String.toList_ofList, String.toList_ofList, same]

theorem isHeader_iff (same : Recased w v) : IsHeader w ↔ IsHeader v := by
  rw [IsHeader, IsHeader, same.foldCase_eq]

theorem isStray_iff (same : Recased w v) : IsStray w ↔ IsStray v := by
  have iff (u : List Char) : u.head? = some '.' ↔ (u.map Char.toUpper).head? = some '.' := by
    cases u with
    | nil => rfl
    | cons c u => simp [toUpper_eq_iff (show '.'.isAlpha = false from rfl)]
  rw [IsStray, IsStray, same.isHeader_iff, iff, iff v, same]

/-- A word in another case is a token of the same kind, with the same opcode if it names one. -/
theorem ofWord? (same : Recased w v) {t : Token} (read : Token.ofWord? w = some t) :
    ∃ s, Token.ofWord? v = some s ∧ (t = .header ↔ s = .header) ∧ opcode? t = opcode? s := by
  have plain : ¬IsStray w := fun stray => by
    rw [ofWord?_of_stray stray] at read
    cases read
  by_cases named : IsHeader w
  · rw [ofWord?_of_header named] at read
    cases read
    exact ⟨.header, ofWord?_of_header (same.isHeader_iff.1 named), Iff.rfl, rfl⟩
  · rw [ofWord?_of_plain named plain] at read
    rw [ofWord?_of_plain (mt same.isHeader_iff.2 named) (mt same.isStray_iff.2 plain)]
    have divided : '@' ∈ w ↔ '@' ∈ v := same.mem_iff rfl
    rcases left : Text.cut '@' w with - | ⟨tag, body⟩
    · rw [left] at read
      cases read
      rw [Text.cut_eq_none_iff.2 (mt divided.2 (Text.cut_eq_none_iff.1 left))]
      refine ⟨_, rfl, by simp, ?_⟩
      rw [opcode?, opcode?, Opcode.ofMnemonic?, Opcode.ofMnemonic?, same.foldCase_eq]
    · rw [left] at read
      cases read
      rcases right : Text.cut '@' v with - | ⟨tag', body'⟩
      · have absent := mt divided.1 (Text.cut_eq_none_iff.1 right)
        rw [Text.cut_eq_none_iff.2 absent] at left
        cases left
      · exact ⟨_, rfl, by simp, rfl⟩

end Recased

/-! ## Lines with words in another case -/

/-- The words are the same, or headers in any case. -/
def SameWord (w v : List Char) : Prop := w = v ∨ IsHeader w ∧ Recased w v

namespace SameWord

variable {w v : List Char}

theorem symm : SameWord w v → SameWord v w
  | .inl eq => .inl eq.symm
  | .inr ⟨named, same⟩ => .inr ⟨same.isHeader_iff.1 named, same.symm⟩

theorem isWord (same : SameWord w v) (word : IsWord w) : IsWord v := by
  rcases same with rfl | ⟨-, same⟩
  · exact word
  · exact same.isWord word

theorem ofWord?_eq (same : SameWord w v) : Token.ofWord? w = Token.ofWord? v := by
  rcases same with rfl | ⟨named, same⟩
  · rfl
  · rw [ofWord?_of_header named, ofWord?_of_header (same.isHeader_iff.1 named)]

end SameWord

/-- The words are the same but for the case of the letters in the first one and in headers. -/
inductive Relettered : List (List Char) → List (List Char) → Prop where
  | line {w v : List Char} {ws vs : List (List Char)} (first : Recased w v)
      (others : List.Forall₂ SameWord ws vs) : Relettered (w :: ws) (v :: vs)

/-- What a relation keeps holds on both sides of it. -/
theorem forall_mem_of_forall₂ {α : Type} {R : α → α → Prop} {p : α → Prop} {as bs : List α}
    (kept : ∀ {a b}, R a b → p a → p b) (related : List.Forall₂ R as bs) (holds : ∀ a ∈ as, p a) :
    ∀ b ∈ bs, p b := by
  have both := (List.forall₂_and_left as bs).2 ⟨holds, related⟩
  have passed : List.Forall₂ (fun b _ => p b ∧ True) bs as :=
    (both.imp fun _ _ ⟨here, same⟩ => ⟨kept same here, trivial⟩).flip
  exact ((List.forall₂_and_left bs as).1 passed).1

namespace Relettered

variable {ws vs : List (List Char)}

theorem symm (same : Relettered ws vs) : Relettered vs ws := by
  obtain ⟨first, others⟩ := same
  exact .line first.symm (others.flip.imp fun _ _ => SameWord.symm)

theorem isWord (same : Relettered ws vs) (word : ∀ w ∈ ws, IsWord w) : ∀ v ∈ vs, IsWord v := by
  obtain ⟨first, others⟩ := same
  obtain ⟨word, words⟩ := List.forall_mem_cons.1 word
  exact List.forall_mem_cons.2
    ⟨first.isWord word, forall_mem_of_forall₂ (p := IsWord) SameWord.isWord others words⟩

/-- The tokens of the words differ in the first one only, which is of the same kind. -/
theorem ofWords (same : Relettered ws vs) {ts : List Token} (made : Token.ofWords ws = .ok ts) :
    ∃ t s rest, ts = t :: rest ∧ Token.ofWords vs = .ok (s :: rest) ∧
      (t = .header ↔ s = .header) ∧
      opcode? t = opcode? s := by
  obtain ⟨first, others⟩ := same
  obtain ⟨t, rest, here, later, rfl⟩ := List.forall₂_cons_left_iff.1 (ofWords_eq_ok_iff.1 made)
  obtain ⟨s, read, kind, opcode⟩ := first.ofWord? here
  refine ⟨t, s, rest, rfl, ofWords_eq_ok_iff.2 (.cons read ?_), kind, opcode⟩
  clear made
  induction others generalizing rest with
  | nil => exact later
  | cons same _ ih =>
    obtain ⟨u, us, second, after, rfl⟩ := List.forall₂_cons_left_iff.1 later
    exact .cons (same.ofWord?_eq ▸ second) (ih us after)

end Relettered

variable {seen : Bool} {line order : Nat} {l k : List Char} {ls ks : List (List Char)}

/-- Only the opcode of the first token counts for an instruction. -/
theorem readInstruction_of_opcode? {t s : Token} {ts : List Token} {i : Instruction}
    (same : opcode? t = opcode? s) (read : readInstruction order t ts = .ok i) :
    readInstruction order s ts = .ok i := by
  rw [readInstruction, same] at read
  rw [readInstruction]
  cases found : opcode? s with
  | none =>
    rw [found] at read
    cases read
  | some op =>
    rw [found] at read
    exact read

theorem readLine_relettered (same : Relettered (wordsOf l) (wordsOf k)) {content : Content}
    (read : readLine seen order l = .ok content) : readLine seen order k = .ok content := by
  rcases made : Token.ofLine l with word | ts
  · rw [readLine, made] at read
    cases read
  · obtain ⟨t, s, rest, rfl, other, kind, opcode⟩ := same.ofWords made
    have other : Token.ofLine k = .ok (s :: rest) := other
    by_cases named : t = .header
    · obtain rfl := kind.1 named
      subst named
      rw [readLine, made] at read
      rw [readLine, other]
      exact read
    · rw [readLine_of_instruction made named] at read
      rw [readLine_of_instruction other (mt kind.2 named)]
      cases seen with
      | false => cases read
      | true =>
        obtain ⟨i, found, rfl⟩ := map_eq_ok_iff.1 read
        exact map_eq_ok_iff.2 ⟨i, readInstruction_of_opcode? opcode found, rfl⟩

theorem readLines_relettered
    (same : List.Forall₂ (fun l k => Relettered (wordsOf l) (wordsOf k)) ls ks)
    {is : List Instruction} (read : readLines seen line order ls = .ok is) :
    readLines seen line order ks = .ok is := by
  induction same generalizing seen line order is with
  | nil => exact read
  | cons first _ ih =>
    obtain ⟨content, js, here, others, rfl⟩ := readLines_cons_eq_ok_iff.1 read
    exact readLines_cons_eq_ok_iff.2 ⟨content, js, readLine_relettered first here, ih others, rfl⟩

/-! ## Blank lines -/

/-- Blank lines hold nothing, and what the others hold does not depend on their line numbers. -/
theorem readLines_eq_ok_iff_written (other : Nat) {is : List Instruction} :
    readLines seen line order ls = .ok is ↔
      readLines seen other order (ls.filter fun l => !(wordsOf l).isEmpty) = .ok is := by
  induction ls generalizing seen line order other is with
  | nil => rfl
  | cons l ls ih =>
    by_cases blank : wordsOf l = []
    · rw [List.filter_cons_of_neg (by simp [blank]), readLines_cons_of_blank blank]
      exact ih other
    · rw [List.filter_cons_of_pos (by simp [blank]), readLines_cons_eq_ok_iff,
        readLines_cons_eq_ok_iff]
      simp only [ih (other + 1)]

/-! ## Texts in another layout -/

theorem isWord_of_mem_wordsOf {w : List Char} (mem : w ∈ wordsOf l) : IsWord w := by
  refine ⟨?_, fun c inside => ?_⟩
  · rintro rfl
    simpa using (List.mem_filter.1 mem).2
  · obtain ⟨visible, before⟩ := Text.mem_words mem c inside
    exact ⟨visible, by simpa using List.mem_takeWhile_imp before⟩

/-- The line with the words and one space between them. -/
def spaced : List (List Char) → List Char
  | [] => []
  | w :: ws => w ++ ws.flatMap (' ' :: ·)

theorem wordsOf_spaced {ws : List (List Char)} (word : ∀ w ∈ ws, IsWord w) :
    wordsOf (spaced ws) = ws := by
  cases ws with
  | nil => rfl
  | cons w ws => exact words_uncommented_spaced word

/-- The words of each line of a text that is not blank. -/
def writtenWords (text : String) : List (List (List Char)) := (lineWords text).filter (!·.isEmpty)

/-- The text with the words on its lines and one space between them. -/
def laidOut (vss : List (List (List Char))) : String :=
  String.ofList (vss.flatMap (spaced · ++ ['\n']))

/-- The lines of the other text are those of the text without blank lines and comments, with
one space between their words, and in any case of the letters of headers and of the first word
of each line. -/
def Relaid (text other : String) : Prop :=
  ∃ vss, List.Forall₂ Relettered (writtenWords text) vss ∧
    Text.lines other.toList = vss.map spaced

theorem isWord_of_relettered {text : String} {vss : List (List (List Char))}
    (same : List.Forall₂ Relettered (writtenWords text) vss) :
    ∀ vs ∈ vss, ∀ v ∈ vs, IsWord v := by
  have words : ∀ ws ∈ writtenWords text, ∀ w ∈ ws, IsWord w := by
    intro ws mem w inside
    obtain ⟨l, -, rfl⟩ := List.mem_map.1 (List.mem_of_mem_filter mem)
    exact isWord_of_mem_wordsOf inside
  exact forall_mem_of_forall₂ (p := (∀ w ∈ ·, IsWord w)) Relettered.isWord same words

/-- In every case of the letters there is a text that is laid out so. -/
theorem relaid_laidOut {text : String} {vss : List (List (List Char))}
    (same : List.Forall₂ Relettered (writtenWords text) vss) : Relaid text (laidOut vss) := by
  refine ⟨vss, same, ?_⟩
  have lines : vss.flatMap (spaced · ++ ['\n']) = (vss.map spaced).flatMap (· ++ ['\n']) := by
    rw [List.flatMap_map]
  rw [laidOut, String.toList_ofList, lines]
  refine Text.lines_terminated fun l mem => ?_
  obtain ⟨vs, inside, rfl⟩ := List.mem_map.1 mem
  have word := isWord_of_relettered same vs inside
  cases vs with
  | nil => exact List.not_mem_nil
  | cons v vs => exact newline_not_mem_spaced word

/-- The lines of a text that are not blank hold the words of the other one in another case. -/
theorem Relaid.forall₂ {text other : String} (relaid : Relaid text other) :
    List.Forall₂ (fun l k => Relettered (wordsOf l) (wordsOf k))
      ((Text.lines text.toList).filter fun l => !(wordsOf l).isEmpty)
        (Text.lines other.toList) := by
  obtain ⟨vss, same, lines⟩ := relaid
  have words := isWord_of_relettered same
  have read : (vss.map spaced).map wordsOf = vss := by
    rw [List.map_map]
    exact (List.map_congr_left fun vs mem => wordsOf_spaced (words vs mem)).trans
      (List.map_id vss)
  rw [← read, ← lines, writtenWords, lineWords, List.filter_map] at same
  exact List.forall₂_map_right_iff.1 (List.forall₂_map_left_iff.1 same)

end Source

namespace Program

open Source

/-- **Layout does not matter.**  If a text is laid out with one space between words, without
comments and blank lines, and with the letters of its headers and first words in any case, then it
is read as a program exactly if the text is, and as the same one. -/
theorem ofSource_relaid (text : String) :
    (∀ vss, List.Forall₂ Relettered (writtenWords text) vss → Relaid text (laidOut vss)) ∧
      ∀ other, Relaid text other → ∀ p, ofSource text = .ok p ↔ ofSource other = .ok p := by
  refine ⟨fun _ => relaid_laidOut, fun other relaid p => ?_⟩
  have same := relaid.forall₂
  have back := same.flip.imp fun _ _ => Relettered.symm
  rw [ofSource, ofSource, map_eq_ok_iff, map_eq_ok_iff]
  refine exists_congr fun is => and_congr_left fun _ => ?_
  rw [readLines_eq_ok_iff_written 1]
  exact ⟨readLines_relettered same, readLines_relettered back⟩

/-- A text with comments, blank lines, carriage returns and a no-break space, in which a `#`
ends what looks like a string, and the text that is left of it, with other letters in the header
and the opcodes. -/
theorem ofSource_relaid_recased :
    let text := ".ippCode24 # x\r\n\r\nwrite\u00a0 string@a#b\n\t\n  Break"
    let vss := [[".IPPCODE24".toList], ["WRITE".toList, "string@a".toList], ["bReAk".toList]]
    let p : Program := ⟨[⟨.known .write, [.literal (.str "a")], 1⟩, ⟨.known .break, [], 2⟩]⟩
    laidOut vss = ".IPPCODE24\nWRITE string@a\nbReAk\n" ∧ Relaid text (laidOut vss) ∧
      ofSource text = .ok p ∧ ofSource (laidOut vss) = .ok p := by
  intro text vss p
  have words : writtenWords text =
      [[".ippCode24".toList], ["write".toList, "string@a".toList], ["Break".toList]] := by decide
  have same : List.Forall₂ Relettered (writtenWords text) vss := by
    rw [words]
    exact .cons (.line (by decide) .nil) (.cons (.line (by decide) (.cons (.inl rfl) .nil))
      (.cons (.line (by decide) .nil) .nil))
  have read : ofSource text = .ok p := by decide
  obtain ⟨reaches, alike⟩ := ofSource_relaid text
  exact ⟨by decide, reaches vss same, read, (alike _ (reaches vss same) p).1 read⟩

end Program

end FrameCode
