import FrameCode.Proofs.SourceLines

/-!
# The missing header

The first line of a source text that is not blank decides whether its header is missing.
`readLine_eq_missingHeader_iff` says when one line is refused for that, `readLines_seen_ne` that
no line is once the header was seen, and `ofSource_missingHeader` what follows for a whole text.

A word that starts with a dot without being the header is refused before the line is looked at, so
a line with such a word in it is reported for this word, whatever it begins with.
-/

namespace FrameCode

namespace Source

/-! ## Faults of operands -/

theorem readPlace_ne {t : Token} {cause : LineFault} (refused : readPlace t = .error cause) :
    cause ≠ .missingHeader := by
  unfold readPlace at refused
  repeat' split at refused
  all_goals cases refused
  all_goals nofun

theorem readLiteral_ne {t : Token} {cause : LineFault} (refused : readLiteral t = .error cause) :
    cause ≠ .missingHeader := by
  unfold readLiteral at refused
  repeat' split at refused
  all_goals cases refused
  all_goals nofun

theorem readOperand_ne {s : Slot} {t : Token} {cause : LineFault}
    (refused : readOperand s t = .error cause) : cause ≠ .missingHeader := by
  cases s with
  | place => exact readPlace_ne (map_eq_error_iff.1 refused)
  | symbol =>
    rw [readOperand, readSymbol] at refused
    split at refused
    · cases refused
    · exact readLiteral_ne (map_eq_error_iff.1 refused)
  | label =>
    rw [readOperand, readLabel.eq_def] at refused
    repeat' split at refused
    all_goals cases refused
    all_goals nofun
  | type =>
    rw [readOperand, readType.eq_def] at refused
    repeat' split at refused
    all_goals cases refused
    all_goals nofun

theorem readOperands_ne {slots : List Slot} {ts : List Token} {cause : LineFault}
    (refused : readOperands slots ts = .error cause) : cause ≠ .missingHeader := by
  induction slots generalizing ts with
  | nil => cases refused
  | cons s slots ih =>
    cases ts with
    | nil => cases refused
    | cons t ts =>
      rw [readOperands] at refused
      split at refused
      · next first =>
        cases refused
        exact readOperand_ne first
      · split at refused
        · next others =>
          cases refused
          exact ih others
        · cases refused

theorem readInstruction_ne {order : Nat} {t : Token} {ts : List Token} {cause : LineFault}
    (refused : readInstruction order t ts = .error cause) : cause ≠ .missingHeader := by
  unfold readInstruction at refused
  split at refused
  · cases refused
    nofun
  · split at refused
    · split at refused
      · next found =>
        cases refused
        exact readOperands_ne found
      · cases refused
    · cases refused
      nofun

/-! ## Lines -/

variable {seen : Bool} {line order : Nat} {l : List Char} {ls : List (List Char)}

/-- A line with a stray word is refused for the first one. -/
theorem readLine_of_stray {before after : List (List Char)} {v : List Char}
    (words : wordsOf l = before ++ v :: after) (plain : ∀ u ∈ before, ¬IsStray u)
    (stray : IsStray v) :
    readLine seen order l = .error (.unexpected (String.ofList v)) := by
  have refused : Token.ofLine l = .error (String.ofList v) :=
    ofWords_eq_error_iff.2 ⟨before, v, after, words, plain, stray, rfl⟩
  rw [readLine, refused]

/-- A line is refused for the missing header if its first word is not the header, no word of it is
stray and the header was not seen before. -/
theorem readLine_eq_missingHeader_iff :
    readLine seen order l = .error .missingHeader ↔
      seen = false ∧ ∃ w ws, wordsOf l = w :: ws ∧ ¬IsHeader w ∧ ∀ v ∈ w :: ws, ¬IsStray v := by
  constructor
  · intro refused
    unfold readLine at refused
    split at refused
    · cases refused
    · cases refused
    · split at refused
      · cases refused
      · split at refused <;> cases refused
    · next t ts other made =>
      split at refused
      · exact absurd rfl (readInstruction_ne (map_eq_error_iff.1 refused))
      · next unseen =>
        obtain ⟨w, ws, first, -, words⟩ :=
          List.forall₂_cons_right_iff.1 (ofWords_eq_ok_iff.1 made)
        have words : wordsOf l = w :: ws := words
        have plain : ∀ v ∈ wordsOf l, ¬IsStray v := exists_ofWords_iff.1 ⟨_, made⟩
        rw [words] at plain
        refine ⟨Bool.eq_false_iff.2 unseen, w, ws, words, fun named => ?_, plain⟩
        rw [ofWord?_of_header named] at first
        exact other (Option.some.inj first).symm
  · rintro ⟨rfl, w, ws, words, other, plain⟩
    rw [← words] at plain
    obtain ⟨ts, made⟩ := exists_ofWords_iff.2 plain
    have read := ofWords_eq_ok_iff.1 made
    rw [words] at read
    obtain ⟨t, rest, first, -, rfl⟩ := List.forall₂_cons_left_iff.1 read
    have unnamed : t ≠ .header := by
      rintro rfl
      exact other (ofWord?_eq_header_iff.1 first)
    exact readLine_of_instruction made unnamed

/-- Once the header was seen, it is missing nowhere. -/
theorem readLines_seen_ne {e : SourceError} (failed : readLines true line order ls = .error e) :
    e.cause ≠ .missingHeader := by
  induction ls generalizing line order with
  | nil => cases failed
  | cons l ls ih =>
    rcases read : readLine true order l with cause | content
    · rw [readLines_cons_of_error read] at failed
      cases failed
      rintro rfl
      cases (readLine_eq_missingHeader_iff.1 read).1
    · rw [readLines_cons_of_ok read, map_eq_error_iff] at failed
      have still : content.seenAfter true = true := by
        cases content <;> rfl
      rw [still] at failed
      exact ih failed

/-- Blank lines are passed. -/
theorem readLines_blank {before : List (List Char)} (blank : ∀ k ∈ before, wordsOf k = []) :
    readLines seen line order (before ++ ls) =
      readLines seen (line + before.length) order ls := by
  induction before generalizing line with
  | nil => rfl
  | cons k before ih =>
    obtain ⟨first, others⟩ := List.forall_mem_cons.1 blank
    rw [List.cons_append, readLines_cons_of_blank first, ih others, List.length_cons,
      Nat.add_right_comm, Nat.add_assoc]

/-! ## The first line -/

/-- The first line of a text that is not blank has the given number and begins with the word `w`,
which the words `ws` follow. -/
def Opens (text : String) (number : Nat) (w : List Char) (ws : List (List Char)) : Prop :=
  ∃ before after, lineWords text = before ++ (w :: ws) :: after ∧ (∀ words ∈ before, words = []) ∧
    number = before.length + 1

theorem exists_first_words {lines : List (List (List Char))}
    (written : ∃ words ∈ lines, words ≠ []) :
    ∃ before w ws after, lines = before ++ (w :: ws) :: after ∧ ∀ words ∈ before, words = [] := by
  induction lines with
  | nil =>
    obtain ⟨words, mem, -⟩ := written
    cases mem
  | cons words lines ih =>
    cases words with
    | cons w ws => exact ⟨[], w, ws, lines, rfl, fun _ mem => absurd mem List.not_mem_nil⟩
    | nil =>
      obtain ⟨words, mem, nonempty⟩ := written
      rcases List.mem_cons.1 mem with rfl | mem
      · exact absurd rfl nonempty
      · obtain ⟨before, w, ws, after, rfl, blank⟩ := ih ⟨words, mem, nonempty⟩
        exact ⟨[] :: before, w, ws, after, rfl, List.forall_mem_cons.2 ⟨rfl, blank⟩⟩

theorem exists_opens {text : String} (written : ∃ words ∈ lineWords text, words ≠ []) :
    ∃ number w ws, Opens text number w ws := by
  obtain ⟨before, w, ws, after, split, blank⟩ := exists_first_words written
  exact ⟨_, w, ws, before, after, split, blank, rfl⟩

/-- A text is read from its first line that is not blank. -/
theorem Opens.readLines_eq {text : String} {number : Nat} {w : List Char} {ws : List (List Char)}
    (opens : Opens text number w ws) :
    ∃ l ls, wordsOf l = w :: ws ∧
      readLines false 1 1 (Text.lines text.toList) = readLines false number 1 (l :: ls) := by
  obtain ⟨before, after, split, blank, rfl⟩ := opens
  obtain ⟨start, rest, lines, rfl, others⟩ := List.map_eq_append_iff.1 split
  obtain ⟨l, ls, rfl, words, -⟩ := List.map_eq_cons_iff.1 others
  refine ⟨l, ls, words, ?_⟩
  rw [lines, readLines_blank fun k mem => blank _ (List.mem_map_of_mem mem),
    List.length_map, Nat.add_comm]

end Source

namespace SourceError

theorem status_eq_iff {e : SourceError} : e.status = 21 ↔ e.cause = .missingHeader := by
  obtain ⟨line, cause⟩ := e
  cases cause <;> simp [status, Source.LineFault.status]

end SourceError

/-! ## Texts -/

namespace Program

open Source

/-- **The header is missing** from a text with a line that is not blank if the first word of the
first such line is not the header and no word of this line is stray, and then it is reported for
this line, with the status 21.  If there is a stray word on this line, the text is refused for the
first one instead. -/
theorem ofSource_missingHeader_iff (text : String) :
    ((∃ words ∈ lineWords text, words ≠ []) → ∃ number w ws, Opens text number w ws) ∧
      ∀ number w ws, Opens text number w ws →
        ((∃ e, ofSource text = .error e ∧ e.status = 21) ↔
          ¬IsHeader w ∧ ∀ v ∈ w :: ws, ¬IsStray v) ∧
        (∀ e, ofSource text = .error e → e.status = 21 → e = ⟨number, .missingHeader⟩) ∧
        ∀ before v after, w :: ws = before ++ v :: after →
          (∀ u ∈ before, ¬IsStray u) → IsStray v →
          ofSource text = .error ⟨number, .unexpected (String.ofList v)⟩ := by
  refine ⟨exists_opens, fun number w ws opens => ?_⟩
  obtain ⟨l, ls, words, start⟩ := opens.readLines_eq
  have missing {e : SourceError} (failed : ofSource text = .error e) (status : e.status = 21) :
      e = ⟨number, .missingHeader⟩ ∧ ¬IsHeader w ∧ ∀ v ∈ w :: ws, ¬IsStray v := by
    have cause := SourceError.status_eq_iff.1 status
    rw [ofSource_eq_error_iff, start] at failed
    rcases read : readLine false 1 l with fault | content
    · rw [readLines_cons_of_error read] at failed
      cases failed
      cases cause
      obtain ⟨-, v, vs, split, other, plain⟩ := readLine_eq_missingHeader_iff.1 read
      obtain ⟨rfl, rfl⟩ := List.cons.inj (words.symm.trans split)
      exact ⟨rfl, other, plain⟩
    · rw [readLines_cons_of_ok read, map_eq_error_iff] at failed
      rcases readLine_cases read with ⟨-, blank⟩ | ⟨rfl, -⟩ | ⟨-, -, seen, -⟩
      · rw [words] at blank
        cases blank
      · exact absurd cause (readLines_seen_ne failed)
      · cases seen
  refine ⟨⟨?_, ?_⟩, fun e failed status => (missing failed status).1, ?_⟩
  · rintro ⟨e, failed, status⟩
    exact (missing failed status).2
  · rintro ⟨other, plain⟩
    have refused : readLine false 1 l = .error .missingHeader :=
      readLine_eq_missingHeader_iff.2 ⟨rfl, w, ws, words, other, plain⟩
    refine ⟨⟨number, .missingHeader⟩, ?_, rfl⟩
    rw [ofSource_eq_error_iff, start, readLines_cons_of_error refused]
  · intro before v after split plain stray
    have refused : readLine false 1 l = .error (.unexpected (String.ofList v)) :=
      readLine_of_stray (words.trans split) plain stray
    rw [ofSource_eq_error_iff, start, readLines_cons_of_error refused]

/-- An instruction on the third line, before the header, and the header of another language. -/
theorem ofSource_missingHeader_iff_directive :
    let text := "# x\n\n  WRITE int@1 # y\n.IPPcode24\n"
    let other := "\n.IPPcode23\n"
    (∃ e, ofSource text = .error e ∧ e.status = 21 ∧ e = ⟨3, .missingHeader⟩) ∧
      (∃ number w ws, Opens other number w ws) ∧
      ofSource other = .error ⟨2, .unexpected ".IPPcode23"⟩ := by
  intro text other
  have opens : Opens text 3 "WRITE".toList ["int@1".toList] :=
    ⟨[[], []], [[".IPPcode24".toList]], by decide, by decide, rfl⟩
  have directive : Opens other 2 ".IPPcode23".toList [] := ⟨[[]], [], by decide, by decide, rfl⟩
  obtain ⟨written, law⟩ := ofSource_missingHeader_iff other
  obtain ⟨missing, located, -⟩ := (ofSource_missingHeader_iff text).2 _ _ _ opens
  obtain ⟨e, failed, status⟩ := missing.2 (by decide)
  exact ⟨⟨e, failed, status, located e failed status⟩, written (by decide),
    (law _ _ _ directive).2.2 [] _ [] rfl (by decide) (by decide)⟩

/-- It is not the first word alone that decides: the header of another language is no token. -/
theorem not_forall_missingHeader_iff :
    ¬∀ text number w ws, Opens text number w ws →
      ((∃ e, ofSource text = .error e ∧ e.status = 21) ↔ ¬IsHeader w) := by
  intro law
  have opens : Opens ".IPPcode23\n" 1 ".IPPcode23".toList [] :=
    ⟨[], [], by decide, by decide, rfl⟩
  have refused : ofSource ".IPPcode23\n" = .error ⟨1, .unexpected ".IPPcode23"⟩ := by decide
  obtain ⟨e, failed, status⟩ := (law _ _ _ _ opens).2 (by decide)
  rw [refused] at failed
  cases failed
  cases status

end Program

end FrameCode
