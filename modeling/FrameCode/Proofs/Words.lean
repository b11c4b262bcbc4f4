import FrameCode.Text.Blank
import FrameCode.Text.Split

/-!
# Words and lines of a written text

A text that is written word by word and line by line is taken apart into the same words and lines,
and trimming leaves a text without blanks as it is.  In the other direction, `mem_words` says what
every word of a text is like, and `exists_lines_of_blank` where the first character stands that is
not a blank.
-/

namespace FrameCode.Text

/-! ## Words -/

/-- A text without blanks that is not empty is one word. -/
theorem words_of_blank_free {w : List Char} (nonempty : w ≠ [])
    (free : ∀ c ∈ w, isBlank c = false) : words w = [w] := by
  unfold words
  rw [List.splitOnP_eq_singleton free]
  simp [nonempty]

/-- A word ends at the first blank. -/
theorem words_append_cons {w : List Char} (nonempty : w ≠ [])
    (free : ∀ c ∈ w, isBlank c = false) {b : Char} (blank : isBlank b = true) (rest : List Char) :
    words (w ++ b :: rest) = w :: words rest := by
  unfold words
  rw [List.splitOnP_append_cons_of_forall_mem free b blank rest]
  simp [nonempty]

/-- Words with one space before each of them but the first are taken apart again. -/
theorem words_spaced {w : List Char} {ws : List (List Char)}
    (nonempty : ∀ v ∈ w :: ws, v ≠ []) (free : ∀ v ∈ w :: ws, ∀ c ∈ v, isBlank c = false) :
    words (w ++ ws.flatMap (' ' :: ·)) = w :: ws := by
  induction ws generalizing w with
  | nil =>
    rw [List.flatMap_nil, List.append_nil]
    exact words_of_blank_free (nonempty w List.mem_cons_self) (free w List.mem_cons_self)
  | cons v ws ih =>
    have first := words_append_cons (nonempty w List.mem_cons_self) (free w List.mem_cons_self)
      (show isBlank ' ' = true from rfl) (v ++ ws.flatMap (' ' :: ·))
    have others := ih (fun u mem => nonempty u (List.mem_cons_of_mem _ mem))
      (fun u mem => free u (List.mem_cons_of_mem _ mem))
    rw [List.flatMap_cons, List.cons_append, first, others]

/-- The parts between the characters of a class hold none of them and nothing new. -/
theorem mem_splitOnP {p : Char → Bool} {w cs : List Char} (mem : w ∈ cs.splitOnP p) :
    ∀ c ∈ w, p c = false ∧ c ∈ cs := by
  induction cs generalizing w with
  | nil =>
    obtain rfl := List.mem_singleton.1 mem
    intro c inside
    cases inside
  | cons d cs ih =>
    rw [List.splitOnP_cons_eq_if_modifyHead] at mem
    split at mem
    · rcases List.mem_cons.1 mem with rfl | mem
      · intro c inside
        cases inside
      · intro c inside
        exact (ih mem c inside).imp_right (List.mem_cons_of_mem _)
    · next other =>
      obtain ⟨first, more, parts⟩ := List.exists_cons_of_ne_nil (List.splitOnP_ne_nil p cs)
      rw [parts] at mem ih
      intro c inside
      rcases List.mem_cons.1 mem with rfl | mem
      · rcases List.mem_cons.1 inside with rfl | inside
        · exact ⟨Bool.eq_false_iff.2 other, List.mem_cons_self⟩
        · exact (ih List.mem_cons_self c inside).imp_right (List.mem_cons_of_mem _)
      · exact (ih (List.mem_cons_of_mem _ mem) c inside).imp_right (List.mem_cons_of_mem _)

/-- A word has no blank in it, and its characters stand in the text. -/
theorem mem_words {w cs : List Char} (mem : w ∈ words cs) :
    ∀ c ∈ w, isBlank c = false ∧ c ∈ cs :=
  mem_splitOnP (List.mem_filter.1 mem).1

/-- Blanks hold no word. -/
theorem words_of_blank {cs : List Char} (blank : ∀ c ∈ cs, isBlank c = true) : words cs = [] := by
  refine List.eq_nil_iff_forall_not_mem.2 fun w mem => ?_
  cases w with
  | nil => simpa using (List.mem_filter.1 mem).2
  | cons c w =>
    obtain ⟨visible, inside⟩ := mem_words mem c List.mem_cons_self
    rw [blank c inside] at visible
    cases visible

/-- Blanks in front of a text are no part of a word. -/
theorem words_append_of_blank {before : List Char} (blank : ∀ c ∈ before, isBlank c = true)
    (cs : List Char) : words (before ++ cs) = words cs := by
  induction before with
  | nil => rfl
  | cons b before ih =>
    obtain ⟨first, others⟩ := List.forall_mem_cons.1 blank
    rw [List.cons_append, words, List.splitOnP_cons_eq_if_modifyHead, if_pos first,
      List.filter_cons_of_neg (by simp)]
    exact ih others

/-- The first word of a text begins with the first character of it that is not a blank. -/
theorem exists_words_cons {c : Char} (visible : isBlank c = false) (cs : List Char) :
    ∃ w ws, words (c :: cs) = (c :: w) :: ws := by
  obtain ⟨w, more, parts⟩ := List.exists_cons_of_ne_nil (List.splitOnP_ne_nil isBlank cs)
  refine ⟨w, more.filter (!·.isEmpty), ?_⟩
  rw [words, List.splitOnP_cons_eq_if_modifyHead, if_neg (by simp [visible]), parts,
    List.modifyHead_cons, List.filter_cons_of_pos (by simp)]

/-! ## Trimming -/

theorem trimStart_of_blank_free {cs : List Char} (free : ∀ c ∈ cs, isBlank c = false) :
    trimStart cs = cs := by
  cases cs with
  | nil => rfl
  | cons c cs =>
    rw [trimStart, List.dropWhile_cons_of_neg]
    simp [free c List.mem_cons_self]

/-- A text without blanks has none at its ends. -/
theorem trim_of_blank_free {cs : List Char} (free : ∀ c ∈ cs, isBlank c = false) :
    trim cs = cs := by
  have back : ∀ c ∈ cs.reverse, isBlank c = false := fun c mem => free c (List.mem_reverse.1 mem)
  rw [trim, trimStart_of_blank_free free]
  show (trimStart cs.reverse).reverse = cs
  rw [trimStart_of_blank_free back, List.reverse_reverse]

/-! ## Lines -/

/-- A line ends at the first newline. -/
theorem lines_append_newline {line : List Char} (free : '\n' ∉ line) (rest : List Char) :
    lines (line ++ '\n' :: rest) = line :: lines rest := by
  induction line with
  | nil => rfl
  | cons c line ih =>
    obtain ⟨ne, free⟩ := not_or.1 (mt List.mem_cons.2 free)
    rw [List.cons_append, lines, if_neg (Ne.symm ne), ih free]

/-- Lines that are written with a newline after each of them are taken apart again. -/
theorem lines_terminated {ls : List (List Char)} (free : ∀ l ∈ ls, '\n' ∉ l) :
    lines (ls.flatMap (· ++ ['\n'])) = ls := by
  induction ls with
  | nil => rfl
  | cons l ls ih =>
    rw [List.flatMap_cons, List.append_assoc, List.singleton_append,
      lines_append_newline (free l List.mem_cons_self),
      ih fun k mem => free k (List.mem_cons_of_mem _ mem)]

/-- A line holds no newline. -/
theorem newline_not_mem_of_mem_lines {cs l : List Char} (mem : l ∈ lines cs) : '\n' ∉ l := by
  induction cs generalizing l with
  | nil => cases mem
  | cons c cs ih =>
    rw [lines] at mem
    split at mem
    · rcases List.mem_cons.1 mem with rfl | mem
      · exact List.not_mem_nil
      · exact ih mem
    · next other =>
      split at mem
      · rw [List.mem_singleton] at mem
        subst mem
        exact fun newline => other (List.mem_singleton.1 newline).symm
      · next line rest split =>
        rw [split] at ih
        rcases List.mem_cons.1 mem with rfl | mem
        · intro newline
          rcases List.mem_cons.1 newline with here | newline
          · exact other here.symm
          · exact ih List.mem_cons_self newline
        · exact ih (List.mem_cons_of_mem _ mem)

/-- A text with only blanks before one of its characters has only blank lines before the line with
this character, and only blanks before it on this line. -/
theorem exists_lines_of_blank {before : List Char}
    (blank : ∀ b ∈ before, isBlank b = true) {c : Char}
    (visible : isBlank c = false) (after : List Char) :
    ∃ passed start tail rest,
      lines (before ++ c :: after) = passed ++ (start ++ c :: tail) :: rest ∧
      (∀ l ∈ passed, ∀ b ∈ l, isBlank b = true) ∧ ∀ b ∈ start, isBlank b = true := by
  induction before with
  | nil =>
    have inside : c ≠ '\n' := by
      rintro rfl
      cases visible
    rw [List.nil_append, lines, if_neg inside]
    cases lines after with
    | nil => exact ⟨[], [], [], [], rfl, nofun, nofun⟩
    | cons tail rest => exact ⟨[], [], tail, rest, rfl, nofun, nofun⟩
  | cons b before ih =>
    obtain ⟨first, others⟩ := List.forall_mem_cons.1 blank
    obtain ⟨passed, start, tail, rest, split, empty, front⟩ := ih others
    rw [List.cons_append, lines, split]
    by_cases newline : b = '\n'
    · refine ⟨[] :: passed, start, tail, rest, if_pos newline, ?_, front⟩
      exact List.forall_mem_cons.2 ⟨nofun, empty⟩
    · rw [if_neg newline]
      cases passed with
      | nil =>
        exact ⟨[], b :: start, tail, rest, rfl, nofun, List.forall_mem_cons.2 ⟨first, front⟩⟩
      | cons l passed =>
        obtain ⟨here, later⟩ := List.forall_mem_cons.1 empty
        refine ⟨(b :: l) :: passed, start, tail, rest, rfl, ?_, front⟩
        exact List.forall_mem_cons.2 ⟨List.forall_mem_cons.2 ⟨first, here⟩, later⟩

end FrameCode.Text
