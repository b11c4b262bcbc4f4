import FrameCode.CommandLine.Session
import FrameCode.Proofs.MissingHeader
import FrameCode.Proofs.WrittenLines
import FrameCode.Xml.Tree

/-!
# Two forms of programs

Which form a text has is decided by its first character that is not a blank.  There are three
notions of what may stand before it: blanks are those of Unicode where the form is decided, blank
lines and comments are passed in source text, and a document can have blanks and a byte order
mark in front.

The last is up to the parser of documents; `Xml.Parser.ExpectsMarkup` is what is relied on.  The
parser that the program runs with has this property.  `firstVisible_of_ofSource` and
`firstVisible_of_ofXml` say how a text begins that is read in one form or in the other, and
`load_in_own_form` that every program is read in the form that it is written in.
-/

namespace FrameCode

/-! ## The first visible character -/

/-- The first character of the text other than a blank. -/
def FirstVisible (text : String) (c : Char) : Prop :=
  ∃ before after, text.toList = before ++ c :: after ∧ (∀ b ∈ before, Text.isBlank b = true) ∧
    Text.isBlank c = false

theorem firstVisible_iff {text : String} {c : Char} :
    FirstVisible text c ↔ (Text.trimStart text.toList).head? = some c := by
  constructor
  · rintro ⟨before, after, split, blank, visible⟩
    rw [split, Text.trimStart, List.dropWhile_append_of_pos blank,
      List.dropWhile_cons_of_neg (by simp [visible])]
    rfl
  · intro first
    obtain ⟨after, rest⟩ := List.head?_eq_some_iff.1 first
    refine ⟨text.toList.takeWhile Text.isBlank, after, ?_, fun b => List.mem_takeWhile_imp, ?_⟩
    · rw [← rest, Text.trimStart, List.takeWhile_append_dropWhile]
    · have stop := List.head?_dropWhile_not Text.isBlank text.toList
      rw [show (text.toList.dropWhile Text.isBlank).head? = some c from first] at stop
      exact stop

theorem FirstVisible.unique {text : String} {c d : Char} (one : FirstVisible text c)
    (other : FirstVisible text d) : c = d :=
  Option.some.inj ((firstVisible_iff.1 one).symm.trans (firstVisible_iff.1 other))

theorem firstVisible_mark {text : String} (marked : text.toList.head? = some '\ufeff') :
    FirstVisible text '\ufeff' := by
  obtain ⟨rest, split⟩ := List.head?_eq_some_iff.1 marked
  exact ⟨[], rest, split, nofun, rfl⟩

theorem isDocument_iff {text : String} : isDocument text = true ↔ FirstVisible text '<' := by
  rw [isDocument, beq_iff_eq, firstVisible_iff]

/-! ## How source text begins -/

namespace Source

theorem head?_of_isHeader {w : List Char} (named : IsHeader w) : w.head? = some '.' := by
  have letters : w.map Char.toUpper = header.toList.map Char.toUpper := by
    rw [IsHeader, Text.foldCase, Text.foldCase, String.toList_ofList] at named
    exact String.ofList_inj.1 named
  cases w with
  | nil => cases letters
  | cons c w =>
    have dot : c.toUpper = '.' := (List.cons.inj letters).1
    exact congrArg some ((toUpper_eq_iff rfl).1 dot)

/-- The first line that is not blank, of a text that is read, begins with the header. -/
theorem Opens.isHeader {text : String} {number : Nat} {w : List Char} {ws : List (List Char)}
    (opens : Opens text number w ws) {p : Program} (read : Program.ofSource text = .ok p) :
    IsHeader w := by
  obtain ⟨l, ls, words, start⟩ := opens.readLines_eq
  obtain ⟨is, read, -⟩ := map_eq_ok_iff.1 read
  rw [start] at read
  obtain ⟨content, others, first, -⟩ := readLines_cons_eq_ok_iff.1 read
  rcases readLine_cases first with ⟨-, blank⟩ | ⟨-, -, v, alone, named⟩ | ⟨-, -, seen, -⟩
  · rw [words] at blank
    cases blank
  · obtain ⟨rfl, -⟩ := List.cons.inj (words.symm.trans alone)
    exact named
  · cases seen

/-- The first word of a text begins with its first visible character, unless that
starts a comment. -/
theorem exists_opens_of_firstVisible {text : String} {c : Char} (first : FirstVisible text c)
    (written : c ≠ '#') : ∃ number w ws, Opens text number (c :: w) ws := by
  obtain ⟨before, after, split, blank, visible⟩ := first
  obtain ⟨passed, start, tail, rest, lines, empty, front⟩ :=
    Text.exists_lines_of_blank blank visible after
  have unmarked : ∀ b ∈ start, (b != '#') = true := by
    intro b mem
    rw [bne_iff_ne]
    rintro rfl
    cases front '#' mem
  obtain ⟨w, ws, words⟩ := Text.exists_words_cons visible (Token.uncommented tail)
  have here : wordsOf (start ++ c :: tail) = (c :: w) :: ws := by
    rw [wordsOf, Token.uncommented, List.takeWhile_append_of_pos unmarked,
      List.takeWhile_cons_of_pos (p := (· != '#')) (bne_iff_ne.2 written),
      Text.words_append_of_blank front]
    exact words
  refine ⟨_, w, ws, passed.map wordsOf, rest.map wordsOf, ?_, ?_, rfl⟩
  · rw [lineWords, split, lines, List.map_append, List.map_cons, here]
  · intro words mem
    obtain ⟨l, inside, rfl⟩ := List.mem_map.1 mem
    exact Text.words_of_blank fun b mem => empty l inside b (List.takeWhile_subset _ mem)

/-- A text that is read begins with the header or with a comment. -/
theorem firstVisible_of_ofSource {text : String} {p : Program}
    (read : Program.ofSource text = .ok p)
    {c : Char} (first : FirstVisible text c) : c = '.' ∨ c = '#' := by
  by_contra other
  obtain ⟨dot, written⟩ := not_or.1 other
  obtain ⟨number, w, ws, opens⟩ := exists_opens_of_firstVisible first written
  exact dot (Option.some.inj (head?_of_isHeader (opens.isHeader read)))

end Source

/-! ## How a document begins -/

namespace Xml

/-- The text starts with a `<`, apart from blanks. -/
def BeginsWithMarkup (cs : List Char) : Prop :=
  ∃ before after, cs = before ++ '<' :: after ∧ ∀ b ∈ before, Text.isBlank b = true

/-- A parser is relied on to accept no text but one that begins with markup, after a byte order
mark if there is one.  By the grammar of XML, a document begins with a declaration, an
instruction, a comment or a tag, and with nothing but blanks in front of it. -/
def Parser.ExpectsMarkup (parse : Parser) : Prop :=
  ∀ cs root, parse cs = some root →
    BeginsWithMarkup cs ∨ ∃ rest, cs = '\ufeff' :: rest ∧ BeginsWithMarkup rest

/-- The first visible character of a document is its first `<`, unless it starts with a
byte order mark. -/
theorem firstVisible_of_ofXml {parse : Parser} (markup : parse.ExpectsMarkup)
    {text : String} {p : Program}
    (read : Program.ofXml parse text = .ok p) :
    FirstVisible text '<' ∨ text.toList.head? = some '\ufeff' := by
  unfold Program.ofXml at read
  split at read
  · cases read
  · next root parsed =>
    rcases markup _ root parsed with ⟨before, after, split, blank⟩ | ⟨rest, marked, -⟩
    · exact .inl ⟨before, after, split, blank, rfl⟩
    · exact .inr (congrArg List.head? marked)

/-! ## The parser of the program -/

theorem split?_cons_eq_some_iff {c : Char} {cs : List Char} {pieces : List Piece} :
    Piece.split? (c :: cs) = some pieces ↔
      ∃ piece rest others, Piece.first? c cs = some (piece, rest) ∧
        Piece.split? rest = some others ∧ pieces = piece :: others := by
  rw [Piece.split?]
  split
  · next absent => simp [absent]
  · next piece rest found =>
    rw [Option.map_eq_some_iff]
    simp [found, eq_comm]

theorem take?_text_outside (root : Option Node) (content : List Char) :
    Growth.take? ⟨[], root⟩ (.text content) =
      if content.all isSpace then some ⟨[], root⟩ else none := rfl

theorem isBlank_of_isSpace {c : Char} (space : isSpace c = true) : Text.isBlank c = true := by
  simp only [isSpace, Bool.or_eq_true, beq_iff_eq] at space
  rcases space with ((rfl | rfl) | rfl) | rfl <;> rfl

/-- Pieces that hold a root begin with markup: text in front of the root has no
characters but blanks. -/
theorem beginsWithMarkup_of_split? {cs : List Char} {pieces : List Piece}
    {g : Growth} {root : Node}
    (split : Piece.split? cs = some pieces)
    (grown : pieces.foldlM Growth.take? ⟨[], none⟩ = some g) (closed : g.root = some root) :
    BeginsWithMarkup cs := by
  have ended {h : Growth} (same : some (⟨[], none⟩ : Growth) = some h) : h.root ≠ some root := by
    obtain rfl := Option.some.inj same
    exact (Option.some_ne_none root).symm
  cases cs with
  | nil =>
    rw [Piece.split?] at split
    cases split
    exact absurd closed (ended grown)
  | cons c cs =>
    obtain ⟨piece, rest, others, first, split, rfl⟩ := split?_cons_eq_some_iff.1 split
    by_cases markup : c = '<'
    · exact ⟨[], cs, congrArg (· :: cs) markup, fun _ mem => absurd mem List.not_mem_nil⟩
    · rw [Piece.first?, if_neg markup] at first
      cases first
      rw [List.foldlM_cons] at grown
      obtain ⟨h, taken, grown⟩ := Option.bind_eq_some_iff.1 grown
      rw [take?_text_outside] at taken
      split at taken
      · next blank =>
        cases taken
        -- After the first run of text there is a `<` or nothing, and nothing leaves no root.
        rcases stop : cs.dropWhile (· != '<') with - | ⟨d, after⟩
        · rw [stop, Piece.split?] at split
          cases split
          exact absurd closed (ended grown)
        · have marked := List.head?_dropWhile_not (· != '<') cs
          rw [stop] at marked
          obtain rfl : d = '<' := by simpa using marked
          refine ⟨c :: cs.takeWhile (· != '<'), after, ?_,
            fun b mem => isBlank_of_isSpace (List.all_eq_true.1 blank b mem)⟩
          rw [← stop, List.cons_append, List.takeWhile_append_dropWhile]
      · cases taken

/-- A well-formed document begins with markup, after its byte order mark. -/
theorem beginsWithMarkup_of_parse? {cs : List Char} {root : Node}
    (parsed : parse? cs = some root) :
    BeginsWithMarkup (withoutMark cs) := by
  simp only [parse?, Option.bind_eq_bind, Option.bind_eq_some_iff] at parsed
  obtain ⟨content, skipped, pieces, split, g, grown, closed⟩ := parsed
  rw [Declaration.skip?] at skipped
  split at skipped
  · next rest declared =>
    refine ⟨[], Declaration.opening.tail ++ rest, ?_, nofun⟩
    exact (List.isPrefixOf?_eq_some_iff_append_eq.1 declared).symm
  · cases skipped
    split at closed
    · exact beginsWithMarkup_of_split? split grown closed
    · cases closed

theorem expectsMarkup_parse? : Parser.ExpectsMarkup parse? := by
  intro cs root parsed
  have begins := beginsWithMarkup_of_parse? parsed
  unfold withoutMark at begins
  split at begins
  · next marked =>
    obtain ⟨rest, rfl⟩ := List.head?_eq_some_iff.1 marked
    exact .inr ⟨rest, rfl, begins⟩
  · exact .inl begins

end Xml

/-! ## Programs in both forms -/

namespace CommandLine

variable {parse : Xml.Parser} {files : String → Entry} {path text : String}

theorem load_eq_ok_iff (found : (files path).text = .ok text) {p : Program} :
    load parse files path = .ok p ↔
      if isDocument text then Program.ofXml parse text = .ok p
      else Program.ofSource text = .ok p := by
  rw [load, found]
  simp only [mapError_eq_ok_iff, Program.ofText]
  split <;> rw [mapError_eq_ok_iff]

theorem not_firstVisible_of_ofSource {p : Program} (read : Program.ofSource text = .ok p) :
    ¬FirstVisible text '<' := by
  intro first
  rcases Source.firstVisible_of_ofSource read first with eq | eq <;> cases eq

/-- Source text is loaded as source text. -/
theorem load_of_ofSource (found : (files path).text = .ok text) {p : Program}
    (read : Program.ofSource text = .ok p) :
    isDocument text = false ∧ load parse files path = .ok p := by
  have taken : isDocument text = false :=
    Bool.eq_false_iff.2 (mt isDocument_iff.1 (not_firstVisible_of_ofSource read))
  refine ⟨taken, (load_eq_ok_iff found).2 ?_⟩
  rw [taken]
  exact read

/-- A document without a byte order mark is loaded as a document. -/
theorem load_of_ofXml (markup : parse.ExpectsMarkup)
    (found : (files path).text = .ok text) {p : Program}
    (read : Program.ofXml parse text = .ok p) (unmarked : text.toList.head? ≠ some '\ufeff') :
    FirstVisible text '<' ∧ isDocument text = true ∧ load parse files path = .ok p := by
  have first := (Xml.firstVisible_of_ofXml markup read).resolve_right unmarked
  refine ⟨first, isDocument_iff.2 first, (load_eq_ok_iff found).2 ?_⟩
  rw [if_pos (isDocument_iff.2 first)]
  exact read

theorem ofXml_ne_of_ofSource (markup : parse.ExpectsMarkup) {p q : Program}
    (read : Program.ofSource text = .ok p) : Program.ofXml parse text ≠ .ok q := by
  intro other
  rcases Xml.firstVisible_of_ofXml markup other with first | marked
  · exact not_firstVisible_of_ofSource read first
  · rcases Source.firstVisible_of_ofSource read
      (firstVisible_mark marked) with eq | eq <;> cases eq

/-- **Every program is read in its own form**, by any parser that expects markup.  A file with
source text that can be read is taken for source text, a file with a document that can be read is
taken for a document unless it begins with a byte order mark, and no file can be read in both
forms.  So what can be loaded is just what can be read in one form or, without a byte order mark,
in the other. -/
theorem load_in_own_form (markup : parse.ExpectsMarkup) (found : (files path).text = .ok text) :
    (∀ p, Program.ofSource text = .ok p →
      ¬FirstVisible text '<' ∧ isDocument text = false ∧ load parse files path = .ok p) ∧
    (∀ p, Program.ofXml parse text = .ok p → text.toList.head? ≠ some '\ufeff' →
      FirstVisible text '<' ∧ isDocument text = true ∧ load parse files path = .ok p) ∧
    (∀ p q, Program.ofSource text = .ok p → Program.ofXml parse text ≠ .ok q) ∧
    ∀ p, load parse files path = .ok p ↔
      Program.ofSource text = .ok p ∨
        Program.ofXml parse text = .ok p ∧ text.toList.head? ≠ some '\ufeff' := by
  refine ⟨fun p read => ⟨not_firstVisible_of_ofSource read, load_of_ofSource found read⟩,
    fun p => load_of_ofXml markup found, fun p q => ofXml_ne_of_ofSource markup,
      fun p => ⟨fun loaded => ?_, ?_⟩⟩
  · rw [load_eq_ok_iff found] at loaded
    split at loaded
    · next taken =>
      refine .inr ⟨loaded, fun marked => ?_⟩
      cases (firstVisible_mark marked).unique (isDocument_iff.1 taken)
    · exact .inl loaded
  · rintro (read | ⟨read, unmarked⟩)
    · exact (load_of_ofSource found read).2
    · exact (load_of_ofXml markup found read unmarked).2.2

/-- Source text after a no-break space and a comment with a tag in it, and a document after
blanks. -/
theorem load_in_own_form_blanks :
    let text := "\u00a0\n# <a>\n.IPPcode24\nBREAK"
    let document := "\r\n\t <program language=\"IPPcode24\"/>"
    let files := fun path =>
      Entry.file (Text.bytes (if path = "a" then text else document).toList)
    isDocument text = false ∧
      load Xml.parse? files "a" = .ok ⟨[⟨.known .break, [], 1⟩]⟩ ∧
      isDocument document = true ∧ load Xml.parse? files "b" = .ok ⟨[]⟩ := by
  intro text document files
  have found (path : String) :
      (files path).text = .ok (if path = "a" then text else document) := by
    simp only [files, Entry.text, Text.fromUTF8?_bytes, String.ofList_toList]
  obtain ⟨source, -⟩ := load_in_own_form Xml.expectsMarkup_parse? (found "a")
  obtain ⟨-, other, -⟩ := load_in_own_form Xml.expectsMarkup_parse? (found "b")
  have first := source ⟨[⟨.known .break, [], 1⟩]⟩ (by decide)
  have second := other ⟨[]⟩ (by decide +kernel) (by decide)
  exact ⟨first.2.1, first.2.2, second.2.1, second.2.2⟩

-- A document with a byte order mark can be read, and is taken for source text.
example : Program.ofXml Xml.parse? "\ufeff<program language=\"IPPcode24\"/>" = .ok ⟨[]⟩ ∧
    isDocument "\ufeff<program language=\"IPPcode24\"/>" = false := by decide +kernel

end CommandLine

end FrameCode
