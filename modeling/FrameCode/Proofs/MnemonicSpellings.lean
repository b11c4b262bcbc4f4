import FrameCode.Proofs.RoundTrip

/-!
# Spellings of mnemonics

Source text names an opcode by its mnemonic in any case of the ASCII letters.  The mnemonic of a
document is brought to upper case by the full mapping of Unicode first, and that mapping reaches
ASCII letters from some characters beyond ASCII.  Four of them, the `lookalikes`, stand for
letters that occur in mnemonics: a word with them is the name of an opcode in a document, and no
name in source text.

`isLookalike_of_part` finds these four in the table of upper-case forms, and `opcode?_ofText_iff`
says which spellings name an opcode in a document, which in source text, and where the two differ.
-/

namespace FrameCode

namespace Text

/-! ## Characters that stand for letters -/

/-- The dotless i, the long s and the two ligatures of s and t, each with the letters that
it stands for. -/
def lookalikes : List (Char × List Char) :=
  [('\u0131', ['i']), ('\u017f', ['s']), ('\ufb05', ['s', 't']), ('\ufb06', ['s', 't'])]

/-- The character stands for letters. -/
def IsLookalike (c : Char) : Prop := c ∈ lookalikes.map Prod.fst

instance (c : Char) : Decidable (IsLookalike c) := inferInstanceAs (Decidable (_ ∈ _))

/-- The letters that a character stands for, and any other character itself. -/
def plainChar (c : Char) : List Char := (lookalikes.lookup c).getD [c]

/-- The text with letters in place of the characters that stand for them. -/
def plain (cs : List Char) : List Char := cs.flatMap plainChar

variable {c : Char} {cs : List Char}

theorem IsLookalike.beyond (alike : IsLookalike c) : 0x80 ≤ c.toNat := by
  have all : ∀ entry ∈ lookalikes, 0x80 ≤ entry.1.toNat := by decide
  obtain ⟨entry, mem, rfl⟩ := List.mem_map.1 alike
  exact all entry mem

theorem isLookalike_of_code (code : c.toNat ∈ lookalikes.map (·.1.toNat)) : IsLookalike c := by
  obtain ⟨entry, mem, same⟩ := List.mem_map.1 code
  exact Char.toNat_inj.1 same ▸ List.mem_map_of_mem mem

theorem plainChar_of_not (other : ¬IsLookalike c) : plainChar c = [c] := by
  have absent : lookalikes.lookup c = none := List.lookup_eq_none_iff.2 fun entry mem =>
    bne_iff_ne.2 fun eq => other (eq ▸ List.mem_map_of_mem mem)
  rw [plainChar, absent, Option.getD_none]

theorem plain_of_forall_not (other : ∀ c ∈ cs, ¬IsLookalike c) : plain cs = cs := by
  have single : cs.flatMap plainChar = cs.flatMap ([·]) :=
    List.flatMap_congr fun c mem => plainChar_of_not (other c mem)
  rw [plain, single, List.flatMap_singleton']

theorem toUpper_toUpper (c : Char) : c.toUpper.toUpper = c.toUpper := by
  have capital : ¬(97 ≤ c.toUpper.toNat ∧ c.toUpper.toNat ≤ 122) := by
    rw [Source.toNat_toUpper]
    split <;> omega
  rw [← Char.toNat_inj, Source.toNat_toUpper, if_neg capital]

/-- The number of no code point gives the null character. -/
theorem toNat_ofNat_eq_or (n : Nat) : (Char.ofNat n).toNat = n ∨ (Char.ofNat n).toNat = 0 := by
  by_cases valid : n.isValidChar
  · rw [Char.ofNat, dif_pos valid]
    exact .inl rfl
  · rw [Char.ofNat, dif_neg valid]
    exact .inr rfl

/-- In upper case, ASCII characters and lookalikes become the letters that they stand for. -/
theorem map_toUpper_upperChar (known : c.toNat < 0x80 ∨ IsLookalike c) :
    (upperChar c).map Char.toUpper = (plainChar c).map Char.toUpper := by
  rcases known with ascii | alike
  · rw [upperChar, if_pos ascii, plainChar_of_not fun alike => Nat.not_lt.2 alike.beyond ascii]
    exact congrArg (fun d => [d]) (toUpper_toUpper c)
  · have all : ∀ entry ∈ lookalikes,
        (upperChar entry.1).map Char.toUpper =
          (plainChar entry.1).map Char.toUpper := by decide +kernel
    obtain ⟨entry, mem, rfl⟩ := List.mem_map.1 alike
    exact all entry mem

theorem map_toUpper_upper (known : ∀ c ∈ cs, c.toNat < 0x80 ∨ IsLookalike c) :
    (upper cs).map Char.toUpper = (plain cs).map Char.toUpper := by
  rw [upper, plain, List.map_flatMap, List.map_flatMap]
  exact List.flatMap_congr fun c mem => map_toUpper_upperChar (known c mem)

/-- What becomes of one character is a part of what becomes of the text. -/
theorem part_of_mem (f : Char → List Char) (mem : c ∈ cs) :
    (f c).map Char.toUpper <:+: (cs.flatMap f).map Char.toUpper := by
  rw [List.flatMap_def]
  exact (List.infix_of_mem_flatten (List.mem_map_of_mem mem)).map Char.toUpper

end Text

/-! ## Parts of mnemonics -/

namespace Opcode

open Text

variable {op : Opcode} {c : Char}

theorem ofMnemonic?_eq_some_iff {s : String} :
    ofMnemonic? s = some op ↔ s.toList.map Char.toUpper = op.mnemonic.toList := by
  constructor
  · intro found
    have same := List.find?_some (show all.find? (·.mnemonic == foldCase s) = some op from found)
    rw [eq_of_beq same, foldCase, String.toList_ofList]
  · intro same
    have upper : foldCase op.mnemonic = op.mnemonic := by cases op <;> decide
    have folded : foldCase s = foldCase op.mnemonic := by
      rw [upper, foldCase, same, String.ofList_toList]
    rw [← Source.ofMnemonic?_mnemonic op, ofMnemonic?, ofMnemonic?, folded]

theorem ascii_of_part {cs : List Char} (mem : c ∈ cs)
    (part : cs.map Char.toUpper <:+: op.mnemonic.toList) : 0 < c.toNat ∧ c.toNat < 0x80 := by
  have named := Source.nameChar_of_isName (Source.isName_mnemonic op) c.toUpper
    (part.subset (List.mem_map_of_mem mem))
  have bounds := Source.visible_of_nameChar named
  rw [Source.toNat_toUpper] at bounds
  split at bounds <;> omega

theorem code_lt_of_part {n : Nat} {cs : List Char} (mem : Char.ofNat n ∈ cs)
    (part : cs.map Char.toUpper <:+: op.mnemonic.toList) : n < 0x80 := by
  obtain ⟨positive, small⟩ := ascii_of_part mem part
  rcases toNat_ofNat_eq_or n with eq | eq <;> omega

/-- The characters with a sequence that is a part of a mnemonic are the two ligatures. -/
theorem code_of_sequence {n : Nat} {codes : List Nat} (mem : (n, codes) ∈ upperSequences)
    (part : (codes.map Char.ofNat).map Char.toUpper <:+: op.mnemonic.toList) :
    n ∈ lookalikes.map (·.1.toNat) := by
  have table : ∀ entry ∈ upperSequences, (∀ code ∈ entry.2, code < 0x80) → ∀ op ∈ all,
      (entry.2.map Char.ofNat).map Char.toUpper <:+: op.mnemonic.toList →
        entry.1 ∈ lookalikes.map (·.1.toNat) := by
    decide +kernel
  have ascii : ∀ code ∈ codes, code < 0x80 :=
    fun code inside => code_lt_of_part (List.mem_map_of_mem inside) part
  exact table (n, codes) mem ascii op op.mem_all part

/-- The runs that reach ASCII are those of the dotless i and of the long s. -/
theorem code_of_run {run : UpperRun} {n : Nat} (mem : run ∈ upperRuns) (held : run.holds n = true)
    (part : [Char.ofNat (n + run.shift).toNat].map Char.toUpper <:+: op.mnemonic.toList) :
    n ∈ lookalikes.map (·.1.toNat) := by
  have table : ∀ run ∈ upperRuns, run.first + run.shift < 0x80 →
      run.last = run.first ∧ run.first ∈ lookalikes.map (·.1.toNat) := by
    decide +kernel
  have small := code_lt_of_part List.mem_cons_self part
  simp only [UpperRun.holds, Bool.and_eq_true, decide_eq_true_eq] at held
  obtain ⟨single, code⟩ := table run mem (by omega)
  rwa [show n = run.first by omega]

/-- A character beyond ASCII whose upper-case form is a part of a mnemonic stands for letters. -/
theorem isLookalike_of_part (beyond : 0x80 ≤ c.toNat)
    (part : (upperChar c).map Char.toUpper <:+: op.mnemonic.toList) : IsLookalike c := by
  rw [upperChar, if_neg (Nat.not_lt.2 beyond)] at part
  split at part
  · next codes found =>
    obtain ⟨before, after, table, -⟩ := List.lookup_eq_some_iff.1 found
    have mem : (c.toNat, codes) ∈ upperSequences :=
      table ▸ List.mem_append_right _ List.mem_cons_self
    exact isLookalike_of_code (code_of_sequence mem part)
  · split at part
    · next run found =>
      have held := List.find?_some found
      exact isLookalike_of_code (code_of_run (List.mem_of_find?_eq_some found) held part)
    · exact absurd (ascii_of_part List.mem_cons_self part).2 (Nat.not_lt.2 beyond)

theorem map_toUpper_upper_eq_iff {cs : List Char} :
    (upper cs).map Char.toUpper = op.mnemonic.toList ↔
      (plain cs).map Char.toUpper = op.mnemonic.toList := by
  constructor
  · intro same
    rw [← map_toUpper_upper, same]
    intro c mem
    have part : (upperChar c).map Char.toUpper <:+: op.mnemonic.toList :=
      same ▸ part_of_mem upperChar mem
    exact or_iff_not_imp_left.2 fun large => isLookalike_of_part (Nat.not_lt.1 large) part
  · intro same
    rw [map_toUpper_upper, same]
    intro c mem
    have part : (plainChar c).map Char.toUpper <:+: op.mnemonic.toList :=
      same ▸ part_of_mem plainChar mem
    refine or_iff_not_imp_right.2 fun other => ?_
    rw [plainChar_of_not other] at part
    exact (ascii_of_part List.mem_cons_self part).2

theorem ofMnemonic?_of_mem {cs : List Char} (beyond : 0x80 ≤ c.toNat) (mem : c ∈ cs) :
    ofMnemonic? (String.ofList cs) = none := by
  refine Option.eq_none_iff_forall_ne_some.2 fun op found => ?_
  rw [ofMnemonic?_eq_some_iff, String.toList_ofList] at found
  have part : cs.map Char.toUpper <:+: op.mnemonic.toList := found ▸ List.infix_rfl
  exact Nat.not_lt.2 beyond (ascii_of_part mem part).2

end Opcode

namespace Mnemonic

open Text

theorem opcode?_ofText (s : String) :
    (ofText s).opcode? = Opcode.ofMnemonic? (String.ofList (upper (trim s.toList))) := by
  rw [ofText]

theorem opcode?_ofText_eq_some_iff {s : String} {op : Opcode} :
    (ofText s).opcode? = some op ↔
    (plain (trim s.toList)).map Char.toUpper = op.mnemonic.toList := by
  rw [opcode?_ofText, Opcode.ofMnemonic?_eq_some_iff, String.toList_ofList,
    Opcode.map_toUpper_upper_eq_iff]

/-- **Which spellings name an opcode.**  In source text, a word names the opcode whose mnemonic it
is up to the case of the ASCII letters.  In a document, so does a text that has a lookalike in
place of a letter, and nothing else does; the two ways differ just there. -/
theorem opcode?_ofText_iff (s : String) :
    (∀ op, Opcode.ofMnemonic? (String.ofList (trim s.toList)) = some op ↔
      (trim s.toList).map Char.toUpper = op.mnemonic.toList) ∧
    (∀ op, (ofText s).opcode? = some op ↔
      (plain (trim s.toList)).map Char.toUpper = op.mnemonic.toList) ∧
    ((ofText s).opcode? ≠ Opcode.ofMnemonic? (String.ofList (trim s.toList)) ↔
      (ofText s).opcode?.isSome ∧ ∃ c ∈ trim s.toList, IsLookalike c) := by
  have inSource (op : Opcode) : Opcode.ofMnemonic? (String.ofList (trim s.toList)) = some op ↔
      (trim s.toList).map Char.toUpper = op.mnemonic.toList := by
    rw [Opcode.ofMnemonic?_eq_some_iff, String.toList_ofList]
  refine ⟨inSource, fun op => opcode?_ofText_eq_some_iff, ?_⟩
  by_cases alike : ∃ c ∈ trim s.toList, IsLookalike c
  · obtain ⟨c, mem, beyond⟩ := alike
    rw [Opcode.ofMnemonic?_of_mem beyond.beyond mem, Option.ne_none_iff_isSome]
    exact (and_iff_left ⟨c, mem, beyond⟩).symm
  · have unchanged : plain (trim s.toList) = trim s.toList :=
      plain_of_forall_not fun c mem lookalike => alike ⟨c, mem, lookalike⟩
    have same : (ofText s).opcode? = Opcode.ofMnemonic? (String.ofList (trim s.toList)) :=
      Option.ext fun op => by rw [opcode?_ofText_eq_some_iff, inSource, unchanged]
    exact iff_of_false (fun differ => differ same) fun named => alike named.2

/-- Documents and source text do not name opcodes alike: written with a dotless i, `WRITE` is a
name in documents only. -/
theorem not_forall_opcode?_ofText_eq :
    ¬∀ s, (ofText s).opcode? = Opcode.ofMnemonic? (String.ofList (trim s.toList)) := by
  intro law
  have inDocument : (ofText "wr\u0131te").opcode? = some .write := by decide +kernel
  have inSource : Opcode.ofMnemonic? (String.ofList (trim "wr\u0131te".toList)) =
    none := by decide +kernel
  have both := law "wr\u0131te"
  rw [inDocument, inSource] at both
  cases both

end Mnemonic

end FrameCode
