import FrameCode.Proofs.OperandForms
import Mathlib.Data.Nat.Digits.Defs
import Mathlib.Tactic.Ring

/-!
# Forms of numerals

A `Form` is a sign, the mark of a base and digits of that base with their values; it stands for an
integer.  `IsNumeral` says that a text is such a form with at least one digit, `Form.Leads` that a
form is the part of a text that a lenient reader takes: it cannot be made longer.

`readers_give_values` says what both readers make of every text: the strict one reads exactly the
numerals of words, and the lenient one gives the word nearest to the value of the leading form.
-/

namespace FrameCode.Numeral

/-! ## Digits -/

/-- The digits with small letters, at the places of their values. -/
def smallDigits : List Char := "0123456789abcdef".toList

/-- The digits with capital letters, at the places of their values. -/
def capitalDigits : List Char := "0123456789ABCDEF".toList

/-- The character is a digit of base `b` and stands for `d`. -/
def HasValue (b : Nat) (c : Char) (d : Nat) : Prop :=
  d < b ∧ (smallDigits[d]? = some c ∨ capitalDigits[d]? = some c)

instance (b : Nat) (c : Char) (d : Nat) : Decidable (HasValue b c d) :=
  inferInstanceAs (Decidable (_ ∧ _))

theorem hexDigit?_of_getElem? {symbols : List Char} {c : Char} {d : Nat}
    (each : symbols.zipIdx.all (fun (c, d) => hexDigit? c == some d) = true)
    (found : symbols[d]? = some c) : hexDigit? c = some d :=
  beq_iff_eq.1 (List.all_eq_true.1 each (c, d) (List.mk_mem_zipIdx_iff_getElem?.2 found))

theorem hexDigit?_eq_some_iff {c : Char} {d : Nat} :
    hexDigit? c = some d ↔ smallDigits[d]? = some c ∨ capitalDigits[d]? = some c := by
  constructor
  · intro read
    have decimal : ∀ n < 10, smallDigits[n]? = some (Char.ofNat (48 + n)) := by decide
    have small : ∀ n < 6, smallDigits[n + 10]? = some (Char.ofNat (97 + n)) := by decide
    have capital : ∀ n < 6, capitalDigits[n + 10]? = some (Char.ofNat (65 + n)) := by decide
    have code {first : Nat} (low : first ≤ c.toNat) :
        Char.ofNat (first + (c.toNat - first)) = c := by
      rw [Nat.add_sub_cancel' low, Char.ofNat_toNat]
    unfold hexDigit? at read
    split at read
    · next within =>
      have low : 48 ≤ c.toNat := within.1
      have high : c.toNat ≤ 57 := within.2
      cases read
      have place := decimal (c.toNat - 48) (by omega)
      rw [code low] at place
      exact .inl place
    · split at read
      · next within =>
        have low : 97 ≤ c.toNat := within.1
        have high : c.toNat ≤ 102 := within.2
        cases read
        have place := small (c.toNat - 97) (by omega)
        rw [code low] at place
        exact .inl place
      · split at read
        · next within =>
          have low : 65 ≤ c.toNat := within.1
          have high : c.toNat ≤ 70 := within.2
          cases read
          have place := capital (c.toNat - 65) (by omega)
          rw [code low] at place
          exact .inr place
        · cases read
  · rintro (found | found)
    · exact hexDigit?_of_getElem? (by decide) found
    · exact hexDigit?_of_getElem? (by decide) found

theorem digit?_eq_some_iff {b : Nat} {c : Char} {d : Nat} :
    digit? b c = some d ↔ HasValue b c d := by
  rw [digit?, Option.filter_eq_some_iff, hexDigit?_eq_some_iff, decide_eq_true_eq,
    and_comm, HasValue]

/-- A character that is no digit of base sixteen is no digit of any base. -/
theorem not_hasValue {b : Nat} {c : Char} (other : c ∉ smallDigits ++ capitalDigits) (d : Nat) :
    ¬HasValue b c d := by
  rintro ⟨-, found | found⟩
  · exact other (List.mem_append_left _ (List.mem_of_getElem? found))
  · exact other (List.mem_append_right _ (List.mem_of_getElem? found))

theorem isDigit_of_hasValue {b : Nat} {c : Char} {d : Nat} (valued : HasValue b c d) :
    isDigit b c = true := by
  rw [isDigit, digit?_eq_some_iff.2 valued]
  rfl

theorem exists_values {b : Nat} {cs : List Char} (digits : ∀ c ∈ cs, isDigit b c = true) :
    ∃ values, List.Forall₂ (HasValue b) cs values := by
  induction cs with
  | nil => exact ⟨[], .nil⟩
  | cons c cs ih =>
    obtain ⟨first, others⟩ := List.forall_mem_cons.1 digits
    obtain ⟨d, found⟩ := Option.isSome_iff_exists.1 first
    obtain ⟨values, valued⟩ := ih others
    exact ⟨d :: values, .cons (digit?_eq_some_iff.1 found) valued⟩

theorem isDigit_of_forall₂ {b : Nat} {cs : List Char} {values : List Nat}
    (valued : List.Forall₂ (HasValue b) cs values) : ∀ c ∈ cs, isDigit b c = true := by
  induction valued with
  | nil => exact fun _ mem => absurd mem List.not_mem_nil
  | cons first _ ih => exact List.forall_mem_cons.2 ⟨isDigit_of_hasValue first, ih⟩

/-- Digits after others that stand for `n` put their positional value below `n`. -/
theorem foldl_valued {b : Nat} {cs : List Char} {values : List Nat}
    (valued : List.Forall₂ (HasValue b) cs values) (n : Nat) :
    cs.foldl (fun n c => n * b + (digit? b c).getD 0) n =
      n * b ^ values.length + Nat.ofDigits b values.reverse := by
  induction valued generalizing n with
  | nil => simp
  | @cons c d cs values first _ ih =>
    rw [List.foldl_cons, ih, digit?_eq_some_iff.2 first, Option.getD_some,
      Nat.ofDigits_reverse_cons, List.length_cons]
    ring

theorem magnitude_valued {b : Nat} {cs : List Char} {values : List Nat}
    (valued : List.Forall₂ (HasValue b) cs values) :
    magnitude b cs = Nat.ofDigits b values.reverse := by
  rw [magnitude, foldl_valued valued, Nat.zero_mul, Nat.zero_add]

/-! ## Forms -/

/-- What can stand before a numeral to tell its sign. -/
inductive Sign where
  | absent
  | plus
  | minus
  deriving DecidableEq, Repr

namespace Sign

/-- The sign as it is written. -/
def text : Sign → List Char
  | absent => []
  | plus => ['+']
  | minus => ['-']

/-- The sign makes a number negative. -/
def negative : Sign → Bool
  | absent => false
  | plus => false
  | minus => true

end Sign

/-- What can stand before digits to tell their base. -/
inductive Mark where
  | absent
  | hexadecimal (capital : Bool)
  | octal (capital : Bool)
  deriving DecidableEq, Repr

namespace Mark

/-- The mark as it is written. -/
def text : Mark → List Char
  | absent => []
  | hexadecimal capital => ['0', if capital then 'X' else 'x']
  | octal capital => ['0', if capital then 'O' else 'o']

/-- The base of the digits after a mark. -/
def base : Mark → Nat
  | absent => 10
  | hexadecimal _ => 16
  | octal _ => 8

theorem base_le (m : Mark) : m.base ≤ 16 := by
  cases m with
  | absent => exact Nat.le_of_ble_eq_true rfl
  | hexadecimal => exact Nat.le_refl 16
  | octal => exact Nat.le_of_ble_eq_true rfl

/-- No mark consists of decimal digits. -/
theorem exists_letter {m : Mark} (present : m ≠ .absent) :
    ∃ c ∈ m.text, isDigit 10 c = false := by
  cases m with
  | absent => exact absurd rfl present
  | hexadecimal capital =>
    cases capital <;> exact ⟨_, List.mem_cons_of_mem _ List.mem_cons_self, rfl⟩
  | octal capital => cases capital <;> exact ⟨_, List.mem_cons_of_mem _ List.mem_cons_self, rfl⟩

end Mark

/-- A sign, the mark of a base, and digits of that base with their values. -/
structure Form where
  sign : Sign
  mark : Mark
  digits : List Char
  values : List Nat
  valued : List.Forall₂ (HasValue mark.base) digits values

namespace Form

/-- The form as it is written. -/
def text (f : Form) : List Char := f.sign.text ++ (f.mark.text ++ f.digits)

/-- The integer that a form stands for. -/
def value (f : Form) : Int := signed f.sign.negative (Nat.ofDigits f.mark.base f.values.reverse)

/-- The text is the form followed by `rest`, and neither a sign, nor a mark, nor a digit is left
out of the form. -/
structure Leads (f : Form) (cs rest : List Char) : Prop where
  text_eq : cs = f.text ++ rest
  signed : f.sign = .absent → ∀ s : Sign, s ≠ .absent → ¬s.text <+: cs
  marked : f.mark = .absent → ∀ m : Mark, m ≠ .absent → ¬f.sign.text ++ m.text <+: cs
  whole : ∀ c d, HasValue f.mark.base c d → rest.head? ≠ some c

end Form

/-- The text is a numeral of the integer: a form with at least one digit. -/
def IsNumeral (cs : List Char) (n : Int) : Prop :=
  ∃ f : Form, f.digits ≠ [] ∧ cs = f.text ∧ n = f.value

/-! ## Taking a text apart -/

theorem exists_sign (cs : List Char) :
    ∃ (s : Sign) (unsigned : List Char), cs = s.text ++ unsigned ∧
    (s = .absent → ∀ t : Sign, t ≠ .absent → ¬t.text <+: cs) := by
  by_cases plus : ['+'] <+: cs
  · obtain ⟨unsigned, rfl⟩ := plus
    exact ⟨.plus, unsigned, rfl, nofun⟩
  · by_cases minus : ['-'] <+: cs
    · obtain ⟨unsigned, rfl⟩ := minus
      exact ⟨.minus, unsigned, rfl, nofun⟩
    · refine ⟨.absent, cs, rfl, fun _ t present => ?_⟩
      cases t with
      | absent => exact absurd rfl present
      | plus => exact plus
      | minus => exact minus

theorem exists_mark (cs : List Char) : ∃ (m : Mark) (digits : List Char), cs = m.text ++ digits ∧
    (m = .absent → ∀ k : Mark, k ≠ .absent → ¬k.text <+: cs) := by
  by_cases marked : ∃ m : Mark, m ≠ .absent ∧ m.text <+: cs
  · obtain ⟨m, present, digits, rfl⟩ := marked
    exact ⟨m, digits, rfl, fun absent => absurd absent present⟩
  · exact ⟨.absent, cs, rfl, fun _ k present starts => marked ⟨k, present, starts⟩⟩

/-- Every text has a leading form. -/
theorem exists_leads (cs : List Char) : ∃ (f : Form) (rest : List Char), f.Leads cs rest := by
  obtain ⟨s, unsigned, rfl, signed⟩ := exists_sign cs
  obtain ⟨m, digits, rfl, marked⟩ := exists_mark unsigned
  have all : ∀ c ∈ digits.takeWhile (isDigit m.base), isDigit m.base c = true :=
    fun _ mem => List.mem_takeWhile_imp mem
  obtain ⟨values, valued⟩ := exists_values all
  refine ⟨⟨s, m, _, values, valued⟩, digits.dropWhile (isDigit m.base), ?_, signed, ?_, ?_⟩
  · simp only [Form.text, List.append_assoc, List.takeWhile_append_dropWhile]
  · intro absent k present starts
    exact marked absent k present ((List.prefix_append_right_inj _).1 starts)
  · intro c d counts first
    have stops := List.head?_dropWhile_not (isDigit m.base) digits
    rw [first] at stops
    exact absurd (isDigit_of_hasValue counts) (Bool.not_eq_true _ ▸ stops)

theorem sign_append {s : Sign} {unsigned : List Char}
    (signed : s = .absent → ∀ t : Sign, t ≠ .absent → ¬t.text <+: s.text ++ unsigned) :
    sign (s.text ++ unsigned) = (s.negative, unsigned) := by
  cases s with
  | plus => rfl
  | minus => rfl
  | absent =>
    have noPlus := signed rfl .plus nofun
    have noMinus := signed rfl .minus nofun
    show sign unsigned = (false, unsigned)
    unfold sign
    split
    · exact absurd ⟨_, rfl⟩ noMinus
    · exact absurd ⟨_, rfl⟩ noPlus
    · rfl

theorem base_append {m : Mark} {digits : List Char}
    (marked : m = .absent → ∀ k : Mark, k ≠ .absent → ¬k.text <+: m.text ++ digits) :
    base (m.text ++ digits) = (m.base, digits) := by
  cases m with
  | hexadecimal capital => cases capital <;> rfl
  | octal capital => cases capital <;> rfl
  | absent =>
    have unmarked := marked rfl
    show base digits = (10, digits)
    unfold base
    split
    · exact absurd ⟨_, rfl⟩ (unmarked (.hexadecimal false) nofun)
    · exact absurd ⟨_, rfl⟩ (unmarked (.hexadecimal true) nofun)
    · exact absurd ⟨_, rfl⟩ (unmarked (.octal false) nofun)
    · exact absurd ⟨_, rfl⟩ (unmarked (.octal true) nofun)
    · rfl

namespace Form

variable {f : Form} {cs rest : List Char}

theorem Leads.sign_eq (leads : f.Leads cs rest) :
    Numeral.sign cs = (f.sign.negative, f.mark.text ++ (f.digits ++ rest)) := by
  obtain ⟨rfl, signed, -, -⟩ := leads
  rw [text, List.append_assoc, List.append_assoc] at signed ⊢
  exact sign_append signed

theorem Leads.base_eq (leads : f.Leads cs rest) :
    Numeral.base (f.mark.text ++ (f.digits ++ rest)) = (f.mark.base, f.digits ++ rest) := by
  obtain ⟨rfl, -, marked, -⟩ := leads
  refine base_append fun absent k present starts => marked absent k present ?_
  rw [text, List.append_assoc, List.append_assoc]
  exact (List.prefix_append_right_inj _).2 starts

theorem Leads.takeWhile_eq (leads : f.Leads cs rest) :
    (f.digits ++ rest).takeWhile (isDigit f.mark.base) = f.digits := by
  have stops : rest.takeWhile (isDigit f.mark.base) = [] := by
    cases rest with
    | nil => rfl
    | cons c rest =>
      refine List.takeWhile_cons_of_neg fun counts => ?_
      obtain ⟨d, found⟩ := Option.isSome_iff_exists.1 counts
      exact leads.whole c d (digit?_eq_some_iff.1 found) rfl
  rw [List.takeWhile_append_of_pos (isDigit_of_forall₂ f.valued), stops, List.append_nil]

/-- The strict reader takes the leading form if it has a digit and is the whole text. -/
theorem Leads.literal?_eq (leads : f.Leads cs rest) :
    literal? cs = if f.digits ≠ [] ∧ rest = [] then word? f.value else none := by
  have complete : areDigits f.mark.base (f.digits ++ rest) = true ↔
      f.digits ≠ [] ∧ rest = [] := by
    rw [areDigits, Bool.and_eq_true, Bool.not_eq_true', List.isEmpty_eq_false_iff,
      List.all_eq_true,
      ← List.takeWhile_eq_self_iff, leads.takeWhile_eq, List.self_eq_append_right]
    constructor
    · rintro ⟨nonempty, rfl⟩
      exact ⟨fun empty => nonempty (by rw [empty, List.append_nil]), rfl⟩
    · rintro ⟨nonempty, rfl⟩
      exact ⟨by rwa [List.append_nil], rfl⟩
  simp only [literal?, leads.sign_eq, leads.base_eq, complete]
  split
  · next whole =>
    rw [whole.2, List.append_nil, magnitude_valued f.valued]
    rfl
  · rfl

/-- The lenient reader takes the leading form. -/
theorem Leads.lenient_eq (leads : f.Leads cs rest) : lenient cs = nearest f.value := by
  rw [Numeral.lenient_eq leads.sign_eq leads.base_eq, leads.takeWhile_eq,
    magnitude_valued f.valued]
  rfl

/-- What follows the sign of a form with digits begins with a digit. -/
theorem exists_head (m : Mark) {digits : List Char} {values : List Nat} (nonempty : digits ≠ [])
    (valued : List.Forall₂ (HasValue m.base) digits values) :
    ∃ c cs, m.text ++ digits = c :: cs ∧ isDigit 16 c = true := by
  cases m with
  | hexadecimal capital => exact ⟨_, _, rfl, rfl⟩
  | octal capital => exact ⟨_, _, rfl, rfl⟩
  | absent =>
    cases valued with
    | nil => exact absurd rfl nonempty
    | cons first others =>
      have below : HasValue 16 _ _ := ⟨Nat.lt_of_lt_of_le first.1 (Mark.base_le .absent), first.2⟩
      exact ⟨_, _, rfl, isDigit_of_hasValue below⟩

/-- A sign is no digit and no mark consists of decimal digits, so nothing is left out of a form
that has a digit. -/
theorem leads_text (nonempty : f.digits ≠ []) : f.Leads f.text [] := by
  obtain ⟨s, m, digits, values, valued⟩ := f
  refine ⟨(List.append_nil _).symm, ?_, ?_, fun _ _ _ => nofun⟩
  · intro absent t present starts
    cases absent
    obtain ⟨c, cs, split, counts⟩ := exists_head m nonempty valued
    have starts : t.text <+: c :: cs := split ▸ starts
    cases t with
    | absent => exact present rfl
    | plus =>
      obtain ⟨rfl, -⟩ := List.cons_prefix_cons.1 starts
      cases counts
    | minus =>
      obtain ⟨rfl, -⟩ := List.cons_prefix_cons.1 starts
      cases counts
  · intro absent k present starts
    cases absent
    obtain ⟨c, mem, letter⟩ := Mark.exists_letter present
    have inside := ((List.prefix_append_right_inj _).1 starts).subset mem
    have counts : isDigit 10 c = true := isDigit_of_forall₂ valued c inside
    rw [counts] at letter
    cases letter

end Form

/-- The strict reader reads a numeral of a word as that word, and nothing else. -/
theorem literal?_eq_some_iff {cs : List Char} {w : Int64} :
    literal? cs = some w ↔ IsNumeral cs w.toInt := by
  constructor
  · intro read
    obtain ⟨f, rest, leads⟩ := exists_leads cs
    rw [leads.literal?_eq] at read
    split at read
    · next whole =>
      obtain ⟨nonempty, rfl⟩ := whole
      have text := leads.text_eq
      rw [List.append_nil] at text
      exact ⟨f, nonempty, text, word?_eq_some_iff.1 read⟩
    · cases read
  · rintro ⟨f, nonempty, rfl, value⟩
    rw [(Form.leads_text nonempty).literal?_eq, if_pos ⟨nonempty, rfl⟩]
    exact word?_eq_some_iff.2 value

/-! ## The numbers on the way -/

/-- The numbers that `saturating` computes, before it cuts them off. -/
def sums (b n : Nat) : List Char → List Nat
  | [] => []
  | c :: cs =>
    match digit? b c with
    | some d => (n * b + d) :: sums b (min (n * b + d) greatest) cs
    | none => []

/-- What is counted is the last number on the way, cut off. -/
theorem saturating_eq_getLastD (b : Nat) {n : Nat} (cut : n ≤ greatest) (cs : List Char) :
    saturating b n cs = min ((sums b n cs).getLastD n) greatest := by
  induction cs generalizing n with
  | nil => exact (Nat.min_eq_left cut).symm
  | cons c cs ih =>
    rcases found : digit? b c with - | d
    · simp only [saturating, sums, found]
      exact (Nat.min_eq_left cut).symm
    · simp only [saturating, sums, found]
      rw [ih (Nat.min_le_right _ _), List.getLastD_cons]
      -- Only the number before all others is cut off here and not there.
      cases sums b (min (n * b + d) greatest) cs with
      | nil => exact Nat.min_eq_left (Nat.min_le_right _ _)
      | cons => rfl

/-- Every number on the way fits into 127 bits, since the one before it was cut off. -/
theorem lt_of_mem_sums {b : Nat} (le : b ≤ 16) {n : Nat} (cut : n ≤ greatest) (cs : List Char) :
    ∀ k ∈ sums b n cs, k < 2 ^ 127 := by
  induction cs generalizing n with
  | nil => exact fun _ mem => absurd mem List.not_mem_nil
  | cons c cs ih =>
    rw [sums]
    split
    · next d found =>
      have digit : d < b := (digit?_eq_some_iff.1 found).1
      have product : n * b ≤ greatest * 16 := Nat.mul_le_mul cut le
      have bound : n * b + d < 2 ^ 127 := by
        rw [greatest] at product
        omega
      exact List.forall_mem_cons.2 ⟨bound, ih (Nat.min_le_right _ _)⟩
    · exact fun _ mem => absurd mem List.not_mem_nil

theorem toInt_nearest (n : Int) :
    (nearest n).toInt = max (-0x8000000000000000) (min n 0x7fffffffffffffff) := by
  refine Int64.toInt_ofInt_of_le ?_ ?_
  · omega
  · omega

/-! ## Both readers -/

/-- **What the readers of numerals make of a text.**  The strict reader reads exactly the numerals
whose integer is a word, as that word.  Every text has a leading form; the lenient reader gives
its integer, moved to the nearest bound if it is no word.  It counts the digits by cutting off
each number on the way, and none of these needs more than 127 bits.  So both readers give the same
word wherever the strict one gives any, and a document may hold a word by its decimal digits. -/
theorem readers_give_values (cs : List Char) :
    (∀ w, literal? cs = some w ↔ IsNumeral cs w.toInt) ∧
      (∃ f rest, Form.Leads f cs rest) ∧
      (∀ f rest, Form.Leads f cs rest →
        (lenient cs).toInt = max (-0x8000000000000000) (min f.value 0x7fffffffffffffff) ∧
          saturating f.mark.base 0 (f.digits ++ rest) =
            min ((sums f.mark.base 0 (f.digits ++ rest)).getLastD 0) greatest ∧
          ∀ n ∈ sums f.mark.base 0 (f.digits ++ rest), n < 2 ^ 127) ∧
      (∀ w, literal? cs = some w → lenient cs = w) ∧
      ∀ w : Int64, Operand.read "int" w.toInt.repr = .ok (.literal (.int w)) := by
  refine ⟨fun w => literal?_eq_some_iff, exists_leads cs, fun f rest leads => ⟨?_, ?_, ?_⟩,
    fun w => lenient_eq_of_literal?, fun w => ?_⟩
  · rw [leads.lenient_eq, toInt_nearest]
  · exact saturating_eq_getLastD f.mark.base (Nat.zero_le _) _
  · exact lt_of_mem_sums f.mark.base_le (Nat.zero_le _) _
  · have free : ∀ c ∈ (print w).toList, Text.isBlank c = false :=
      fun c mem => (Source.isWord_int w c mem).1
    show Operand.read OperandTag.int.name (print w) = .ok (.literal (.int w))
    rw [Operand.read_name .int free, Operand.ofTagged, lenient_eq_of_literal? (literal?_print w)]

/-- The least word in hexadecimal digits, and octal digits beyond the greatest word with a
letter after them. -/
theorem readers_give_values_bounds :
    IsNumeral "-0X8000000000000000".toList (-0x8000000000000000) ∧
      lenient "-0X8000000000000000".toList = Int64.minValue ∧
      (lenient "+0o7777777777777777777777z".toList).toInt = 0x7fffffffffffffff := by
  have least := readers_give_values "-0X8000000000000000".toList
  have read : literal? "-0X8000000000000000".toList = some Int64.minValue := by decide
  let f : Form := ⟨.plus, .octal false, List.replicate 22 '7', List.replicate 22 7, by decide⟩
  have leads : f.Leads "+0o7777777777777777777777z".toList ['z'] := by
    refine ⟨by decide, nofun, nofun, fun c d counts first => ?_⟩
    cases first
    exact not_hasValue (by decide) d counts
  obtain ⟨value, -⟩ :=
    (readers_give_values "+0o7777777777777777777777z".toList).2.2.1 f ['z'] leads
  have beyond : max (-0x8000000000000000) (min f.value 0x7fffffffffffffff) =
      0x7fffffffffffffff := by decide
  exact ⟨(least.1 Int64.minValue).1 read, least.2.2.2.1 Int64.minValue read, value.trans beyond⟩

end FrameCode.Numeral
