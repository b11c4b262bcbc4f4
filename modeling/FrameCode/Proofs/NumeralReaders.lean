import FrameCode.Proofs.NumeralPrint
import Mathlib.Data.List.TakeWhile

/-!
# Readers of numerals

`decimal?_eq_some_iff` says which texts are decimal numerals of a word, `lenient_eq` that
cutting off the number after each digit gives the same word as cutting off the exact value
once, and `lenient_eq_of_literal?` that the two readers of literals agree on every complete
numeral in range.
-/

namespace FrameCode.Numeral

/-! ## Decimal numerals -/

/-- The text is a decimal numeral of the integer: digits, with or without a sign before them. -/
def IsDecimal (cs : List Char) (n : Int) : Prop :=
  ∃ digits, digits ≠ [] ∧ (∀ d ∈ digits, d.isDigit = true) ∧
    ((cs = digits ∨ cs = '+' :: digits) ∧ n = Nat.ofDigitChars 10 digits 0 ∨
      cs = '-' :: digits ∧ n = -(Nat.ofDigitChars 10 digits 0 : Int))

/-- The digits of base ten are the decimal digits. -/
theorem isDigit_ten_iff {c : Char} : isDigit 10 c = true ↔ c.isDigit = true := by
  constructor
  · intro digit
    by_cases decimal : '0' ≤ c ∧ c ≤ '9'
    · exact Char.isDigit_iff_toNat.2 decimal
    · -- The letters stand for ten and more, so none of them is a digit of base ten.
      rw [isDigit, digit?, hexDigit?, if_neg decimal] at digit
      split at digit
      · rw [Option.filter_some, if_neg (by simp)] at digit
        cases digit
      · split at digit
        · rw [Option.filter_some, if_neg (by simp)] at digit
          cases digit
        · cases digit
  · intro digit
    rw [isDigit, digit?_of_isDigit digit]
    rfl

theorem areDigits_ten_iff {cs : List Char} :
    areDigits 10 cs = true ↔ cs ≠ [] ∧ ∀ c ∈ cs, c.isDigit = true := by
  simp only [areDigits, Bool.and_eq_true, Bool.not_eq_true', List.isEmpty_eq_false_iff,
    List.all_eq_true, isDigit_ten_iff]

theorem magnitude_of_digits {cs : List Char} (digits : ∀ c ∈ cs, c.isDigit = true) :
    magnitude 10 cs = Nat.ofDigitChars 10 cs 0 :=
  foldl_digits digits 0

theorem inRange_iff {n : Int} :
    inRange n = true ↔ -0x8000000000000000 ≤ n ∧ n < 0x8000000000000000 := by
  simp only [inRange, Bool.and_eq_true, decide_eq_true_eq]

/-- A word is found for its own value only. -/
theorem word?_eq_some_iff {n : Int} {w : Int64} : word? n = some w ↔ w.toInt = n := by
  constructor
  · intro found
    unfold word? at found
    split at found
    · next within =>
      obtain ⟨low, high⟩ := inRange_iff.1 within
      cases found
      exact Int64.toInt_ofInt_of_le low high
    · cases found
  · rintro rfl
    exact word?_toInt w

/-- What a decimal numeral is, once its sign is taken off. -/
theorem decimal?_eq_some_iff_of_sign {cs digits : List Char} {negative : Bool} {w : Int64}
    (split : sign cs = (negative, digits)) :
    decimal? cs = some w ↔ digits ≠ [] ∧ (∀ d ∈ digits, d.isDigit = true) ∧
      w.toInt = signed negative (Nat.ofDigitChars 10 digits 0) := by
  rw [decimal?, split]
  by_cases proper : areDigits 10 digits = true
  · obtain ⟨nonempty, all⟩ := areDigits_ten_iff.1 proper
    simp only [proper, if_true, magnitude_of_digits all, word?_eq_some_iff]
    exact ⟨fun value => ⟨nonempty, all, value⟩, fun ⟨_, _, value⟩ => value⟩
  · simp only [proper, if_false, reduceCtorEq, false_iff]
    exact fun ⟨nonempty, all, _⟩ => proper (areDigits_ten_iff.2 ⟨nonempty, all⟩)

/-- A word is read from its decimal numerals, whatever their sign and their leading zeros are. -/
theorem decimal?_eq_some_iff {cs : List Char} {w : Int64} :
    decimal? cs = some w ↔ IsDecimal cs w.toInt := by
  constructor
  · intro read
    have split : sign cs = ((sign cs).1, (sign cs).2) := rfl
    obtain ⟨nonempty, all, value⟩ := (decimal?_eq_some_iff_of_sign split).1 read
    refine ⟨(sign cs).2, nonempty, all, ?_⟩
    revert value
    unfold sign
    split
    · exact fun value => .inr ⟨rfl, value⟩
    · exact fun value => .inl ⟨.inr rfl, value⟩
    · exact fun value => .inl ⟨.inl rfl, value⟩
  · rintro ⟨digits, nonempty, all, ⟨rfl | rfl, value⟩ | ⟨rfl, value⟩⟩
    · exact (decimal?_eq_some_iff_of_sign (sign_of_digits all)).2 ⟨nonempty, all, value⟩
    · exact (decimal?_eq_some_iff_of_sign rfl).2 ⟨nonempty, all, value⟩
    · exact (decimal?_eq_some_iff_of_sign rfl).2 ⟨nonempty, all, value⟩

/-- The numeral that is printed for a word is a decimal one. -/
theorem decimal?_print (w : Int64) : decimal? (print w).toList = some w := by
  refine decimal?_eq_some_iff.2 ?_
  rw [print, Int.repr_eq_if]
  split
  · next nonneg =>
    refine ⟨_, Nat.toDigits_ne_nil, isDigit_of_mem_decimal, .inl ⟨.inl Nat.toList_repr, ?_⟩⟩
    rw [Nat.ofDigitChars_ten_toDigits]
    omega
  · next negative =>
    refine ⟨Nat.toDigits 10 (-w.toInt).toNat, Nat.toDigits_ne_nil, isDigit_of_mem_decimal,
      .inr ⟨?_, ?_⟩⟩
    · rw [String.toList_append, Nat.toList_repr]
      rfl
    · rw [Nat.ofDigitChars_ten_toDigits]
      omega

/-! ## Lenient reading -/

/-- The step of a magnitude can be cut off at the greatest one before it is taken or after. -/
theorem cut_step {b : Nat} (positive : 0 < b) (n d : Nat) :
    min (min n greatest * b + d) greatest = min (n * b + d) greatest := by
  rcases Nat.le_total n greatest with below | above
  · rw [Nat.min_eq_left below]
  · have bound : greatest ≤ greatest * b := Nat.le_mul_of_pos_right greatest positive
    have larger : greatest * b ≤ n * b := Nat.mul_le_mul_right b above
    rw [Nat.min_eq_right above]
    omega

/-- Counting with a bound gives the number that the leading digits stand for, cut off
at the bound. -/
theorem saturating_eq {b : Nat} (positive : 0 < b) (n : Nat) (cs : List Char) :
    saturating b (min n greatest) cs =
      min ((cs.takeWhile (isDigit b)).foldl
        (fun n c => n * b + (digit? b c).getD 0) n) greatest := by
  induction cs generalizing n with
  | nil => rfl
  | cons c cs ih =>
    rcases found : digit? b c with - | d
    · have stops : ¬isDigit b c = true := by simp [isDigit, found]
      rw [saturating, found, List.takeWhile_cons_of_neg stops, List.foldl_nil]
    · have counts : isDigit b c = true := by simp [isDigit, found]
      rw [saturating, found, List.takeWhile_cons_of_pos counts, List.foldl_cons, found,
        Option.getD_some, ← ih]
      exact congrArg (saturating b · cs) (cut_step positive n d)

theorem saturating_zero {b : Nat} (positive : 0 < b) (cs : List Char) :
    saturating b 0 cs = min (magnitude b (cs.takeWhile (isDigit b))) greatest :=
  saturating_eq positive 0 cs

theorem base_pos (cs : List Char) : 0 < (base cs).1 := by
  unfold base
  split <;> exact Nat.succ_pos _

/-- Beyond the greatest magnitude, the nearest word is the same for all numbers of one sign. -/
theorem nearest_signed_min (negative : Bool) (n : Nat) :
    nearest (signed negative (min n greatest)) = nearest (signed negative n) := by
  refine congrArg Int64.ofInt ?_
  cases negative with
  | false =>
    show max _ (min ((min n greatest : Nat) : Int) _) = max _ (min (n : Int) _)
    rw [greatest]
    omega
  | true =>
    show max _ (min (-((min n greatest : Nat) : Int)) _) = max _ (min (-(n : Int)) _)
    rw [greatest]
    omega

/-- The lenient reader gives the word nearest to the exact value of the leading digits. -/
theorem lenient_eq {cs unsigned digits : List Char} {negative : Bool} {b : Nat}
    (parts : sign cs = (negative, unsigned)) (marked : base unsigned = (b, digits)) :
    lenient cs = nearest (signed negative (magnitude b (digits.takeWhile (isDigit b)))) := by
  have positive : 0 < b := by
    have pos := base_pos unsigned
    rwa [marked] at pos
  simp only [lenient, parts, marked, saturating_zero positive, nearest_signed_min]

/-- A number that is a word is the nearest word to itself. -/
theorem nearest_of_word? {n : Int} {w : Int64} (found : word? n = some w) : nearest n = w := by
  obtain rfl := word?_eq_some_iff.1 found
  have low := w.le_toInt
  have high := w.toInt_lt
  have clamped : max (-0x8000000000000000) (min w.toInt 0x7fffffffffffffff) = w.toInt := by omega
  rw [nearest, clamped, Int64.ofInt_toInt]

/-- The lenient reader gives the value of every complete numeral in range, in each base. -/
theorem lenient_eq_of_literal? {cs : List Char} {w : Int64} (read : literal? cs = some w) :
    lenient cs = w := by
  rcases parts : sign cs with ⟨negative, unsigned⟩
  rcases marked : base unsigned with ⟨b, digits⟩
  simp only [literal?, parts, marked] at read
  split at read
  · next proper =>
    have all : ∀ c ∈ digits, isDigit b c = true := by
      rw [areDigits, Bool.and_eq_true, List.all_eq_true] at proper
      exact proper.2
    have whole : digits.takeWhile (isDigit b) = digits := List.takeWhile_eq_self_iff.2 all
    rw [lenient_eq parts marked, whole]
    exact nearest_of_word? read
  · cases read

end FrameCode.Numeral
