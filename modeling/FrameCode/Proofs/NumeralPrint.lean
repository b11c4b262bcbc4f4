import FrameCode.Numeral

/-!
# Reading printed numerals

`literal?_print`: the decimal numeral of a word reads as that word, for all words.
-/

namespace FrameCode.Numeral

/-! ## Decimal digits -/

/-- A decimal digit is a digit of base ten, with its usual value. -/
theorem digit?_of_isDigit {c : Char} (digit : c.isDigit = true) :
    digit? 10 c = some (c.toNat - '0'.toNat) := by
  obtain ⟨low, high⟩ := Char.isDigit_iff_toNat.1 digit
  have within : '0' ≤ c ∧ c ≤ '9' := ⟨low, high⟩
  have below : c.toNat - '0'.toNat < 10 := by
    simp only [Char.reduceToNat] at *
    omega
  rw [digit?, hexDigit?, if_pos within, Option.filter_some, if_pos (decide_eq_true below)]

/-- The magnitude of decimal digits after others is the number they stand for. -/
theorem foldl_digits {cs : List Char} (digits : ∀ c ∈ cs, c.isDigit = true) (n : Nat) :
    cs.foldl (fun n c => n * 10 + (digit? 10 c).getD 0) n = Nat.ofDigitChars 10 cs n := by
  induction cs generalizing n with
  | nil => rfl
  | cons c cs ih =>
    rw [List.foldl_cons, ih fun d mem => digits d (List.mem_cons_of_mem _ mem),
      Nat.ofDigitChars_cons, digit?_of_isDigit (digits c List.mem_cons_self), Option.getD_some,
      Nat.mul_comm]

theorem isDigit_of_mem_decimal {n : Nat} : ∀ c ∈ Nat.toDigits 10 n, c.isDigit = true :=
  fun _ mem => Nat.isDigit_of_mem_toDigits (by decide) (by decide) mem

theorem magnitude_toDigits (n : Nat) : magnitude 10 (Nat.toDigits 10 n) = n :=
  (foldl_digits isDigit_of_mem_decimal 0).trans Nat.ofDigitChars_ten_toDigits

theorem areDigits_toDigits (n : Nat) : areDigits 10 (Nat.toDigits 10 n) = true := by
  simp only [areDigits, Bool.and_eq_true, Bool.not_eq_true', List.isEmpty_eq_false_iff,
    List.all_eq_true]
  refine ⟨Nat.toDigits_ne_nil, fun c mem => ?_⟩
  rw [isDigit, digit?_of_isDigit (isDigit_of_mem_decimal c mem)]
  rfl

/-! ## Signs and bases -/

/-- Decimal digits have no sign before them. -/
theorem sign_of_digits {cs : List Char} (digits : ∀ c ∈ cs, c.isDigit = true) :
    sign cs = (false, cs) := by
  unfold sign
  split
  · exact absurd (digits _ List.mem_cons_self) (by decide)
  · exact absurd (digits _ List.mem_cons_self) (by decide)
  · rfl

/-- Decimal digits announce no other base. -/
theorem base_of_digits {cs : List Char} (digits : ∀ c ∈ cs, c.isDigit = true) :
    base cs = (10, cs) := by
  have second : ∀ {d e : Char} {rest : List Char}, cs = d :: e :: rest → e.isDigit = true :=
    fun eq => digits _ (by simp [eq])
  unfold base
  split
  · exact absurd (second rfl) (by decide)
  · exact absurd (second rfl) (by decide)
  · exact absurd (second rfl) (by decide)
  · exact absurd (second rfl) (by decide)
  · rfl

/-! ## Complete numerals -/

/-- The digits of a number, after the sign they are read with, make a literal. -/
theorem literal?_toDigits {cs : List Char} {negative : Bool} {n : Nat}
    (split : sign cs = (negative, Nat.toDigits 10 n)) :
    literal? cs = word? (signed negative n) := by
  simp only [literal?, split, base_of_digits isDigit_of_mem_decimal, areDigits_toDigits,
    magnitude_toDigits, if_true]

/-- A word has the value it is built from. -/
theorem word?_toInt (n : Int64) : word? n.toInt = some n := by
  have low := n.le_toInt
  have high := n.toInt_lt
  have within : inRange n.toInt = true := by
    rw [inRange, Bool.and_eq_true, decide_eq_true_eq, decide_eq_true_eq]
    exact ⟨low, high⟩
  rw [word?, if_pos within, Int64.ofInt_toInt]

/-- The numeral of a word reads as that word. -/
theorem literal?_print (n : Int64) : literal? (print n).toList = some n := by
  rw [← word?_toInt n, print, Int.repr_eq_if]
  split
  · next nonneg =>
    rw [Nat.toList_repr, literal?_toDigits (sign_of_digits isDigit_of_mem_decimal)]
    exact congrArg word? (Int.toNat_of_nonneg nonneg)
  · next negative =>
    have minus : sign ("-" ++ (-n.toInt).toNat.repr).toList =
        (true, Nat.toDigits 10 (-n.toInt).toNat) := by
      rw [String.toList_append, Nat.toList_repr]
      rfl
    rw [literal?_toDigits minus]
    refine congrArg word? ?_
    show -((-n.toInt).toNat : Int) = n.toInt
    omega

/-- A numeral consists of decimal digits, and of a minus sign for the numbers below zero. -/
theorem mem_print {n : Int64} {c : Char} (mem : c ∈ (print n).toList) :
    c = '-' ∨ c.isDigit = true := by
  rw [print, Int.repr_eq_if] at mem
  split at mem
  · rw [Nat.toList_repr] at mem
    exact .inr (isDigit_of_mem_decimal c mem)
  · rw [String.toList_append, Nat.toList_repr] at mem
    rcases List.mem_append.1 mem with minus | mem
    · exact .inl (List.mem_singleton.1 minus)
    · exact .inr (isDigit_of_mem_decimal c mem)

end FrameCode.Numeral
