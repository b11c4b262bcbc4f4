import FrameCode.Value

/-!
# Laws of the stored form

`decode_encode` reads back what `encode` writes, and `wellFormed_encode` says that `encode` leaves
no incomplete code.

`mem_decode` and `mem_encode` say where the characters of a decoded and of an encoded text come
from.
-/

namespace FrameCode.Text.Escape

/-! ## One code -/

/-- The value of three decimal digits is below 1000. -/
theorem ofDigitChars_three_lt {a b c : Char} (da : a.isDigit = true) (db : b.isDigit = true)
    (dc : c.isDigit = true) : Nat.ofDigitChars 10 [a, b, c] 0 < 1000 := by
  have ha := (Char.isDigit_iff_toNat.1 da).2
  have hb := (Char.isDigit_iff_toNat.1 db).2
  have hc := (Char.isDigit_iff_toNat.1 dc).2
  simp only [Nat.ofDigitChars_cons, Nat.ofDigitChars_nil, Char.reduceToNat] at *
  omega

/-- A code names the character it counts: every number below 1000 is a code point. -/
theorem toNat_charOfDigits {a b c : Char} (da : a.isDigit = true) (db : b.isDigit = true)
    (dc : c.isDigit = true) :
    (charOfDigits a b c).toNat = Nat.ofDigitChars 10 [a, b, c] 0 := by
  have small := ofDigitChars_three_lt da db dc
  have valid : (Nat.ofDigitChars 10 [a, b, c] 0).isValidChar := Or.inl (by omega)
  rw [charOfDigits, Char.ofNat, dif_pos valid]
  rfl

/-- The digits of a code below 1000 name that code. -/
theorem charOfDigits_code {c : Char} (small : c.toNat ≤ 999) :
    charOfDigits (c.toNat / 100).digitChar (c.toNat / 10 % 10).digitChar
      (c.toNat % 10).digitChar = c := by
  have hundreds : c.toNat / 100 < 10 := by omega
  have tens : c.toNat / 10 % 10 < 10 := by omega
  have ones : c.toNat % 10 < 10 := by omega
  unfold charOfDigits
  rw [Nat.ofDigitChars_cons_digitChar_of_lt_ten hundreds,
    Nat.ofDigitChars_cons_digitChar_of_lt_ten tens,
    Nat.ofDigitChars_cons_digitChar_of_lt_ten ones, Nat.ofDigitChars_nil,
    show 10 * (10 * (10 * 0 + c.toNat / 100) + c.toNat / 10 % 10) + c.toNat % 10 = c.toNat by
      omega,
    Char.ofNat_toNat]

/-- A number below 1000 has three decimal digits. -/
theorem digits_of_code {n : Nat} (small : n ≤ 999) :
    (n / 100).digitChar.isDigit = true ∧ (n / 10 % 10).digitChar.isDigit = true ∧
      (n % 10).digitChar.isDigit = true := by
  simp only [Nat.isDigit_digitChar, decide_eq_true_eq]
  omega

theorem le_of_needsCode {c : Char} (coded : needsCode c = true) : c.toNat ≤ 999 := by
  simp only [needsCode, Bool.and_eq_true, decide_eq_true_eq] at coded
  exact coded.1

theorem ne_backslash_of_not_needsCode {c : Char} (plain : ¬needsCode c = true) : c ≠ '\\' := by
  rintro rfl
  exact plain (by decide)

theorem digit_ne_backslash {d : Char} (digit : d.isDigit = true) : d ≠ '\\' := by
  rintro rfl
  exact absurd digit (by decide)

/-! ## Decoding from the left -/

/-- A character that does not begin a complete code stands for itself. -/
theorem decode_cons_of_literal {c : Char} {rest : List Char}
    (literal : c = '\\' → startsWithCode rest = false) :
    decode (c :: rest) = c :: decode rest := by
  rw [decode.eq_def]
  split
  · contradiction
  · next a b d more eq =>
    obtain ⟨rfl, rfl⟩ := List.cons.inj eq
    have other : (a.isDigit && b.isDigit && d.isDigit) = false := literal rfl
    rw [if_neg (Bool.eq_false_iff.1 other)]
  · next eq =>
    obtain ⟨rfl, rfl⟩ := List.cons.inj eq
    rfl

/-- A character other than a backslash stands for itself. -/
theorem decode_cons_of_ne {c : Char} (plain : c ≠ '\\') (rest : List Char) :
    decode (c :: rest) = c :: decode rest :=
  decode_cons_of_literal fun eq => absurd eq plain

/-- A complete code stands for the character it names. -/
theorem decode_code {a b c : Char} (da : a.isDigit = true) (db : b.isDigit = true)
    (dc : c.isDigit = true) (rest : List Char) :
    decode ('\\' :: a :: b :: c :: rest) = charOfDigits a b c :: decode rest := by
  rw [decode, if_pos (by simp [da, db, dc])]

/-- What `encode` writes for a character is read back as that character. -/
theorem decode_encodeChar (c : Char) (rest : List Char) :
    decode (encodeChar c ++ rest) = c :: decode rest := by
  unfold encodeChar
  split
  · next coded =>
    have small := le_of_needsCode coded
    obtain ⟨hundreds, tens, ones⟩ := digits_of_code small
    refine (decode_code hundreds tens ones rest).trans ?_
    rw [charOfDigits_code small]
  · next plain => exact decode_cons_of_ne (ne_backslash_of_not_needsCode plain) rest

/-- Decoding undoes encoding. -/
theorem decode_encode (cs : List Char) : decode (encode cs) = cs := by
  induction cs with
  | nil => rfl
  | cons c cs ih =>
    rw [encode, List.flatMap_cons, decode_encodeChar]
    exact congrArg (c :: ·) ih

/-! ## Well-formed texts -/

theorem wellFormed_cons_of_ne {c : Char} (plain : c ≠ '\\') (rest : List Char) :
    wellFormed (c :: rest) = wellFormed rest := by
  rw [wellFormed, bne_iff_ne.2 plain, Bool.true_or, Bool.true_and]

/-- A backslash that begins no code is a fault of the text. -/
theorem wellFormed_backslash_cons {rest : List Char} (other : startsWithCode rest = false) :
    wellFormed ('\\' :: rest) = false := by
  rw [wellFormed, other]
  rfl

/-- A complete code in front keeps a text well-formed. -/
theorem wellFormed_code {a b c : Char} (da : a.isDigit = true) (db : b.isDigit = true)
    (dc : c.isDigit = true) (rest : List Char) :
    wellFormed ('\\' :: a :: b :: c :: rest) = wellFormed rest := by
  have start : startsWithCode (a :: b :: c :: rest) = true := by
    simp [startsWithCode, da, db, dc]
  rw [wellFormed, start, Bool.or_true, Bool.true_and,
    wellFormed_cons_of_ne (digit_ne_backslash da), wellFormed_cons_of_ne (digit_ne_backslash db),
    wellFormed_cons_of_ne (digit_ne_backslash dc)]

/-- Every code that `code` writes for a number below 1000 is complete. -/
theorem wellFormed_code_append {n : Nat} (small : n ≤ 999) (rest : List Char) :
    wellFormed (code n ++ rest) = wellFormed rest := by
  obtain ⟨hundreds, tens, ones⟩ := digits_of_code small
  exact wellFormed_code hundreds tens ones rest

theorem wellFormed_encodeChar_append (c : Char) (rest : List Char) :
    wellFormed (encodeChar c ++ rest) = wellFormed rest := by
  unfold encodeChar
  split
  · next coded => exact wellFormed_code_append (le_of_needsCode coded) rest
  · next plain => exact wellFormed_cons_of_ne (ne_backslash_of_not_needsCode plain) rest

/-- Encoding leaves no incomplete code. -/
theorem wellFormed_encode (cs : List Char) : wellFormed (encode cs) = true := by
  induction cs with
  | nil => rfl
  | cons c cs ih =>
    rw [encode, List.flatMap_cons, wellFormed_encodeChar_append]
    exact ih

/-- A text that starts with a code still does so when more follows. -/
theorem startsWithCode_append {cs : List Char} (start : startsWithCode cs = true)
    (more : List Char) : startsWithCode (cs ++ more) = true := by
  match cs, start with
  | _ :: _ :: _ :: _, start => exact start

theorem length_lt_three {cs : List Char} (short : ∀ a b c rest, cs ≠ a :: b :: c :: rest) :
    cs.length < 3 := by
  match cs, short with
  | [], _ | [_], _ | [_, _], _ => simp
  | a :: b :: c :: rest, short => exact absurd rfl (short a b c rest)

/-- Fewer than three characters are no code. -/
theorem startsWithCode_of_length_lt {cs : List Char} (short : cs.length < 3) :
    startsWithCode cs = false := by
  match cs with
  | [] | [_] | [_, _] => rfl
  | a :: b :: c :: rest =>
    simp only [List.length_cons] at short
    omega

theorem exists_of_startsWithCode {cs : List Char} (start : startsWithCode cs = true) :
    ∃ a b c rest, cs = a :: b :: c :: rest ∧ ∀ d ∈ [a, b, c], d.isDigit = true := by
  match cs, start with
  | a :: b :: c :: rest, start =>
    simp only [startsWithCode, Bool.and_eq_true] at start
    obtain ⟨⟨da, db⟩, dc⟩ := start
    exact ⟨a, b, c, rest, rfl, by simp [da, db, dc]⟩

theorem wellFormed_append {x y : List Char} (hx : wellFormed x = true)
    (hy : wellFormed y = true) : wellFormed (x ++ y) = true := by
  induction x with
  | nil => exact hy
  | cons c x ih =>
    simp only [wellFormed, List.cons_append, Bool.and_eq_true, Bool.or_eq_true] at hx ⊢
    exact ⟨hx.1.imp_right fun start => startsWithCode_append start y, ih hx.2⟩

theorem wellFormed_of_append {x y : List Char} (formed : wellFormed (x ++ y) = true) :
    wellFormed y = true := by
  induction x with
  | nil => exact formed
  | cons c x ih =>
    simp only [List.cons_append, wellFormed, Bool.and_eq_true] at formed
    exact ih formed.2

/-! ## Where characters come from -/

/-- A decoded character stands in the stored text or has a code. -/
theorem mem_decode {c : Char} {cs : List Char} (mem : c ∈ decode cs) :
    c ∈ cs ∨ c.toNat ≤ 999 := by
  induction cs using decode.induct with
  | case1 => cases mem
  | case2 x y z rest digits ih =>
    simp only [Bool.and_eq_true] at digits
    obtain ⟨⟨dx, dy⟩, dz⟩ := digits
    rw [decode_code dx dy dz] at mem
    rcases List.mem_cons.1 mem with rfl | mem
    · have small := ofDigitChars_three_lt dx dy dz
      rw [toNat_charOfDigits dx dy dz]
      exact .inr (by omega)
    · exact (ih mem).imp_left fun found => by simp [found]
  | case3 x y z rest other ih =>
    rw [decode, if_neg other] at mem
    rcases List.mem_cons.1 mem with rfl | mem
    · exact .inl List.mem_cons_self
    · exact (ih mem).imp_left (List.mem_cons_of_mem _)
  | case4 d rest short ih =>
    rw [decode.eq_3 d rest short] at mem
    rcases List.mem_cons.1 mem with rfl | mem
    · exact .inl List.mem_cons_self
    · exact (ih mem).imp_left (List.mem_cons_of_mem _)

/-- An encoded text consists of backslashes, decimal digits, and those of its characters that need
no code. -/
theorem mem_encode {d : Char} {cs : List Char} (mem : d ∈ encode cs) :
    d = '\\' ∨ d.isDigit = true ∨ (d ∈ cs ∧ needsCode d = false) := by
  obtain ⟨c, found, mem⟩ := List.mem_flatMap.1 mem
  unfold encodeChar at mem
  split at mem
  · next coded =>
    obtain ⟨hundreds, tens, ones⟩ := digits_of_code (le_of_needsCode coded)
    simp only [code, List.mem_cons, List.not_mem_nil, or_false] at mem
    rcases mem with rfl | rfl | rfl | rfl
    · exact .inl rfl
    · exact .inr (.inl hundreds)
    · exact .inr (.inl tens)
    · exact .inr (.inl ones)
  · next plain =>
    obtain rfl := List.mem_singleton.1 mem
    exact .inr (.inr ⟨found, Bool.eq_false_iff.2 plain⟩)

theorem not_needsCode_of_isDigit {d : Char} (digit : d.isDigit = true) : needsCode d = false := by
  have bounds := Char.isDigit_iff_toNat.1 digit
  have other : d ≠ '#' ∧ d ≠ '\\' := by
    constructor <;> rintro rfl <;> exact absurd digit (by decide)
  simp only [Char.reduceToNat] at bounds
  simp only [needsCode, isBlank, isControl, beq_eq_false_iff_ne.2 other.1,
    beq_eq_false_iff_ne.2 other.2, Bool.and_eq_false_iff, Bool.or_eq_false_iff,
    decide_eq_false_iff_not, beq_eq_false_iff_ne, and_true]
  omega

/-- An encoded text holds no `#`, and no blank or control character that can be written
by a code. -/
theorem plain_of_mem_encode {d : Char} {cs : List Char} (mem : d ∈ encode cs) :
    d ≠ '#' ∧ (d.toNat ≤ 999 → isBlank d = false ∧ isControl d = false) := by
  have plain : d = '\\' ∨ needsCode d = false := by
    rcases mem_encode mem with rfl | digit | ⟨-, plain⟩
    · exact .inl rfl
    · exact .inr (not_needsCode_of_isDigit digit)
    · exact .inr plain
  rcases plain with rfl | plain
  · decide
  · constructor
    · rintro rfl
      exact absurd plain (by decide)
    · intro small
      simp only [needsCode, small, decide_true, Bool.true_and, Bool.or_eq_false_iff] at plain
      exact ⟨plain.1.1.1.2, plain.1.1.2⟩

end FrameCode.Text.Escape
