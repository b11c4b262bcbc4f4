import FrameCode.Proofs.Concatenation
import FrameCode.Proofs.Sameness
import Mathlib.Algebra.Group.Nat.Defs

/-!
# Strings as sequences of characters

A string is stored with codes, and is used as the sequence of characters that it denotes.
`decode_encode_recodes` states the laws of the coding that this rests on, for all texts.

`charAt?` is the character at a position.  `charAt_eq`, `codeAt_eq` and `setChar_eq` say what
`GETCHAR`, `STRI2INT` and `SETCHAR` do in terms of it, and `strings_are_arrays` states the laws of
arrays for them: where they succeed, what is read after a replacement, and that the characters of
a string make up the string again.
-/

namespace FrameCode

namespace Text.Escape

/-! ## Coding -/

/-- **Coding loses nothing.**  What is encoded is decoded to the same characters.  The encoded
text is well-formed, and holds no `#` and no blank or control character up to 999.  So a plain
text is printed as it was stored, encoding what is decoded changes nothing the second time, and
two stored texts denote the same characters just if they are encoded alike. -/
theorem decode_encode_recodes (cs t u : List Char) (plain : String) :
    decode (encode cs) = cs ∧ wellFormed (encode cs) = true ∧
      (∀ c ∈ encode cs, c ≠ '#' ∧ (c.toNat ≤ 999 → isBlank c = false ∧ isControl c = false)) ∧
      (Value.ofText plain).output = plain ∧
      encode (decode (encode (decode t))) = encode (decode t) ∧
      (decode t = decode u ↔ encode (decode t) = encode (decode u)) := by
  refine ⟨decode_encode cs, wellFormed_encode cs, fun c mem => plain_of_mem_encode mem, ?_,
    congrArg encode (decode_encode (decode t)), congrArg encode, fun eq => ?_⟩
  · show String.ofList (Value.chars (String.ofList (encode plain.toList))) = plain
    rw [Value.chars_ofList_encode, String.ofList_toList]
  · have decoded := congrArg decode eq
    rwa [decode_encode, decode_encode] at decoded

/-- A backslash, a number sign, a blank below 1000 and one above, which stays as it is. -/
theorem decode_encode_recodes_blank :
    let cs := ['\\', '#', '\u00a0', '\u3000', '3']
    '\u3000' ∈ encode cs ∧ encode cs = "\\092\\035\\160\u30003".toList ∧ decode (encode cs) = cs ∧
      '\u3000' ≠ '#' ∧ isBlank '\u3000' = true ∧ 999 < '\u3000'.toNat := by
  intro cs
  have mem : '\u3000' ∈ encode cs := by decide
  obtain ⟨decoded, -, held, -⟩ := decode_encode_recodes cs [] [] ""
  obtain ⟨other, covered⟩ := held '\u3000' mem
  refine ⟨mem, by decide, decoded, other, by decide, Nat.lt_of_not_le fun small => ?_⟩
  exact absurd (covered small).1 (by decide)

end Text.Escape

/-! ## The character at a position -/

/-- The character at a position counted from 0, if the list is that long. -/
def charAt? (cs : List Char) (i : Int64) : Option Char :=
  if 0 ≤ i then cs[i.toInt.toNat]? else none

section Positions

variable {cs : List Char} {i j : Int64} {c : Char}

theorem charAt?_of_nonneg (nonneg : 0 ≤ i) : charAt? cs i = cs[i.toInt.toNat]? := if_pos nonneg

theorem isSome_charAt?_iff : (charAt? cs i).isSome ↔ 0 ≤ i.toInt ∧ i.toInt < cs.length := by
  have start : 0 ≤ i ↔ 0 ≤ i.toInt := Int64.le_iff_toInt_le
  unfold charAt?
  split
  · next nonneg =>
    rw [Option.isSome_iff_ne_none, Ne, List.getElem?_eq_none_iff]
    have := start.1 nonneg
    omega
  · next negative =>
    exact ⟨fun some => absurd some (by decide), fun range => absurd (start.2 range.1) negative⟩

theorem charAt?_ofNat {n : Nat} (small : n < 2 ^ 63) : charAt? cs (Int64.ofNat n) = cs[n]? := by
  have value := Int64.toInt_ofNat_of_lt small
  have nonneg : 0 ≤ Int64.ofNat n := by
    rw [Int64.le_iff_toInt_le, value]
    exact Int.natCast_nonneg n
  rw [charAt?_of_nonneg nonneg, value, Int.toNat_natCast]

theorem charAt?_set_self (inside : (charAt? cs i).isSome) :
    charAt? (cs.set i.toInt.toNat c) i = some c := by
  obtain ⟨nonneg, short⟩ := isSome_charAt?_iff.1 inside
  rw [charAt?_of_nonneg (Int64.le_iff_toInt_le.2 nonneg), List.getElem?_set_self (by omega)]

theorem charAt?_set_of_ne (nonneg : 0 ≤ i) (ne : j ≠ i) :
    charAt? (cs.set i.toInt.toNat c) j = charAt? cs j := by
  unfold charAt?
  split
  · next other =>
    have apart : i.toInt.toNat ≠ j.toInt.toNat := by
      have := Int64.le_iff_toInt_le.1 nonneg
      have := Int64.le_iff_toInt_le.1 other
      have := mt Int64.toInt_inj.1 ne
      simp only [Int64.toInt_zero] at *
      omega
    exact List.getElem?_set_ne apart
  · rfl

end Positions

namespace Operation

variable {order : Nat} {s w : String} {i : Int64}

theorem focus_of_some (op : Opcode) {c : Char} (found : charAt? (Value.chars s) i = some c) :
    focus order op (.str s) (.int i) = .ok
      ⟨(Value.chars s).take i.toInt.toNat, c, (Value.chars s).drop (i.toInt.toNat + 1)⟩ := by
  unfold charAt? at found
  split at found
  · next nonneg =>
    obtain ⟨short, at_⟩ := List.getElem?_eq_some_iff.1 found
    simp only [focus, if_pos nonneg, List.drop_eq_getElem_cons short, at_]
  · cases found

theorem focus_of_none (op : Opcode) (missing : charAt? (Value.chars s) i = none) :
    focus order op (.str s) (.int i) =
      .error ⟨order, .indexOutOfRange i (Value.chars s).length⟩ := by
  unfold charAt? at missing
  unfold focus
  dsimp only
  split
  · next nonneg =>
    rw [if_pos nonneg, List.getElem?_eq_none_iff] at missing
    rw [List.drop_eq_nil_of_le missing]
  · rfl

/-! ## Indexed operations -/

/-- `GETCHAR` gives the string of one character. -/
theorem charAt_eq (order : Nat) (s : String) (i : Int64) :
    charAt order (.str s) (.int i) =
      match charAt? (Value.chars s) i with
      | some c => .ok (.ofChars [c])
      | none => .error ⟨order, .indexOutOfRange i (Value.chars s).length⟩ := by
  unfold charAt
  split
  · next found => rw [focus_of_some .getchar found]; rfl
  · next missing => rw [focus_of_none .getchar missing]; rfl

/-- `STRI2INT` gives the code of the character. -/
theorem codeAt_eq (order : Nat) (s : String) (i : Int64) :
    codeAt order (.str s) (.int i) =
      match charAt? (Value.chars s) i with
      | some c => .ok (.int (Int64.ofNat c.toNat))
      | none => .error ⟨order, .indexOutOfRange i (Value.chars s).length⟩ := by
  unfold codeAt
  split
  · next found => rw [focus_of_some .stri2int found]; rfl
  · next missing => rw [focus_of_none .stri2int missing]; rfl

/-- `SETCHAR` replaces the character by the first one of the other string. -/
theorem setChar_eq (order : Nat) (s w : String) (i : Int64) :
    setChar order (.str s) (.int i) (.str w) =
      match charAt? (Value.chars s) i, (Value.chars w).head? with
      | some _, some d => .ok (.ofChars ((Value.chars s).set i.toInt.toNat d))
      | some _, none => .error ⟨order, .emptyReplacement⟩
      | none, _ => .error ⟨order, .indexOutOfRange i (Value.chars s).length⟩ := by
  cases found : charAt? (Value.chars s) i with
  | none => simp only [setChar, focus_of_none .setchar found]
  | some c =>
    simp only [setChar, focus_of_some .setchar found]
    cases replacement : Value.chars w with
    | nil => rfl
    | cons d rest =>
      obtain ⟨nonneg, short⟩ := isSome_charAt?_iff.1 (Option.isSome_of_eq_some found)
      have inside : i.toInt.toNat < (Value.chars s).length := by omega
      simp only [List.head?_cons, List.set_eq_take_cons_drop d inside]

/-! ## Strings in canonical form -/

section Canonical

variable (order : Nat) (cs : List Char)

theorem length_ofChars : length order (.ofChars cs) = .ok (.int (Int64.ofNat cs.length)) := by
  rw [Value.ofChars, length, Value.chars_ofList_encode]

theorem charAt_ofChars (i : Int64) :
    charAt order (.ofChars cs) (.int i) =
      match charAt? cs i with
      | some c => .ok (.ofChars [c])
      | none => .error ⟨order, .indexOutOfRange i cs.length⟩ := by
  rw [Value.ofChars, charAt_eq, Value.chars_ofList_encode]

theorem codeAt_ofChars (i : Int64) :
    codeAt order (.ofChars cs) (.int i) =
      match charAt? cs i with
      | some c => .ok (.int (Int64.ofNat c.toNat))
      | none => .error ⟨order, .indexOutOfRange i cs.length⟩ := by
  rw [Value.ofChars, codeAt_eq, Value.chars_ofList_encode]

end Canonical

/-! ## Joining characters -/

/-- Encoded strings are joined to the encoded string of the characters of both. -/
theorem concat_ofChars (order : Nat) (cs ds : List Char) :
    concat order (.ofChars cs) (.ofChars ds) = .ok (.ofChars (cs ++ ds)) := by
  -- Each character is encoded by itself, so nothing can happen where the two meet.
  show Except.ok (Value.str (_ ++ _)) = .ok (.str _)
  rw [← String.ofList_append, Text.Escape.encode, Text.Escape.encode, Text.Escape.encode,
    List.flatMap_append]

/-- The characters of a string at the first positions, taken by `GETCHAR` one by one and joined by
`CONCAT`, starting with the empty string. -/
def rejoin (order : Nat) (v : Value) : Nat → Except Fault Value
  | 0 => .ok (.str "")
  | n + 1 => do
    let front ← rejoin order v n
    let c ← charAt order v (.int (Int64.ofNat n))
    concat order front c

theorem rejoin_eq {n : Nat} (short : n ≤ (Value.chars s).length) (small : n < 2 ^ 63) :
    rejoin order (.str s) n = .ok (.ofChars ((Value.chars s).take n)) := by
  induction n with
  | zero => rfl
  | succ n ih =>
    have found : charAt? (Value.chars s) (Int64.ofNat n) = some (Value.chars s)[n] := by
      rw [charAt?_ofNat (Nat.lt_of_succ_lt small), List.getElem?_eq_getElem]
    have char : charAt order (.str s) (.int (Int64.ofNat n)) =
        .ok (.ofChars [(Value.chars s)[n]]) := by
      rw [charAt_eq, found]
    rw [rejoin, ih (Nat.le_of_succ_le short) (Nat.lt_of_succ_lt small)]
    show (charAt order (.str s) (.int (Int64.ofNat n)) >>= concat order (.ofChars _)) = _
    rw [char]
    show concat order (.ofChars _) (.ofChars [_]) = _
    rw [concat_ofChars, List.take_append_getElem]

/-! ## Arrays of characters -/

theorem charAt_eq_ok_iff {v : Value} :
    charAt order (.str s) (.int i) = .ok v ↔
    ∃ c, charAt? (Value.chars s) i = some c ∧ .ofChars [c] = v := by
  rw [charAt_eq]
  cases charAt? (Value.chars s) i <;> simp

theorem codeAt_eq_ok_iff {v : Value} :
    codeAt order (.str s) (.int i) = .ok v ↔
      ∃ c, charAt? (Value.chars s) i = some c ∧ .int (Int64.ofNat c.toNat) = v := by
  rw [codeAt_eq]
  cases charAt? (Value.chars s) i <;> simp

theorem setChar_eq_ok_iff {v : Value} :
    setChar order (.str s) (.int i) (.str w) = .ok v ↔
      ∃ d, (charAt? (Value.chars s) i).isSome ∧ (Value.chars w).head? = some d ∧
        .ofChars ((Value.chars s).set i.toInt.toNat d) = v := by
  rw [setChar_eq]
  cases charAt? (Value.chars s) i <;> cases (Value.chars w).head? <;> simp

/-- Of a string and an integer, a character is missing for no other reason than the position. -/
theorem status_of_charAt {e : Fault} (failed : charAt order (.str s) (.int i) = .error e) :
    e.status = 58 := by
  rw [charAt_eq] at failed
  split at failed <;> cases failed
  rfl

theorem status_of_codeAt {e : Fault} (failed : codeAt order (.str s) (.int i) = .error e) :
    e.status = 58 := by
  rw [codeAt_eq] at failed
  split at failed <;> cases failed
  rfl

theorem status_of_setChar {e : Fault}
    (failed : setChar order (.str s) (.int i) (.str w) = .error e) : e.status = 58 := by
  rw [setChar_eq] at failed
  split at failed <;> cases failed <;> rfl

/-- The character read at a position is a string of length 1, with the same code. -/
theorem codeAt_charAt {v : Value} (read : charAt order (.str s) (.int i) = .ok v) :
    length order v = .ok (.int 1) ∧ codeAt order v (.int 0) = codeAt order (.str s) (.int i) := by
  obtain ⟨c, found, rfl⟩ := charAt_eq_ok_iff.1 read
  have first : charAt? [c] 0 = some c := rfl
  rw [length_ofChars, codeAt_ofChars, codeAt_eq, found, first]
  exact ⟨rfl, rfl⟩

/-- A replacement keeps the length and all other characters. -/
theorem charAt_setChar {v : Value} (replaced : setChar order (.str s) (.int i) (.str w) = .ok v) :
    length order v = length order (.str s) ∧
    charAt order v (.int i) = charAt order (.str w) (.int 0) ∧
      ∀ j, j ≠ i → charAt order v (.int j) = charAt order (.str s) (.int j) := by
  obtain ⟨d, inside, first, rfl⟩ := setChar_eq_ok_iff.1 replaced
  have nonneg : 0 ≤ i := Int64.le_iff_toInt_le.2 (isSome_charAt?_iff.1 inside).1
  have head : charAt? (Value.chars w) 0 = some d := by
    rw [← first, List.head?_eq_getElem?]
    exact charAt?_of_nonneg (by decide)
  refine ⟨?_, ?_, fun j other => ?_⟩
  · rw [length_ofChars, List.length_set, length]
  · rw [charAt_ofChars, charAt_eq, charAt?_set_self inside, head]
  · rw [charAt_ofChars, charAt_eq, charAt?_set_of_ne nonneg other, List.length_set]

/-- The number of characters that `STRLEN` gives, of a string with no more characters than an
integer can count. -/
theorem toInt_of_length {n : Int64} (small : (Value.chars s).length < 2 ^ 63)
    (counted : length order (.str s) = .ok (.int n)) : n.toInt = (Value.chars s).length := by
  cases counted
  exact Int64.toInt_ofNat_of_lt small

/-- The characters of a string, joined, make up an equal string. -/
theorem rejoin_length (small : (Value.chars s).length < 2 ^ 63) :
    ∃ v, rejoin order (.str s) (Value.chars s).length = .ok v ∧
      equals order v (.str s) = .ok true := by
  refine ⟨_, rejoin_eq (Nat.le_refl _) small, ?_⟩
  rw [List.take_length]
  exact equals_str_eq_true_iff.2 (Value.chars_ofList_encode _)

/-- **Strings are arrays of characters.** `GETCHAR` and `STRI2INT` succeed just at the positions
below the length, and `SETCHAR` if moreover the replacement is not empty; otherwise they fail with
a string error.  A character that is read is a string of length 1 and has the code that `STRI2INT`
gives.  A replacement keeps the length, puts the first character of the other string at its
position and leaves all others.  The characters of a string, read one by one and joined, make up
an equal string.  The length is a number of characters; `STRLEN` gives it as an integer, which can
count the characters of every string that fits into a memory. -/
theorem strings_are_arrays (order : Nat) (s w : String) (i : Int64) :
    ((∃ v, charAt order (.str s) (.int i) = .ok v) ↔
      0 ≤ i.toInt ∧ i.toInt < (Value.chars s).length) ∧
    ((∃ v, codeAt order (.str s) (.int i) = .ok v) ↔
      0 ≤ i.toInt ∧ i.toInt < (Value.chars s).length) ∧
    ((∃ v, setChar order (.str s) (.int i) (.str w) = .ok v) ↔
      (0 ≤ i.toInt ∧ i.toInt < (Value.chars s).length) ∧ 0 < (Value.chars w).length) ∧
    (∀ e, charAt order (.str s) (.int i) = .error e ∨ codeAt order (.str s) (.int i) = .error e ∨
      setChar order (.str s) (.int i) (.str w) = .error e → e.status = 58) ∧
    (∀ v, charAt order (.str s) (.int i) = .ok v →
      length order v = .ok (.int 1) ∧ codeAt order v (.int 0) = codeAt order (.str s) (.int i)) ∧
    (∀ v, setChar order (.str s) (.int i) (.str w) = .ok v →
      length order v = length order (.str s) ∧
      charAt order v (.int i) = charAt order (.str w) (.int 0) ∧
        ∀ j, j ≠ i → charAt order v (.int j) = charAt order (.str s) (.int j)) ∧
    ((Value.chars s).length < 2 ^ 63 →
      (∀ n, length order (.str s) = .ok (.int n) → n.toInt = (Value.chars s).length) ∧
      ∃ v, rejoin order (.str s) (Value.chars s).length = .ok v ∧
        equals order v (.str s) = .ok true) := by
  rw [← isSome_charAt?_iff]
  refine ⟨?_, ?_, ?_, ?_, fun v read => codeAt_charAt read,
    fun v replaced => charAt_setChar replaced,
    fun small => ⟨fun n counted => toInt_of_length small counted, rejoin_length small⟩⟩
  · simp only [charAt_eq_ok_iff, Option.isSome_iff_exists]
    exact ⟨fun ⟨_, c, found, _⟩ => ⟨c, found⟩, fun ⟨c, found⟩ => ⟨_, c, found, rfl⟩⟩
  · simp only [codeAt_eq_ok_iff, Option.isSome_iff_exists]
    exact ⟨fun ⟨_, c, found, _⟩ => ⟨c, found⟩, fun ⟨c, found⟩ => ⟨_, c, found, rfl⟩⟩
  · simp only [setChar_eq_ok_iff, List.length_pos_iff, ← List.isSome_head?,
      Option.isSome_iff_exists]
    exact ⟨fun ⟨_, d, inside, first, _⟩ => ⟨inside, d, first⟩,
      fun ⟨inside, d, first⟩ => ⟨_, d, inside, first, rfl⟩⟩
  · rintro e (failed | failed | failed)
    · exact status_of_charAt failed
    · exact status_of_codeAt failed
    · exact status_of_setChar failed

/-- The string denotes a blank, a backslash and `3x65`.  A backslash in the place of `x` is
stored by its code, so that the digits after it stay digits, and so is the one that began
an incomplete code. -/
theorem strings_are_arrays_backslash :
    let s := "\\032\\3x65"
    let v : Value := .str "\\032\\0923\\09265"
    setChar 1 (.str s) (.int 3) (.str "\\y") = .ok v ∧ length 1 v = length 1 (.str s) ∧
      charAt 1 v (.int 3) = charAt 1 (.str "\\y") (.int 0) ∧
      charAt 1 v (.int 5) = charAt 1 (.str s) (.int 5) ∧
      ∃ u, rejoin 1 (.str s) (Value.chars s).length = .ok u ∧ equals 1 u (.str s) = .ok true := by
  intro s v
  have replaced : setChar 1 (.str s) (.int 3) (.str "\\y") = .ok v :=
    setChar_eq_ok_iff.2 ⟨'\\', by decide, by decide, by decide⟩
  obtain ⟨-, -, -, -, -, replacement, whole⟩ := strings_are_arrays 1 s "\\y" 3
  obtain ⟨size, there, others⟩ := replacement v replaced
  exact ⟨replaced, size, there, others 5 (by decide), (whole (by decide)).2⟩

end Operation

end FrameCode
