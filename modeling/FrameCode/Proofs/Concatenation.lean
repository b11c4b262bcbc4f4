import FrameCode.Operation
import FrameCode.Proofs.StoredText

/-!
# Concatenation

`CONCAT` writes one stored text after the other.  Two stored texts `MeetInCode` if a code begins
in the first and is completed by the second; only then is something else decoded than the
characters of both.  `decode_append_of_not_meetInCode` and `fused_decode` say what is decoded in
either case, and `concat_chars_iff` says it of `CONCAT`, `STRLEN` and `EQ`.

A well-formed text can be followed by any other.  The literals of source text are well-formed, so
only those of a document can meet in a code.
-/

namespace FrameCode

namespace Text.Escape

/-! ## Texts that meet -/

/-- A list is divided in one way at the last occurrence of an element. -/
theorem append_cons_inj_of_not_mem {α : Type} {x : α} {front rest front' rest' : List α}
    (last : x ∉ rest) (last' : x ∉ rest') (eq : front ++ x :: rest = front' ++ x :: rest') :
    front = front' ∧ rest = rest' := by
  rcases List.append_eq_append_iff.1 eq with ⟨more, rfl, tail⟩ | ⟨more, rfl, tail⟩
  · cases more with
    | nil => exact ⟨(List.append_nil front).symm, (List.cons.inj tail).2⟩
    | cons y more =>
      obtain ⟨-, rfl⟩ := List.cons.inj tail
      exact absurd (List.mem_append_right more List.mem_cons_self) last
  · cases more with
    | nil => exact ⟨List.append_nil front', (List.cons.inj tail).2.symm⟩
    | cons y more =>
      obtain ⟨-, rfl⟩ := List.cons.inj tail
      exact absurd (List.mem_append_right more List.mem_cons_self) last'

/-- A code begins in `x` and is completed by `y`: the last backslash of `x` has fewer than three
characters after it, and together with what `y` starts with they are three digits. -/
def MeetInCode (x y : List Char) : Prop :=
  ∃ front start, x = front ++ '\\' :: start ∧ start.length < 3 ∧
    startsWithCode (start ++ y) = true

theorem not_meetInCode_nil (y : List Char) : ¬MeetInCode [] y := by
  rintro ⟨front, start, eq, -⟩
  cases front <;> cases eq

theorem meetInCode_cons_iff {c : Char} {x y : List Char} :
    MeetInCode (c :: x) y ↔
      (c = '\\' ∧ x.length < 3 ∧ startsWithCode (x ++ y) = true) ∨ MeetInCode x y := by
  constructor
  · rintro ⟨front, start, eq, short, code⟩
    cases front with
    | nil =>
      obtain ⟨rfl, rfl⟩ := List.cons.inj eq
      exact .inl ⟨rfl, short, code⟩
    | cons d front =>
      obtain ⟨-, rfl⟩ := List.cons.inj eq
      exact .inr ⟨front, start, rfl, short, code⟩
  · rintro (⟨rfl, short, code⟩ | ⟨front, start, rfl, short, code⟩)
    · exact ⟨[], x, rfl, short, code⟩
    · exact ⟨c :: front, start, rfl, short, code⟩

instance decidableMeetInCode : (x y : List Char) → Decidable (MeetInCode x y)
  | [], y => .isFalse (not_meetInCode_nil y)
  | c :: x, y =>
    have := decidableMeetInCode x y
    decidable_of_iff
      ((c = '\\' ∧ x.length < 3 ∧ startsWithCode (x ++ y) = true) ∨ MeetInCode x y)
      meetInCode_cons_iff.symm

/-- Texts that do not meet in a code denote the characters of both. -/
theorem decode_append_of_not_meetInCode {x y : List Char} (apart : ¬MeetInCode x y) :
    decode (x ++ y) = decode x ++ decode y := by
  -- The induction follows the decoder, which takes a complete code in one step.
  induction x using decode.induct with
  | case1 => rfl
  | case2 a b c rest digits ih =>
    simp only [Bool.and_eq_true] at digits
    obtain ⟨⟨da, db⟩, dc⟩ := digits
    have later : ¬MeetInCode rest y := fun meet =>
      apart (by simp only [meetInCode_cons_iff, meet, or_true])
    rw [decode_code da db dc]
    exact (decode_code da db dc (rest ++ y)).trans (congrArg _ (ih later))
  | case3 a b c rest other ih =>
    have other (more : List Char) : startsWithCode (a :: b :: c :: more) = false :=
      Bool.eq_false_iff.2 other
    have later : ¬MeetInCode (a :: b :: c :: rest) y := fun meet =>
      apart (meetInCode_cons_iff.2 (.inr meet))
    rw [decode_cons_of_literal fun _ => other rest]
    exact (decode_cons_of_literal fun _ => other (rest ++ y)).trans (congrArg _ (ih later))
  | case4 c rest short ih =>
    obtain ⟨unfinished, later⟩ := not_or.1 (mt meetInCode_cons_iff.2 apart)
    have small (eq : c = '\\') : rest.length < 3 :=
      length_lt_three fun a b d more => short a b d more eq
    have literal (eq : c = '\\') : startsWithCode (rest ++ y) = false :=
      Bool.eq_false_iff.2 fun code => unfinished ⟨eq, small eq, code⟩
    rw [decode_cons_of_literal fun eq => startsWithCode_of_length_lt (small eq)]
    exact (decode_cons_of_literal literal).trans (congrArg _ (ih later))

/-- A well-formed text meets no other in a code. -/
theorem not_meetInCode_of_wellFormed {x : List Char} (formed : wellFormed x = true)
    (y : List Char) : ¬MeetInCode x y := by
  rintro ⟨front, start, rfl, short, -⟩
  have code := wellFormed_of_append formed
  rw [wellFormed_backslash_cons (startsWithCode_of_length_lt short)] at code
  cases code

/-- A text without backslashes denotes its own characters, whatever follows it. -/
theorem decode_append_of_not_mem {x : List Char} (plain : '\\' ∉ x) (y : List Char) :
    decode (x ++ y) = x ++ decode y := by
  induction x with
  | nil => rfl
  | cons c x ih =>
    obtain ⟨ne, plain⟩ := not_or.1 (mt List.mem_cons.2 plain)
    rw [List.cons_append, decode_cons_of_ne (Ne.symm ne), ih plain, List.cons_append]

theorem decode_of_not_mem {x : List Char} (plain : '\\' ∉ x) : decode x = x := by
  have whole := decode_append_of_not_mem plain []
  rwa [List.append_nil, decode, List.append_nil] at whole

/-- The three digits of a code that begins in one text and is completed by another. -/
theorem exists_fill {start y : List Char} (short : start.length < 3)
    (code : startsWithCode (start ++ y) = true) :
    ∃ a b c fill rest, start ++ fill = [a, b, c] ∧ y = fill ++ rest ∧
      ∀ d ∈ [a, b, c], d.isDigit = true := by
  obtain ⟨a, b, c, rest, parted, digits⟩ := exists_of_startsWithCode code
  rcases List.append_eq_append_iff.1 (show start ++ y = [a, b, c] ++ rest from parted) with
    ⟨fill, three, eq⟩ | ⟨more, long, -⟩
  · exact ⟨a, b, c, fill, rest, three.symm, eq, digits⟩
  · simp only [long, List.cons_append, List.nil_append, List.length_cons] at short
    omega

/-- A backslash is not part of a code that has begun before it. -/
theorem not_meetInCode_backslash (x y : List Char) : ¬MeetInCode x ('\\' :: y) := by
  rintro ⟨front, start, rfl, short, code⟩
  obtain ⟨a, b, c, fill, rest, three, parted, digits⟩ := exists_fill short code
  cases fill with
  | nil =>
    rw [List.append_nil] at three
    simp [three] at short
  | cons d fill =>
    obtain ⟨rfl, -⟩ := List.cons.inj parted
    have mem : '\\' ∈ [a, b, c] := three ▸ List.mem_append_right start List.mem_cons_self
    exact absurd (digits '\\' mem) (by decide)

/-- What the characters of two texts become when a code across them is read: the backslash and the
digits on both sides give way to the character that they name. -/
inductive Fused : List Char → List Char → List Char → Prop
  | code {front start fill rest : List Char} {a b c : Char} : start ++ fill = [a, b, c] →
      start.length < 3 → (∀ d ∈ [a, b, c], d.isDigit = true) →
      Fused (front ++ '\\' :: start) (fill ++ rest) (front ++ charOfDigits a b c :: rest)

/-- Texts that meet in a code denote the characters of both with the code read across them. -/
theorem fused_decode {x y : List Char} (meet : MeetInCode x y) :
    Fused (decode x) (decode y) (decode (x ++ y)) := by
  obtain ⟨front, start, rfl, short, code⟩ := meet
  obtain ⟨a, b, c, fill, rest, three, rfl, digits⟩ := exists_fill short code
  have plain : '\\' ∉ start ++ fill := fun mem =>
    absurd (digits '\\' (three ▸ mem)) (by decide)
  -- In front of the backslash nothing meets, and what is decoded after it has no other backslash.
  have apart (z : List Char) : ¬MeetInCode front ('\\' :: z) := not_meetInCode_backslash front z
  have left : decode (front ++ '\\' :: start) = decode front ++ '\\' :: start := by
    rw [decode_append_of_not_meetInCode (apart start),
      decode_cons_of_literal fun _ => startsWithCode_of_length_lt short,
      decode_of_not_mem fun mem => plain (List.mem_append_left fill mem)]
  have right : decode (fill ++ rest) = fill ++ decode rest :=
    decode_append_of_not_mem (fun mem => plain (List.mem_append_right start mem)) rest
  have whole : decode ((front ++ '\\' :: start) ++ (fill ++ rest)) =
      decode front ++ charOfDigits a b c :: decode rest := by
    rw [List.append_assoc, List.cons_append, ← List.append_assoc start, three,
      decode_append_of_not_meetInCode (apart _)]
    exact congrArg _ (decode_code (digits a (by simp)) (digits b (by simp))
      (digits c (by simp)) rest)
  rw [left, right, whole]
  exact .code three short digits

namespace Fused

variable {u v w w' : List Char}

/-- Reading the code costs three characters. -/
theorem length_add_three (fused : Fused u v w) : w.length + 3 = u.length + v.length := by
  obtain ⟨three, -, -⟩ := fused
  have size := congrArg List.length three
  simp only [List.length_append, List.length_cons, List.length_nil] at size ⊢
  omega

theorem ne_append (fused : Fused u v w) : w ≠ u ++ v := by
  rintro rfl
  have size := fused.length_add_three
  rw [List.length_append] at size
  omega

/-- What comes of two texts is determined by their characters: the last backslash
begins the code. -/
theorem eq_of_fused (fused : Fused u v w) (fused' : Fused u v w') : w = w' := by
  obtain @⟨front, start, fill, rest, a, b, c, three, -, digits⟩ := fused
  generalize left : front ++ '\\' :: start = u at fused'
  generalize right : fill ++ rest = v at fused'
  obtain @⟨front', start', fill', rest', a', b', c', three', -, digits'⟩ := fused'
  -- No digit is a backslash, so both ways divide the first text at its last backslash.
  have plain {s f : List Char} {x y z : Char} (eq : s ++ f = [x, y, z])
      (all : ∀ d ∈ [x, y, z], d.isDigit = true) : '\\' ∉ s := fun mem =>
    absurd (all '\\' (eq ▸ List.mem_append_left f mem)) (by decide)
  obtain ⟨rfl, rfl⟩ := append_cons_inj_of_not_mem (plain three digits) (plain three' digits') left
  have size : fill.length = fill'.length := by
    have sizes := congrArg List.length three
    have sizes' := congrArg List.length three'
    simp only [List.length_append, List.length_cons, List.length_nil] at sizes sizes'
    omega
  obtain ⟨rfl, rfl⟩ := List.append_inj right size
  obtain ⟨⟩ := three.symm.trans three'
  rfl

end Fused

end Text.Escape

namespace Operation

open Text.Escape

variable {x y : String}

/-! ## Strings -/

/-- The characters of joined strings that do not meet in a code. -/
theorem chars_append (apart : ¬MeetInCode x.toList y.toList) :
    Value.chars (x ++ y) = Value.chars x ++ Value.chars y := by
  rw [Value.chars, String.toList_append]
  exact decode_append_of_not_meetInCode apart

/-- The characters of joined strings that meet in a code. -/
theorem fused_chars (meet : MeetInCode x.toList y.toList) :
    Fused (Value.chars x) (Value.chars y) (Value.chars (x ++ y)) := by
  have fused := fused_decode meet
  rw [← String.toList_append] at fused
  exact fused

theorem chars_append_iff :
    Value.chars (x ++ y) = Value.chars x ++ Value.chars y ↔ ¬MeetInCode x.toList y.toList :=
  ⟨fun eq meet => (fused_chars meet).ne_append eq, chars_append⟩

theorem length_chars_append :
    (Value.chars (x ++ y)).length + (if MeetInCode x.toList y.toList then 3 else 0) =
      (Value.chars x).length + (Value.chars y).length := by
  split
  · next meet => exact (fused_chars meet).length_add_three
  · next apart => rw [chars_append apart, List.length_append, Nat.add_zero]

/-- Equal strings are joined to equal strings just if both pairs meet in a code or neither
does. -/
theorem chars_append_eq_iff {x' y' : String} (left : Value.chars x = Value.chars x')
    (right : Value.chars y = Value.chars y') :
    Value.chars (x ++ y) = Value.chars (x' ++ y') ↔
      (MeetInCode x.toList y.toList ↔ MeetInCode x'.toList y'.toList) := by
  by_cases meet : MeetInCode x.toList y.toList <;>
    by_cases meet' : MeetInCode x'.toList y'.toList <;>
      simp only [meet, meet', iff_self, iff_false, iff_true, not_true]
  · have fused := fused_chars meet
    rw [left, right] at fused
    exact fused.eq_of_fused (fused_chars meet')
  · rw [chars_append meet', ← left, ← right]
    exact (fused_chars meet).ne_append
  · rw [chars_append meet, left, right]
    exact fun eq => (fused_chars meet').ne_append eq.symm
  · rw [chars_append meet, chars_append meet', left, right]

/-! ## Operations -/

variable {order : Nat}

theorem equals_str (x y : String) :
    equals order (.str x) (.str y) = .ok (Value.chars x == Value.chars y) := rfl

theorem equals_str_eq_true_iff :
    equals order (.str x) (.str y) = .ok true ↔ Value.chars x = Value.chars y := by
  rw [equals_str, Except.ok.injEq, beq_iff_eq]

/-- **Concatenation works on characters, unless a code is completed.**  Joined strings denote the
characters of both just if their stored forms do not meet in a code.  If they do, the code is
read: the result has three characters less than both strings together.  Joining strings that are
equal gives equal strings just if both pairs meet in a code or neither does.  A well-formed string
meets no other. -/
theorem concat_chars_iff (order : Nat) (x y : String) :
    ∃ r, concat order (.str x) (.str y) = .ok (.str r) ∧
      (Value.chars r = Value.chars x ++ Value.chars y ↔ ¬MeetInCode x.toList y.toList) ∧
      (MeetInCode x.toList y.toList → Fused (Value.chars x) (Value.chars y) (Value.chars r)) ∧
      (∀ k l n, length order (.str x) = .ok (.int k) → length order (.str y) = .ok (.int l) →
        length order (.str r) = .ok (.int n) →
          n = if MeetInCode x.toList y.toList then k + l - 3 else k + l) ∧
      (∀ x' y' r', equals order (.str x) (.str x') = .ok true →
        equals order (.str y) (.str y') = .ok true →
        concat order (.str x') (.str y') = .ok (.str r') →
          (equals order (.str r) (.str r') = .ok true ↔
            (MeetInCode x.toList y.toList ↔ MeetInCode x'.toList y'.toList))) ∧
      (wellFormed x.toList = true → ¬MeetInCode x.toList y.toList) := by
  refine ⟨x ++ y, rfl, chars_append_iff, fused_chars, fun k l n left right whole => ?_,
    fun x' y' r' left right joined => ?_, fun formed => not_meetInCode_of_wellFormed formed _⟩
  · cases left
    cases right
    cases whole
    have size := congrArg Int64.ofNat (length_chars_append (x := x) (y := y))
    rw [Int64.ofNat_add, Int64.ofNat_add] at size
    split
    · next meet =>
      rw [if_pos meet] at size
      rw [← size]
      exact (Int64.add_sub_cancel _ _).symm
    · next apart =>
      rw [if_neg apart] at size
      rw [← size]
      exact (Int64.add_zero _).symm
  · cases joined
    rw [equals_str_eq_true_iff] at left right ⊢
    exact chars_append_eq_iff left right

/-- A document can hold the incomplete code `\03` and the digit `2`.  Joined they are a blank,
which is one character and not four.  With the backslash written by its code, the same strings are
joined to four characters. -/
theorem concat_chars_iff_blank :
    equals 1 (.str "\\03") (.str "\\09203") = .ok true ∧
      ∃ r r', concat 1 (.str "\\03") (.str "2") = .ok (.str r) ∧ Value.chars r = [' '] ∧
        concat 1 (.str "\\09203") (.str "2") = .ok (.str r') ∧
        equals 1 (.str r) (.str r') ≠ .ok true := by
  have same : equals 1 (.str "\\03") (.str "\\09203") = .ok true :=
    equals_str_eq_true_iff.2 (by decide)
  obtain ⟨r, joined, -, -, -, equal, -⟩ := concat_chars_iff 1 "\\03" "2"
  refine ⟨same, r, "\\09203" ++ "2", joined, ?_, rfl, ?_⟩
  · cases joined
    decide
  · have iff := equal "\\09203" "2" _ same (equals_str_eq_true_iff.2 rfl) rfl
    rw [Ne, iff]
    decide

/-- Not all strings that are read from a document are joined character by character. -/
theorem not_forall_concat_chars :
    ¬∀ s t x y r : String, Operand.read "string" s = .ok (.literal (.str x)) →
      Operand.read "string" t = .ok (.literal (.str y)) →
      concat 1 (.str x) (.str y) = .ok (.str r) →
      Value.chars r = Value.chars x ++ Value.chars y := by
  intro all
  have joined := all "\\03" "2" "\\03" "2" "\\032" rfl rfl rfl
  exact absurd joined (by decide)

end Operation

end FrameCode
