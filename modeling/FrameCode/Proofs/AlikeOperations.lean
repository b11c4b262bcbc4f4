import FrameCode.Proofs.Alike
import FrameCode.Proofs.Concatenation

/-!
# Operations on alike values

Every operation depends on the characters of its strings only: on alike values it fails with the
same fault or it gives alike values.  Most operations give the same value even.  `concat` is the
exception, since it joins the stored forms; there the characters agree because a well-formed text
keeps its characters when another one follows.
-/

namespace FrameCode

theorem Value.wellFormed_ofChars (cs : List Char) : (Value.ofChars cs).WellFormed := by
  show Text.Escape.wellFormed (String.ofList (Text.Escape.encode cs)).toList = true
  rw [String.toList_ofList]
  exact Text.Escape.wellFormed_encode cs

theorem Value.alike_ofChars (cs : List Char) : (Value.ofChars cs).Alike (Value.ofChars cs) :=
  Value.alike_self_iff.2 (Value.wellFormed_ofChars cs)

namespace Operation

variable {order : Nat} {a a' b b' c c' : Value}

/-! ## Integers and truth values -/

theorem arithmetic_alike (op : Opcode) (ha : a.Alike a') (hb : b.Alike b') :
    Agree Value.Alike (arithmetic order op a b) (arithmetic order op a' b') := by
  cases ha with
  | int x =>
    cases hb with
    | int y =>
      refine .of_eq_of rfl fun v made => ?_
      unfold arithmetic at made
      repeat' split at made
      all_goals cases made
      all_goals exact .int _
    | _ => exact .error _
  | _ => exact .error _

theorem logic_alike (op : Opcode) (ha : a.Alike a') (hb : b.Alike b') :
    Agree Value.Alike (logic order op a b) (logic order op a' b') := by
  cases ha with
  | bool x =>
    cases hb with
    | bool y => cases op <;> first | exact .ok (.bool _) | exact .error _
    | _ => cases op <;> exact .error _
  | _ => cases op <;> exact .error _

theorem not_alike (ha : a.Alike a') : Agree Value.Alike (not order a) (not order a') := by
  cases ha with
  | bool x => exact .ok (.bool _)
  | _ => exact .error _

/-! ## Comparison -/

theorem compare_eq (op : Opcode) (ha : a.Alike a') (hb : b.Alike b') :
    compare order op a b = compare order op a' b' := by
  cases ha with
  | str _ _ eq =>
    cases hb with
    | str _ _ eq' => simp only [compare, eq, eq']
    | _ => rfl
  | _ => cases hb <;> rfl

theorem equals_eq (ha : a.Alike a') (hb : b.Alike b') :
    equals order a b = equals order a' b' := by
  unfold equals
  rw [ha.type_eq, hb.type_eq, ha.same_eq hb]

theorem jumpEquals_eq (op : Opcode) (ha : a.Alike a') (hb : b.Alike b') :
    jumpEquals order op a b = jumpEquals order op a' b' := by
  unfold jumpEquals
  rw [ha.type_eq, hb.type_eq, ha.same_eq hb]

/-! ## Strings -/

theorem charOfCode_alike (ha : a.Alike a') :
    Agree Value.Alike (charOfCode order a) (charOfCode order a') := by
  cases ha with
  | int n =>
    refine .of_eq_of rfl fun v made => ?_
    unfold charOfCode at made
    dsimp only at made
    split at made
    · next range =>
      cases made
      have below : n.toInt ≤ (255 : Int64).toInt := Int64.le_iff_toInt_le.1 range.2
      have bound : (255 : Int64).toInt = 255 := by decide
      have small : n.toInt.toNat ≤ 999 := by omega
      refine Value.alike_self_iff.2 ?_
      show Text.Escape.wellFormed (String.ofList (Text.Escape.code n.toInt.toNat)).toList = true
      rw [String.toList_ofList]
      have formed := Text.Escape.wellFormed_code_append small []
      rw [List.append_nil] at formed
      exact formed
    · cases made
  | _ => exact .error _

theorem focus_eq (op : Opcode) (ha : a.Alike a') (hb : b.Alike b') :
    focus order op a b = focus order op a' b' := by
  cases ha with
  | str _ _ eq =>
    cases hb with
    | int i => simp only [focus, eq]
    | _ => rfl
  | _ => rfl

theorem codeAt_alike (ha : a.Alike a') (hb : b.Alike b') :
    Agree Value.Alike (codeAt order a b) (codeAt order a' b') :=
  (Agree.of_eq (focus_eq .stri2int ha hb)).map fun _ _ eq => eq ▸ .int _

theorem charAt_alike (ha : a.Alike a') (hb : b.Alike b') :
    Agree Value.Alike (charAt order a b) (charAt order a' b') :=
  (Agree.of_eq (focus_eq .getchar ha hb)).map fun _ _ eq => eq ▸ Value.alike_ofChars _

theorem setChar_alike (ha : a.Alike a') (hb : b.Alike b') (hc : c.Alike c') :
    Agree Value.Alike (setChar order a b c) (setChar order a' b' c') := by
  have eq : setChar order a b c = setChar order a' b' c' := by
    cases hc with
    | str _ _ eq => simp only [setChar, focus_eq .setchar ha hb, eq]
    | _ => rfl
  refine .of_eq_of eq fun v made => ?_
  unfold setChar at made
  repeat' split at made
  all_goals cases made
  exact Value.alike_ofChars _

/-- Stored forms are joined as they are, and so are the characters. -/
theorem concat_alike (ha : a.Alike a') (hb : b.Alike b') :
    Agree Value.Alike (concat order a b) (concat order a' b') := by
  cases ha with
  | @str x x' hx hx' eq =>
    cases hb with
    | @str y y' hy hy' eq' =>
      have formed {s t : String} (hs : Value.WellFormed (.str s))
          (ht : Value.WellFormed (.str t)) :
          Value.WellFormed (.str (s ++ t)) := by
        show Text.Escape.wellFormed (s ++ t).toList = true
        rw [String.toList_append]
        exact Text.Escape.wellFormed_append hs ht
      have chars {s t : String} (hs : Value.WellFormed (.str s)) :
          Value.chars (s ++ t) = Value.chars s ++ Value.chars t :=
        chars_append (Text.Escape.not_meetInCode_of_wellFormed hs t.toList)
      refine .ok (.str (formed hx hy) (formed hx' hy') ?_)
      rw [chars hx, chars hx', eq, eq']
    | _ => exact .error _
  | _ => exact .error _

theorem length_alike (ha : a.Alike a') :
    Agree Value.Alike (length order a) (length order a') := by
  cases ha with
  | str _ _ eq =>
    simp only [length, eq]
    exact .ok (.int _)
  | _ => exact .error _

/-! ## Types and exit codes -/

theorem typeName_alike {v? w? : Option Value} (alike : Option.Rel Value.Alike v? w?) :
    (typeName v?).Alike (typeName w?) := by
  cases alike with
  | none => exact .str rfl rfl rfl
  | some alike =>
    have formed (t : ValueType) : Value.WellFormed (.str t.name) := by cases t <;> rfl
    simp only [typeName, alike.type_eq]
    exact .str (formed _) (formed _) rfl

theorem exitCode_eq (ha : a.Alike a') :
    exitCode order a = exitCode order a' := by
  cases ha <;> rfl

end Operation

end FrameCode
