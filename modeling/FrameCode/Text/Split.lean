/-!
# Lines, and cutting a text

`lines` splits a text after every newline, `cut` divides it at the first occurrence of a
character, `cutAt` at the first occurrence of a longer mark.  `cut_eq_some_iff` says that nothing
but the separator is lost and that the part before it does not hold it.
-/

namespace FrameCode.Text

/-- The lines of a text, without their newlines.  A last line that is empty does not count. -/
def lines : List Char → List (List Char)
  | [] => []
  | c :: cs =>
    if c = '\n' then [] :: lines cs
    else
      match lines cs with
      | [] => [[c]]
      | line :: rest => (c :: line) :: rest

/-- The parts of a text before and after the first `sep`. -/
def cut (sep : Char) : List Char → Option (List Char × List Char)
  | [] => none
  | c :: cs =>
    if c = sep then some ([], cs)
    else (cut sep cs).map fun (before, after) => (c :: before, after)

/-- The parts of a text before and after the first occurrence of `mark`. -/
def cutAt (mark : List Char) : List Char → Option (List Char × List Char)
  | [] => none
  | c :: cs =>
    if mark.isPrefixOf (c :: cs) then some ([], (c :: cs).drop mark.length)
    else (cutAt mark cs).map fun (before, after) => (c :: before, after)

/-! ## Laws -/

theorem cut_eq_some_iff {sep : Char} {cs before after : List Char} :
    cut sep cs = some (before, after) ↔ cs = before ++ sep :: after ∧ sep ∉ before := by
  induction cs generalizing before with
  | nil => simp [cut]
  | cons c cs ih =>
    by_cases here : c = sep
    · subst here
      cases before with
      | nil => simp [cut, eq_comm]
      | cons b before =>
        simp only [cut, if_true, Option.some.injEq, Prod.mk.injEq, reduceCtorEq, false_and,
          List.cons_append, List.cons.injEq, List.mem_cons, not_or, false_iff, not_and]
        rintro ⟨rfl, -⟩ absent
        exact absurd rfl absent
    · cases before with
      | nil => simp [cut, here]
      | cons b before =>
        simp only [cut, here, if_false, Option.map_eq_some_iff, Prod.exists, Prod.mk.injEq,
          List.cons_append, List.cons.injEq, List.mem_cons, not_or]
        constructor
        · rintro ⟨a, d, found, ⟨rfl, rfl⟩, rfl⟩
          obtain ⟨rest, absent⟩ := ih.1 found
          exact ⟨⟨rfl, rest⟩, fun eq => here eq.symm, absent⟩
        · rintro ⟨⟨rfl, rest⟩, -, absent⟩
          exact ⟨before, after, ih.2 ⟨rest, absent⟩, ⟨rfl, rfl⟩, rfl⟩

theorem cut_eq_none_iff {sep : Char} {cs : List Char} : cut sep cs = none ↔ sep ∉ cs := by
  induction cs with
  | nil => simp [cut]
  | cons c cs ih =>
    by_cases here : c = sep
    · simp [cut, here]
    · simp [cut, here, ih, Ne.symm here]

theorem length_le_of_cutAt {mark cs before after : List Char}
    (found : cutAt mark cs = some (before, after)) : after.length ≤ cs.length := by
  induction cs generalizing before with
  | nil => simp [cutAt] at found
  | cons c cs ih =>
    unfold cutAt at found
    split at found
    · obtain ⟨-, rfl⟩ := Prod.mk.inj (Option.some.inj found)
      simp
    · obtain ⟨⟨a, b⟩, deeper, eq⟩ := Option.map_eq_some_iff.1 found
      obtain ⟨-, rfl⟩ := Prod.mk.inj eq
      exact Nat.le_succ_of_le (ih deeper)

end FrameCode.Text
