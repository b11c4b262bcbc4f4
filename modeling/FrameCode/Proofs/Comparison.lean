import FrameCode.Proofs.CheckedOperands
import FrameCode.Proofs.Execution
import FrameCode.Proofs.Results
import FrameCode.Proofs.Sameness
import Mathlib.Data.Char

/-!
# Comparison

`LT`, `GT` and `EQ` compare two values of one type, and `JUMPIFEQ` and `JUMPIFNEQ` jump by what
`EQ` says.  `Operation.less`, `Operation.greater` and `Operation.equal` are what the three opcodes
make of two values; `step_less` and its like say so of a machine.  All of them follow the one
result of `compare`, which orders strings by the codes of the characters that they denote.
`comparisons_agree` puts this together.
-/

namespace FrameCode

namespace Operation

/-! ## What the opcodes make of two values -/

/-- What `LT` makes of two values. -/
def less (order : Nat) (a b : Value) : Except Fault Value :=
  (compare order .lt a b).map fun o => .bool (o == .lt)

/-- What `GT` makes of two values. -/
def greater (order : Nat) (a b : Value) : Except Fault Value :=
  (compare order .gt a b).map fun o => .bool (o == .gt)

/-- What `EQ` makes of two values. -/
def equal (order : Nat) (a b : Value) : Except Fault Value := (equals order a b).map .bool

/-- Two values of one type other than nil. -/
def Comparable (a b : Value) : Prop := a.type = b.type ∧ a.type ≠ .nil

variable {order : Nat} {a a' b b' c : Value} {op : Opcode}

/-! ## The order -/

/-- In a lawful order, `==` tells whether the comparison finds two values equal. -/
theorem beq_eq_compare {α : Type} [Ord α] [Std.LawfulEqOrd α] [BEq α] [LawfulBEq α] (x y : α) :
    (x == y) = (Ord.compare x y == .eq) := by
  rw [Bool.eq_iff_iff, beq_iff_eq, beq_iff_eq, Std.LawfulEqOrd.compare_eq_iff_eq]

/-- Comparable values have one order, whichever opcode asks for it, and it tells whether they
are the same. -/
theorem exists_compare (comparable : Comparable a b) :
    ∃ o, (∀ order op, compare order op a b = .ok o) ∧
      (∀ order op, compare order op b a = .ok o.swap) ∧
      a.same b = (o == .eq) := by
  obtain ⟨same, other⟩ := comparable
  -- Each type has the laws of its own order; strings have those of their lists of characters.
  cases a <;> cases b <;> cases same
  case int x y =>
    exact ⟨_, fun _ _ => rfl, fun _ _ => congrArg _ Std.OrientedCmp.eq_swap, beq_eq_compare x y⟩
  case bool x y =>
    exact ⟨_, fun _ _ => rfl, fun _ _ => congrArg _ Std.OrientedCmp.eq_swap, beq_eq_compare x y⟩
  case str x y =>
    exact ⟨_, fun _ _ => rfl, fun _ _ => congrArg _ Std.OrientedCmp.eq_swap, beq_eq_compare _ _⟩
  case nil => exact absurd rfl other

theorem compare_of_not_comparable (other : ¬Comparable a b) :
    compare order op a b = .error ⟨order, .typeMismatch op⟩ := by
  cases a <;> cases b <;> first | rfl | exact absurd ⟨rfl, nofun⟩ other

theorem compare_trans (first : compare order op a b = .ok .lt)
    (second : compare order op b c = .ok .lt) :
    compare order op a c = .ok .lt := by
  cases a <;> cases b <;> first | cases first | skip
  all_goals cases c <;> first | cases second | skip
  all_goals
    exact congrArg Except.ok (Std.TransCmp.lt_trans (Except.ok.inj first) (Except.ok.inj second))

/-! ## Values that are the same -/

theorem type_canonical (v : Value) : v.canonical.type = v.type := by cases v <;> rfl

theorem compare_canonical (order : Nat) (op : Opcode) (a b : Value) :
    compare order op a.canonical b.canonical = compare order op a b := by
  cases a with
  | str x =>
    cases b with
    | str y => simp only [Value.canonical, Value.ofChars, compare, Value.chars_ofList_encode]
    | _ => rfl
  | _ => cases b <;> rfl

theorem same_canonical (a b : Value) : a.canonical.same b.canonical = a.same b := by
  cases a with
  | str x =>
    cases b with
    | str y =>
      show (Value.chars _ == Value.chars _) = (Value.chars x == Value.chars y)
      rw [Value.chars_ofList_encode, Value.chars_ofList_encode]
    | _ => rfl
  | _ => cases b <;> rfl

theorem equals_canonical (order : Nat) (a b : Value) :
    equals order a.canonical b.canonical = equals order a b := by
  simp only [equals, type_canonical, same_canonical]

/-! ## Strings -/

/-- Lists of characters are ordered as the lists of their codes. -/
theorem compare_chars_eq_lt_iff {cs ds : List Char} :
    Ord.compare cs ds = .lt ↔ cs.map Char.toNat < ds.map Char.toNat := by
  induction cs generalizing ds with
  | nil =>
    cases ds with
    | nil => simp
    | cons d ds => simp [List.compare_nil_cons]
  | cons c cs ih =>
    cases ds with
    | nil => simp [List.compare_cons_nil]
    | cons d ds =>
      rw [List.compare_cons_cons, List.map_cons, List.map_cons, List.cons_lt_cons_iff]
      rcases lt_trichotomy c d with below | rfl | above
      · have codes : c.toNat < d.toNat := below
        simp [compare_lt_iff_lt.2 below, codes]
      · simp [ih]
      · have codes : d.toNat < c.toNat := above
        simp [compare_gt_iff_gt.2 above, Nat.lt_asymm codes, (Nat.ne_of_lt codes).symm]

/-! ## The three opcodes -/

/-- The three opcodes say one thing about comparable values. -/
theorem exists_order (comparable : Comparable a b) :
    ∃ o : Ordering, ∀ order, less order a b = .ok (.bool (o == .lt)) ∧
      equal order a b = .ok (.bool (o == .eq)) ∧ greater order a b = .ok (.bool (o == .gt)) ∧
      less order b a = .ok (.bool (o == .gt)) := by
  obtain ⟨o, compared, swapped, same⟩ := exists_compare comparable
  refine ⟨o, fun order => ⟨?_, ?_, ?_, ?_⟩⟩
  · rw [less, compared]; rfl
  · rw [equal, equals, if_pos (.inr (.inr comparable.1)), same]; rfl
  · rw [greater, compared]; rfl
  · rw [less, swapped]; cases o <;> rfl

theorem less_eq_true_iff :
    less order a b = .ok (.bool true) ↔ compare order .lt a b = .ok .lt := by
  rw [less, map_eq_ok_iff]
  constructor
  · rintro ⟨o, compared, eq⟩
    cases o with
    | lt => exact compared
    | eq => cases eq
    | gt => cases eq
  · exact fun compared => ⟨.lt, compared, rfl⟩

theorem type_eq_of_same (same : a.same b = true) : a.type = b.type := by
  cases a <;> cases b <;> first | rfl | cases same

theorem equal_of_type_eq (order : Nat) (same : a.type = b.type) :
    equal order a b = .ok (.bool (a.same b)) := by
  rw [equal, equals, if_pos (.inr (.inr same))]
  rfl

theorem equal_eq_true_iff : equal order a b = .ok (.bool true) ↔ a.same b = true := by
  constructor
  · rw [equal, equals]
    split
    · intro equal
      exact Value.bool.inj (Except.ok.inj equal)
    · exact nofun
  · intro same
    rw [equal_of_type_eq order (type_eq_of_same same), same]

theorem compare_eq_error_iff {e : Fault} :
    compare order op a b = .error e ↔ e = ⟨order, .typeMismatch op⟩ ∧ ¬Comparable a b := by
  by_cases comparable : Comparable a b
  · obtain ⟨o, compared, -⟩ := exists_compare comparable
    simp [compared, comparable]
  · simp [compare_of_not_comparable comparable, comparable, eq_comm]

theorem not_comparable_iff :
    ¬Comparable a b ↔ a.type ≠ b.type ∨ a.type = .nil ∨ b.type = .nil := by
  rw [Comparable, Decidable.not_and_iff_or_not, Ne, Decidable.not_not]
  constructor
  · exact Or.imp_right .inl
  · rintro (other | nil | nil)
    · exact .inl other
    · exact .inr nil
    · by_cases same : a.type = b.type
      · exact .inr (same.trans nil)
      · exact .inl same

theorem less_eq_error_iff {e : Fault} :
    less order a b = .error e ↔
      e = ⟨order, .typeMismatch .lt⟩ ∧ (a.type ≠ b.type ∨ a.type = .nil ∨ b.type = .nil) := by
  rw [less, map_eq_error_iff, compare_eq_error_iff, not_comparable_iff]

theorem greater_eq_error_iff {e : Fault} :
    greater order a b = .error e ↔
      e = ⟨order, .typeMismatch .gt⟩ ∧ (a.type ≠ b.type ∨ a.type = .nil ∨ b.type = .nil) := by
  rw [greater, map_eq_error_iff, compare_eq_error_iff, not_comparable_iff]

theorem equal_eq_error_iff {e : Fault} :
    equal order a b = .error e ↔
      e = ⟨order, .typeMismatch .eq⟩ ∧ a.type ≠ b.type ∧ a.type ≠ .nil ∧ b.type ≠ .nil := by
  rw [equal, map_eq_error_iff, equals]
  split
  · next accepted =>
    refine ⟨nofun, fun ⟨_, other, left, right⟩ => ?_⟩
    rcases accepted with nil | nil | same
    · exact absurd nil left
    · exact absurd nil right
    · exact absurd same other
  · next refused =>
    simp only [not_or] at refused
    obtain ⟨left, right, other⟩ := refused
    constructor
    · rintro ⟨⟩
      exact ⟨rfl, other, left, right⟩
    · rintro ⟨rfl, -⟩
      rfl

/-- The three opcodes see no difference between equal values. -/
theorem congr_of_equal (same : equal order a a' = .ok (.bool true)) (b : Value) :
    (less order a b = less order a' b ∧ less order b a = less order b a') ∧
      (greater order a b = greater order a' b ∧ greater order b a = greater order b a') ∧
      (equal order a b = equal order a' b ∧ equal order b a = equal order b a') := by
  have canonical : a.canonical = a'.canonical :=
    Value.canonical_eq_of_same (equal_eq_true_iff.1 same)
  have compared (op : Opcode) : compare order op a b = compare order op a' b ∧
      compare order op b a = compare order op b a' := by
    constructor
    · rw [← compare_canonical, canonical, compare_canonical]
    · rw [← compare_canonical, canonical, compare_canonical]
  have equated : equals order a b = equals order a' b ∧ equals order b a = equals order b a' := by
    constructor
    · rw [← equals_canonical, canonical, equals_canonical]
    · rw [← equals_canonical, canonical, equals_canonical]
  simp only [less, greater, equal, compared .lt, compared .gt, equated, and_self]

/-- The order of strings is that of the codes of their characters. -/
theorem less_str_eq_true_iff {x y : String} :
    less order (.str x) (.str y) = .ok (.bool true) ↔
      (Value.chars x).map Char.toNat < (Value.chars y).map Char.toNat := by
  rw [less_eq_true_iff, compare, Except.ok.injEq, compare_chars_eq_lt_iff]

/-! ## Conditional jumps -/

/-- The jump that is taken if the equality of its values is as given. -/
def jump : Bool → Opcode
  | true => .jumpIfEq
  | false => .jumpIfNeq

/-- Of values of one type, a jump finds equal what `EQ` finds equal. -/
theorem jumpEquals_of_type_eq (order : Nat) (op : Opcode) (same : a.type = b.type) :
    ∃ t, equal order a b = .ok (.bool t) ∧ jumpEquals order op a b = .ok t :=
  ⟨a.same b, equal_of_type_eq order same, if_pos same⟩

theorem jumpEquals_of_type_ne (other : a.type ≠ b.type) :
    jumpEquals order op a b = .error ⟨order, .typeMismatch op⟩ := if_neg other

end Operation

/-! ## Steps -/

namespace Machine

open Operation

variable {m : Machine} {i : Instruction} {order : Nat} {op : Opcode} {a b : Value}

/-- The next instruction has the opcode, a first operand and two operands with the given
values. -/
structure Takes (m : Machine) (i : Instruction) (op : Opcode) (first : Operand) (a b : Value) :
    Prop where
  fetched : m.fetch? = some i
  known : i.opcode? = some op
  operands : ∃ x y, i.operands = [first, x, y] ∧ m.symbol i.order op x = .ok a ∧
    m.symbol i.order op y = .ok b

/-- The instruction is executed with the contents of its operands, and finds their values. -/
theorem Takes.step {first : Operand} (takes : m.Takes i op first a b) :
    ∃ x y, (m.dispatch i).symbol i.order op x = .ok a ∧
      (m.dispatch i).symbol i.order op y = .ok b ∧
      ∀ contents : Contents op.signature, contents.toList op.signature = [first, x, y] →
        m.step = (m.dispatch i).execute op ⟨i.order, contents⟩ := by
  obtain ⟨x, y, operands, left, right⟩ := takes.operands
  have memory : (m.dispatch i).memory = m.memory := rfl
  refine ⟨x, y, (symbol_eq_ok_congr memory).2 left, (symbol_eq_ok_congr memory).2 right,
    fun contents written => ?_⟩
  rw [step_of_known takes.fetched takes.known,
    Operands.check_of_toList (operands.trans written.symm), attempt_ok]

theorem jumpIf_of_ok {x y : Operand} (left : m.symbol order op x = .ok a)
    (right : m.symbol order op y = .ok b)
    {name : String} {c : Nat} (resolved : m.labels.resolve? name = some c) (wanted : Bool) :
    m.jumpIf order op wanted name x y = m.attempt (jumpEquals order op a b) fun equal =>
      .next (if equal = wanted then { m with position := c } else m) := by
  rw [jumpIf, target, resolved, attempt_ok, left, attempt_ok, right, attempt_ok]

variable {p : Place}

/-- A step goes on to store what a function makes of the values, if this is how the opcode is
executed on any two operands. -/
theorem Takes.step_binary {f : Value → Value → Except Fault Value}
    (takes : m.Takes i op (.place p) a b)
    (executes : ∀ x y, ∃ contents : Contents op.signature,
      contents.toList op.signature = [.place p, x, y] ∧
        (m.dispatch i).execute op ⟨i.order, contents⟩ =
          (m.dispatch i).binary i.order op f p x y) :
    m.step = (m.dispatch i).attempt (f a b) ((m.dispatch i).store p) := by
  obtain ⟨x, y, left, right, step⟩ := takes.step
  obtain ⟨contents, written, executed⟩ := executes x y
  rw [step contents written, executed, binary, left, attempt_ok, right, attempt_ok]

theorem step_less (takes : m.Takes i .lt (.place p) a b) :
    m.step = (m.dispatch i).attempt (less i.order a b) ((m.dispatch i).store p) :=
  takes.step_binary fun x y => ⟨(p, x, y, ()), rfl, rfl⟩

theorem step_greater (takes : m.Takes i .gt (.place p) a b) :
    m.step = (m.dispatch i).attempt (greater i.order a b) ((m.dispatch i).store p) :=
  takes.step_binary fun x y => ⟨(p, x, y, ()), rfl, rfl⟩

theorem step_equal (takes : m.Takes i .eq (.place p) a b) :
    m.step = (m.dispatch i).attempt (equal i.order a b) ((m.dispatch i).store p) :=
  takes.step_binary fun x y => ⟨(p, x, y, ()), rfl, rfl⟩

/-- A step that goes on to store a result assigns it. -/
theorem assigns_of_attempt {result : Except Fault Value}
    (step : m.step = (m.dispatch i).attempt result ((m.dispatch i).store p)) {v : Value}
    (made : result = .ok v) : m.step.Assigns m.memory p v := by
  rw [step, made, attempt_ok]
  exact store_assigns (m.dispatch i) p v

theorem step_jump {wanted : Bool} {name : String} {c : Nat}
    (takes : m.Takes i (jump wanted) (.label name) a b)
    (resolved : m.labels.resolve? name = some c) :
    m.step = (m.dispatch i).attempt (jumpEquals i.order (jump wanted) a b) fun equal =>
      .next (if equal = wanted then { m.dispatch i with position := c } else m.dispatch i) := by
  obtain ⟨x, y, left, right, step⟩ := takes.step
  have executed : m.step = (m.dispatch i).jumpIf i.order (jump wanted) wanted name x y := by
    -- Both jumps have one signature, which is known once the opcode is.
    cases wanted with
    | true => exact step (name, x, y, ()) rfl
    | false => exact step (name, x, y, ()) rfl
  exact executed.trans (jumpIf_of_ok left right resolved wanted)

/-- A jump on values of one type follows what `EQ` says of them. -/
theorem step_jump_of_type_eq {wanted : Bool} {name : String} {c : Nat}
    (takes : m.Takes i (jump wanted) (.label name) a b)
    (resolved : m.labels.resolve? name = some c)
    (same : a.type = b.type) :
    ∃ t, equal i.order a b = .ok (.bool t) ∧
      m.step =
        .next (if t = wanted then { m.dispatch i with position := c } else m.dispatch i) := by
  obtain ⟨t, equal, found⟩ := jumpEquals_of_type_eq i.order (jump wanted) same
  refine ⟨t, equal, ?_⟩
  rw [step_jump takes resolved, found, attempt_ok]

theorem step_jump_of_type_ne {wanted : Bool} {name : String} {c : Nat}
    (takes : m.Takes i (jump wanted) (.label name) a b)
    (resolved : m.labels.resolve? name = some c)
    (other : a.type ≠ b.type) :
    m.step = .failed ⟨i.order, .typeMismatch (jump wanted)⟩ (m.dispatch i) := by
  rw [step_jump takes resolved, jumpEquals_of_type_ne other, attempt_error]

/-- **One order for all comparisons.**  Of two values of one type other than nil, just one of
`LT`, `EQ` and `GT` says true, and `LT` says of the second and the first what `GT` says of the
first and the second.  `LT` is transitive, and nothing changes with a value that is equal.
Strings are in the lexicographic order of the codes of their characters.  `LT` and `GT` fail just
if the types differ or a value is nil, and `EQ` just if the types differ and neither is nil.  The
three opcodes assign what they say, so that a variable which is there holds it.  A jump on values
of one type is taken just if `EQ` says what it waits for, and on values of two types it fails. -/
theorem comparisons_agree :
    (∀ a b, Comparable a b → ∃ o : Ordering, ∀ n, less n a b = .ok (.bool (o == .lt)) ∧
      equal n a b = .ok (.bool (o == .eq)) ∧ greater n a b = .ok (.bool (o == .gt)) ∧
      less n b a = .ok (.bool (o == .gt))) ∧
    (∀ n a b c, less n a b = .ok (.bool true) → less n b c = .ok (.bool true) →
      less n a c = .ok (.bool true)) ∧
    (∀ n a a', equal n a a' = .ok (.bool true) → ∀ b,
      (less n a b = less n a' b ∧ less n b a = less n b a') ∧
      (greater n a b = greater n a' b ∧ greater n b a = greater n b a') ∧
      (equal n a b = equal n a' b ∧ equal n b a = equal n b a')) ∧
    (∀ n x y, less n (.str x) (.str y) = .ok (.bool true) ↔
      (Value.chars x).map Char.toNat < (Value.chars y).map Char.toNat) ∧
    (∀ n a b e, (less n a b = .error e ↔
        e = ⟨n, .typeMismatch .lt⟩ ∧ (a.type ≠ b.type ∨ a.type = .nil ∨ b.type = .nil)) ∧
      (greater n a b = .error e ↔
        e = ⟨n, .typeMismatch .gt⟩ ∧ (a.type ≠ b.type ∨ a.type = .nil ∨ b.type = .nil)) ∧
      (equal n a b = .error e ↔
        e = ⟨n, .typeMismatch .eq⟩ ∧ a.type ≠ b.type ∧ a.type ≠ .nil ∧ b.type ≠ .nil)) ∧
    (∀ (m : Machine) i p a b,
      (m.Takes i .lt (.place p) a b →
        m.step = (m.dispatch i).attempt (less i.order a b) ((m.dispatch i).store p) ∧
          ∀ v, less i.order a b = .ok v → m.step.Assigns m.memory p v) ∧
      (m.Takes i .gt (.place p) a b →
        m.step = (m.dispatch i).attempt (greater i.order a b) ((m.dispatch i).store p) ∧
          ∀ v, greater i.order a b = .ok v → m.step.Assigns m.memory p v) ∧
      (m.Takes i .eq (.place p) a b →
        m.step = (m.dispatch i).attempt (equal i.order a b) ((m.dispatch i).store p) ∧
          ∀ v, equal i.order a b = .ok v → m.step.Assigns m.memory p v)) ∧
    (∀ (m : Machine) i wanted name c a b, m.Takes i (jump wanted) (.label name) a b →
      m.labels.resolve? name = some c →
        (a.type = b.type → ∃ t, equal i.order a b = .ok (.bool t) ∧
          m.step = .next (if t = wanted then { m.dispatch i with position := c }
            else m.dispatch i)) ∧
        (a.type ≠ b.type →
          m.step = .failed ⟨i.order, .typeMismatch (jump wanted)⟩ (m.dispatch i))) := by
  refine ⟨fun a b => exists_order, fun n a b c first second => ?_, fun n a a' => congr_of_equal,
    fun n x y => less_str_eq_true_iff,
    fun n a b e => ⟨less_eq_error_iff, greater_eq_error_iff, equal_eq_error_iff⟩,
    fun m i p a b => ⟨fun takes => ?_, fun takes => ?_, fun takes => ?_⟩,
    fun m i wanted name c a b takes resolved =>
      ⟨step_jump_of_type_eq takes resolved, step_jump_of_type_ne takes resolved⟩⟩
  · rw [less_eq_true_iff] at first second ⊢
    exact compare_trans first second
  · exact ⟨step_less takes, fun v => assigns_of_attempt (step_less takes)⟩
  · exact ⟨step_greater takes, fun v => assigns_of_attempt (step_greater takes)⟩
  · exact ⟨step_equal takes, fun v => assigns_of_attempt (step_equal takes)⟩

/-- The letter `a` is written by its code or as it is.  In either form it comes before `b`, and a
jump finds the two forms equal; on a string and nil, which `EQ` takes, the jump fails. -/
theorem comparisons_agree_codes :
    let a : Value := .str "\\097"
    let x : Place := ⟨.global, "x"⟩
    let compares : Instruction := ⟨.known .lt, [.place x, .literal a, .literal (.str "b")], 1⟩
    let jumpTo (wanted : Bool) (v : Value) : Instruction :=
      ⟨.known (jump wanted), [.label "far", .literal a, .literal v], 2⟩
    let start := new ⟨[compares, jumpTo true (.str "a"), jumpTo false .nil]⟩
      (.ofText "") .reliable .reliable
    let m (position : Nat) : Machine := { start with position, labels := ⟨[("far", 7)]⟩ }
    less 1 a (.str "b") = less 1 (.str "a") (.str "b") ∧ less 1 a (.str "c") = .ok (.bool true) ∧
      greater 1 a (.str "b") = .ok (.bool false) ∧
      (m 0).step = ((m 0).dispatch compares).store x (.bool true) ∧
      (m 0).step.Assigns (m 0).memory x (.bool true) ∧
      (m 1).step = .next { (m 1).dispatch (jumpTo true (.str "a")) with position := 7 } ∧
      equal 1 a .nil = .ok (.bool false) ∧
      (m 2).step = .failed ⟨2, .typeMismatch .jumpIfNeq⟩
        ((m 2).dispatch (jumpTo false .nil)) := by
  intro a x compares jumpTo start m
  obtain ⟨one, trans, congr, order, -, stores, jumps⟩ := comparisons_agree
  have same (n : Nat) : equal n a (.str "a") = .ok (.bool true) := equal_eq_true_iff.2 (by decide)
  have first : less 1 a (.str "b") = .ok (.bool true) := (order 1 "\\097" "b").2 (by decide)
  have second : less 1 (.str "b") (.str "c") = .ok (.bool true) := (order 1 "b" "c").2 (by decide)
  have takes : (m 0).Takes compares .lt (.place x) a (.str "b") := ⟨rfl, rfl, _, _, rfl, rfl, rfl⟩
  obtain ⟨stored, assigns⟩ := (stores (m 0) compares x a (.str "b")).1 takes
  refine ⟨(congr 1 a (.str "a") (same 1) (.str "b")).1.1,
    trans 1 a (.str "b") (.str "c") first second, ?_, stored.trans (by rw [first, attempt_ok]),
    assigns _ first, ?_, rfl, ?_⟩
  · obtain ⟨o, ordered⟩ := one a (.str "b") ⟨rfl, nofun⟩
    obtain ⟨below, -, above, -⟩ := ordered 1
    rw [first] at below
    cases o with
    | lt => exact above
    | eq => cases below
    | gt => cases below
  · have takes : (m 1).Takes (jumpTo true (.str "a")) .jumpIfEq (.label "far") a (.str "a") :=
      ⟨rfl, rfl, _, _, rfl, rfl, rfl⟩
    obtain ⟨t, equal, taken⟩ := (jumps (m 1) _ true "far" 7 a (.str "a") takes rfl).1 rfl
    obtain ⟨⟩ := (same 2).symm.trans equal
    exact taken
  · have takes : (m 2).Takes (jumpTo false .nil) .jumpIfNeq (.label "far") a .nil :=
      ⟨rfl, rfl, _, _, rfl, rfl, rfl⟩
    exact (jumps (m 2) _ false "far" 7 a .nil takes rfl).2 nofun

end Machine

end FrameCode
