import FrameCode.Proofs.Comparison
import Mathlib.Algebra.Group.Nat.Defs

/-!
# Arithmetic of words

`ADD`, `SUB` and `MUL` give the exact result reduced modulo `2 ^ 64` to the range of the words,
and `IDIV` the quotient without its fraction, which is reduced for the least word and `-1` only.

Taking the multiple that a quotient counts away from the dividend leaves the remainder of the
exact division.  The reductions on the way do not show: `sub_div_mul_self` compares both sides
modulo `2 ^ 64`, and the remainder of two words is itself a word.  So no case of signs or
bounds stands apart.
-/

namespace FrameCode

/-! ## Quotient and remainder of words -/

section Words

variable {x y : Int64}

/-- What a quotient and its product leave of the dividend is the remainder, whatever overflows. -/
theorem sub_div_mul_self (x y : Int64) : x - x / y * y = x % y := by
  rw [← Int64.toInt_inj]
  calc (x - x / y * y).toInt
    _ = (x.toInt
          - ((x.toInt.tdiv y.toInt).bmod (2 ^ 64) * y.toInt).bmod (2 ^ 64)).bmod (2 ^ 64) := by
      rw [Int64.toInt_sub, Int64.toInt_mul, Int64.toInt_div]
    _ = (x.toInt - y.toInt * x.toInt.tdiv y.toInt).bmod (2 ^ 64) := by
      rw [Int.bmod_mul_bmod, Int.sub_bmod_bmod, Int.mul_comm]
    _ = (x % y).toInt.bmod (2 ^ 64) := by rw [← Int.tmod_def, Int64.toInt_mod]
    _ = (x % y).toInt := Int64.toInt_bmod (x % y)

/-- A remainder is smaller than the divisor. -/
theorem natAbs_mod_lt (nonzero : y ≠ 0) : (x % y).toInt.natAbs < y.toInt.natAbs := by
  have divisor : y.toInt ≠ 0 := fun eq => nonzero (Int64.toInt_inj.1 eq)
  rw [Int64.toInt_mod, Int.natAbs_tmod]
  exact Nat.mod_lt _ (Int.natAbs_pos.2 divisor)

/-- A remainder other than zero has the sign of the dividend. -/
theorem mod_eq_zero_or_sign_eq (x y : Int64) :
    (x % y).toInt = 0 ∨ (x % y).toInt.sign = x.toInt.sign := by
  rw [← Int.sign_eq_zero_iff_zero, Int64.toInt_mod, Int.sign_tmod]
  split
  · exact .inl rfl
  · exact .inr rfl

end Words

namespace Operation

variable {order : Nat} {x y : Int64}

/-! ## The four operations -/

theorem arithmetic_idiv (order : Nat) (nonzero : y ≠ 0) :
    arithmetic order .idiv (.int x) (.int y) = .ok (.int (x / y)) :=
  if_neg nonzero

/-- A division of integers fails just for a divisor that is zero. -/
theorem arithmetic_idiv_eq_error_iff {e : Fault} :
    arithmetic order .idiv (.int x) (.int y) = .error e ↔
    y = 0 ∧ e = ⟨order, .divisionByZero⟩ := by
  by_cases zero : y = 0
  · have refused : arithmetic order .idiv (.int x) (.int y) =
      .error ⟨order, .divisionByZero⟩ := if_pos zero
    rw [refused, Except.error.injEq]
    exact ⟨fun eq => ⟨zero, eq.symm⟩, fun ⟨_, eq⟩ => eq.symm⟩
  · rw [arithmetic_idiv order zero]
    exact ⟨nofun, fun ⟨eq, _⟩ => absurd eq zero⟩

end Operation

namespace Machine

open Operation

variable {m : Machine} {i : Instruction} {op : Opcode} {a b : Value} {p : Place}

/-- The four opcodes assign what they compute from the values of their operands. -/
theorem step_arithmetic (listed : op ∈ [.add, .sub, .mul, .idiv])
    (takes : m.Takes i op (.place p) a b) :
    m.step = (m.dispatch i).attempt (arithmetic i.order op a b) ((m.dispatch i).store p) := by
  refine takes.step_binary fun x y => ?_
  -- The four opcodes have one signature, which is known once the opcode is.
  simp only [List.mem_cons, List.not_mem_nil, or_false] at listed
  rcases listed with rfl | rfl | rfl | rfl
  all_goals exact ⟨(p, x, y, ()), rfl, rfl⟩

/-- **Arithmetic is exact modulo `2 ^ 64`, and quotients have remainders.**  `ADD`, `SUB` and
`MUL` of integers never fail and give the exact result reduced to the range of the words.  `IDIV`
fails just for the divisor zero.  For any other divisor, what `SUB` leaves of the dividend after
`MUL` of the quotient and the divisor is smaller than the divisor and is zero or has the sign of
the dividend, also where the quotient or the product overflows.  The instructions assign what the
operations give, so that a variable which is there holds it. -/
theorem arithmetic_exact (order : Nat) (x y : Int64) :
    (∃ s, arithmetic order .add (.int x) (.int y) = .ok (.int s) ∧
      s.toInt = (x.toInt + y.toInt).bmod (2 ^ 64)) ∧
    (∃ d, arithmetic order .sub (.int x) (.int y) = .ok (.int d) ∧
      d.toInt = (x.toInt - y.toInt).bmod (2 ^ 64)) ∧
    (∃ n, arithmetic order .mul (.int x) (.int y) = .ok (.int n) ∧
      n.toInt = (x.toInt * y.toInt).bmod (2 ^ 64)) ∧
    (∀ e, arithmetic order .idiv (.int x) (.int y) = .error e ↔
      y = 0 ∧ e = ⟨order, .divisionByZero⟩) ∧
    (y ≠ 0 → ∃ q n r, arithmetic order .idiv (.int x) (.int y) = .ok (.int q) ∧
      q.toInt = (x.toInt.tdiv y.toInt).bmod (2 ^ 64) ∧
      arithmetic order .mul (.int q) (.int y) = .ok (.int n) ∧
      arithmetic order .sub (.int x) (.int n) = .ok (.int r) ∧
      r.toInt.natAbs < y.toInt.natAbs ∧ (r.toInt = 0 ∨ r.toInt.sign = x.toInt.sign)) ∧
    (∀ (m : Machine) i op p, op ∈ [.add, .sub, .mul, .idiv] →
      m.Takes i op (.place p) (.int x) (.int y) →
        m.step = (m.dispatch i).attempt (arithmetic i.order op (.int x) (.int y))
            ((m.dispatch i).store p) ∧
          ∀ v, arithmetic i.order op (.int x) (.int y) = .ok v →
            m.step.Assigns m.memory p v) := by
  refine ⟨⟨x + y, rfl, Int64.toInt_add x y⟩, ⟨x - y, rfl, Int64.toInt_sub x y⟩,
    ⟨x * y, rfl, Int64.toInt_mul x y⟩, fun e => arithmetic_idiv_eq_error_iff, fun nonzero => ?_,
    fun m i op p listed takes => ?_⟩
  · refine ⟨x / y, x / y * y, x - x / y * y, arithmetic_idiv order nonzero, Int64.toInt_div x y,
      rfl, rfl, ?_⟩
    rw [sub_div_mul_self]
    exact ⟨natAbs_mod_lt nonzero, mod_eq_zero_or_sign_eq x y⟩
  · have step := step_arithmetic listed takes
    exact ⟨step, fun v => assigns_of_attempt step⟩

/-- The quotient of the least word and `-1` does not fit into a word and is reduced to the least
word, and so is its product with the divisor.  Nothing is left of the dividend. -/
theorem arithmetic_exact_least :
    let x : Int64 := .minValue
    let q : Place := ⟨.global, "q"⟩
    let i : Instruction := ⟨.known .idiv, [.place q, .literal (.int x), .literal (.int (-1))], 1⟩
    let m := new ⟨[i]⟩ (.ofText "") .reliable .reliable
    arithmetic 1 .idiv (.int x) (.int (-1)) = .ok (.int x) ∧
      (∃ n r, arithmetic 1 .mul (.int x) (.int (-1)) = .ok (.int n) ∧
        arithmetic 1 .sub (.int x) (.int n) = .ok (.int r) ∧ r.toInt.natAbs < 1) ∧
      m.step = (m.dispatch i).attempt (arithmetic 1 .idiv (.int x) (.int (-1)))
        ((m.dispatch i).store q) ∧
      m.step.Assigns m.memory q (.int x) := by
  intro x q i m
  obtain ⟨-, -, -, -, divides, assigns⟩ := arithmetic_exact 1 x (-1)
  obtain ⟨q', n, r, quotient, -, product, left, small, -⟩ := divides (by decide)
  have least : arithmetic 1 .idiv (.int x) (.int (-1)) = .ok (.int x) := by decide
  obtain ⟨⟩ := least.symm.trans quotient
  obtain ⟨stored, assigned⟩ := assigns m i .idiv q (by decide) ⟨rfl, rfl, _, _, rfl, rfl, rfl⟩
  exact ⟨quotient, ⟨n, r, product, left, small⟩, stored, assigned _ least⟩

end Machine

end FrameCode
