import FrameCode.Proofs.Execution
import FrameCode.Proofs.Results

/-!
# Faults of opcodes

`Cause.RaisedBy` tells for which causes an opcode can fail once its operands have been checked,
and `Cause.numbered` where the order number of such a fault comes from: the operations on values
take that of the checked operands, and whatever else can fail that of the instruction fetched
last.  `execute_raisedBy` says that no instruction raises another fault.
-/

namespace FrameCode

/-- The causes for which an opcode can fail once its operands have been checked. -/
def Cause.RaisedBy (op : Opcode) : Cause → Prop
  | .operandCount _ _ => False
  | .operandKind _ _ => False
  | .unreadableType _ => op = .read
  | .undefinedLabel _ => op ∈ [.call, .jump, .jumpIfEq, .jumpIfNeq]
  | .memory _ => True
  | .typeMismatch other => other = op
  | .dataStackEmpty => op = .pops
  | .callStackEmpty => op = .ret
  | .divisionByZero => op = .idiv
  | .exitCodeOutOfRange _ => op = .exit
  | .indexOutOfRange _ _ => op ∈ [.stri2int, .getchar, .setchar]
  | .emptyReplacement => op = .setchar
  | .charCodeOutOfRange _ => op = .int2char
  | .output _ => op = .write ∨ op = .dprint

/-- The number that a fault is raised with: that of the operands or that of the instruction
fetched last. -/
def Cause.numbered (operands fetched : Nat) : Cause → Nat
  | .operandCount _ _ | .operandKind _ _ | .typeMismatch _ | .divisionByZero
  | .exitCodeOutOfRange _ | .indexOutOfRange _ _ | .emptyReplacement | .charCodeOutOfRange _ =>
    operands
  | .unreadableType _ | .undefinedLabel _ | .memory _ | .dataStackEmpty | .callStackEmpty
  | .output _ => fetched

/-- The fault is one that an opcode can raise, from operands and in a machine with the given order
numbers. -/
structure Fault.RaisedBy (op : Opcode) (operands fetched : Nat) (e : Fault) : Prop where
  cause : e.cause.RaisedBy op
  order : e.order = e.cause.numbered operands fetched

/-! ## What an operation raises -/

namespace Operation

/-- An error of the result is one that the opcode can raise. -/
abbrev Raises {α : Type} (op : Opcode) (operands fetched : Nat)
    (result : Except Fault α) : Prop :=
  ∀ e, result = .error e → e.RaisedBy op operands fetched

variable {operands fetched : Nat}

theorem raises_arithmetic (op : Opcode) (a b : Value) :
    Raises op operands fetched (arithmetic operands op a b) := by
  intro e failed
  unfold arithmetic at failed
  split at failed
  · split at failed
    · cases failed
    · cases failed
    · cases failed
    · split at failed
      · cases failed
        exact ⟨rfl, rfl⟩
      · cases failed
    · cases failed
      exact ⟨rfl, rfl⟩
  · cases failed
    exact ⟨rfl, rfl⟩

theorem raises_logic (op : Opcode) (a b : Value) :
    Raises op operands fetched (logic operands op a b) := by
  intro e failed
  unfold logic at failed
  split at failed
  · cases failed
  · cases failed
  · cases failed
    exact ⟨rfl, rfl⟩

theorem raises_not (a : Value) : Raises .not operands fetched (not operands a) := by
  intro e failed
  unfold not at failed
  split at failed
  · cases failed
  · cases failed
    exact ⟨rfl, rfl⟩

theorem raises_compare (op : Opcode) (a b : Value) :
    Raises op operands fetched (compare operands op a b) := by
  intro e failed
  unfold compare at failed
  split at failed
  · cases failed
  · cases failed
  · cases failed
  · cases failed
    exact ⟨rfl, rfl⟩

theorem raises_equals (a b : Value) : Raises .eq operands fetched (equals operands a b) := by
  intro e failed
  unfold equals at failed
  split at failed
  · cases failed
  · cases failed
    exact ⟨rfl, rfl⟩

theorem raises_jumpEquals (op : Opcode) (a b : Value) :
    Raises op operands fetched (jumpEquals operands op a b) := by
  intro e failed
  unfold jumpEquals at failed
  split at failed
  · cases failed
  · cases failed
    exact ⟨rfl, rfl⟩

theorem raises_charOfCode (a : Value) :
    Raises .int2char operands fetched (charOfCode operands a) := by
  intro e failed
  unfold charOfCode at failed
  split at failed
  · split at failed
    · cases failed
    · cases failed
      exact ⟨rfl, rfl⟩
  · cases failed
    exact ⟨rfl, rfl⟩

theorem raises_focus {op : Opcode} (indexing : op ∈ [.stri2int, .getchar, .setchar])
    (text index : Value) : Raises op operands fetched (focus operands op text index) := by
  intro e failed
  unfold focus at failed
  split at failed
  · dsimp only at failed
    split at failed
    · split at failed
      · cases failed
      · cases failed
        exact ⟨indexing, rfl⟩
    · cases failed
      exact ⟨indexing, rfl⟩
  · cases failed
    exact ⟨rfl, rfl⟩

theorem raises_setChar (text index replacement : Value) :
    Raises .setchar operands fetched (setChar operands text index replacement) := by
  intro e failed
  unfold setChar at failed
  split at failed
  · split at failed
    · next first =>
      cases failed
      exact raises_focus (by decide) text index _ first
    · split at failed
      · cases failed
        exact ⟨rfl, rfl⟩
      · cases failed
  · cases failed
    exact ⟨rfl, rfl⟩

theorem raises_concat (a b : Value) : Raises .concat operands fetched (concat operands a b) := by
  intro e failed
  unfold concat at failed
  split at failed
  · cases failed
  · cases failed
    exact ⟨rfl, rfl⟩

theorem raises_length (a : Value) : Raises .strlen operands fetched (length operands a) := by
  intro e failed
  unfold length at failed
  split at failed
  · cases failed
  · cases failed
    exact ⟨rfl, rfl⟩

theorem raises_exitCode (a : Value) : Raises .exit operands fetched (exitCode operands a) := by
  intro e failed
  unfold exitCode at failed
  split at failed
  · split at failed
    · cases failed
    · cases failed
      exact ⟨rfl, rfl⟩
  · cases failed
    exact ⟨rfl, rfl⟩

theorem Raises.map {α β : Type} {op : Opcode} {result : Except Fault α}
    (raises : Raises op operands fetched result)
    (f : α → β) : Raises op operands fetched (result.map f) :=
  fun e failed => raises e (map_eq_error_iff.1 failed)

end Operation

/-! ## What an instruction raises -/

namespace Machine

variable {m : Machine} {op : Opcode} {order : Nat}

theorem raises_symbol (m : Machine) (op : Opcode) (x : Operand) :
    Operation.Raises op order m.order (m.symbol order op x) := by
  intro e failed
  unfold symbol at failed
  split at failed
  · cases failed
  · obtain ⟨_, _, rfl⟩ := mapError_eq_error_iff.1 failed
    exact ⟨trivial, rfl⟩
  · cases failed
    exact ⟨rfl, rfl⟩
  · cases failed
    exact ⟨rfl, rfl⟩

theorem raises_content (m : Machine) (op : Opcode) (x : Operand) :
    Operation.Raises op order m.order (m.content order op x) := by
  intro e failed
  unfold content at failed
  split at failed
  · cases failed
  · obtain ⟨_, _, rfl⟩ := mapError_eq_error_iff.1 failed
    exact ⟨trivial, rfl⟩
  · cases failed
    exact ⟨rfl, rfl⟩
  · cases failed
    exact ⟨rfl, rfl⟩

theorem raises_target (listed : op ∈ [.call, .jump, .jumpIfEq, .jumpIfNeq]) (m : Machine)
    (name : String) : Operation.Raises op order m.order (m.target name) := by
  intro e failed
  unfold target at failed
  split at failed
  · cases failed
  · cases failed
    exact ⟨listed, rfl⟩

theorem store_raisedBy (m : Machine) (op : Opcode) (p : Place) (v : Value) :
    (m.store p v).Fails (Fault.RaisedBy op order m.order) :=
  store_fails fun _ => ⟨trivial, rfl⟩

theorem unary_raisedBy {f : Value → Except Fault Value}
    (raises : ∀ a, Operation.Raises op order m.order (f a))
    (p : Place) (x : Operand) :
    (m.unary order op f p x).Fails (Fault.RaisedBy op order m.order) :=
  attempt_fails (raises_symbol m op x) fun a _ => attempt_fails (raises a) fun v _ =>
    store_raisedBy m op p v

theorem binary_raisedBy {f : Value → Value → Except Fault Value}
    (raises : ∀ a b, Operation.Raises op order m.order (f a b)) (p : Place) (x y : Operand) :
    (m.binary order op f p x y).Fails (Fault.RaisedBy op order m.order) :=
  attempt_fails (raises_symbol m op x) fun a _ => attempt_fails (raises_symbol m op y) fun b _ =>
    attempt_fails (raises a b) fun v _ => store_raisedBy m op p v

theorem jumpIf_raisedBy (listed : op ∈ [.call, .jump, .jumpIfEq, .jumpIfNeq]) (wanted : Bool)
    (label : String) (x y : Operand) :
    (m.jumpIf order op wanted label x y).Fails (Fault.RaisedBy op order m.order) :=
  attempt_fails (raises_target listed m label) fun _ _ =>
    attempt_fails (raises_symbol m op x) fun a _ =>
      attempt_fails (raises_symbol m op y) fun b _ =>
        attempt_fails (Operation.raises_jumpEquals op a b) fun _ _ => trivial

theorem setChar_raisedBy (p : Place) (x y : Operand) :
    (m.setChar order p x y).Fails (Fault.RaisedBy .setchar order m.order) :=
  access_fails (fun _ => ⟨trivial, rfl⟩) fun current =>
    attempt_fails (raises_symbol m .setchar x) fun index _ =>
      attempt_fails (raises_symbol m .setchar y) fun replacement _ =>
        attempt_fails (Operation.raises_setChar current index replacement) fun v _ =>
          store_raisedBy m .setchar p v

theorem read_raisedBy (p : Place) (type : String) :
    (m.read p type).Fails (Fault.RaisedBy .read order m.order) := by
  rw [read_eq]
  split
  · rw [← readLine_order]
    exact store_raisedBy _ .read p _
  · exact ⟨rfl, rfl⟩

theorem write_raisedBy (x : Operand) :
    (m.write order x).Fails (Fault.RaisedBy .write order m.order) := by
  refine attempt_fails (raises_symbol m .write x) fun v _ => ?_
  split
  · trivial
  · exact ⟨.inl rfl, rfl⟩

theorem dprint_raisedBy (x : Operand) :
    (m.dprint order x).Fails (Fault.RaisedBy .dprint order m.order) := by
  refine attempt_fails (raises_symbol m .dprint x) fun v _ => ?_
  split
  · trivial
  · exact ⟨.inr rfl, rfl⟩

/-- An instruction raises no fault but those of its opcode. -/
theorem execute_raisedBy (m : Machine) (op : Opcode) (xs : Operands op) :
    (m.execute op xs).Fails (Fault.RaisedBy op xs.order m.order) := by
  cases op with
  | move =>
    obtain ⟨order, p, x, ⟨⟩⟩ := xs
    exact attempt_fails (raises_symbol m .move x) fun v _ => store_raisedBy m .move p v
  | createFrame => trivial
  | pushFrame | popFrame | defvar => exact update_fails fun _ => ⟨trivial, rfl⟩
  | call => exact attempt_fails (raises_target (by decide) m _) fun _ _ => trivial
  | jump => exact attempt_fails (raises_target (by decide) m _) fun _ _ => trivial
  | jumpIfEq => exact jumpIf_raisedBy (by decide) _ _ _ _
  | jumpIfNeq => exact jumpIf_raisedBy (by decide) _ _ _ _
  | ret =>
    cases pushed : m.calls with
    | nil =>
      rw [execute_ret_nil pushed]
      exact ⟨rfl, rfl⟩
    | cons position calls =>
      rw [execute_ret_cons pushed]
      trivial
  | pushs => exact attempt_fails (raises_symbol m .pushs _) fun _ _ => trivial
  | pops =>
    obtain ⟨order, p, ⟨⟩⟩ := xs
    cases pushed : m.stack with
    | nil =>
      rw [execute_pops_nil pushed]
      exact ⟨rfl, rfl⟩
    | cons v stack =>
      rw [execute_pops_cons pushed]
      exact store_raisedBy _ .pops p v
  | read => exact read_raisedBy _ _
  | write => exact write_raisedBy _
  | dprint => exact dprint_raisedBy _
  | «break» => trivial
  | label => trivial
  | setchar => exact setChar_raisedBy _ _ _
  | type =>
    obtain ⟨order, p, x, ⟨⟩⟩ := xs
    exact attempt_fails (raises_content m .type x) fun v _ => store_raisedBy m .type p _
  | exit =>
    exact attempt_fails (raises_symbol m .exit _) fun v _ =>
      attempt_fails (Operation.raises_exitCode v) fun _ _ => trivial
  | not => exact unary_raisedBy Operation.raises_not _ _
  | int2char => exact unary_raisedBy Operation.raises_charOfCode _ _
  | strlen => exact unary_raisedBy Operation.raises_length _ _
  | add => exact binary_raisedBy (Operation.raises_arithmetic .add) _ _ _
  | sub => exact binary_raisedBy (Operation.raises_arithmetic .sub) _ _ _
  | mul => exact binary_raisedBy (Operation.raises_arithmetic .mul) _ _ _
  | idiv => exact binary_raisedBy (Operation.raises_arithmetic .idiv) _ _ _
  | lt => exact binary_raisedBy (fun a b => (Operation.raises_compare .lt a b).map _) _ _ _
  | gt => exact binary_raisedBy (fun a b => (Operation.raises_compare .gt a b).map _) _ _ _
  | eq => exact binary_raisedBy (fun a b => (Operation.raises_equals a b).map _) _ _ _
  | and => exact binary_raisedBy (Operation.raises_logic .and) _ _ _
  | or => exact binary_raisedBy (Operation.raises_logic .or) _ _ _
  | stri2int =>
    exact binary_raisedBy (fun a b => (Operation.raises_focus (by decide) a b).map _) _ _ _
  | getchar =>
    exact binary_raisedBy (fun a b => (Operation.raises_focus (by decide) a b).map _) _ _ _
  | concat => exact binary_raisedBy Operation.raises_concat _ _ _

end Machine

end FrameCode
