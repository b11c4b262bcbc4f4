import FrameCode.Proofs.CheckedOperands
import FrameCode.Proofs.Footprint
import FrameCode.Proofs.Requests

/-!
# Isolation

An instruction makes at most one request to the memory, and `step_revises` says which: the
assignment to its destination, or what `DEFVAR` and the three opcodes that move frames ask for.
So a step changes one variable at most, in the frame that the scope of its operand addresses, or
it moves a frame as a whole.  Frames that are not on top of the stack are out of reach of both.
-/

namespace FrameCode

/-! ## What an instruction asks for -/

/-- The opcode makes or moves frames, or adds a variable to one. -/
def Opcode.isFraming (op : Opcode) : Bool := op ∈ [.createFrame, .pushFrame, .popFrame, .defvar]

/-- The opcode assigns to its first operand. -/
def Opcode.assigns (op : Opcode) : Bool := op.signature.head? == some .place && !op.isFraming

/-- The variable that an instruction assigns to. -/
def Instruction.destination? (i : Instruction) : Option Place :=
  match i.opcode?, i.operands with
  | some op, .place p :: _ => if op.assigns then some p else none
  | _, _ => none

/-- The request that an instruction makes to the memory, with any value for its destination. -/
inductive Instruction.Requests (i : Instruction) : Memory.Request → Prop
  | assign {p : Place} (v : Value) : i.destination? = some p →
    Requests i (.edit p.scope (.assign p.name v))
  | define {p : Place} : i.opcode? = some .defvar → i.operands = [.place p] →
    Requests i (.edit p.scope (.define p.name))
  | createFrame : i.opcode? = some .createFrame → Requests i .createFrame
  | pushFrame : i.opcode? = some .pushFrame → Requests i .pushFrame
  | popFrame : i.opcode? = some .popFrame → Requests i .popFrame

namespace Machine

/-- What an instruction that does not fail can make of the memory: nothing at all, unless it is
about frames, or what its request makes of it. -/
inductive Revises (m : Machine) (i : Instruction) : Memory → Prop
  | keep : i.opcode?.any Opcode.isFraming = false → Revises m i m.memory
  | grant {r : Memory.Request} {memory : Memory} : i.Requests r →
    m.memory.perform r = (.ok (), memory) → Revises m i memory

end Machine

/-- The memory is revised by an instruction, or it is the same if the instruction fails. -/
def Outcome.Revises (m : Machine) (i : Instruction) : Outcome → Prop
  | next k => m.Revises i k.memory
  | halted _ k => m.Revises i k.memory
  | failed _ k => k.memory = m.memory

namespace Machine

variable {m k : Machine} {i : Instruction} {op : Opcode}

/-- A request of the instruction is granted, or refused with the memory as it was. -/
theorem update_revises {r : Memory.Request} (requests : i.Requests r) :
    (k.update (m.memory.perform r)).Revises m i :=
  update_outcome (P := Outcome.Revises m i) (fun _ _ refused => Memory.perform_of_error refused)
    fun _ granted => .grant requests granted

/-- Storing a value grants the request for the destination, or fails. -/
theorem store_revises {p : Place} (same : k.memory = m.memory)
    (assigned : i.destination? = some p) (v : Value) : (k.store p v).Revises m i := by
  rw [store, same]
  exact update_revises (.assign v assigned)

theorem revises_of_same (plain : i.opcode?.any Opcode.isFraming = false) {o : Outcome}
    (same : o.machine.memory = m.memory) : o.Revises m i := by
  cases o with
  | next k => exact (same ▸ .keep plain : m.Revises i k.memory)
  | halted h k => exact (same ▸ .keep plain : m.Revises i k.memory)
  | failed e k => exact same

/-- What an opcode makes of the memory, with the operands of its instruction. -/
theorem execute_revises (known : i.opcode? = some op) {xs : Operands op}
    (operands : i.operands = xs.toList) :
    ((m.dispatch i).execute op xs).Revises m i := by
  -- The footprint answers for the opcodes that do not list the memory among what they change.
  by_cases listed : .memory ∈ op.changes
  · have stored (k : Machine) (same : k.memory = m.memory) {p : Place} {rest : List Operand}
        (assigns : op.assigns = true) (first : i.operands = .place p :: rest) (v : Value) :
        (k.store p v).Revises m i := by
      have assigned : i.destination? = some p := by
        rw [Instruction.destination?, known, first]
        exact if_pos assigns
      exact store_revises same assigned v
    cases op with
    | call | ret | pushs | write | label | jump | jumpIfEq | jumpIfNeq | exit | dprint
    | «break» =>
      exact absurd listed (by decide)
    | createFrame => exact .grant (.createFrame known) rfl
    | pushFrame => exact update_revises (.pushFrame known)
    | popFrame => exact update_revises (.popFrame known)
    | defvar => exact update_revises (.define known operands)
    | move | type =>
      obtain ⟨order, p, x, ⟨⟩⟩ := xs
      exact attempt_outcome (fun _ _ => rfl) fun _ _ =>
        stored (m.dispatch i) rfl (by decide) operands _
    | pops =>
      obtain ⟨order, p, ⟨⟩⟩ := xs
      cases held : (m.dispatch i).stack with
      | nil =>
        rw [execute_pops_nil held]
        rfl
      | cons v stack =>
        rw [execute_pops_cons held]
        exact stored { m.dispatch i with stack } rfl (by decide) operands v
    | read =>
      obtain ⟨order, p, name, ⟨⟩⟩ := xs
      show ((m.dispatch i).read p name).Revises m i
      rw [read_eq]
      split
      · have taken : SameOutside [.input, .journal] (m.dispatch i) (m.dispatch i).readLine.2 :=
          readLine_sameOutside (by decide) (by decide)
        exact stored _ (taken.memory (by decide)) (by decide) operands _
      · rfl
    | setchar =>
      obtain ⟨order, p, x, y, ⟨⟩⟩ := xs
      exact access_outcome (fun _ _ => rfl) fun _ _ => attempt_outcome (fun _ _ => rfl) fun _ _ =>
        attempt_outcome (fun _ _ => rfl) fun _ _ => attempt_outcome (fun _ _ => rfl) fun v _ =>
          stored (m.dispatch i) rfl (by decide) operands v
    | not | int2char | strlen =>
      obtain ⟨order, p, x, ⟨⟩⟩ := xs
      exact attempt_outcome (fun _ _ => rfl) fun _ _ =>
        attempt_outcome (fun _ _ => rfl) fun v _ =>
          stored (m.dispatch i) rfl (by decide) operands v
    | add | sub | mul | idiv | lt | gt | eq | and | or | stri2int | concat | getchar =>
      obtain ⟨order, p, x, y, ⟨⟩⟩ := xs
      exact attempt_outcome (fun _ _ => rfl) fun _ _ =>
        attempt_outcome (fun _ _ => rfl) fun _ _ =>
          attempt_outcome (fun _ _ => rfl) fun v _ =>
            stored (m.dispatch i) rfl (by decide) operands v
  · have plain : i.opcode?.any Opcode.isFraming = false := by
      rw [known]
      clear operands xs known
      revert listed
      cases op <;> decide
    exact revises_of_same plain ((execute_sameOutside (m.dispatch i) op xs).memory listed)

/-- What a step makes of the memory. -/
theorem step_revises (fetched : m.fetch? = some i) : m.step.Revises m i := by
  cases known : i.opcode? with
  | none =>
    rw [step_of_unknown fetched known]
    exact .keep (by rw [known]; rfl)
  | some op =>
    rw [step_of_known fetched known]
    exact attempt_outcome (fun _ _ => rfl) fun xs checked =>
      execute_revises known (Operands.toList_of_check checked)

end Machine

/-! ## One variable -/

namespace Memory

variable {m k : Memory}

/-- The second memory is the first one but for the variable at a place, which has the given
content. -/
structure Sets (m : Memory) (p : Place) (content : Option Value) (k : Memory) : Prop where
  here : k.cellAt? (m.site p.scope) p.name = some ⟨p.name, content⟩
  elsewhere : ∀ s name, (s, name) ≠ (m.site p.scope, p.name) → k.cellAt? s name = m.cellAt? s name
  depth : k.depth = m.depth
  slot : ∃ f, k.temporary = m.temporary.replace f

theorem exists_temporary_replace (m : Memory) (g : Frame) (scope : Scope) :
    ∃ f, (m.replace g scope).temporary = m.temporary.replace f := by
  have same : ∃ f, m.temporary = m.temporary.replace f := by
    cases m.temporary with
    | absent => exact ⟨.empty, rfl⟩
    | pending f | detached f => exact ⟨f, rfl⟩
  cases scope with
  | global | topLocal => exact same
  | temporary => exact ⟨g, rfl⟩

/-- An edit that is granted sets one variable.  It was there before just if it has been
assigned. -/
theorem sets_of_edit {scope : Scope} {e : Frame.Edit} (done : m.Performed (.edit scope e) k) :
    m.Sets ⟨scope, e.name⟩ e.content k ∧
      (m.cellAt? (m.site scope) e.name).isSome = e.content.isSome := by
  cases done with
  | @edit _ _ f g found edited =>
    have before (name : String) : m.cellAt? (m.site scope) name = f.find? name := by
      rw [cellAt?, frameAt?_site, found]
      rfl
    have after (s : Site) (name : String) : (m.replace g scope).cellAt? s name =
        if s = m.site scope then g.find? name else m.cellAt? s name := by
      rw [cellAt?, frameAt?_replace found]
      split <;> rfl
    refine ⟨⟨?_, fun s name other => ?_, depth_replace m g scope,
      exists_temporary_replace m g scope⟩, ?_⟩
    · rw [after, if_pos rfl, Frame.find?_of_edit? edited]
      exact if_pos rfl
    · rw [after]
      split
      · next here =>
        have apart : e.name ≠ name := fun same => other (by rw [here, ← same])
        rw [Frame.find?_of_edit? edited, if_neg apart, here, before]
      · rfl
    · rw [before]
      exact Frame.isSome_find?_of_edit? edited

/-! ## Frames that are kept -/

/-- The site where a frame is after an instruction with the given opcode; `none` if
it is dropped. -/
def movedTo? (m : Memory) : Option Opcode → Site → Option Site
  | some .createFrame, .temporary => none
  | some .pushFrame, .temporary => some (.level m.depth)
  | some .popFrame, .temporary => none
  | some .popFrame, .level n => some (if n + 1 = m.depth then .temporary else .level n)
  | _, s => some s

end Memory

/-- Every variable of the frame is in the second one, and has a value there if it had one. -/
def Frame.RetainedIn (f g : Frame) : Prop :=
  ∀ name c, f.find? name = some c →
    ∃ d, g.find? name = some d ∧ (c.content.isSome → d.content.isSome)

theorem Frame.RetainedIn.refl (f : Frame) : f.RetainedIn f := fun _ c found => ⟨c, found, id⟩

theorem Frame.retainedIn_of_edit? {f g : Frame} {e : Frame.Edit} (edited : f.edit? e = some g) :
    f.RetainedIn g := by
  intro name c found
  rw [Frame.find?_of_edit? edited]
  split
  · next here =>
    have taken := Frame.isSome_find?_of_edit? edited
    rw [here, found] at taken
    exact ⟨_, rfl, fun _ => taken.symm⟩
  · exact ⟨c, found, id⟩

theorem Instruction.not_isFraming_of_destination? {i : Instruction} {p : Place}
    (assigned : i.destination? = some p) : i.opcode?.any Opcode.isFraming = false := by
  unfold Instruction.destination? at assigned
  split at assigned
  · next op _ _ known _ =>
    split at assigned
    · next assigns =>
      rw [known]
      simpa using (Bool.and_eq_true_iff.1 assigns).2
    · cases assigned
  · cases assigned

namespace Memory

variable {m k : Memory} {s : Site} {f : Frame}

theorem movedTo?_of_plain {op? : Option Opcode} (plain : op?.any Opcode.isFraming = false)
    (s : Site) : m.movedTo? op? s = some s := by
  unfold movedTo?
  split
  · exact absurd plain (by decide)
  · exact absurd plain (by decide)
  · exact absurd plain (by decide)
  · exact absurd plain (by decide)
  · rfl

/-- An edit leaves every frame where it is, with all its variables. -/
theorem retained_of_edit {scope : Scope} {e : Frame.Edit} (done : m.Performed (.edit scope e) k)
    (found : m.frameAt? s = some f) : ∃ g, k.frameAt? s = some g ∧ f.RetainedIn g := by
  cases done with
  | @edit _ _ f₀ g₀ addressed edited =>
    rw [frameAt?_replace addressed]
    split
    · next here =>
      rw [here, frameAt?_site, addressed] at found
      obtain rfl := Option.some.inj found
      exact ⟨g₀, rfl, Frame.retainedIn_of_edit? edited⟩
    · exact ⟨f, found, .refl f⟩

/-- A pushed frame is on top of the others. -/
theorem frameAt?_push (m : Memory) (f : Frame) (t : Temporary) (n : Nat) :
    frameAt? { m with locals := f :: m.locals, temporary := t } (.level n) =
      if n = m.depth then some f else m.frameAt? (.level n) :=
  frameAt?_level_cons rfl n

/-- The local frames below the top one are out of reach of any request. -/
theorem frameAt?_level_of_performed {r : Request} (performed : m.Performed r k) {n : Nat}
    (deep : n + 1 < m.depth) (deep' : n + 1 < k.depth) :
    k.frameAt? (.level n) = m.frameAt? (.level n) := by
  cases performed with
  | @edit scope e f g found edited =>
    have apart : Site.level n ≠ m.site scope := by
      cases scope with
      | global | temporary => exact nofun
      | topLocal =>
        intro same
        have top : n = m.depth - 1 := Site.level.inj same
        omega
    rw [frameAt?_replace found, if_neg apart]
  | createFrame => rfl
  | pushFrame => rw [frameAt?_push, if_neg (by omega)]
  | @popFrame f rest top =>
    have below : n ≠ rest.length := by
      have size : n + 1 < rest.length := deep'
      omega
    rw [frameAt?_level_cons top, if_neg below]
    rfl

end Memory

namespace Machine

variable {m k : Machine} {i : Instruction}

/-- A frame that is not dropped keeps its variables, wherever it is moved to. -/
theorem Revises.retained {memory : Memory} (revises : m.Revises i memory)
    {s s' : Site} {f : Frame}
    (found : m.memory.frameAt? s = some f) (moved : m.memory.movedTo? i.opcode? s = some s') :
    ∃ g, memory.frameAt? s' = some g ∧ f.RetainedIn g := by
  cases revises with
  | keep plain =>
    obtain rfl := Option.some.inj ((Memory.movedTo?_of_plain plain s).symm.trans moved)
    exact ⟨f, found, .refl f⟩
  | grant requests granted =>
    have performed := Memory.performed_iff.1 granted
    cases requests with
    | assign v assigned =>
      have plain := Instruction.not_isFraming_of_destination? assigned
      obtain rfl := Option.some.inj ((Memory.movedTo?_of_plain plain s).symm.trans moved)
      exact Memory.retained_of_edit performed found
    | define known =>
      rw [known] at moved
      obtain rfl : s = s' := by cases s <;> exact Option.some.inj moved
      exact Memory.retained_of_edit performed found
    | createFrame known =>
      rw [known] at moved
      cases performed
      cases s with
      | temporary => cases moved
      | global | level =>
        cases moved
        exact ⟨f, found, .refl f⟩
    | pushFrame known =>
      rw [known] at moved
      cases performed with
      | @pushFrame f₀ pending =>
        cases s with
        | global =>
          cases moved
          exact ⟨f, found, .refl f⟩
        | level n =>
          cases moved
          have inside : n < m.memory.depth := by
            simpa [Memory.depth] using (List.getElem?_eq_some_iff.1 found).1
          refine ⟨f, ?_, .refl f⟩
          rw [Memory.frameAt?_push, if_neg (Nat.ne_of_lt inside)]
          exact found
        | temporary =>
          cases moved
          refine ⟨f, ?_, .refl f⟩
          rw [Memory.frameAt?_push, if_pos rfl, ← found]
          show _ = m.memory.temporary.frame?
          rw [pending]
          rfl
    | popFrame known =>
      rw [known] at moved
      cases performed with
      | @popFrame f₀ rest top =>
        have size : m.memory.depth = rest.length + 1 := congrArg List.length top
        cases s with
        | global =>
          cases moved
          exact ⟨f, found, .refl f⟩
        | temporary => cases moved
        | level n =>
          rw [Memory.frameAt?_level_cons top] at found
          obtain rfl := Option.some.inj moved
          rw [size]
          by_cases here : n = rest.length
          · rw [if_pos here] at found
            obtain rfl := Option.some.inj found
            rw [if_pos (by omega)]
            exact ⟨f₀, rfl, .refl f₀⟩
          · rw [if_neg here] at found
            rw [if_neg (by omega)]
            exact ⟨f, found, .refl f⟩

/-! ## Steps and runs -/

/-- A step leaves the memory alone, or it does what its instruction asks for. -/
theorem same_or_performed (fetched : m.fetch? = some i) :
    m.step.machine.memory = m.memory ∨
      ∃ r, i.Requests r ∧ m.memory.Performed r m.step.machine.memory := by
  have revises := step_revises fetched
  have done {memory : Memory} (revises : m.Revises i memory) :
      memory = m.memory ∨ ∃ r, i.Requests r ∧ m.memory.Performed r memory := by
    cases revises with
    | keep => exact .inl rfl
    | grant requests granted => exact .inr ⟨_, requests, Memory.performed_iff.1 granted⟩
  cases stepped : m.step with
  | next k | halted h k =>
    rw [stepped] at revises
    exact done revises
  | failed e k =>
    rw [stepped] at revises
    exact .inl revises

theorem step_frameAt?_level {n : Nat} (deep : n + 1 < m.memory.depth)
    (deep' : n + 1 < m.step.machine.memory.depth) :
    m.step.machine.memory.frameAt? (.level n) = m.memory.frameAt? (.level n) := by
  cases fetched : m.fetch? with
  | none =>
    rw [step_of_fetch?_none fetched]
    rfl
  | some i =>
    rcases same_or_performed fetched with same | ⟨r, -, performed⟩
    · rw [same]
    · exact Memory.frameAt?_level_of_performed performed deep deep'

/-- As long as there are more than `d` local frames, the lowest `d` of them stay as they are. -/
theorem after_frameAt?_level {n l d : Nat} (le : n ≤ l)
    (deep : ∀ e, n ≤ e → e ≤ l → d < (m.after e).machine.memory.depth) {t : Nat} (low : t < d) :
    (m.after l).machine.memory.frameAt? (.level t) =
      (m.after n).machine.memory.frameAt? (.level t) := by
  induction le with
  | refl => rfl
  | @step l le ih =>
    rw [← ih fun e here high => deep e here (Nat.le_succ_of_le high)]
    have here : t + 1 < (m.after l).machine.memory.depth :=
      Nat.lt_of_le_of_lt low (deep l le (Nat.le_succ l))
    have there : t + 1 < (m.after (l + 1)).machine.memory.depth :=
      Nat.lt_of_le_of_lt low (deep (l + 1) (Nat.le_succ_of_le le) (Nat.le_refl _))
    rw [after] at there ⊢
    cases reached : m.after l with
    | next k =>
      rw [reached] at here there
      exact step_frameAt?_level here there
    | halted h k | failed e k => rfl

/-- An opcode that is about frames is granted the request that is its own, unless it fails. -/
theorem Revises.of_framing {op : Opcode} {memory : Memory} (revises : m.Revises i memory)
    (known : i.opcode? = some op) (framing : op.isFraming = true) :
    match op with
    | .createFrame => m.memory.perform .createFrame = (.ok (), memory)
    | .pushFrame => m.memory.perform .pushFrame = (.ok (), memory)
    | .popFrame => m.memory.perform .popFrame = (.ok (), memory)
    | _ => ∃ p, i.operands = [.place p] ∧
        m.memory.perform (.edit p.scope (.define p.name)) = (.ok (), memory) := by
  have framed : i.opcode?.any Opcode.isFraming = true := by
    rw [known]
    exact framing
  cases revises with
  | keep plain => exact absurd framed (ne_true_of_eq_false plain)
  | grant requests granted =>
    cases requests with
    | assign v assigned =>
      exact absurd framed (ne_true_of_eq_false
        (Instruction.not_isFraming_of_destination? assigned))
    | define other operands =>
      obtain rfl := Option.some.inj (known.symm.trans other)
      exact ⟨_, operands, granted⟩
    | createFrame other | pushFrame other | popFrame other =>
      obtain rfl := Option.some.inj (known.symm.trans other)
      exact granted

/-- An opcode that is not about frames sets its destination at most. -/
theorem Revises.sets {memory : Memory} (revises : m.Revises i memory)
    (plain : i.opcode?.any Opcode.isFraming = false) :
    memory = m.memory ∨ ∃ p v, i.destination? = some p ∧ m.memory.Sets p (some v) memory ∧
      (m.memory.cellAt? (m.memory.site p.scope) p.name).isSome := by
  cases revises with
  | keep => exact .inl rfl
  | grant requests granted =>
    have performed := Memory.performed_iff.1 granted
    cases requests with
    | assign v assigned =>
      obtain ⟨sets, there⟩ := Memory.sets_of_edit performed
      exact .inr ⟨_, v, assigned, sets, there⟩
    | define known | createFrame known | pushFrame known | popFrame known =>
      rw [known] at plain
      exact absurd plain (by decide)

/-- **Variables are isolated.**  In a run from any state, as long as there are more than `d` local
frames, the lowest `d` of them stay as they are.  An instruction that does not fail and is not
about frames changes at most one variable, which is its destination, in the frame that its scope
addresses; the variable was there before.  `CREATEFRAME` drops the temporary frame only,
`PUSHFRAME` and `POPFRAME` move a frame as it is, and `DEFVAR` adds one variable without content.
No frame that is kept loses a variable or the content of one, wherever it is moved to.  An
instruction that fails changes nothing. -/
theorem variables_isolated (m : Machine) :
    (∀ n l d, n ≤ l → (∀ e, n ≤ e → e ≤ l → d < (m.after e).machine.memory.depth) →
      ∀ t < d, (m.after l).machine.memory.frameAt? (.level t) =
        (m.after n).machine.memory.frameAt? (.level t)) ∧
    ∀ i, m.fetch? = some i →
      (∀ k, m.step = .next k ∨ (∃ h, m.step = .halted h k) →
        (i.opcode?.any Opcode.isFraming = false → k.memory = m.memory ∨
          ∃ p v, i.destination? = some p ∧ m.memory.Sets p (some v) k.memory ∧
            (m.memory.cellAt? (m.memory.site p.scope) p.name).isSome) ∧
        (i.opcode? = some .createFrame →
          k.memory = { m.memory with temporary := .pending .empty }) ∧
        (i.opcode? = some .pushFrame → ∃ f, m.memory.temporary = .pending f ∧
          k.memory = { m.memory with locals := f :: m.memory.locals, temporary := .absent }) ∧
        (i.opcode? = some .popFrame → ∃ f rest, m.memory.locals = f :: rest ∧
          k.memory = { m.memory with locals := rest, temporary := .detached f }) ∧
        (i.opcode? = some .defvar → ∃ p, i.operands = [.place p] ∧ m.memory.Sets p none k.memory ∧
          m.memory.cellAt? (m.memory.site p.scope) p.name = none) ∧
        ∀ s s' f, m.memory.frameAt? s = some f → m.memory.movedTo? i.opcode? s = some s' →
          ∃ g, k.memory.frameAt? s' = some g ∧ f.RetainedIn g) ∧
      ∀ e k, m.step = .failed e k → k.memory = m.memory := by
  refine ⟨fun n l d le deep t low => after_frameAt?_level le deep low, fun i fetched =>
    ⟨fun k succeeded => ?_, fun e k failed => ?_⟩⟩
  · have revises : m.Revises i k.memory := by
      have revises := step_revises fetched
      rcases succeeded with stepped | ⟨h, stepped⟩
      all_goals
        rw [stepped] at revises
        exact revises
    refine ⟨revises.sets, fun known => ?_, fun known => ?_, fun known => ?_, fun known => ?_,
      fun s s' f found moved => revises.retained found moved⟩
    · have created := revises.of_framing known rfl
      exact (congrArg Prod.snd created).symm
    · have pushed := revises.of_framing known rfl
      exact Memory.pushFrame_eq_ok_iff.1 pushed
    · have popped := revises.of_framing known rfl
      exact Memory.popFrame_eq_ok_iff.1 popped
    · obtain ⟨p, operands, granted⟩ := revises.of_framing known rfl
      obtain ⟨sets, free⟩ := Memory.sets_of_edit (Memory.performed_iff.1 granted)
      exact ⟨p, operands, sets, Option.isNone_iff_eq_none.1 (Option.isSome_eq_false_iff.1 free)⟩
  · have revises := step_revises fetched
    rw [failed] at revises
    exact revises

/-- Two local frames and the global one have a variable of the same name.  An assignment in the
upper local frame sets this variable, and the lower frame stays as it is. -/
theorem variables_isolated_shadowed :
    let x (scope : Scope) : Place := ⟨scope, "x"⟩
    let i (op : Opcode) (xs : List Operand) (order : Nat) : Instruction := ⟨.known op, xs, order⟩
    let move : Instruction := i .move [.place (x .topLocal), .literal (.int 2)] 8
    let p : Program := ⟨[i .defvar [.place (x .global)] 1, i .createFrame [] 2,
      i .defvar [.place (x .temporary)] 3, i .pushFrame [] 4, i .createFrame [] 5,
      i .defvar [.place (x .temporary)] 6, i .pushFrame [] 7, move, i .popFrame [] 9]⟩
    let s := (new p (.ofText "") .reliable .reliable).ready p
    (s.after 8).machine.memory.frameAt? (.level 0) =
      (s.after 7).machine.memory.frameAt? (.level 0) ∧
      ∃ j k, s.after 7 = .next j ∧ j.fetch? = some move ∧ j.step = .next k ∧
        ∃ q v, move.destination? = some q ∧ j.memory.Sets q (some v) k.memory ∧
          (j.memory.cellAt? (j.memory.site q.scope) q.name).isSome := by
  intro x i move p s
  refine ⟨(variables_isolated s).1 7 8 1 (by decide) (fun e low high => ?_) 0 (by decide), ?_⟩
  · have two : ∀ e < 9, 7 ≤ e → 1 < (s.after e).machine.memory.depth := by decide +kernel
    exact two e (Nat.lt_succ_of_le high) low
  · obtain ⟨j, reached, fetched, k, stepped, changed⟩ : ∃ j, s.after 7 = .next j ∧
        j.fetch? = some move ∧ ∃ k, j.step = .next k ∧ k.memory ≠ j.memory :=
      ⟨_, rfl, rfl, _, rfl, by decide +kernel⟩
    have isolated := ((variables_isolated j).2 move fetched).1 k (.inl stepped)
    exact ⟨j, k, reached, fetched, stepped, (isolated.1 (by decide)).resolve_left changed⟩

end Machine

end FrameCode
