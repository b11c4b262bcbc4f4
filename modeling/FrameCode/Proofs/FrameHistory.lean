import FrameCode.Proofs.Requests
import Mathlib.Data.List.Infix

/-!
# The history of the frames

Where the frames are follows from the requests made so far, whether each of them was granted or
refused.  The slot of the temporary frame is as the latest granted move of a frame has left it.
The frame that comes back from the stack is the one which went there with the matching push, with
the edits of the topmost local frame that were granted while it was on top.

`PushedAs` says this of a frame that is still on the stack.  It is kept by a request that leaves
this frame alone, and by an edit of it, which is added to its edits.
-/

namespace FrameCode.Memory

/-! ## Histories -/

/-- The requests made to a new memory, the latest first. -/
abbrev History := List Request

/-- The memory that a request leaves, granted or refused. -/
def served (m : Memory) (r : Request) : Memory := (m.perform r).2

/-- The memory after a history. -/
def afterAll : History → Memory
  | [] => .empty
  | r :: earlier => (afterAll earlier).served r

/-- Those of the requests `late`, which came after `early`, that were granted, each with the
number of local frames that it found; the latest comes first. -/
def granted (early : History) : History → List (Nat × Request)
  | [] => []
  | r :: late =>
    let m := afterAll (late ++ early)
    if (m.perform r).1.isOk then (m.depth, r) :: granted early late else granted early late

/-- The request moves a frame into the temporary slot or out of it. -/
def Request.isMove : Request → Bool
  | edit _ _ => false
  | createFrame | pushFrame | popFrame => true

/-- The edit of the topmost local frame that is requested. -/
def Request.localEdit? : Request → Option Frame.Edit
  | edit .topLocal e => some e
  | edit .global _ | edit .temporary _ | createFrame | pushFrame | popFrame => none

/-- The latest granted move of a frame. -/
def lastMove? (h : History) : Option Request := ((granted [] h).map Prod.snd).find? Request.isMove

/-- The edits of the topmost local frame among the granted requests of `late` that found the given
number of local frames; the latest comes first. -/
def editsAt (depth : Nat) (early late : History) : List Frame.Edit :=
  (granted early late).filterMap fun p => if p.1 = depth then p.2.localEdit? else none

variable {h early late before since : History} {r : Request} {m k : Memory} {e : MemoryError}
  {f g : Frame} {below : List Frame}

theorem afterAll_of_ok (done : (afterAll h).perform r = (.ok (), k)) : afterAll (r :: h) = k := by
  rw [afterAll, served, done]

theorem afterAll_of_error (refused : (afterAll h).perform r = (.error e, afterAll h)) :
    afterAll (r :: h) = afterAll h := by
  rw [afterAll, served, refused]

theorem granted_of_ok (done : (afterAll (late ++ early)).perform r = (.ok (), k)) :
    granted early (r :: late) = ((afterAll (late ++ early)).depth, r) :: granted early late := by
  rw [granted]
  simp [done, Except.isOk, Except.toBool]

theorem granted_of_error (refused : (afterAll (late ++ early)).perform r = (.error e, k)) :
    granted early (r :: late) = granted early late := by
  rw [granted]
  simp [refused, Except.isOk, Except.toBool]

/-! ## The temporary slot -/

/-- The slot that a latest move leaves. -/
inductive SlotAfter : Option Request → Temporary → Prop
  | new : SlotAfter none .absent
  | pending (f : Frame) : SlotAfter (some .createFrame) (.pending f)
  | pushed : SlotAfter (some .pushFrame) .absent
  | detached (f : Frame) : SlotAfter (some .popFrame) (.detached f)

theorem SlotAfter.replace {last? : Option Request} {t : Temporary}
    (slot : SlotAfter last? t) (g : Frame) :
    SlotAfter last? (t.replace g) := by
  cases slot with
  | new => exact .new
  | pending => exact .pending g
  | pushed => exact .pushed
  | detached => exact .detached g

theorem SlotAfter.state_iff {last? : Option Request} {t : Temporary} (slot : SlotAfter last? t) :
    ((∃ f, t = .pending f) ↔ last? = some .createFrame) ∧
    ((∃ f, t = .detached f) ↔ last? = some .popFrame) ∧
    (t = .absent ↔ last? ≠ some .createFrame ∧ last? ≠ some .popFrame) := by
  cases slot <;> simp

theorem lastMove?_of_ok (done : (afterAll h).perform r = (.ok (), k)) :
    lastMove? (r :: h) = if r.isMove then some r else lastMove? h := by
  rw [lastMove?, granted_of_ok (by rwa [List.append_nil]), List.map_cons, List.find?_cons]
  cases r.isMove <;> rfl

theorem lastMove?_of_error (refused : (afterAll h).perform r = (.error e, k)) :
    lastMove? (r :: h) = lastMove? h := by
  rw [lastMove?, granted_of_error (by rwa [List.append_nil])]
  rfl

/-- The temporary slot is as the latest granted move has left it. -/
theorem slotAfter_lastMove? (h : History) : SlotAfter (lastMove? h) (afterAll h).temporary := by
  induction h with
  | nil => exact .new
  | cons r h ih =>
    obtain ⟨e, answer⟩ | ⟨k, answer, performed⟩ := (afterAll h).refused_or_performed r
    · rw [lastMove?_of_error answer, afterAll_of_error answer]
      exact ih
    · rw [lastMove?_of_ok answer, afterAll_of_ok answer]
      cases performed with
      | @edit scope =>
        cases scope with
        | global | topLocal => exact ih
        | temporary => exact ih.replace _
      | createFrame => exact .pending .empty
      | pushFrame => exact .pushed
      | popFrame => exact .detached _

/-! ## The number of local frames -/

/-- The number of granted requests of one kind. -/
def timesGranted (r : Request) (h : History) : Nat := ((granted [] h).map Prod.snd).count r

theorem timesGranted_of_ok (done : (afterAll h).perform r = (.ok (), k)) (other : Request) :
    timesGranted other (r :: h) = timesGranted other h + if r = other then 1 else 0 := by
  rw [timesGranted, granted_of_ok (by rwa [List.append_nil]), List.map_cons, List.count_cons]
  simp [timesGranted]

theorem timesGranted_of_error (refused : (afterAll h).perform r = (.error e, k))
    (other : Request) :
    timesGranted other (r :: h) = timesGranted other h := by
  rw [timesGranted, granted_of_error (by rwa [List.append_nil])]
  rfl

/-- The local frames that were pushed and not popped again are there. -/
theorem depth_add_timesGranted (h : History) :
    (afterAll h).depth + timesGranted .popFrame h = timesGranted .pushFrame h := by
  induction h with
  | nil => rfl
  | cons r h ih =>
    obtain ⟨e, answer⟩ | ⟨k, answer, performed⟩ := (afterAll h).refused_or_performed r
    · rw [timesGranted_of_error answer, timesGranted_of_error answer, afterAll_of_error answer]
      exact ih
    · rw [timesGranted_of_ok answer, timesGranted_of_ok answer, afterAll_of_ok answer]
      cases performed with
      | edit => simpa [depth_replace] using ih
      | createFrame => simpa [depth] using ih
      | pushFrame => simp [depth] at ih ⊢; omega
      | popFrame top => simp [depth, top] at ih ⊢; omega

/-! ## The frames on the stack -/

/-- A frame `g` that is now on the stack, just over the frames `below`, is what the history has
made of the frame `f`.  After `before` a granted request pushed the created frame `f` onto these
frames.  There were always more local frames in the time `since`, and `g` is `f` with the edits of
the topmost local frame that were granted in this time while `f` was on top. -/
structure PushedAs (h before since : History) (f g : Frame) (below : List Frame) : Prop where
  split : h = since ++ .pushFrame :: before
  pending : (afterAll before).temporary = .pending f
  onto : (afterAll before).locals = below
  above : ∀ late, late <:+ since → below.length < (afterAll (late ++ .pushFrame :: before)).depth
  edited : f.edits? (editsAt (below.length + 1) (.pushFrame :: before) since) = some g

theorem editsAt_of_error (refused : (afterAll (late ++ early)).perform r = (.error e, k))
    (depth : Nat) :
    editsAt depth early (r :: late) = editsAt depth early late := by
  rw [editsAt, granted_of_error refused]
  rfl

theorem editsAt_of_other {depth : Nat} (done : (afterAll (late ++ early)).perform r = (.ok (), k))
    (other : (afterAll (late ++ early)).depth = depth → r.localEdit? = none) :
    editsAt depth early (r :: late) = editsAt depth early late := by
  rw [editsAt, granted_of_ok done]
  exact List.filterMap_cons_none (by simpa using other)

theorem editsAt_of_edit {depth : Nat} {e : Frame.Edit}
    (done : (afterAll (late ++ early)).perform (.edit .topLocal e) = (.ok (), k))
    (top : (afterAll (late ++ early)).depth = depth) :
    editsAt depth early (.edit .topLocal e :: late) = e :: editsAt depth early late := by
  rw [editsAt, granted_of_ok done]
  exact List.filterMap_cons_some (by simpa using ⟨top, rfl⟩)

theorem PushedAs.above_cons (pushed : PushedAs h before since f g below)
    (deep : below.length < (afterAll (r :: h)).depth) :
    ∀ late, late <:+ r :: since →
      below.length < (afterAll (late ++ .pushFrame :: before)).depth := by
  intro late among
  rcases List.suffix_cons_iff.1 among with rfl | earlier
  · rw [List.cons_append, ← pushed.split]
    exact deep
  · exact pushed.above late earlier

/-- A frame stays the same through a request that is no granted edit of it, and does
not pop it. -/
theorem PushedAs.keep (pushed : PushedAs h before since f g below)
    (deep : below.length < (afterAll (r :: h)).depth)
    (other : ∀ k, (afterAll h).perform r = (.ok (), k) → (afterAll h).depth = below.length + 1 →
      r.localEdit? = none) :
    PushedAs (r :: h) before (r :: since) f g below where
  split := congrArg (r :: ·) pushed.split
  pending := pushed.pending
  onto := pushed.onto
  above := pushed.above_cons deep
  edited := by
    obtain rfl := pushed.split
    obtain ⟨e, answer⟩ | ⟨k, answer, -⟩ :=
      (afterAll (since ++ .pushFrame :: before)).refused_or_performed r
    · rw [editsAt_of_error answer]
      exact pushed.edited
    · rw [editsAt_of_other answer (other k answer)]
      exact pushed.edited

/-- An edit of the topmost local frame changes this frame. -/
theorem PushedAs.edit {e : Frame.Edit} {g' : Frame} (pushed : PushedAs h before since f g below)
    (done : (afterAll h).perform (.edit .topLocal e) = (.ok (), k))
    (top : (afterAll h).depth = below.length + 1) (edited : g.edit? e = some g')
    (deep : below.length < (afterAll (.edit .topLocal e :: h)).depth) :
    PushedAs (.edit .topLocal e :: h) before (.edit .topLocal e :: since) f g' below where
  split := congrArg (Request.edit .topLocal e :: ·) pushed.split
  pending := pushed.pending
  onto := pushed.onto
  above := pushed.above_cons deep
  edited := by
    obtain rfl := pushed.split
    rw [editsAt_of_edit done top, Frame.edits?, pushed.edited]
    exact edited

/-- Every frame on the stack was pushed there, and has been edited only while it was on
top.  The induction is on the history, for all frames of the stack at once: a pop uncovers
the frame below. -/
theorem exists_pushedAs (h : History) {higher : List Frame}
    (held : (afterAll h).locals = higher ++ g :: below) :
    ∃ before since f, PushedAs h before since f g below := by
  induction h generalizing higher g below with
  | nil => exact absurd held (by simp [afterAll, empty])
  | cons r h ih =>
    have deep : below.length < (afterAll (r :: h)).depth := by
      rw [depth, held]
      simp
      omega
    obtain ⟨e, answer⟩ | ⟨k, answer, performed⟩ := (afterAll h).refused_or_performed r
    · rw [afterAll_of_error answer] at held
      obtain ⟨before, since, f, pushed⟩ := ih held
      exact ⟨before, r :: since, f, pushed.keep deep fun k done => by
        rw [answer] at done
        cases done⟩
    · rw [afterAll_of_ok answer] at held
      cases performed with
      | createFrame =>
        obtain ⟨before, since, f, pushed⟩ := ih held
        exact ⟨before, _, f, pushed.keep deep fun _ _ _ => rfl⟩
      | @pushFrame f₀ pending =>
        -- The frame on top is the one that was pushed just now, and the others were there before.
        cases higher with
        | nil =>
          obtain ⟨rfl, rfl⟩ := List.cons.inj held
          refine ⟨h, [], f₀, rfl, pending, rfl, fun late none => ?_, rfl⟩
          rw [List.suffix_nil.1 none]
          exact deep
        | cons _ higher =>
          obtain ⟨before, since, f, pushed⟩ := ih (List.cons.inj held).2
          exact ⟨before, _, f, pushed.keep deep fun _ _ _ => rfl⟩
      | @popFrame f₀ rest top =>
        have earlier : (afterAll h).locals = (f₀ :: higher) ++ g :: below :=
          top.trans (congrArg (f₀ :: ·) held)
        obtain ⟨before, since, f, pushed⟩ := ih earlier
        exact ⟨before, _, f, pushed.keep deep fun _ _ _ => rfl⟩
      | @edit scope e f₀ g₀ found edited =>
        cases scope with
        | global | temporary =>
          obtain ⟨before, since, f, pushed⟩ := ih held
          exact ⟨before, _, f, pushed.keep deep fun _ _ _ => rfl⟩
        | topLocal =>
          obtain ⟨rest, top⟩ : ∃ rest, (afterAll h).locals = f₀ :: rest :=
            List.head?_eq_some_iff.1 found
          replace held : g₀ :: rest = higher ++ g :: below := by
            rw [← held]
            show _ = (afterAll h).locals.modifyHead _
            rw [top]
            rfl
          cases higher with
          | nil =>
            obtain ⟨rfl, rfl⟩ := List.cons.inj held
            have earlier : (afterAll h).locals = [] ++ f₀ :: rest := top
            obtain ⟨before, since, f, pushed⟩ := ih earlier
            have size : (afterAll h).depth = rest.length + 1 := congrArg List.length top
            exact ⟨before, _, f, pushed.edit answer size edited deep⟩
          | cons _ higher =>
            obtain ⟨-, rfl⟩ := List.cons.inj held
            have earlier : (afterAll h).locals = (f₀ :: higher) ++ g :: below := top
            obtain ⟨before, since, f, pushed⟩ := ih earlier
            refine ⟨before, _, f, pushed.keep deep fun _ _ size => ?_⟩
            rw [depth, top] at size
            simp at size
            omega

/-! ## Whole histories -/

/-- A push is granted just if a created frame is in the slot. -/
theorem exists_pushFrame_iff :
    (∃ k, m.perform .pushFrame = (.ok (), k)) ↔ ∃ f, m.temporary = .pending f := by
  constructor
  · rintro ⟨k, pushed⟩
    obtain ⟨f, pending, -⟩ := pushFrame_eq_ok_iff.1 pushed
    exact ⟨f, pending⟩
  · rintro ⟨f, pending⟩
    exact ⟨_, pushFrame_eq_ok_iff.2 ⟨f, pending, rfl⟩⟩

/-- A pop is granted just if there is a local frame. -/
theorem exists_popFrame_iff : (∃ k, m.perform .popFrame = (.ok (), k)) ↔ m.locals ≠ [] := by
  constructor
  · rintro ⟨k, popped⟩
    obtain ⟨f, rest, top, -⟩ := popFrame_eq_ok_iff.1 popped
    rw [top]
    exact List.cons_ne_nil f rest
  · intro some
    obtain ⟨f, rest, top⟩ := List.exists_cons_of_ne_nil some
    exact ⟨_, popFrame_eq_ok_iff.2 ⟨f, rest, top, rfl⟩⟩

/-- **The frames follow from the history.**  After any requests to a new memory, granted or
refused, the temporary slot holds a created frame just if the latest granted move was
`createFrame`, a frame that came back from the stack just if it was `popFrame`, and none
otherwise.  A push is granted just in the first of these cases, and a pop just if there is a local
frame.  The number of local frames is that of the granted pushes without that of the granted pops.
A pop gives back what was put on the stack by the matching push, with just the edits that were
granted while it was on top.  A refused request leaves the memory as it was. -/
theorem frames_of_history (h : History) :
    ((∃ f, (afterAll h).temporary = .pending f) ↔ lastMove? h = some .createFrame) ∧
    ((∃ f, (afterAll h).temporary = .detached f) ↔ lastMove? h = some .popFrame) ∧
    ((afterAll h).temporary = .absent ↔
      lastMove? h ≠ some .createFrame ∧ lastMove? h ≠ some .popFrame) ∧
    ((∃ k, (afterAll h).perform .pushFrame = (.ok (), k)) ↔
      ∃ f, (afterAll h).temporary = .pending f) ∧
    ((∃ k, (afterAll h).perform .popFrame = (.ok (), k)) ↔ (afterAll h).locals ≠ []) ∧
    (afterAll h).depth + timesGranted .popFrame h = timesGranted .pushFrame h ∧
    (∀ k, (afterAll h).perform .popFrame = (.ok (), k) →
      ∃ before since f g, k.temporary = .detached g ∧ PushedAs h before since f g k.locals) ∧
    ∀ r e k, (afterAll h).perform r = (.error e, k) → k = afterAll h := by
  obtain ⟨pending, detached, absent⟩ := (slotAfter_lastMove? h).state_iff
  refine ⟨pending, detached, absent, exists_pushFrame_iff, exists_popFrame_iff,
    depth_add_timesGranted h, fun k popped => ?_, fun r e k => perform_of_error⟩
  obtain ⟨g, rest, top, rfl⟩ := popFrame_eq_ok_iff.1 popped
  have held : (afterAll h).locals = [] ++ g :: rest := top
  obtain ⟨before, since, f, pushed⟩ := exists_pushedAs h held
  exact ⟨before, since, f, g, rfl, pushed⟩

/-- A frame is pushed with a variable in it, and gets another one.  While a second frame is on top
of it, an edit of that one and a refused edit do not change it.  The popped frame is not pushed
again, and then a variable of the first one is assigned. -/
theorem frames_of_history_nested :
    let localEdit (e : Frame.Edit) : Request := .edit .topLocal e
    let h : History := [localEdit (.assign "x" (.int 7)), .pushFrame, .popFrame,
      localEdit (.assign "x" (.int 5)), localEdit (.define "y"), .pushFrame, .createFrame,
      localEdit (.assign "y" (.int 1)), localEdit (.define "y"), .pushFrame,
      .edit .temporary (.define "x"), localEdit (.define "x"), .createFrame]
    ∃ k before since f g, (afterAll h).perform .popFrame = (.ok (), k) ∧
      k.temporary = .detached g ∧
      PushedAs h before since f g k.locals ∧ k.locals = [] ∧
      g.find? "x" = some ⟨"x", some (.int 7)⟩ ∧ g.find? "y" = some ⟨"y", some (.int 1)⟩ := by
  intro localEdit h
  obtain ⟨k, popped, g, detached, bottom, x, y⟩ :
    ∃ k, (afterAll h).perform .popFrame = (.ok (), k) ∧
      ∃ g, k.temporary = .detached g ∧ k.locals = [] ∧
        g.find? "x" = some ⟨"x", some (.int 7)⟩ ∧ g.find? "y" = some ⟨"y", some (.int 1)⟩ :=
    ⟨_, rfl, _, rfl, rfl, rfl, rfl⟩
  obtain ⟨before, since, f, g', detached', pushed⟩ := (frames_of_history h).2.2.2.2.2.2.1 k popped
  obtain rfl : g = g' := Temporary.detached.inj (detached.symm.trans detached')
  exact ⟨k, before, since, f, g, popped, detached, pushed, bottom, x, y⟩

end FrameCode.Memory
