import FrameCode.Proofs.FrameUpdates
import Mathlib.Data.Set.Card

/-!
# Frames in hash tables

The variables of a frame may as well be kept in a hash table.  A table has the name of a variable
twice, as the key and in the cell, and lists its cells in no particular order; to be shown they
are sorted by the names in the cells.  `Table.Holds` is kept by every update, and a table that
holds a frame cannot be told from it, `Table.Holds.keeps`.

`frame_is_finite_map` says what a frame, and the table with the same history, has
after any updates.
-/

namespace FrameCode

/-- The codes of the characters of the name. -/
def Cell.codes (c : Cell) : List Nat := c.name.toList.map Char.toNat

/-- Names are ordered by the codes of their characters. -/
theorem Cell.codes_lt_of_name_lt {c d : Cell} (less : c.name < d.name) : c.codes < d.codes := by
  have less : c.name.toList < d.name.toList := less
  exact List.map_lt (f := Char.toNat) (fun _ _ below => below) less

/-- Cells by their names. -/
def Cell.sort (cells : List Cell) : List Cell :=
  cells.mergeSort fun c d => decide (c.name ≤ d.name)

theorem Cell.pairwise_sort (cells : List Cell) :
    (Cell.sort cells).Pairwise (·.name ≤ ·.name) := by
  refine (List.pairwise_mergeSort (fun c d e first second => ?_) (fun c d => ?_) cells).imp
    of_decide_eq_true
  · rw [decide_eq_true_iff] at first second ⊢
    exact String.le_trans first second
  · rw [Bool.or_eq_true, decide_eq_true_iff, decide_eq_true_iff]
    exact String.le_total c.name d.name

namespace Frame

/-- Variables in a hash table under their names. -/
abbrev Table := Std.HashMap String Cell

namespace Table

/-- The table after an update; `none` if the variable is there already, or is not there
to be assigned. -/
def update? (t : Table) : Update → Option Table
  | .define name => if t.contains name then none else some (t.insert name ⟨name, none⟩)
  | .assign name content =>
    if t.contains name then some (t.modify name fun c => { c with content := content }) else none

/-- The table after an update; a refused one leaves it as it was. -/
def updated (t : Table) (u : Update) : Table := (t.update? u).getD t

/-- The table after a history. -/
def afterAll : History → Table
  | [] => ∅
  | u :: earlier => (afterAll earlier).updated u

/-- The cells of a table, in no particular order. -/
def cells (t : Table) : List Cell := t.toList.map Prod.snd

/-- The same is found in a table and in a frame. -/
def Holds (t : Table) (f : Frame) : Prop := ∀ key : String, t[key]? = f.find? key

/-- A table cannot be told from a frame: it grants the same updates, finds the same cells,
each with its key as name, has as many of them, and shows them in the same order, however
they are listed. -/
structure Keeps (t : Table) (f : Frame) : Prop where
  grants : ∀ u, (t.update? u).isSome = (f.update? u).isSome
  holds : t.Holds f
  named : ∀ (key : String) (c : Cell), t[key]? = some c → c.name = key
  shows : ∀ order : List Cell, order.Perm t.cells → Cell.sort order = f.cells
  size : t.size = f.size

variable {t : Table} {f : Frame} {c : Cell}

/-! ## One update -/

theorem Holds.contains_eq (holds : t.Holds f) (name : String) :
    t.contains name = (f.find? name).isSome := by
  rw [Std.HashMap.contains_eq_isSome_getElem?, holds]

theorem Holds.grants (holds : t.Holds f) (u : Update) :
    (t.update? u).isSome = (f.update? u).isSome := by
  rw [Bool.eq_iff_iff]
  cases u with
  | define name =>
    rw [Frame.update?, isSome_define?_iff, update?, holds.contains_eq]
    cases f.find? name <;> simp
  | assign name content =>
    rw [Frame.update?, isSome_assign?_iff, update?, holds.contains_eq]
    cases f.find? name <;> simp

/-- What is found in a table after an update, if each cell is under its own name. -/
theorem getElem?_updated (named : ∀ (key : String) (c : Cell), t[key]? = some c → c.name = key)
    (u : Update) (key : String) :
    (t.updated u)[key]? = if u.name = key then u.apply t[key]? else t[key]? := by
  rw [updated]
  cases u with
  | define name =>
    rw [update?, Std.HashMap.contains_eq_isSome_getElem?]
    by_cases same : name = key
    · subst same
      cases found : t[name]? <;> simp [Update.name, Update.apply, found]
    · cases t[name]? <;> simp [Update.name, Std.HashMap.getElem?_insert, same]
  | assign name content =>
    rw [update?, Std.HashMap.contains_eq_isSome_getElem?]
    by_cases same : name = key
    · subst same
      cases found : t[name]? with
      | none => simp [Update.name, Update.apply, found]
      | some c => simp [Update.name, Update.apply, found, named name c found]
    · cases t[name]? <;> simp [Update.name, Std.HashMap.getElem?_modify, same]

theorem Holds.named (holds : t.Holds f) (key : String) (c : Cell) (found : t[key]? = some c) :
    c.name = key :=
  name_of_find? ((holds key).symm.trans found)

theorem Holds.updated (holds : t.Holds f) (u : Update) : (t.updated u).Holds (f.updated u) := by
  intro key
  rw [getElem?_updated holds.named, find?_updated, holds]

theorem holds_afterAll (h : History) : (afterAll h).Holds (Frame.afterAll h) := by
  induction h with
  | nil => exact fun key => Std.HashMap.getElem?_empty
  | cons u h ih => exact ih.updated u

/-! ## Listings -/

theorem Holds.mem_cells_iff (holds : t.Holds f) : c ∈ t.cells ↔ c ∈ f.cells := by
  rw [cells, List.mem_map, Frame.mem_cells_iff]
  constructor
  · rintro ⟨⟨key, d⟩, mem, rfl⟩
    have found : f.find? key = some d :=
      (holds key).symm.trans (Std.HashMap.mem_toList_iff_getElem?_eq_some.1 mem)
    rw [name_of_find? found]
    exact found
  · intro found
    exact ⟨(c.name, c), Std.HashMap.mem_toList_iff_getElem?_eq_some.2
      ((holds c.name).trans found), rfl⟩

/-- No cell is listed twice, since each has the name that it is found under. -/
theorem Holds.nodup_cells (holds : t.Holds f) : t.cells.Nodup := by
  refine List.pairwise_map.2 (Std.HashMap.distinct_keys_toList.imp_of_mem ?_)
  rintro ⟨key, c⟩ ⟨other, d⟩ mem mem' apart same
  have name := holds.named key c (Std.HashMap.mem_toList_iff_getElem?_eq_some.1 mem)
  have name' := holds.named other d (Std.HashMap.mem_toList_iff_getElem?_eq_some.1 mem')
  refine beq_eq_false_iff_ne.1 apart ?_
  exact name.symm.trans ((congrArg Cell.name same).trans name')

theorem Holds.cells_perm (holds : t.Holds f) : t.cells.Perm f.cells :=
  (List.perm_ext_iff_of_nodup holds.nodup_cells (List.Nodup.of_map _ f.nodup_names)).2 fun _ =>
    holds.mem_cells_iff

end Table

/-- However the cells of a frame are listed, they are sorted in one way. -/
theorem sort_eq_cells {f : Frame} {order : List Cell} (listed : order.Perm f.cells) :
    Cell.sort order = f.cells := by
  have perm : (Cell.sort order).Perm f.cells := (List.mergeSort_perm _ _).trans listed
  refine List.Perm.eq_of_pairwise (fun c d mem mem' le ge => ?_) (Cell.pairwise_sort order)
    (f.sorted.imp fun less => String.not_lt.1 (String.lt_asymm less)) perm
  exact List.inj_on_of_nodup_map f.nodup_names (perm.subset mem) mem' (String.le_antisymm le ge)

theorem Table.Holds.keeps {t : Table} {f : Frame} (holds : t.Holds f) : t.Keeps f where
  grants := holds.grants
  holds := holds
  named := holds.named
  shows order listed := sort_eq_cells (listed.trans holds.cells_perm)
  size := by
    rw [← Std.HashMap.length_toList, Frame.size, ← holds.cells_perm.length_eq, Table.cells,
      List.length_map]

/-! ## Frames as finite maps -/

/-- The size of a frame is the number of names that were defined. -/
theorem encard_defined_names (h : History) :
    {name | Update.define name ∈ h}.encard = (afterAll h).size := by
  have defined :
      {name | Update.define name ∈ h} =
        (((afterAll h).cells.map Cell.name).toFinset : Set String) := by
    ext name
    rw [Set.mem_ofPred_eq, Finset.mem_coe, List.mem_toFinset, List.mem_map, ← not_iff_not,
      ← find?_afterAll_eq_none_iff]
    constructor
    · rintro missing ⟨c, mem, rfl⟩
      rw [mem_cells_iff.1 mem] at missing
      cases missing
    · intro unlisted
      by_contra found
      obtain ⟨c, found⟩ := Option.ne_none_iff_exists'.1 found
      exact unlisted ⟨c, List.mem_of_find?_eq_some found, name_of_find? found⟩
  rw [defined, Set.encard_coe_eq_coe_finsetCard, List.toFinset_card_of_nodup (nodup_names _),
    List.length_map, size]

/-- A definition leaves the variables that are there as they are. -/
theorem find?_define_of_some {h : History} {name other : String} {c : Cell}
    (found : (afterAll h).find? other = some c) :
    (afterAll (.define name :: h)).find? other = some c := by
  rw [afterAll, find?_updated, found]
  exact ite_self _

/-- **A frame is a finite map with one listing.**  After any updates of a new frame, granted or
refused, a name can be defined just if it was not defined before, and this changes no variable
that is there.  A variable is found just if it was defined, with the content of the latest
assignment since then.  The cells are the variables that are found, by increasing codes of their
names, and the size is their number, which is that of the names defined.  A hash table with the
same updates cannot be told from the frame.  Any other order of the updates in which those of each
single variable keep theirs gives the same dump, and a table with the same cells to show, however
it lists them. -/
theorem frame_is_finite_map (h : History) :
    (∀ name, ((afterAll h).define? name).isSome = true ↔ .define name ∉ h) ∧
    (∀ name other c, (afterAll h).find? other = some c →
      (afterAll (.define name :: h)).find? other = some c) ∧
    (∀ name c, (afterAll h).find? name = some c ↔
      ∃ late early, h = late ++ .define name :: early ∧ .define name ∉ early ∧
        c = ⟨name, latestContent name late⟩) ∧
    (∀ c, c ∈ (afterAll h).cells ↔ (afterAll h).find? c.name = some c) ∧
    (afterAll h).cells.Pairwise (·.codes < ·.codes) ∧
    (afterAll h).size = (afterAll h).cells.length ∧
    {name | Update.define name ∈ h}.encard = (afterAll h).size ∧
    (Table.afterAll h).Keeps (afterAll h) ∧
    ∀ k : History, (∀ name, k.filter (·.name == name) = h.filter (·.name == name)) →
      (afterAll k).print = (afterAll h).print ∧
        ∀ order : List Cell, order.Perm (Table.afterAll k).cells →
          Cell.sort order = (afterAll h).cells := by
  refine ⟨fun name => ?_, fun name other c found => find?_define_of_some found,
    fun name c => find?_afterAll_eq_some_iff, fun c => mem_cells_iff, ?_, rfl,
    encard_defined_names h, (Table.holds_afterAll h).keeps, fun k alike => ?_⟩
  · rw [isSome_define?_iff, find?_afterAll_eq_none_iff]
  · exact (afterAll h).sorted.imp Cell.codes_lt_of_name_lt
  · have same := afterAll_reordered alike
    refine ⟨congrArg print same, fun order listed => ?_⟩
    rw [← same]
    exact (Table.holds_afterAll k).keeps.shows order listed

/-- Definitions and assignments of three variables in two orders; a second definition and an
assignment that comes too early are refused. -/
theorem frame_is_finite_map_reordered :
    let h : History := [.assign "b" (some (.int 2)), .define "c", .assign "a" (some (.str "x")),
      .assign "c" (some (.bool true)), .define "b", .assign "b" (some (.int 1)),
      .define "a", .define "b"]
    let k : History := [.define "c", .assign "c" (some (.bool true)), .assign "b" (some (.int 2)),
      .define "b", .assign "b" (some (.int 1)), .define "b", .assign "a" (some (.str "x")),
      .define "a"]
    (∀ name, k.filter (·.name == name) = h.filter (·.name == name)) ∧
      (afterAll k).print = (afterAll h).print ∧
      (afterAll h).print = "\x7ba = string@x, b = int@2, c = <uninitialized>\x7d" ∧
      (Table.afterAll h).Keeps (afterAll h) ∧
      Cell.sort (Table.afterAll k).cells = (afterAll h).cells ∧
      (afterAll (.define "b" :: h)).find? "b" = some ⟨"b", some (.int 2)⟩ := by
  intro h k
  have alike (name : String) : k.filter (·.name == name) = h.filter (·.name == name) := by
    by_cases a : "a" = name
    · subst a
      rfl
    by_cases b : "b" = name
    · subst b
      rfl
    by_cases c : "c" = name
    · subst c
      rfl
    simp [h, k, Update.name, a, b, c]
  obtain ⟨-, kept, -, -, -, -, -, keeps, reordered⟩ := frame_is_finite_map h
  obtain ⟨printed, listed⟩ := reordered k alike
  exact ⟨alike, printed, by rfl, keeps, listed _ (.refl _), kept "b" "b" _ (by rfl)⟩

end Frame

end FrameCode
