import RustCfml.Common.RowView
import RustCfml.Common.Value

/-!
# Runs of query mutations

The result is exact: **a run keeps the shape, and every row read inside `row_count`
answers, exactly when no `set_column` put cells into one of several empty columns.**
-/

namespace RustCfml

structure RectQuery (α : Type) extends QueryData α where
  rect : toQueryData.Rectangular

/-- The public mutators of `CfmlQueryData` / `CfmlQuery`. -/
inductive QueryOp (α : Type) where
  | setCellNamed (row : Nat) (name : String) (val : α)
  | pushRowPositional (vals : List α)
  | pushRowNamed (row : ValueMap α)
  | insertRowNamed (at_ : Nat) (row : ValueMap α)
  | removeRow (row : Nat)
  | swapRows (r1 r2 : Nat)
  | reverseRows
  | addColumn (name : String) (values : List α)
  | setColumn (name : String) (values : List α)
  | removeColumnByName (name : String)
  | appendQuery (other : RectQuery α)
  | prependQuery (other : RectQuery α)

namespace QueryOp

open QueryData

variable {α : Type} [Cell α]

def apply (q : QueryData α) : QueryOp α → QueryData α
  | setCellNamed row name val => (q.setCellNamed row name val).state.1
  | pushRowPositional vals => q.pushRowPositional vals
  | pushRowNamed row => q.pushRowNamed row
  | insertRowNamed at_ row => (q.insertRowNamed at_ row).state
  | removeRow row => (q.removeRow row).state.1
  | swapRows r1 r2 => (q.swapRows r1 r2).state
  | reverseRows => q.reverseRows
  | addColumn name values => q.addColumn name values
  | setColumn name values => q.setColumn name values
  | removeColumnByName name => (q.removeColumnByName name).1
  | appendQuery other => q.appendQuery other.toQueryData
  | prependQuery other => q.prependQuery other.toQueryData

/-- The guard: a `set_column` on a query without rows must bring no cells, or find no other
column. -/
def Level (q : QueryData α) : QueryOp α → Prop
  | setColumn name values => q.rowCount ≠ 0 ∨ values = [] ∨ q.OnlyColumn name
  | _ => True

lemma apply_rectangular_iff {q : QueryData α} (h : Rectangular q) (op : QueryOp α) :
    Rectangular (apply q op) ↔ op.Level q := by
  cases op with
  | setColumn name values => exact setColumn_rectangular_iff h name values
  | setCellNamed row name val => exact iff_of_true (h.setCellNamed row name val) trivial
  | pushRowPositional vals => exact iff_of_true (h.pushRowPositional vals) trivial
  | pushRowNamed row => exact iff_of_true (h.pushRowNamed row) trivial
  | insertRowNamed at_ row => exact iff_of_true (h.insertRowNamed at_ row) trivial
  | removeRow row => exact iff_of_true (h.removeRow row) trivial
  | swapRows r1 r2 => exact iff_of_true (h.swapRows r1 r2) trivial
  | reverseRows => exact iff_of_true h.reverseRows trivial
  | addColumn name values => exact iff_of_true (h.addColumn name values) trivial
  | removeColumnByName name => exact iff_of_true (h.removeColumnByName name) trivial
  | appendQuery other => exact iff_of_true (h.appendQuery other.rect) trivial
  | prependQuery other => exact iff_of_true (h.prependQuery other.rect) trivial

end QueryOp

namespace QueryData

open StateMachine

variable {α : Type} [Cell α]

def RowsRead (q : QueryData α) : Prop := ∀ row < q.rowCount, ∃ m, q.rowAt row = .ok (some m)

lemma Rectangular.rowsRead {q : QueryData α} (h : Rectangular q) : q.RowsRead := by
  intro row hrow
  exact ⟨_, h.rowAt_eq hrow⟩

def Sound (q : QueryData α) : Prop := q.Rectangular ∧ q.RowsRead

lemma sound_iff_rectangular (q : QueryData α) : q.Sound ↔ q.Rectangular :=
  ⟨And.left, fun h => ⟨h, h.rowsRead⟩⟩

/-- **Rectangularity over runs.** From a rectangular query, every state of a run of mutations is
rectangular and readable exactly when every `set_column` of the run met its guard in the state it
was applied to. -/
theorem sound_along_iff {q : QueryData α} (hq : q.Rectangular) (ops : List (QueryOp α)) :
    Along QueryOp.apply Sound q ops ↔ EachStep QueryOp.apply (fun q op => op.Level q) q ops := by
  refine along_iff_eachStep (fun q op h => ?_) ((sound_iff_rectangular q).2 hq)
  rw [sound_iff_rectangular]
  exact QueryOp.apply_rectangular_iff h.1 op

/-- A run that meets the guard at every step: a column is set while the query is still empty, rows
come in, and a second column is then set short. -/
theorem sound_along_setColumn_then_rows :
    Along QueryOp.apply Sound (QueryData.new (α := CfmlValue) [])
      [.setColumn "a" [.int 1, .int 2], .pushRowNamed [("A", .int 3)], .setColumn "b" [.null]] :=
  (sound_along_iff (Rectangular.new []) _).2 (by
    refine ⟨.inr (.inr ?_), trivial, .inl ?_, trivial⟩ <;> decide)

/-- **What goes wrong without it**: `queryNew("a,b")` and then `q.a = [1]`. Column `a` has one cell,
column `b` none, `row_count` is 1, and reading row 0 indexes past `b`. -/
theorem setColumn_on_empty_ragged : let q := QueryData.new (α := CfmlValue) ["a", "b"]
    q.Rectangular ∧ ¬ (q.setColumn "a" [.int 1]).Sound ∧ (q.setColumn "a" [.int 1]).rowCount = 1 ∧
      (q.setColumn "a" [.int 1]).rowAt 0 = .error (.indexOutOfBounds 0 0) := by
  refine ⟨Rectangular.new _, fun h => ?_, rfl, rfl⟩
  have hmem : [] ∈ [[CfmlValue.int 1], []] := by simp
  exact absurd (h.1.level [] hmem) (by decide)

end QueryData

end RustCfml
