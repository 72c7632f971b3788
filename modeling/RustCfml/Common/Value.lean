import RustCfml.Common.QueryData
import RustCfml.Lib.F64

/-!
# `CfmlValue`

The dynamic value, as a tree.
-/

namespace RustCfml

inductive DateKind where
  | dateTime
  | date
  | time
deriving DecidableEq

instance neZeroBillion : NeZero 1000000000 := ⟨by decide⟩

/-- `CfmlDate`: an instant and how it prints. -/
structure CfmlDate where
  secs : Int64
  nanos : Fin 1000000000
  kind : DateKind
deriving DecidableEq

def CfmlDate.epochNanos (d : CfmlDate) : Int := d.secs.toInt * 1000000000 + d.nanos.val

inductive CfmlValue where
  | null
  | bool (b : Bool)
  | int (i : Int64)
  | double (d : F64)
  | timeSpan (d : F64)
  | dateTime (d : CfmlDate)
  | string (s : String)
  | array (elems : List CfmlValue)
  /-- The cells of one column and the row a bare `q.col` reads. -/
  | queryColumn (cells : List CfmlValue) (row : Nat)
  | struct (entries : List (String × CfmlValue))
  | query (columns : List String) (data : List (List CfmlValue))
  | binary (bytes : List UInt8)
  /-- A flyweight component instance, by its public entries. -/
  | inst (publicEntries : List (String × CfmlValue))
  | code

namespace CfmlValue

def isNull : CfmlValue → Bool
  | null => true
  | _ => false

lemma isNull_iff (v : CfmlValue) : v.isNull = true ↔ v = null := by
  cases v <;> simp [isNull]

instance : Cell CfmlValue where
  null := null
  emptyString := string ""
  isNull := isNull
  isNull_iff := isNull_iff
  emptyString_ne_null := by simp

mutual

/-- `query_column_scalar`, followed to the end: a `QueryColumn` stands for one cell of its column,
and that cell may be a `QueryColumn` again. -/
def scalar : CfmlValue → CfmlValue
  | queryColumn cells row => if row < cells.length then scalarAt cells row else scalarAt cells 0
  | v => v

/-- The cell at an index as a scalar; a `Null` cell and a missing one read as `""`. -/
def scalarAt : List CfmlValue → Nat → CfmlValue
  | [], _ => string ""
  | c :: _, 0 => if c.isNull then string "" else c.scalar
  | _ :: cs, n + 1 => scalarAt cs n

end

end CfmlValue

end RustCfml
