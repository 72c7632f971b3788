import RustCfml.Common.Key
import RustCfml.Lib.Run

/-!
# `CfmlQueryData`: the column-major recordset and its mutators

A query keeps its names in `columns` and its cells in `data`, one list per column, in row order.
What keeps a row read inside `row_count` from indexing past a column's end is the **rectangularity**
of the data, and this file is about which mutators keep it.
-/

namespace RustCfml

class Cell (α : Type) where
  null : α
  /-- `CfmlValue::string(String::new())`. -/
  emptyString : α
  isNull : α → Bool
  isNull_iff : ∀ a, isNull a = true ↔ a = null
  emptyString_ne_null : emptyString ≠ null

/-- The panics of the slice operations the mutators use. -/
inductive Panic where
  /-- `v[index]` and `slice::swap`: "index out of bounds: the len is … but the index is …". -/
  | indexOutOfBounds (len index : Nat)
  /-- `Vec::insert`: "insertion index (is …) should be <= len (is …)". -/
  | insertionIndex (index len : Nat)
  /-- `Vec::remove`: "removal index (is …) should be < len (is …)". -/
  | removalIndex (index len : Nat)

/-- A state after an operation, with the panic that ended the operation early, if any. -/
structure Ran (σ : Type) where
  state : σ
  panic : Option Panic := none

/-- `CfmlQueryData`, without the metadata no mutator reads (`sql`, `execution_time`, the cursor) and
without the `row_keys` cache, which is checked against `columns` on use. -/
structure QueryData (α : Type) where
  columns : List String
  data : List (List α)

namespace QueryData

variable {α : Type} [Cell α]

def new (columns : List String) : QueryData α := ⟨columns, columns.map fun _ => []⟩

def rowCount (q : QueryData α) : Nat := (q.data.head?.map List.length).getD 0

def columnIndexCi (q : QueryData α) (name : String) : Option Nat :=
  q.columns.findIdx? fun c => eqIgnoreAsciiCase c name

def pushColumn (q : QueryData α) (name : String) (col : List α) : QueryData α :=
  ⟨q.columns ++ [name], q.data ++ [col]⟩

/-- `Vec::resize` to `n`, filling with `Null`. -/
def resize (n : Nat) (col : List α) : List α :=
  col.take n ++ List.replicate (n - col.length) Cell.null

def shown (v : α) : α := if Cell.isNull v then Cell.emptyString else v

def rowCells (row : Nat) : List String → List (List α) → ValueMap α → Except Panic (ValueMap α)
  | [], _, m => .ok m
  | _ :: _, [], _ => .error (.indexOutOfBounds 0 0)
  | c :: cs, col :: cols, m =>
    match col[row]? with
    | none => .error (.indexOutOfBounds col.length row)
    | some v => rowCells row cs cols (m.insert c (shown v))

def rowAt (q : QueryData α) (row : Nat) : Except Panic (Option (ValueMap α)) :=
  if row ≥ q.rowCount then .ok none
  else (rowCells row q.columns q.data []).map some

def setCellNamed (q : QueryData α) (row : Nat) (name : String) (val : α) :
    Ran (QueryData α × Bool) :=
  if row ≥ q.rowCount then ⟨(q, false), none⟩
  else match q.columnIndexCi name with
    | some ci =>
      match q.data[ci]? with
      | none => ⟨(q, true), some (.indexOutOfBounds q.data.length ci)⟩
      | some col =>
        if row < col.length then ⟨({ q with data := q.data.set ci (col.set row val) }, true), none⟩
        else ⟨(q, true), some (.indexOutOfBounds col.length row)⟩
    | none => ⟨(q.pushColumn name ((List.replicate q.rowCount Cell.null).set row val), true), none⟩

def pushRowPositional (q : QueryData α) (vals : List α) : QueryData α :=
  { q with data := List.zipWith (fun col v => col ++ [v]) q.data (resize q.columns.length vals) }

/-- The loop every row-wise mutator opens with: a name no column answers to becomes a new column,
filled with `Null` up to the row count of the moment. -/
def extendColumns (q : QueryData α) : List String → QueryData α
  | [] => q
  | k :: ks =>
    match q.columnIndexCi k with
    | some _ => q.extendColumns ks
    | none => (q.pushColumn k (List.replicate q.rowCount Cell.null)).extendColumns ks

def rowValue (row : ValueMap α) (name : String) : α := (row.get? name).getD Cell.null

def pushRowNamed (q : QueryData α) (row : ValueMap α) : QueryData α :=
  let q := q.extendColumns row.keys
  { q with data := List.zipWith (fun c col => col ++ [rowValue row c]) q.columns q.data }

def fromNamedRows (columns : List String) (rows : List (ValueMap α)) : QueryData α :=
  rows.foldl pushRowNamed (new columns)

/-- A `for` over the columns whose body may panic, one body per column: the columns before the panic
keep what the body made of them, the ones from it on are untouched. -/
def eachColumn : List (List α → Except Panic (List α)) → List (List α) →
    List (List α) × Option Panic
  | f :: fs, col :: cols =>
    match f col with
    | .error p => (col :: cols, some p)
    | .ok col' => let (rest, p) := eachColumn fs cols; (col' :: rest, p)
  | _, cols => (cols, none)

/-- `Vec::insert`; it accepts the position one past the end. -/
def insertCell (at_ : Nat) (v : α) (col : List α) : Except Panic (List α) :=
  if at_ ≤ col.length then .ok (col.insertIdx at_ v) else .error (.insertionIndex at_ col.length)

def insertRowNamed (q : QueryData α) (at_ : Nat) (row : ValueMap α) : Ran (QueryData α) :=
  let q := q.extendColumns row.keys
  let (data, p) := eachColumn (q.columns.map fun c => insertCell at_ (rowValue row c)) q.data
  ⟨{ q with data := data }, p⟩

def removeCell (row : Nat) (col : List α) : Except Panic (List α) :=
  if row < col.length then .ok (col.eraseIdx row) else .error (.removalIndex row col.length)

def removeRow (q : QueryData α) (row : Nat) : Ran (QueryData α × Option (ValueMap α)) :=
  if row ≥ q.rowCount then ⟨(q, none), none⟩
  else match q.rowAt row with
    | .error p => ⟨(q, none), some p⟩
    | .ok m =>
      let (data, p) := eachColumn (q.data.map fun _ => removeCell row) q.data
      ⟨({ q with data := data }, m), p⟩

/-- `slice::swap`; it reads the first index before the second. -/
def swapCells (r1 r2 : Nat) (col : List α) : Except Panic (List α) :=
  match col[r1]?, col[r2]? with
  | some a, some b => .ok ((col.set r1 b).set r2 a)
  | none, _ => .error (.indexOutOfBounds col.length r1)
  | some _, none => .error (.indexOutOfBounds col.length r2)

def swapRows (q : QueryData α) (r1 r2 : Nat) : Ran (QueryData α) :=
  let (data, p) := eachColumn (q.data.map fun _ => swapCells r1 r2) q.data
  ⟨{ q with data := data }, p⟩

def reverseRows (q : QueryData α) : QueryData α := { q with data := q.data.map List.reverse }

def addColumn (q : QueryData α) (name : String) (values : List α) : QueryData α :=
  let r := q.rowCount
  if values.length > r then
    { q with data := q.data.map (resize values.length) }.pushColumn name values
  else if values.length < r then q.pushColumn name (resize r values)
  else q.pushColumn name values

def removeColumnByName (q : QueryData α) (name : String) : QueryData α × Bool :=
  match q.columnIndexCi name with
  | some i => (⟨q.columns.eraseIdx i, q.data.eraseIdx i⟩, true)
  | none => (q, false)

def columnOrNull (other : QueryData α) (name : String) : List α :=
  match other.columnIndexCi name with
  | some i => (other.data[i]?).getD []
  | none => List.replicate other.rowCount Cell.null

def appendQuery (q other : QueryData α) : QueryData α :=
  let q := q.extendColumns other.columns
  { q with data := List.zipWith (fun c col => col ++ other.columnOrNull c) q.columns q.data }

def prependQuery (q other : QueryData α) : QueryData α :=
  let q := q.extendColumns other.columns
  { q with data := List.zipWith (fun c col => other.columnOrNull c ++ col) q.columns q.data }

/-- The values `set_column` stores: brought to `rows`, where the truncation is guarded by `rows >
0`. -/
def columnValues (rows : Nat) (values : List α) : List α :=
  if values.length < rows then resize rows values
  else if values.length > rows ∧ rows > 0 then values.take rows
  else values

def storeColumn (q : QueryData α) (name : String) (values : List α) : QueryData α :=
  match q.columnIndexCi name with
  | some ci => { q with data := q.data.set ci values }
  | none => q.pushColumn name values

def setColumn (q : QueryData α) (name : String) (values : List α) : QueryData α :=
  q.storeColumn name (columnValues q.rowCount values)

end QueryData

end RustCfml
