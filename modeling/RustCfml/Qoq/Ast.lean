import RustCfml.Qoq.Engine

/-!
# `ast.rs`: the syntax of a select

The whole expression language, as the parser builds it and `bind_expr` rewrites it.
-/

namespace RustCfml.Qoq

inductive ParamRef where
  /-- `?`, by order of appearance. -/
  | positional (index : Nat)
  | named (name : String)

inductive SqlExpr (σ κ : Type) where
  | star (table : Option String)
  | column (table : Option String) (name : String)
  | resolvedColumn (ti ci : Nat) (name : String)
  | literal (v : CfmlValue)
  | binary (left : SqlExpr σ κ) (op : BinaryOp) (right : SqlExpr σ κ)
  | unary (op : UnaryOp) (expr : SqlExpr σ κ)
  | function (name : String) (args : List (SqlExpr σ κ)) (distinct : Bool)
  | case (operand : Option (SqlExpr σ κ)) (whens : List (SqlExpr σ κ × SqlExpr σ κ))
      (elseExpr : Option (SqlExpr σ κ))
  | cast (expr : SqlExpr σ κ) (ty : String)
  | isNull (expr : SqlExpr σ κ) (negated : Bool)
  | inList (expr : SqlExpr σ κ) (negated : Bool) (list : List (SqlExpr σ κ))
  | inSubquery (expr : SqlExpr σ κ) (negated : Bool) (select : σ)
  | between (expr : SqlExpr σ κ) (negated : Bool) (low high : SqlExpr σ κ)
  | like (expr : SqlExpr σ κ) (negated : Bool) (pattern : SqlExpr σ κ)
      (escape : Option (SqlExpr σ κ)) (compiled : Option κ)
  | scalarSubquery (select : σ)
  | param (p : ParamRef)

inductive SortDirection where
  | asc | desc
deriving DecidableEq

structure OrderByExpr (σ κ : Type) where
  expr : SqlExpr σ κ
  direction : SortDirection

structure SelectColumn (σ κ : Type) where
  expr : SqlExpr σ κ
  aliasName : Option String

inductive TableRef (σ : Type) where
  | named (name : String) (aliasName : Option String)
  | derived (select : σ) (aliasName : String)

structure JoinClause (σ κ : Type) where
  joinType : JoinType
  table : TableRef σ
  on : Option (SqlExpr σ κ)

structure SelectBody (σ κ : Type) where
  distinct : Bool
  top : Option Nat
  columns : List (SelectColumn σ κ)
  fromTable : Option (TableRef σ)
  joins : List (JoinClause σ κ)
  whereClause : Option (SqlExpr σ κ)
  groupBy : List (SqlExpr σ κ)
  having : Option (SqlExpr σ κ)

structure LimitClause where
  offset : Nat
  count : Nat

structure Union (σ κ : Type) where
  all : Bool
  select : SelectBody σ κ

structure SelectStatement (σ κ : Type) where
  body : SelectBody σ κ
  unions : List (Union σ κ)
  orderBy : List (OrderByExpr σ κ)
  limit : Option LimitClause

namespace SqlExpr

variable {σ κ : Type}

def view : SqlExpr σ κ → Expr (SqlExpr σ κ)
  | .literal v => .literal v
  | .resolvedColumn ti ci _ => .resolvedColumn ti ci
  | .binary left op right => .binary left.view op right.view
  | .unary op expr => .unary op expr.view
  | .isNull expr negated => .isNull expr.view negated
  | e => .other e

def isStar : SqlExpr σ κ → Bool
  | .star _ => true
  | _ => false

end SqlExpr

end RustCfml.Qoq
