import RustCfml.Qoq.Eval
import RustCfml.Qoq.SortOrder

/-!
# `compiled.rs`: the compiled `WHERE` clause

**Compiling changes nothing** (`evalCompiled_compile`): the same value, or the same error, with the
VM asked the same questions in the same order.
-/

namespace RustCfml.Qoq

namespace SqlEngine

variable {m : Type → Type} {σ κ : Type} (E : SqlEngine m σ κ)

def preCompile (pattern : SqlExpr σ κ) (escape : Option (SqlExpr σ κ)) : Option κ :=
  match pattern with
  | .literal pv =>
    if pv.isNull then none
    else match escape with
      | none => some (E.likeCompile (asString E.platform pv) none)
      | some (.literal ev) =>
        some (E.likeCompile (asString E.platform pv) (asString E.platform ev).toList.head?)
      | some _ => none
  | _ => none

mutual

/-- `bind_expr`: columns become slots, constant `LIKE` patterns become matchers. -/
def bindExpr (tables : SourceTables) : SqlExpr σ κ → SqlExpr σ κ
  | .column table name =>
    match tables.resolveColumn table name with
    | some (ti, ci) => .resolvedColumn ti ci name
    | none => .column table name
  | .resolvedColumn ti ci name => .resolvedColumn ti ci name
  | .binary left op right => .binary (bindExpr tables left) op (bindExpr tables right)
  | .unary op expr => .unary op (bindExpr tables expr)
  | .cast expr ty => .cast (bindExpr tables expr) ty
  | .isNull expr negated => .isNull (bindExpr tables expr) negated
  | .function name args distinct => .function name (bindList tables args) distinct
  | .case operand whens elseExpr =>
    .case (bindOption tables operand) (bindWhens tables whens) (bindOption tables elseExpr)
  | .inList expr negated list => .inList (bindExpr tables expr) negated (bindList tables list)
  | .between expr negated low high =>
    .between (bindExpr tables expr) negated (bindExpr tables low) (bindExpr tables high)
  | .like expr negated pattern escape compiled =>
    let pattern' := bindExpr tables pattern
    let escape' := bindOption tables escape
    .like (bindExpr tables expr)
      negated pattern' escape' (compiled.or (E.preCompile pattern' escape'))
  | .inSubquery expr negated select => .inSubquery (bindExpr tables expr) negated select
  | .scalarSubquery select => .scalarSubquery select
  | .star table => .star table
  | .literal v => .literal v
  | .param p => .param p

def bindOption (tables : SourceTables) : Option (SqlExpr σ κ) → Option (SqlExpr σ κ)
  | none => none
  | some e => some (bindExpr tables e)

def bindList (tables : SourceTables) : List (SqlExpr σ κ) → List (SqlExpr σ κ)
  | [] => []
  | e :: es => bindExpr tables e :: bindList tables es

def bindWhens (tables : SourceTables) : List (SqlExpr σ κ × SqlExpr σ κ) →
    List (SqlExpr σ κ × SqlExpr σ κ)
  | [] => []
  | (w, t) :: rest => (bindExpr tables w, bindExpr tables t) :: bindWhens tables rest

end

end SqlEngine

/-! ## Compiling -/

inductive CmpOp where
  | eq | neq | lt | lte | gt | gte
deriving DecidableEq

def CmpOp.holds : CmpOp → Ordering → Bool
  | .eq, ord => ord == .eq
  | .neq, ord => ord != .eq
  | .lt, ord => ord == .lt
  | .lte, ord => ord != .gt
  | .gt, ord => ord == .gt
  | .gte, ord => ord != .lt

def BinaryOp.toCmp : BinaryOp → Option CmpOp
  | .eq => some .eq
  | .neq => some .neq
  | .lt => some .lt
  | .lte => some .lte
  | .gt => some .gt
  | .gte => some .gte
  | _ => none

def CmpOp.reverse : CmpOp → CmpOp
  | .eq => .eq
  | .neq => .neq
  | .lt => .gt
  | .gt => .lt
  | .lte => .gte
  | .gte => .lte

inductive CompiledExpr (σ κ : Type) where
  | null
  | litBool (b : Bool)
  | litInt (i : Int64)
  | litDouble (d : F64)
  | litString (s : String)
  | column (ti ci : Nat)
  | and (parts : List (CompiledExpr σ κ))
  | or (parts : List (CompiledExpr σ κ))
  | not (expr : CompiledExpr σ κ)
  | isNull (expr : CompiledExpr σ κ) (negated : Bool)
  | colCmpLit (ti ci : Nat) (op : CmpOp) (rhs : CfmlValue)
  | cmp (lhs : CompiledExpr σ κ) (op : CmpOp) (rhs : CompiledExpr σ κ)
  | colInLits (ti ci : Nat) (negated : Bool) (lits : List CfmlValue)
  | likeConst (lhs : CompiledExpr σ κ) (negated : Bool) (compiled : κ)
  | generic (expr : SqlExpr σ κ)

section

variable {σ κ : Type}

/-- What `push_and` pushes for an expression: only an `AND` compiles to an `and`, and its parts are
those of its two sides. -/
def andParts : CompiledExpr σ κ → List (CompiledExpr σ κ)
  | .and parts => parts
  | c => [c]

def orParts : CompiledExpr σ κ → List (CompiledExpr σ κ)
  | .or parts => parts
  | c => [c]

def literals : List (SqlExpr σ κ) → Option (List CfmlValue)
  | [] => some []
  | .literal v :: es => (literals es).map (v :: ·)
  | _ :: _ => none

def compileCmp (left right : SqlExpr σ κ) (op : CmpOp) (l r : CompiledExpr σ κ) :
    CompiledExpr σ κ :=
  match left, right with
  | .resolvedColumn ti ci _, .literal v => .colCmpLit ti ci op v
  | .literal v, .resolvedColumn ti ci _ => .colCmpLit ti ci op.reverse v
  | _, _ => .cmp l op r

def compile : SqlExpr σ κ → CompiledExpr σ κ
  | .literal .null => .null
  | .literal (.bool b) => .litBool b
  | .literal (.int i) => .litInt i
  | .literal (.double d) => .litDouble d
  | .literal (.string s) => .litString s
  | .resolvedColumn ti ci _ => .column ti ci
  | .isNull expr negated => .isNull (compile expr) negated
  | .unary .not expr => .not (compile expr)
  | .binary left .and right => .and (andParts (compile left) ++ andParts (compile right))
  | .binary left .or right => .or (orParts (compile left) ++ orParts (compile right))
  | .binary left op right =>
    match op.toCmp with
    | some cmp => compileCmp left right cmp (compile left) (compile right)
    | none => .generic (.binary left op right)
  | .inList (.resolvedColumn ti ci name) negated list =>
    match literals list with
    | some lits => .colInLits ti ci negated lits
    | none => .generic (.inList (.resolvedColumn ti ci name) negated list)
  | .like expr negated _ _ (some c) => .likeConst (compile expr) negated c
  | e => .generic e

end

namespace SqlEngine

variable {m : Type → Type} {σ κ : Type} (E : SqlEngine m σ κ)

def cmpValue (l : CfmlValue) (op : CmpOp) (r : CfmlValue) : CfmlValue :=
  triValue ((compareSql E.platform l r).map op.holds)

variable [Monad m]

mutual

def evalCompiled (tables : SourceTables) (ctx : RowCtx) : CompiledExpr σ κ → m CfmlValue
  | .null => pure .null
  | .litBool b => pure (.bool b)
  | .litInt i => pure (.int i)
  | .litDouble d => pure (.double d)
  | .litString s => pure (.string s)
  | .column ti ci => pure (tables.unnamed.value ctx.current ti ci)
  | .and parts => evalAnd tables ctx false parts
  | .or parts => evalOr tables ctx false parts
  | .not expr => do
    let v ← evalCompiled tables ctx expr
    return triValue ((tri E.platform v).map (!·))
  | .isNull expr negated => do
    let v ← evalCompiled tables ctx expr
    return .bool (v.isNull ^^ negated)
  | .colCmpLit ti ci op rhs => pure (E.cmpValue (tables.unnamed.value ctx.current ti ci) op rhs)
  | .cmp lhs op rhs => do
    let l ← evalCompiled tables ctx lhs
    let r ← evalCompiled tables ctx rhs
    return E.cmpValue l op r
  | .colInLits ti ci negated lits =>
    let v := tables.unnamed.value ctx.current ti ci
    if v.isNull then pure .null
    else pure (membership negated (memberOf E.platform v negated false lits))
  | .likeConst lhs negated compiled => do
    let v ← evalCompiled tables ctx lhs
    return E.likeConst compiled negated v
  | .generic expr => E.eval tables ctx expr

def evalAnd (tables : SourceTables) (ctx : RowCtx) (anyUnknown : Bool) : List (CompiledExpr σ κ) →
    m CfmlValue
  | [] => pure (if anyUnknown then .null else .bool true)
  | p :: ps => do
    let v ← evalCompiled tables ctx p
    match tri E.platform v with
    | some false => return .bool false
    | none => evalAnd tables ctx true ps
    | some true => evalAnd tables ctx anyUnknown ps

def evalOr (tables : SourceTables) (ctx : RowCtx) (anyUnknown : Bool) : List (CompiledExpr σ κ) →
    m CfmlValue
  | [] => pure (if anyUnknown then .null else .bool false)
  | p :: ps => do
    let v ← evalCompiled tables ctx p
    match tri E.platform v with
    | some true => return .bool true
    | none => evalOr tables ctx true ps
    | some false => evalOr tables ctx anyUnknown ps

end

/-- A chain at a part whose value is `v`, with `rest` behind it: the value `stop` ends the chain. -/
def chainNext (stop : Bool) (chain : Bool → List (CompiledExpr σ κ) → m CfmlValue)
    (anyUnknown : Bool)
    (rest : List (CompiledExpr σ κ)) (v : CfmlValue) : m CfmlValue :=
  match tri E.platform v with
  | none => chain true rest
  | some b => if b = stop then pure (.bool stop) else chain anyUnknown rest

variable (tables : SourceTables) (ctx : RowCtx)

structure IsChain (stop : Bool) (chain : Bool → List (CompiledExpr σ κ) → m CfmlValue) : Prop where
  nil : ∀ u, chain u [] = pure (if u then .null else .bool !stop)
  cons : ∀ u p ps, chain u (p :: ps) = E.evalCompiled tables ctx p >>= E.chainNext stop chain u ps

variable {E tables ctx} {stop : Bool} {chain : Bool → List (CompiledExpr σ κ) → m CfmlValue}

lemma isChain_and : E.IsChain tables ctx false (E.evalAnd tables ctx) := by
  refine ⟨fun _ => rfl, fun u p ps => ?_⟩
  rw [evalAnd]
  refine bind_congr fun v => ?_
  rw [chainNext]
  rcases tri E.platform v with _ | _ | _ <;> rfl

lemma isChain_or : E.IsChain tables ctx true (E.evalOr tables ctx) := by
  refine ⟨fun _ => rfl, fun u p ps => ?_⟩
  rw [evalOr]
  refine bind_congr fun v => ?_
  rw [chainNext]
  rcases tri E.platform v with _ | _ | _ <;> rfl

variable [LawfulMonad m] (h : E.IsChain tables ctx stop chain)
include h

/-- Running a chain through equals running its first parts on their own and going on from their
value. -/
lemma IsChain.append (u : Bool) (rest : List (CompiledExpr σ κ)) :
    ∀ (ps : List (CompiledExpr σ κ)) (w : Bool),
      chain (u || w) (ps ++ rest) = chain w ps >>= E.chainNext stop chain u rest
  | [], w => by
    rw [h.nil, pure_bind]
    cases w <;> simp [chainNext, tri, isTrue]
  | p :: ps, w => by
    rw [List.cons_append, h.cons, h.cons, bind_assoc]
    refine bind_congr fun v => ?_
    rw [chainNext, chainNext]
    cases tri E.platform v with
    | none => simpa using append u rest ps true
    | some b =>
      dsimp only
      split
      · simp [chainNext, tri, isTrue]
      · exact append u rest ps w

variable (parts : CompiledExpr σ κ → List (CompiledExpr σ κ))
  (hparts : ∀ c, parts c = [c] ∨ E.evalCompiled tables ctx c = chain false (parts c))
include hparts

lemma IsChain.append_parts (u : Bool) (c : CompiledExpr σ κ) (rest : List (CompiledExpr σ κ)) :
    chain u (parts c ++ rest) = E.evalCompiled tables ctx c >>= E.chainNext stop chain u rest := by
  rcases hparts c with hc | hc
  · rw [hc, List.singleton_append, h.cons]
  · rw [hc, ← h.append, Bool.or_false]

lemma IsChain.pair (both : Option Bool → Option Bool → CfmlValue) (hboth : ∀ x, x ≠ some stop → ∀ y,
      both x y = if y = some stop then .bool stop else if x = none ∨ y = none then .null else
      .bool !stop)
    (l r : CompiledExpr σ κ) : chain false (parts l ++ parts r) = (do
      let lv ← E.evalCompiled tables ctx l
      if tri E.platform lv = some stop then return .bool stop
      let rv ← E.evalCompiled tables ctx r
      return both (tri E.platform lv) (tri E.platform rv)) := by
  have hlast : ∀ u, chain u (parts r) = (do
      let rv ← E.evalCompiled tables ctx r
      return if tri E.platform rv = some stop then .bool stop
        else if u = true ∨ tri E.platform rv = none then .null else .bool !stop) := by
    intro u
    rw [← List.append_nil (parts r), h.append_parts parts hparts]
    refine bind_congr fun rv => ?_
    rw [chainNext, h.nil, h.nil]
    rcases tri E.platform rv with _ | b
    · simp
    · by_cases hb : b = stop <;> cases u <;> simp [hb]
  rw [h.append_parts parts hparts]
  refine bind_congr fun lv => ?_
  rw [chainNext, hlast, hlast]
  by_cases hl : tri E.platform lv = some stop
  · simp [hl]
  · simp only [hboth _ hl, if_neg hl]
    rcases htri : tri E.platform lv with _ | b
    · simp
    · have hb : b ≠ stop := fun h => hl (by rw [htri, h])
      simp [hb]

end SqlEngine

/-! ## The swapped comparison -/

lemma strCmp_swap (P : Platform) (a b : String) : strCmp P a b = (strCmp P b a).swap := by
  rw [strCmp_eq, strCmp_eq]
  show compare _ _ = (compare _ _).swap
  exact Std.OrientedCmp.eq_swap

lemma totalCmp_swap (x y : F64) : x.totalCmp y = (y.totalCmp x).swap := by
  show compare _ _ = (compare _ _).swap
  exact Std.OrientedCmp.eq_swap

lemma classCmp_swap (P : Platform) (a b : Class) : classCmp P a b = (classCmp P b a).swap := by
  cases a with
  | num x =>
    cases b with
    | num y => exact totalCmp_swap x y
    | str y =>
      rw [classCmp, classCmp]
      cases parseNum y with
      | none => exact strCmp_swap P _ _
      | some n => exact totalCmp_swap x n
  | str x =>
    cases b with
    | num y =>
      rw [classCmp, classCmp]
      cases parseNum x with
      | none => exact strCmp_swap P _ _
      | some n => exact totalCmp_swap n y
    | str y => exact strCmp_swap P x y

/-- Where no date is involved and the kinds are not both whole numbers, values compare as their
classes do. -/
lemma compareNonNull_swap_of_class (P : Platform) {a b : CfmlValue}
    (hab : compareNonNull P a b = classCmp P (classify P a) (classify P b))
    (hba : compareNonNull P b a = classCmp P (classify P b) (classify P a)) :
    compareNonNull P a b = (compareNonNull P b a).swap := by
  rw [hab, hba]
  exact classCmp_swap P _ _

lemma compareNonNull_swap (P : Platform) (a b : CfmlValue) :
    compareNonNull P a b = (compareNonNull P b a).swap := by
  have hint : ∀ x y : Int, compare x y = (compare y x).swap := fun _ _ => Std.OrientedCmp.eq_swap
  cases a with
  | dateTime d =>
    cases b with
    | dateTime e => exact hint _ _
    | _ => exact Ordering.swap_swap.symm
  | int i =>
    cases b with
    | int j | bool c => exact hint _ _
    | dateTime e => rfl
    | _ => exact compareNonNull_swap_of_class P rfl rfl
  | bool c =>
    cases b with
    | int j | bool c' => exact hint _ _
    | dateTime e => rfl
    | _ => exact compareNonNull_swap_of_class P rfl rfl
  | _ =>
    cases b with
    | dateTime e => rfl
    | _ => exact compareNonNull_swap_of_class P rfl rfl

lemma compareSql_swap (P : Platform) (a b : CfmlValue) :
    compareSql P a b = (compareSql P b a).map Ordering.swap := by
  rw [compareSql, compareSql, Bool.or_comm]
  cases b.isNull || a.isNull with
  | true => rfl
  | false => exact congrArg some (compareNonNull_swap P a b)

lemma CmpOp.holds_reverse (op : CmpOp) (ord : Ordering) :
    op.reverse.holds ord = op.holds ord.swap := by
  cases op <;> cases ord <;> rfl

/-- The values `parse_primary` makes literals of: a number, a string, `NULL`, `TRUE`, `FALSE`. -/
def isLiteralValue : CfmlValue → Bool
  | .null | .bool _ | .int _ | .double _ | .string _ => true
  | _ => false

namespace SqlExpr

variable {σ κ : Type}

mutual

def parsed : SqlExpr σ κ → Bool
  | .literal v => isLiteralValue v
  | .binary left _ right => parsed left && parsed right
  | .unary _ expr => parsed expr
  | .cast expr _ => parsed expr
  | .isNull expr _ => parsed expr
  | .function _ args _ => parsedList args
  | .case operand whens elseExpr =>
    parsedOption operand && parsedWhens whens && parsedOption elseExpr
  | .inList expr _ list => parsed expr && parsedList list
  | .inSubquery expr _ _ => parsed expr
  | .between expr _ low high => parsed expr && parsed low && parsed high
  | .like expr _ pattern escape _ => parsed expr && parsed pattern && parsedOption escape
  | .star _ | .column _ _ | .resolvedColumn _ _ _ | .scalarSubquery _ | .param _ => true

def parsedOption : Option (SqlExpr σ κ) → Bool
  | none => true
  | some e => parsed e

def parsedList : List (SqlExpr σ κ) → Bool
  | [] => true
  | e :: es => parsed e && parsedList es

def parsedWhens : List (SqlExpr σ κ × SqlExpr σ κ) → Bool
  | [] => true
  | (w, t) :: rest => parsed w && parsed t && parsedWhens rest

end

end SqlExpr

namespace SqlEngine

section

variable {m : Type → Type} {σ κ : Type} (E : SqlEngine m σ κ) (tables : SourceTables)

open SqlExpr

mutual

theorem parsed_bindExpr : ∀ e : SqlExpr σ κ, (E.bindExpr tables e).parsed = e.parsed
  | .column table name => by
    rw [bindExpr]
    cases tables.resolveColumn table name <;> rfl
  | .binary left op right => by
      rw [bindExpr, parsed, parsed, parsed_bindExpr left, parsed_bindExpr right]
  | .unary _ expr | .cast expr _ | .isNull expr _ => by
      rw [bindExpr, parsed, parsed, parsed_bindExpr expr]
  | .function name args distinct => by rw [bindExpr, parsed, parsed, parsed_bindList args]
  | .case operand whens elseExpr => by
    rw [bindExpr, parsed, parsed, parsed_bindOption operand, parsed_bindWhens whens,
      parsed_bindOption elseExpr]
  | .inList expr negated list => by
      rw [bindExpr, parsed, parsed, parsed_bindExpr expr, parsed_bindList list]
  | .inSubquery expr negated select => by rw [bindExpr, parsed, parsed, parsed_bindExpr expr]
  | .between expr negated low high => by
    rw [bindExpr, parsed, parsed, parsed_bindExpr expr, parsed_bindExpr low, parsed_bindExpr high]
  | .like expr negated pattern escape compiled => by
    rw [bindExpr, parsed, parsed, parsed_bindExpr expr, parsed_bindExpr pattern,
      parsed_bindOption escape]
  | .resolvedColumn _ _ _ | .scalarSubquery _ | .star _ | .literal _ | .param _ => rfl

theorem parsed_bindOption : ∀ e : Option (SqlExpr σ κ),
    parsedOption (E.bindOption tables e) = parsedOption e
  | none => rfl
  | some e => parsed_bindExpr e

theorem parsed_bindList : ∀ es : List (SqlExpr σ κ),
    parsedList (E.bindList tables es) = parsedList es
  | [] => rfl
  | e :: es => by rw [bindList, parsedList, parsedList, parsed_bindExpr e, parsed_bindList es]

theorem parsed_bindWhens : ∀ ws : List (SqlExpr σ κ × SqlExpr σ κ),
    parsedWhens (E.bindWhens tables ws) = parsedWhens ws
  | [] => rfl
  | (w, t) :: rest => by
    rw [bindWhens, parsedWhens, parsedWhens, parsed_bindExpr w, parsed_bindExpr t,
      parsed_bindWhens rest]

end

end

/-! ## Compiling changes nothing -/

variable {m : Type → Type} {σ κ : Type} (E : SqlEngine m σ κ)

lemma cmpValue_reverse (op : CmpOp) (l r : CfmlValue) :
    E.cmpValue l op.reverse r = E.cmpValue r op l := by
  rw [cmpValue, cmpValue, compareSql_swap E.platform r l, Option.map_map]
  congr 2
  funext ord
  exact op.holds_reverse ord

variable [Monad m]

lemma cmpValue_eq_applyBinary {op : BinaryOp} {cmp : CmpOp} (h : op.toCmp = some cmp)
    (l r : CfmlValue) : E.applyBinary l op r = pure (E.cmpValue l cmp r) := by
  cases op <;> cases h <;> rfl

variable [LawfulMonad m]

lemma inCandidates_of_isLiteralValue {v : CfmlValue} (h : isLiteralValue v = true) :
    inCandidates v = [v] := by
  cases v <;> first | rfl | cases h

lemma memberOf_cons (P : Platform) (target v : CfmlValue) (negated foundNull : Bool)
    (vs : List CfmlValue) : memberOf P target negated foundNull (v :: vs) =
      match memberOf P target negated foundNull [v] with
      | .ok found => .ok found
      | .error foundNull' => memberOf P target negated foundNull' vs := by
  rw [memberOf, memberOf]
  rcases sqlEqual P target v with _ | _ | _ <;> rfl

section

variable (tables : SourceTables) (ctx : RowCtx)

lemma evalInItems_literals (target : CfmlValue)
    (negated : Bool) : ∀ {list : List (SqlExpr σ κ)} {lits : List CfmlValue} (foundNull : Bool),
      literals list = some lits → SqlExpr.parsedList list = true →
      E.evalInItems tables ctx target negated foundNull list =
        pure (membership negated (memberOf E.platform target negated foundNull lits))
  | [], _, foundNull, h, _ => by
    cases h
    rfl
  | .literal v :: list, _, foundNull, h, hparsed => by
    obtain ⟨lits, hlits, rfl⟩ := Option.map_eq_some_iff.1 h
    rw [SqlExpr.parsedList, Bool.and_eq_true] at hparsed
    rw [evalInItems, eval, pure_bind, inCandidates_of_isLiteralValue hparsed.1,
      memberOf_cons E.platform target v negated foundNull lits]
    cases memberOf E.platform target negated foundNull [v] with
    | ok found => rfl
    | error foundNull' => exact evalInItems_literals target negated foundNull' hlits hparsed.2

lemma evalCompiled_compileCmp {left right : SqlExpr σ κ}
    {op : BinaryOp} {cmp : CmpOp} (hop : op.toCmp = some cmp) {l r : CompiledExpr σ κ}
    (hl : E.evalCompiled tables ctx l = E.eval tables ctx left)
    (hr : E.evalCompiled tables ctx r = E.eval tables ctx right) :
    E.evalCompiled tables ctx (compileCmp left right cmp l r) = (do
      let lv ← E.eval tables ctx left
      let rv ← E.eval tables ctx right
      E.applyBinary lv op rv) := by
  simp only [E.cmpValue_eq_applyBinary hop]
  fun_cases compileCmp left right cmp l r with
  | case1 => simp [evalCompiled, eval]
  | case2 => simp [evalCompiled, eval, cmpValue_reverse]
  | case3 => simp only [evalCompiled, hl, hr]

lemma evalCompiled_compile_of_parsed :
    ∀ e : SqlExpr σ κ, e.parsed = true → E.evalCompiled tables ctx (compile e) = E.eval tables ctx e
  | .literal v, h => by cases v <;> rfl
  | .isNull expr negated, h => by
    rw [compile, evalCompiled, eval, evalCompiled_compile_of_parsed expr h]
  | .unary op expr, h => by
    cases op with
    | not => rw [compile, evalCompiled, eval, evalCompiled_compile_of_parsed expr h]; rfl
    | neg | plus => rfl
  | .binary left op right, h => by
    rw [SqlExpr.parsed, Bool.and_eq_true] at h
    have hl := evalCompiled_compile_of_parsed left h.1
    have hr := evalCompiled_compile_of_parsed right h.2
    cases op with
    | and =>
      have hpair := (isChain_and : E.IsChain tables ctx _ _).pair andParts
        (fun c => by cases c <;> first | exact .inl rfl | exact .inr rfl) and3
        (by rintro (_ | _ | _) hx (_ | _ | _) <;> first | rfl | exact absurd rfl hx) (compile left)
          (compile right)
      rw [hl, hr] at hpair
      exact hpair
    | or =>
      have hpair := (isChain_or : E.IsChain tables ctx _ _).pair orParts
        (fun c => by cases c <;> first | exact .inl rfl | exact .inr rfl) or3
        (by rintro (_ | _ | _) hx (_ | _ | _) <;> first | rfl | exact absurd rfl hx) (compile left)
          (compile right)
      rw [hl, hr] at hpair
      exact hpair
    | eq | neq | lt | lte | gt | gte => exact E.evalCompiled_compileCmp tables ctx rfl hl hr
    | _ => rfl
  | .inList expr negated list, h => by
    rw [SqlExpr.parsed, Bool.and_eq_true] at h
    cases expr with
    | resolvedColumn ti ci name =>
      rw [compile]
      cases hlits : literals list with
      | none => rfl
      | some lits =>
        rw [eval, eval, pure_bind, E.evalInItems_literals tables ctx _ negated false hlits h.2]
        rfl
    | _ => rfl
  | .like expr negated pattern escape compiled, h => by
    cases compiled with
    | none => rfl
    | some c =>
      rw [SqlExpr.parsed, Bool.and_eq_true, Bool.and_eq_true] at h
      rw [compile, evalCompiled, eval, evalCompiled_compile_of_parsed expr h.1.1]
      refine bind_congr fun v => ?_
      cases hnull : v.isNull with
      | true => simp [likeConst, hnull]
      | false => simp
  | .resolvedColumn _ _ _, _ | .star _, _ | .column _ _, _ | .param _, _ | .function _ _ _, _
  | .case _ _ _, _ | .cast _ _, _ | .inSubquery _ _ _, _ | .between _ _ _ _, _
  | .scalarSubquery _, _ => rfl

end

/-- **Compiled predicates agree with the interpreter**: a bound expression compiles to one with the
same value or error on every row, the VM being asked the same questions. -/
theorem evalCompiled_compile (tables : SourceTables) (ctx : RowCtx) (e : SqlExpr σ κ)
    (h : e.parsed = true) :
    E.evalCompiled tables ctx (compile (E.bindExpr tables e)) =
    E.eval tables ctx (E.bindExpr tables e) :=
  E.evalCompiled_compile_of_parsed tables ctx _ ((E.parsed_bindExpr tables e).trans h)

end SqlEngine

def plainOps : ThreadOps (Except String) where
  platform := asciiPlatform
  compute _ _ _ := .ok .null
  negate _ := .ok .null
  castValue v _ := .ok v
  callScalar _ _ := none
  aggregateNumeric _ _ := .null

/-- An engine without functions, parameters or subqueries, over pure evaluation. -/
def plainEngine : SqlEngine (Except String) Empty Unit where
  toThreadOps := plainOps
  worker := plainOps
  fail := .error
  registry := ⟨fun _ => none, fun _ => none, fun _ => none, fun _ => none⟩
  params := ⟨[], []⟩
  invokeCustom _ _ := .ok .null
  runSubquery select := select.elim
  likeCompile _ _ := ()
  likeMatches _ _ := true
  likeMatch _ _ _ := true

def idTable (cells : List CfmlValue) : SourceTable := ⟨⟨["id"], [cells], cells.length⟩, "t"⟩

/-- `WHERE 1 < id AND id NOT IN (3, NULL) AND id LIKE '2'`. -/
def rangeWhere : SqlExpr Empty Unit :=
  let id := .column none "id"
  .binary (.binary (.literal (.int 1)) .lt id) .and
    (.binary (.inList id true [.literal (.int 3), .literal .null]) .and
      (.like id false (.literal (.string "2")) none none))

theorem evalCompiled_compile_rangeWhere : rangeWhere.parsed = true ∧
      plainEngine.evalCompiled [idTable [.int 2]] (.row [1])
          (compile (plainEngine.bindExpr [idTable [.int 2]] rangeWhere)) =
        plainEngine.eval [idTable [.int 2]] (.row [1])
        (plainEngine.bindExpr [idTable [.int 2]] rangeWhere) :=
  ⟨rfl, plainEngine.evalCompiled_compile [idTable [.int 2]] (.row [1]) rangeWhere rfl⟩

end RustCfml.Qoq
