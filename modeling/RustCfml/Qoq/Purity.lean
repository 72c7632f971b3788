import RustCfml.Qoq.Select

/-!
# Pure statements do not need the VM

The parallel stages evaluate with a `PureInvoker`, which refuses every CFML closure.
`is_parallel_safe` lets a statement through only if none of its expressions calls one, and
**on a pure expression the two invokers are never asked** (`eval_refusing`), bound or
unbound, interpreted or compiled.
-/

namespace RustCfml.Qoq
namespace SqlEngine

variable {σ κ : Type} (E : SqlEngine (Except String) σ κ)

lemma callScalarFn_refusing {name : String} (h : E.registry.customs (lower E.platform name) = none)
    (args : List CfmlValue) : E.refusing.callScalarFn name args = E.callScalarFn name args := by
  simp [callScalarFn, getDynamic, refusing, h]

lemma callAggregateFn_refusing (hlower : ∀ s, lower E.platform (lower E.platform s) =
      lower E.platform s)
    {name : String} (h : E.registry.customs (lower E.platform name) = none)
    (arrays : List (List CfmlValue)) :
    E.refusing.callAggregateFn name arrays = E.callAggregateFn name arrays := by
  have hkey : E.registry.customs (lower E.platform (lower E.platform name)) =
    none := by rw [hlower, h]
  simp only [callAggregateFn, getDynamic, refusing, hkey]
  rfl

section

variable (hlower : ∀ s, lower E.platform (lower E.platform s) = lower E.platform s)
    (tables : SourceTables)

include hlower

set_option linter.unusedSectionVars false in
mutual

theorem eval_refusing (ctx : RowCtx) :
    ∀ e : SqlExpr σ κ, E.exprIsPure e = true → E.refusing.eval tables ctx e = E.eval tables ctx e
  | .function name args distinct, h => by
    simp only [exprIsPure, Bool.and_eq_true, Option.isNone_iff_eq_none] at h
    rw [eval, eval, evalAll_refusing ctx args h.2,
      evalAggregateCall_refusing ctx name distinct h.1.1 args h.2]
    simp only [E.callScalarFn_refusing h.1.1]
    rfl
  | .binary left op right, h => by
    simp only [exprIsPure, Bool.and_eq_true] at h
    have hl := eval_refusing ctx left h.1
    have hr := eval_refusing ctx right h.2
    have hplain : ∀ f : CfmlValue → CfmlValue → Except String CfmlValue,
        (E.refusing.eval tables ctx left >>= fun l => E.refusing.eval tables ctx right >>= f l) =
          (E.eval tables ctx left >>= fun l => E.eval tables ctx right >>= f l) := by
      intro f
      rw [hl, hr]
    cases op with
    | and | or => rw [eval, eval, hl, hr]; rfl
    | _ => exact hplain _
  | .unary _ expr, h | .cast expr _, h => by
    rw [eval, eval, eval_refusing ctx expr h]
    rfl
  | .isNull expr negated, h => by rw [eval, eval, eval_refusing ctx expr h]
  | .case operand whens elseExpr, h => by
    simp only [exprIsPure, Bool.and_eq_true] at h
    rw [eval, eval, evalOption_refusing ctx operand h.1.1, evalOption_refusing ctx elseExpr h.2]
    simp [evalWhens_refusing ctx _ whens h.1.2]
  | .inList expr negated list, h => by
    simp only [exprIsPure, Bool.and_eq_true] at h
    rw [eval, eval, eval_refusing ctx expr h.1]
    simp [evalInItems_refusing ctx _ negated _ list h.2]
  | .between expr negated low high, h => by
    simp only [exprIsPure, Bool.and_eq_true] at h
    rw [eval, eval, eval_refusing ctx expr h.1.1, eval_refusing ctx low h.1.2,
      eval_refusing ctx high h.2]
    rfl
  | .like expr negated pattern escape compiled, h => by
    simp only [exprIsPure, Bool.and_eq_true] at h
    rw [eval, eval, eval_refusing ctx expr h.1.1,
      eval_refusing ctx pattern h.1.2, evalOption_refusing ctx escape h.2]
    rfl
  | .star _, _ | .column _ _, _ | .resolvedColumn _ _ _, _ | .literal _, _ | .param _, _ => rfl

theorem evalOption_refusing (ctx : RowCtx) : ∀ e : Option (SqlExpr σ κ), E.optionIsPure e = true →
      E.refusing.evalOption tables ctx e = E.evalOption tables ctx e
  | none, _ => rfl
  | some e, h => by rw [evalOption, evalOption, eval_refusing ctx e h]

theorem evalAll_refusing (ctx : RowCtx) : ∀ es : List (SqlExpr σ κ), E.exprsArePure es = true →
      E.refusing.evalAll tables ctx es = E.evalAll tables ctx es
  | [], _ => rfl
  | e :: es, h => by
    simp only [exprsArePure, Bool.and_eq_true] at h
    rw [evalAll, evalAll, eval_refusing ctx e h.1, evalAll_refusing ctx es h.2]

theorem evalWhens_refusing (ctx : RowCtx) (ov : Option CfmlValue) :
    ∀ ws : List (SqlExpr σ κ × SqlExpr σ κ), E.whensArePure ws = true →
      E.refusing.evalWhens tables ctx ov ws = E.evalWhens tables ctx ov ws
  | [], _ => rfl
  | (w, t) :: rest, h => by
    simp only [whensArePure, Bool.and_eq_true] at h
    rw [evalWhens, evalWhens, eval_refusing ctx w h.1.1, eval_refusing ctx t h.1.2,
      evalWhens_refusing ctx ov rest h.2]
    rfl

theorem evalInItems_refusing (ctx : RowCtx) (target : CfmlValue)
    (negated : Bool) (foundNull : Bool) : ∀ es : List (SqlExpr σ κ), E.exprsArePure es = true →
      E.refusing.evalInItems tables ctx target negated foundNull es =
        E.evalInItems tables ctx target negated foundNull es
  | [], _ => rfl
  | e :: es, h => by
    simp only [exprsArePure, Bool.and_eq_true] at h
    rw [evalInItems, evalInItems, eval_refusing ctx e h.1]
    simp only [evalInItems_refusing ctx target negated _ es h.2]
    rfl

theorem collectArgs_refusing (part : List Intersection) : ∀ es : List (SqlExpr σ κ),
    E.exprsArePure es = true →
      E.refusing.collectArgs tables part es = E.collectArgs tables part es
  | [], _ => rfl
  | e :: es, h => by
    simp only [exprsArePure, Bool.and_eq_true] at h
    rw [collectArgs, collectArgs, collectArgs_refusing part es h.2]
    simp [eval_refusing _ e h.1]

theorem evalSeparator_refusing (part : List Intersection) : ∀ es : List (SqlExpr σ κ),
    E.exprsArePure es = true →
      E.refusing.evalSeparator tables part es = E.evalSeparator tables part es
  | [], _ => rfl
  | e :: es, h => by
    simp [exprsArePure] at h
    cases part with
    | nil => rfl
    | cons inter part =>
      rw [evalSeparator, evalSeparator, eval_refusing _ e h.1]
      rfl

theorem evalAggregateCall_refusing (ctx : RowCtx) (name : String)
    (distinct : Bool) (hname : E.registry.customs (lower E.platform name) = none) :
    ∀ es : List (SqlExpr σ κ), E.exprsArePure es = true →
    E.refusing.evalAggregateCall tables ctx name distinct es =
        E.evalAggregateCall tables ctx name distinct es
  | [], _ => by
    rw [evalAggregateCall, evalAggregateCall, E.callAggregateFn_refusing hlower hname]
    rfl
  | e :: es, h => by
    simp only [exprsArePure, Bool.and_eq_true] at h
    rw [evalAggregateCall, evalAggregateCall, collectArgs_refusing _ es h.2,
      evalSeparator_refusing _ es h.2]
    simp only [eval_refusing _ e h.1, E.callAggregateFn_refusing hlower hname]
    rfl

end

end

mutual

def compiledIsPure : CompiledExpr σ κ → Bool
  | .and parts => compiledArePure parts
  | .or parts => compiledArePure parts
  | .not expr => compiledIsPure expr
  | .isNull expr _ => compiledIsPure expr
  | .cmp lhs _ rhs => compiledIsPure lhs && compiledIsPure rhs
  | .likeConst lhs _ _ => compiledIsPure lhs
  | .generic expr => E.exprIsPure expr
  | _ => true

def compiledArePure : List (CompiledExpr σ κ) → Bool
  | [] => true
  | c :: cs => compiledIsPure c && compiledArePure cs

end

lemma compiledArePure_append : ∀ cs ds : List (CompiledExpr σ κ),
    E.compiledArePure (cs ++ ds) = (E.compiledArePure cs && E.compiledArePure ds)
  | [], ds => (Bool.true_and _).symm
  | c :: cs, ds => by
    rw [List.cons_append, compiledArePure, compiledArePure_append cs ds, compiledArePure,
      Bool.and_assoc]

lemma compiledArePure_andParts (c : CompiledExpr σ κ) :
    E.compiledArePure (andParts c) = E.compiledIsPure c := by
  cases c with
  | and parts => rfl
  | _ => exact Bool.and_true _

lemma compiledArePure_orParts (c : CompiledExpr σ κ) :
    E.compiledArePure (orParts c) = E.compiledIsPure c := by
  cases c with
  | or parts => rfl
  | _ => exact Bool.and_true _

lemma compiledIsPure_compileCmp (left right : SqlExpr σ κ) (op : CmpOp)
    {l r : CompiledExpr σ κ} (hl : E.compiledIsPure l = true) (hr : E.compiledIsPure r = true) :
    E.compiledIsPure (compileCmp left right op l r) = true := by
  fun_cases compileCmp left right op l r with
  | case1 | case2 => rfl
  | case3 => exact Bool.and_eq_true_iff.2 ⟨hl, hr⟩

lemma compiledIsPure_compile : ∀ e : SqlExpr σ κ, E.exprIsPure e = true →
    E.compiledIsPure (compile e) = true
  | .literal v, _ => by cases v <;> rfl
  | .isNull expr negated, h => compiledIsPure_compile expr h
  | .unary op expr, h => by
    cases op with
    | not => exact compiledIsPure_compile expr h
    | neg | plus => exact h
  | .binary left op right, h => by
    have hsides := h
    simp only [exprIsPure, Bool.and_eq_true] at hsides
    have hl := compiledIsPure_compile left hsides.1
    have hr := compiledIsPure_compile right hsides.2
    cases op with
    | and =>
      show E.compiledArePure (andParts (compile left) ++ andParts (compile right)) = true
      rw [compiledArePure_append, compiledArePure_andParts, compiledArePure_andParts, hl, hr]
      rfl
    | or =>
      show E.compiledArePure (orParts (compile left) ++ orParts (compile right)) = true
      rw [compiledArePure_append, compiledArePure_orParts, compiledArePure_orParts, hl, hr]
      rfl
    | eq | neq | lt | lte | gt | gte => exact E.compiledIsPure_compileCmp left right _ hl hr
    | _ => exact h
  | .inList expr negated list, h => by
    cases expr with
    | resolvedColumn ti ci name =>
      rw [compile]
      cases literals list with
      | none => exact h
      | some lits => rfl
    | _ => exact h
  | .like expr negated pattern escape compiled, h => by
    cases compiled with
    | none => exact h
    | some c =>
      simp [exprIsPure] at h
      exact compiledIsPure_compile expr h.1.1
  | .resolvedColumn _ _ _, _ | .star _, _ | .column _ _, _ | .param _, _ => rfl
  | .function _ _ _, h | .case _ _ _, h | .cast _ _, h | .between _ _ _ _, h => h

section

variable (hlower : ∀ s, lower E.platform (lower E.platform s) = lower E.platform s)
    (tables : SourceTables)

include hlower

set_option linter.unusedSectionVars false in
mutual

theorem evalCompiled_refusing (ctx : RowCtx) : ∀ c : CompiledExpr σ κ, E.compiledIsPure c = true →
      E.refusing.evalCompiled tables ctx c = E.evalCompiled tables ctx c
  | .and parts, h => evalAnd_refusing ctx false parts h
  | .or parts, h => evalOr_refusing ctx false parts h
  | .not expr, h => by
    rw [evalCompiled, evalCompiled, evalCompiled_refusing ctx expr h]
    rfl
  | .isNull expr negated, h => by rw [evalCompiled, evalCompiled, evalCompiled_refusing ctx expr h]
  | .cmp lhs op rhs, h => by
    simp only [compiledIsPure, Bool.and_eq_true] at h
    rw [evalCompiled, evalCompiled, evalCompiled_refusing ctx lhs h.1,
      evalCompiled_refusing ctx rhs h.2]
    rfl
  | .likeConst lhs negated compiled, h => by
    rw [evalCompiled, evalCompiled, evalCompiled_refusing ctx lhs h]
    rfl
  | .generic expr, h => E.eval_refusing hlower tables ctx expr h
  | .null, _ | .litBool _, _ | .litInt _, _ | .litDouble _, _ | .litString _, _ | .column _ _, _
  | .colCmpLit _ _ _ _, _ | .colInLits _ _ _ _, _ => rfl

theorem evalAnd_refusing (ctx : RowCtx) (u : Bool) : ∀ cs : List (CompiledExpr σ κ),
    E.compiledArePure cs = true →
      E.refusing.evalAnd tables ctx u cs = E.evalAnd tables ctx u cs
  | [], _ => rfl
  | c :: cs, h => by
    simp only [compiledArePure, Bool.and_eq_true] at h
    rw [evalAnd, evalAnd, evalCompiled_refusing ctx c h.1]
    simp only [evalAnd_refusing ctx _ cs h.2]
    rfl

theorem evalOr_refusing (ctx : RowCtx) (u : Bool) : ∀ cs : List (CompiledExpr σ κ),
    E.compiledArePure cs = true →
      E.refusing.evalOr tables ctx u cs = E.evalOr tables ctx u cs
  | [], _ => rfl
  | c :: cs, h => by
    simp only [compiledArePure, Bool.and_eq_true] at h
    rw [evalOr, evalOr, evalCompiled_refusing ctx c h.1]
    simp only [evalOr_refusing ctx _ cs h.2]
    rfl

end

end

/-! ## Bound expressions -/

variable (tables : SourceTables)

mutual

theorem exprIsPure_bindExpr : ∀ e : SqlExpr σ κ, E.exprIsPure (E.bindExpr tables e) = E.exprIsPure e
  | .column table name => by
    rw [bindExpr]
    cases tables.resolveColumn table name <;> rfl
  | .binary left op right => by
    rw [bindExpr, exprIsPure, exprIsPure, exprIsPure_bindExpr left, exprIsPure_bindExpr right]
  | .unary _ expr | .cast expr _ | .isNull expr _ => by
    rw [bindExpr, exprIsPure, exprIsPure, exprIsPure_bindExpr expr]
  | .function name args distinct => by
      rw [bindExpr, exprIsPure, exprIsPure, exprsArePure_bindList args]
  | .case operand whens elseExpr => by
    rw [bindExpr, exprIsPure, exprIsPure, optionIsPure_bindOption operand,
      whensArePure_bindWhens whens, optionIsPure_bindOption elseExpr]
  | .inList expr negated list => by
    rw [bindExpr, exprIsPure, exprIsPure, exprIsPure_bindExpr expr, exprsArePure_bindList list]
  | .between expr negated low high => by
    rw [bindExpr, exprIsPure, exprIsPure, exprIsPure_bindExpr expr, exprIsPure_bindExpr low,
      exprIsPure_bindExpr high]
  | .like expr negated pattern escape compiled => by
    rw [bindExpr, exprIsPure, exprIsPure, exprIsPure_bindExpr expr,
      exprIsPure_bindExpr pattern, optionIsPure_bindOption escape]
  | .inSubquery _ _ _ | .resolvedColumn _ _ _ | .scalarSubquery _ | .star _ | .literal _
  | .param _ => rfl

theorem optionIsPure_bindOption : ∀ e : Option (SqlExpr σ κ),
    E.optionIsPure (E.bindOption tables e) = E.optionIsPure e
  | none => rfl
  | some e => exprIsPure_bindExpr e

theorem exprsArePure_bindList : ∀ es : List (SqlExpr σ κ),
    E.exprsArePure (E.bindList tables es) = E.exprsArePure es
  | [] => rfl
  | e :: es => by
      rw [bindList, exprsArePure, exprsArePure, exprIsPure_bindExpr e, exprsArePure_bindList es]

theorem whensArePure_bindWhens :
    ∀ ws : List (SqlExpr σ κ × SqlExpr σ κ),
    E.whensArePure (E.bindWhens tables ws) = E.whensArePure ws
  | [] => rfl
  | (w, t) :: rest => by
    rw [bindWhens, whensArePure, whensArePure, exprIsPure_bindExpr w,
      exprIsPure_bindExpr t, whensArePure_bindWhens rest]

end

end SqlEngine
end RustCfml.Qoq
