import RustCfml.Qoq.Parallel

/-!
# The shape of a core's result

Whatever pipeline ran and however its work was cut, **a core hands back a rectangle**: one column
per expanded select item, one sort key column per `ORDER BY` item, and each of them as long as the
result has rows.
-/

namespace RustCfml.Qoq

open RowProduct Fallible List Option

structure Filled (cols : Columns) (width height : Nat) : Prop where
  width_eq : cols.length = width
  height_eq : ∀ col ∈ cols, col.length = height

lemma filled_rowsToCols (rows : List (List CfmlValue)) (n : Nat) :
    Filled (rowsToCols rows n) n rows.length where
  width_eq := length_rowsToCols rows n
  height_eq := by
    intro col hcol
    obtain ⟨ci, _, rfl⟩ := mem_map.1 hcol
    exact length_map _

variable {height width : Nat} {cols : Columns}

lemma Filled.map {height' : Nat} {f : List CfmlValue → List CfmlValue}
    (h : Filled cols width height)
    (hf : ∀ col : List CfmlValue, col.length = height → (f col).length = height') :
    Filled (cols.map f) width height' where
  width_eq := (length_map _).trans h.width_eq
  height_eq := by
    intro col hcol
    obtain ⟨src, hsrc, rfl⟩ := mem_map.1 hcol
    exact hf src (h.height_eq src hsrc)

lemma Filled.exists_rows (h : Filled cols width height) : ∃ rows : List (List CfmlValue),
    rows.length = height ∧
    (∀ row ∈ rows, row.length = width) ∧ cols = rowsToCols rows width := by
  obtain ⟨rfl, hheight⟩ := h
  let rowAt := fun r : Nat => cols.map fun col => col[r]?.getD CfmlValue.null
  refine ⟨(range height).map rowAt, by simp, fun row hrow => ?_, ?_⟩
  · obtain ⟨r, _, rfl⟩ := mem_map.1 hrow
    exact length_map _
  · rw [rowsToCols_map fun (r : Nat) (col : List CfmlValue) => col[r]?.getD CfmlValue.null]
    conv_lhs => rw [← map_id cols]
    refine map_congr_left fun col hcol => ?_
    exact (map_range_getD (hheight col hcol)).symm

lemma length_keepMask : ∀ (seen ks : List (List Char)), (keepMask seen ks).length = ks.length
  | _, [] => rfl
  | seen, k :: ks => congrArg (· + 1) (length_keepMask (k :: seen) ks)

lemma length_dedupKeepMask (P : Platform) (data : Columns) (rowCount : Nat) :
    (dedupKeepMask P data rowCount).length = rowCount := by
  rw [dedupKeepMask, length_keepMask, length_map, length_range]

lemma length_retain : ∀ {keep : List Bool} {col : List CfmlValue}, col.length = keep.length →
    (retain keep col).length = keptCount keep
  | [], [], _ => rfl
  | true :: keep, v :: col, h => by
    have ih : (retain keep col).length = keptCount keep := length_retain (Nat.succ.inj h)
    rw [keptCount, count_cons_self, ← keptCount, ← ih]
    rfl
  | false :: keep, v :: col, h => by
    have ih : (retain keep col).length = keptCount keep := length_retain (Nat.succ.inj h)
    rw [keptCount, count_cons_of_ne (by decide), ← keptCount, ← ih]
    rfl

lemma filled_placeColumns : ∀ {slots : List (Option (List CfmlValue))}
    {cols : Columns}, Filled cols (slots.countP Option.isNone) height →
      (∀ col, some col ∈ slots → col.length = height) →
      Filled (SqlEngine.placeColumns slots cols) slots.length height
  | [], _, _, _ => ⟨rfl, fun _ h => nomatch h⟩
  | some col :: slots, cols, h, hslots => by
    have ih : Filled (SqlEngine.placeColumns slots cols) slots.length height :=
      filled_placeColumns h fun c hc => hslots c (mem_cons_of_mem _ hc)
    refine ⟨congrArg (· + 1) ih.width_eq, fun c hc => ?_⟩
    rcases mem_cons.1 hc with rfl | hc
    · exact hslots c mem_cons_self
    · exact ih.height_eq c hc
  | none :: slots, [], h, _ => by
    have := h.width_eq
    rw [countP_cons_of_pos rfl] at this
    exact nomatch this
  | none :: slots, col :: cols, h, hslots => by
    have hwidth := h.width_eq
    rw [countP_cons_of_pos rfl] at hwidth
    have ih : Filled (SqlEngine.placeColumns slots cols) slots.length height := filled_placeColumns
      ⟨Nat.succ.inj hwidth, fun c hc => h.height_eq c (mem_cons_of_mem _ hc)⟩
      fun c hc => hslots c (mem_cons_of_mem _ hc)
    refine ⟨congrArg (· + 1) ih.width_eq, fun c hc => ?_⟩
    rcases mem_cons.1 hc with rfl | hc
    · exact h.height_eq c mem_cons_self
    · exact ih.height_eq c hc

/-! ## The pipelines -/

/-- A body with `n` output columns and `k` sort keys. -/
structure FilledBody (body : Body) (n k : Nat) : Prop where
  data : Filled body.1 n body.2.2
  keys : Filled body.2.1 k body.2.2

/-- `n` named columns and `k` sort keys, all as long as the result says. -/
structure CoreResult.Rect (r : CoreResult) (n k : Nat) : Prop where
  names_eq : r.columns.length = n
  data : Filled r.data n r.rowCount
  keys : Filled r.sortKeys k r.rowCount

namespace SqlEngine

variable {σ κ : Type} (E : SqlEngine (Except String) σ κ)
  {par : Option Pool} {tables : SourceTables} {exprs orderBy : List (SqlExpr σ κ)}

variable {body : Body} {inters : List Intersection} {rows : List Nat} {k : Nat}
  {core : SelectBody σ κ} {ob : List (OrderByExpr σ κ)} {r : CoreResult}

lemma filled_execSimple_none (h : E.execSimple none tables exprs orderBy inters = .ok body) :
    FilledBody body exprs.length orderBy.length := by
  rw [execSimple_none] at h
  obtain ⟨out, hout, hbody⟩ := bind_eq_ok h
  cases hbody
  have hlen : out.length = inters.length := length_mapM hout
  refine ⟨?_, ?_⟩
  · have := filled_rowsToCols (out.map Prod.fst) exprs.length
    rwa [length_map, hlen] at this
  · have := filled_rowsToCols (out.map Prod.snd) orderBy.length
    rwa [length_map, hlen] at this

lemma filled_execSimple (h : E.execSimple par tables exprs orderBy inters = .ok body) :
    FilledBody body exprs.length orderBy.length := by
  cases hpool : poolFor par inters.length with
  | none =>
    rw [execSimple, hpool, ← poolFor_none inters.length, ← execSimple] at h
    exact E.filled_execSimple_none h
  | some pool => exact E.pureEngine.filled_execSimple_none ((E.execSimple_pool hpool).eq_ok h)

lemma filled_evalColumns {cols : Columns}
    (h : E.evalColumns par tables exprs rows = .ok cols) :
    Filled cols exprs.length rows.length := by
  cases hpool : poolFor par rows.length with
  | none =>
    rw [evalColumns, hpool] at h
    exact ⟨length_mapM h, mapM_forall h fun _ _ hcol => length_mapM hcol⟩
  | some pool =>
    obtain ⟨out, hout, hcols⟩ := bind_eq_ok ((E.evalColumns_pool hpool).eq_ok h)
    cases hcols
    have := filled_rowsToCols out exprs.length
    rwa [length_mapM hout] at this

lemma slots_of_mapM : ∀ {exprs : List (SqlExpr σ κ)} {slots : List (Option (List CfmlValue))},
    exprs.mapM (fun e =>
      match passthrough e with
      | some (ti, ci) => do
        let src ← sourceColumn tables ti ci
        return some (rows.map (passthroughCell src))
      | none => (return none : Except String _)) = .ok slots →
    slots.countP isNone = (exprs.filter fun e => (passthrough e).isNone).length ∧
      ∀ col, some col ∈ slots → col.length = rows.length
  | [], slots, h => by
    cases h
    exact ⟨rfl, fun _ h => nomatch h⟩
  | e :: exprs, slots, h => by
    rw [mapM_cons] at h
    obtain ⟨slot, hslot, h⟩ := bind_eq_ok h
    obtain ⟨rest, hrest, h⟩ := bind_eq_ok h
    cases h
    obtain ⟨hcount, hcols⟩ := slots_of_mapM hrest
    cases hp : passthrough e with
    | none =>
      rw [hp] at hslot
      cases hslot
      rw [countP_cons_of_pos rfl, filter_cons_of_pos (by rw [hp]; rfl), hcount]
      refine ⟨rfl, fun col hcol => ?_⟩
      rcases mem_cons.1 hcol with h | hcol
      · cases h
      · exact hcols col hcol
    | some at_ =>
      rw [hp] at hslot
      obtain ⟨src, _, hslot⟩ := bind_eq_ok hslot
      cases hslot
      rw [countP_cons_of_neg (by simp), filter_cons_of_neg (by rw [hp]; simp), hcount]
      refine ⟨rfl, fun col hcol => ?_⟩
      rcases mem_cons.1 hcol with h | hcol
      · cases h
        exact length_map _
      · exact hcols col hcol

lemma filled_buildColsForExprs {cols : Columns}
    (h : E.buildColsForExprs par tables exprs rows = .ok cols) :
    Filled cols exprs.length rows.length := by
  obtain ⟨slots, hslots, h⟩ := bind_eq_ok h
  obtain ⟨built, hbuilt, h⟩ := bind_eq_ok h
  cases h
  obtain ⟨hcount, hcols⟩ := slots_of_mapM hslots
  have hfilled := E.filled_evalColumns hbuilt
  rw [← hcount] at hfilled
  rw [← length_mapM hslots]
  exact filled_placeColumns hfilled hcols

lemma filled_execNoJoinFused {cond : Option (CompiledExpr σ κ)} {rowCount : Nat}
    (h : E.execNoJoinFused par tables cond exprs orderBy rowCount = .ok body) :
    FilledBody body exprs.length orderBy.length := by
  obtain ⟨rows, _, h⟩ := bind_eq_ok h
  obtain ⟨data, hdata, h⟩ := bind_eq_ok h
  obtain ⟨built, hbuilt, h⟩ := bind_eq_ok h
  cases h
  have hfilled := E.filled_buildColsForExprs hdata
  have hkeys := E.filled_buildColsForExprs hbuilt
  refine ⟨hfilled, ?_⟩
  let slot := fun e : SqlExpr σ κ => (intAlias e).map fun slot =>
    data[slot]?.getD (replicate rows.length .null)
  have hcount : (orderBy.map slot).countP isNone =
      (orderBy.filter fun e => (intAlias e).isNone).length := by
    rw [countP_map, countP_eq_length_filter]
    congr 2
    funext e
    exact isNone_map
  have hplaced : Filled (placeColumns (orderBy.map slot) built) (orderBy.map slot).length
      rows.length := filled_placeColumns (hcount ▸ hkeys) ?_
  · rwa [length_map] at hplaced
  · intro col hcol
    obtain ⟨e, _, he⟩ := mem_map.1 hcol
    obtain ⟨i, _, rfl⟩ := map_eq_some_iff.1 he
    cases hi : data[i]? with
    | none => exact length_replicate
    | some c => exact hfilled.height_eq c (mem_of_getElem? hi)

lemma filled_execAggregate {groupBy : List (SqlExpr σ κ)} {having : Option (SqlExpr σ κ)}
    (h : E.execAggregate par tables groupBy having exprs orderBy inters = .ok body) :
    FilledBody body exprs.length orderBy.length := by
  have hrows : ∀ rows : List (List CfmlValue × List CfmlValue),
      FilledBody (transpose (rows.map Prod.fst) exprs.length,
        transpose (rows.map Prod.snd) orderBy.length, rows.length) exprs.length orderBy.length := by
    intro rows
    have hdata := filled_rowsToCols (rows.map Prod.fst) exprs.length
    have hkeys := filled_rowsToCols (rows.map Prod.snd) orderBy.length
    rw [length_map, ← transpose_eq] at hdata hkeys
    exact ⟨hdata, hkeys⟩
  rw [execAggregate] at h
  split at h
  all_goals
    obtain ⟨partitions, _, h⟩ := bind_eq_ok h
    obtain ⟨found, _, h⟩ := bind_eq_ok h
    cases h
    exact hrows (found.filterMap id)

lemma filled_runPicked {core : BoundCore σ κ} (h : E.runPicked par tables core = .ok body) :
    FilledBody body core.exprs.length core.orderBy.length := by
  rw [runPicked] at h
  cases hfused : E.fusedTable tables core with
  | some t =>
    rw [hfused] at h
    exact E.filled_execNoJoinFused h
  | none =>
    rw [hfused] at h
    obtain ⟨inters, _, h⟩ := bind_eq_ok h
    obtain ⟨filtered, _, h⟩ := bind_eq_ok h
    split at h
    · exact E.filled_execAggregate h
    · exact E.filled_execSimple h

/-! ## The whole core -/

lemma length_deriveNames : ∀ (i : Nat) (seen : List String) (cols : List (SelectColumn σ κ)),
    (E.deriveNames i seen cols).length = cols.length
  | _, _, [] => rfl
  | i, _, _ :: cols => congrArg (· + 1) (length_deriveNames (i + 1) _ cols)

lemma filled_distinctBody {n : Nat} (h : FilledBody body n k) :
    FilledBody (E.distinctBody body) n k := by
  have hmask := length_dedupKeepMask E.platform body.1 body.2.2
  exact ⟨h.data.map fun col hcol => length_retain (hcol.trans hmask.symm),
    h.keys.map fun col hcol => length_retain (hcol.trans hmask.symm)⟩

lemma filled_topBody (top : Nat) {n : Nat} (h : FilledBody body n k) :
    FilledBody (topBody top body) n k := by
  obtain ⟨data, keys, rowCount⟩ := body
  rw [topBody]
  split
  · next hlt =>
    have htake : ∀ col : List CfmlValue, col.length = rowCount → (col.take top).length = top := by
      intro col hcol
      rw [length_take, hcol]
      omega
    exact ⟨h.data.map htake, h.keys.map htake⟩
  · exact h

lemma rect_finishCore (core : SelectBody σ κ) {names : List String}
    (h : FilledBody body names.length k) : (E.finishCore core names body).Rect names.length k := by
  have hdistinct :
      FilledBody (if core.distinct then E.distinctBody body else body) names.length k := by
    split
    · exact E.filled_distinctBody h
    · exact h
  rw [finishCore]
  cases core.top with
  | none => exact ⟨rfl, hdistinct.data, hdistinct.keys⟩
  | some n =>
    have htop := filled_topBody n hdistinct
    exact ⟨rfl, htop.data, htop.keys⟩

lemma rect_runCoreOn (h : E.runCoreOn par tables core ob = .ok r) :
    r.Rect r.columns.length ob.length := by
  obtain ⟨cols, _, h⟩ := bind_eq_ok h
  obtain ⟨body, hbody, h⟩ := bind_eq_ok h
  cases h
  have hfilled := E.filled_runPicked hbody
  have hnames : (E.deriveColumnNames cols).length = cols.length := E.length_deriveNames 0 [] cols
  rw [show (E.bindCore tables core cols ob).exprs.length = (E.deriveColumnNames cols).length from
      (length_map _).trans hnames.symm,
    show (E.bindCore tables core cols ob).orderBy.length = ob.length from length_map _]
    at hfilled
  have hrect := E.rect_finishCore core hfilled
  rwa [← hrect.names_eq] at hrect

lemma filled_singletons (row : List CfmlValue) : Filled (row.map fun v => [v]) row.length 1 where
  width_eq := length_map _
  height_eq := by
    intro col hcol
    obtain ⟨v, _, rfl⟩ := mem_map.1 hcol
    rfl

lemma rect_runNoFrom (h : E.runNoFrom core ob = .ok r) : r.Rect r.columns.length ob.length := by
  obtain ⟨row, hrow, h⟩ := bind_eq_ok h
  obtain ⟨keys, hkeys, h⟩ := bind_eq_ok h
  cases h
  have hnames : (E.deriveColumnNames core.columns).length = row.length :=
    (E.length_deriveNames 0 [] core.columns).trans (length_mapM hrow).symm
  exact ⟨rfl, hnames ▸ filled_singletons row, length_mapM hkeys ▸ filled_singletons keys⟩

lemma rect_runCore {sources : List (String × QueryData CfmlValue)}
    (h : E.runCore par sources core ob = .ok r) :
    r.Rect r.columns.length ob.length := by
  obtain ⟨tables, _, h⟩ := bind_eq_ok h
  split at h
  · exact E.rect_runNoFrom h
  · exact E.rect_runCoreOn h

end SqlEngine

end RustCfml.Qoq
