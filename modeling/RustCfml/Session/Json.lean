import RustCfml.Common.ObjCodecRoundTrip
import RustCfml.Common.VersionedMap
import RustCfml.Lib.Decimal
import RustCfml.Lib.F64Arith

/-!
# Session values as JSON

A session goes to its store as JSON and comes back. Dates, binaries and queries become objects with
a `_cftype` key, and reading takes any object of that shape for one, **whoever wrote it**: a struct
that looks tagged changes its type, and a row that looks tagged is no row. The text in between is
`serde_json`'s, which writes any depth of nesting and refuses to read more than 127 levels.
-/

namespace RustCfml.SessionJson

open QueryData ObjCodec List Option ValueMap

inductive Json where
  | null
  | bool (b : Bool)
  | int (i : Int64)
  | num (d : F64)
  | str (s : String)
  | arr (items : List Json)
  | obj (entries : List (String × Json))

/-- What reading and writing take from outside: the order a `HashMap` is walked in, and
`as_string`. -/
structure Serde where
  order : List (String × Json) → List (String × Json)
  order_perm : ∀ es, (order es).Perm es
  asString : CfmlValue → String
  asString_string : ∀ s, asString (.string s) = s

variable (S : Serde)

/-! ## Writing -/

def kindText : DateKind → String
  | .dateTime => "ts"
  | .date => "d"
  | .time => "t"

def hexDigit (n : Nat) : Char := if n < 10 then Char.ofNat (48 + n) else Char.ofNat (87 + n)

def hexText (bytes : List UInt8) : String :=
  .ofList (bytes.flatMap fun b => [hexDigit (b.toNat / 16), hexDigit (b.toNat % 16)])

def rowOf (columns : List String) (shown : List (List Json)) (r : Nat) : ValueMap Json :=
  ValueMap.ofEntries ((columns.zip shown).map fun p => (p.1, p.2[r]?.getD .null)) []

def queryJson (columns : List String) (shown : List (List Json)) (rowCount : Nat) : Json :=
  .obj [("_cftype", .str "query"), ("columns", .arr (columns.map .str)),
    ("rows", .arr ((List.range rowCount).map fun r => .obj (S.order (rowOf columns shown r))))]

mutual

def toJson : CfmlValue → Json
  | .null => .null
  | .bool b => .bool b
  | .int i => .int i
  | .double d => .num d
  | .timeSpan d => .num d
  | .dateTime d => .obj [("_cftype", .str "datetime"), ("secs", .int d.secs),
      ("nanos", .int (Int64.ofNat d.nanos.val)), ("kind", .str (kindText d.kind))]
  | .string s => .str s
  | .array xs => .arr (toJsons xs)
  | .queryColumn cells _ => .arr (toJsons cells)
  | .struct es => .obj (toJsonEntries es)
  | .inst es => .obj (toJsonEntries es)
  | .binary b => .obj [("_cftype", .str "binary"), ("data", .str (hexText b))]
  | .query columns data => queryJson S columns (toJsonColumns data) (rowCount ⟨columns, data⟩)
  | .code => .null

def toJsons : List CfmlValue → List Json
  | [] => []
  | v :: vs => toJson v :: toJsons vs

def toJsonEntries : List (String × CfmlValue) → List (String × Json)
  | [] => []
  | (k, v) :: es => (k, toJson v) :: toJsonEntries es

def toJsonCells : List CfmlValue → List Json
  | [] => []
  | v :: vs => (if v.isNull then .str "" else toJson v) :: toJsonCells vs

def toJsonColumns : List (List CfmlValue) → List (List Json)
  | [] => []
  | col :: cols => toJsonCells col :: toJsonColumns cols

end

/-! ## Reading -/

def hexValue (b : UInt8) : Option Nat :=
  let n := b.toNat
  if 48 ≤ n ∧ n ≤ 57 then some (n - 48)
  else if 97 ≤ n ∧ n ≤ 102 then some (n - 87)
  else if 65 ≤ n ∧ n ≤ 70 then some (n - 55)
  else none

def hexPair (a b : UInt8) : Option UInt8 :=
  match hexValue a, hexValue b with
  | some x, some y => some (UInt8.ofNat (16 * x + y))
  | none, some y => if a = 43 then some (UInt8.ofNat y) else none
  | _, none => none

/-- Pairs that are no byte are left out, and so is an odd digit at the end. -/
def hexBytes : List UInt8 → List UInt8
  | a :: b :: rest => (hexPair a b).toList ++ hexBytes rest
  | _ => []

def visitF64 (d : F64) : CfmlValue :=
  if d.isIntegral && decide (d.absRatio.1 ≤ 2 ^ 63 * d.absRatio.2) then .int d.toI64 else .double d

def number : CfmlValue → Option Int64
  | .int i => some i
  | .double d => some d.toI64
  | v => (Decimal.parse (-2 ^ 63) (2 ^ 63 - 1) (trim (S.asString v).toList)).map Int64.ofInt

def epochDate (secs nanos : Int64) (kind : DateKind) : CfmlDate :=
  ⟨secs + Int64.ofInt (nanos.toInt / 1000000000), Fin.ofNat _ (nanos.toInt % 1000000000).toNat,
    kind⟩

def kindOfText (text : Option String) : DateKind :=
  if text = some "d" then .date else if text = some "t" then .time else .dateTime

def asStruct : CfmlValue → Option (ValueMap CfmlValue)
  | .struct m => some m
  | _ => none

def rowMaps : Option CfmlValue → List (ValueMap CfmlValue)
  | some (.array rows) => rows.filterMap asStruct
  | _ => []

def taggedBinary (m : ValueMap CfmlValue) : Option CfmlValue :=
  match m.get? "data" with
  | some (.string hex) => some (.binary (hexBytes (stringBytes hex)))
  | _ => none

def taggedQuery (m : ValueMap CfmlValue) : Option CfmlValue :=
  match m.get? "columns" with
  | some (.array cols) => some (queryOfRows (cols.map S.asString) (rowMaps (m.get? "rows")))
  | _ => none

def taggedDate (m : ValueMap CfmlValue) : Option CfmlValue :=
  match (m.get? "secs").bind (number S), (m.get? "nanos").bind (number S) with
  | some secs, some nanos =>
    some (.dateTime (epochDate secs nanos (kindOfText ((m.get? "kind").map S.asString))))
  | _, _ => none

def tagged (m : ValueMap CfmlValue) : Option CfmlValue :=
  match m.get? "_cftype" with
  | some (.string t) =>
    if t = "binary" then taggedBinary m
    else if t = "query" then taggedQuery S m
    else if t = "datetime" then taggedDate S m
    else none
  | _ => none

def fromJsonMap (m : ValueMap CfmlValue) : CfmlValue := (tagged S m).getD (.struct m)

mutual

def fromJson : Json → CfmlValue
  | .null => .null
  | .bool b => .bool b
  | .int i => .int i
  | .num d => visitF64 d
  | .str s => .string s
  | .arr items => .array (fromJsons items)
  | .obj es => fromJsonMap S (ValueMap.ofEntries (fromJsonEntries es) [])

def fromJsons : List Json → List CfmlValue
  | [] => []
  | j :: js => fromJson j :: fromJsons js

def fromJsonEntries : List (String × Json) → List (String × CfmlValue)
  | [] => []
  | (k, j) :: es => (k, fromJson j) :: fromJsonEntries es

end

/-- Values made of null, booleans, integers, strings, dates, arrays, structs and queries. -/
inductive Data : CfmlValue → Prop where
  | null : Data .null
  | bool (b : Bool) : Data (.bool b)
  | int (i : Int64) : Data (.int i)
  | string (s : String) : Data (.string s)
  | dateTime (d : CfmlDate) : Data (.dateTime d)
  | array {xs : List CfmlValue} (items : ∀ x ∈ xs, Data x) : Data (.array xs)
  | struct {m : ValueMap CfmlValue} (distinct : m.Distinct) (values : ∀ e ∈ m, Data e.2) :
      Data (.struct m)
  | query {q : QueryData CfmlValue} (rectangular : Rectangular q)
      (cells : ∀ col ∈ q.data, ∀ v ∈ col, Data v) : Data (.query q.columns q.data)

/-! ## The text -/

mutual

/-- The levels of arrays and objects. -/
def depth : Json → Nat
  | .arr items => depths items + 1
  | .obj entries => entryDepths entries + 1
  | _ => 0

def depths : List Json → Nat
  | [] => 0
  | j :: js => max (depth j) (depths js)

def entryDepths : List (String × Json) → Nat
  | [] => 0
  | (_, j) :: es => max (depth j) (entryDepths es)

end

/-- `serde_json::to_string` and `from_str`: what is written of a session value is read as it was, up
to the nesting that the parser allows (127 levels, less those of the record the value is a part
of). -/
structure TextLayer (T : Type) where
  write : Json → T
  read : T → Option Json
  levels : Nat
  read_write : ∀ v, Data v →
    read (write (toJson S v)) = if depth (toJson S v) ≤ levels then some (toJson S v) else none

variable {T : Type}

/-- What a session value is after it was stored; `none` where the text is refused. -/
def restored (L : TextLayer S T) (v : CfmlValue) : Option CfmlValue :=
  (L.read (L.write (toJson S v))).map (fromJson S)

def isString : Option CfmlValue → Bool
  | some (.string _) => true
  | _ => false

def isArray : Option CfmlValue → Bool
  | some (.array _) => true
  | _ => false

def looksTagged (m : ValueMap CfmlValue) : Bool :=
  match m.get? "_cftype" with
  | some (.string t) =>
    t == "binary" && isString (m.get? "data") || t == "query" && isArray (m.get? "columns") ||
      t == "datetime" && ((m.get? "secs").bind (number S)).isSome &&
        ((m.get? "nanos").bind (number S)).isSome
  | _ => false

/-- No struct and no row of a query looks tagged, no cell is null, and columns whose names fold
together hold the same cells. -/
inductive Kept : CfmlValue → Prop where
  | null : Kept .null
  | bool (b : Bool) : Kept (.bool b)
  | int (i : Int64) : Kept (.int i)
  | string (s : String) : Kept (.string s)
  | dateTime (d : CfmlDate) : Kept (.dateTime d)
  | array {xs : List CfmlValue} (items : ∀ x ∈ xs, Kept x) : Kept (.array xs)
  | struct {m : ValueMap CfmlValue} (plain : looksTagged S m = false) (values : ∀ e ∈ m, Kept e.2) :
      Kept (.struct m)
  | query {columns : List String} {data : List (List CfmlValue)}
      (noNull : ∀ col ∈ data, ∀ v ∈ col, v ≠ .null) (cells : ∀ col ∈ data, ∀ v ∈ col, Kept v)
      (folded : ∀ p ∈ columns.zip data, ∀ p' ∈ columns.zip data, asciiFold p.1 = asciiFold p'.1 →
        p.2 = p'.2)
      (plain : ∀ r < rowCount ⟨columns, data⟩,
        looksTagged S (ValueMap.ofEntries (rowEntries ⟨columns, data⟩ r) []) = false) :
      Kept (.query columns data)

variable {S}

lemma toJsons_eq (vs : List CfmlValue) : toJsons S vs = vs.map (toJson S) := by
  induction vs with
  | nil => rfl
  | cons v vs ih => rw [toJsons, ih, map_cons]

lemma toJsonEntries_eq (es : List (String × CfmlValue)) :
    toJsonEntries S es = es.map fun e => (e.1, toJson S e.2) := by
  induction es with
  | nil => rfl
  | cons e es ih => rw [toJsonEntries, ih, map_cons]

lemma toJsonCells_eq (vs : List CfmlValue) : toJsonCells S vs = vs.map fun v =>
    toJson S (shown v) := by
  induction vs with
  | nil => rfl
  | cons v vs ih =>
    rw [toJsonCells, ih, map_cons]
    cases v <;> rfl

lemma toJsonColumns_eq (cols : List (List CfmlValue)) :
    toJsonColumns S cols = cols.map fun col => col.map fun v => toJson S (shown v) := by
  induction cols with
  | nil => rfl
  | cons col cols ih => rw [toJsonColumns, ih, toJsonCells_eq, map_cons]

lemma fromJsons_eq (js : List Json) : fromJsons S js = js.map (fromJson S) := by
  induction js with
  | nil => rfl
  | cons j js ih => rw [fromJsons, ih, map_cons]

lemma fromJsonEntries_eq (es : List (String × Json)) :
    fromJsonEntries S es = es.map fun e => (e.1, fromJson S e.2) := by
  induction es with
  | nil => rfl
  | cons e es ih => rw [fromJsonEntries, ih, map_cons]

/-! ## Maps -/

variable {α : Type} {q : QueryData CfmlValue} {m : ValueMap CfmlValue} {r : Nat}

variable {β : Type} {m' : ValueMap CfmlValue} {k : String}

lemma insert_map (g : α → β) (m : ValueMap α) (k : String) (v : α) :
    ValueMap.insert (m.map fun e => (e.1, g e.2)) k (g v) = (ValueMap.insert m k v).map fun e =>
    (e.1, g e.2) := by
  induction m with
  | nil => rfl
  | cons e m ih =>
    rw [map_cons, ValueMap.insert, ValueMap.insert, ih]
    split <;> rfl

lemma ofEntries_map (g : α → β) (es m : ValueMap α) :
    ofEntries (es.map fun e => (e.1, g e.2)) (m.map fun e => (e.1, g e.2)) =
      (ofEntries es m).map fun e => (e.1, g e.2) := by
  induction es generalizing m with
  | nil => rfl
  | cons e es ih =>
    show ofEntries _ (ValueMap.insert _ e.1 (g e.2)) = _
    rw [insert_map, ih]
    rfl

lemma distinct_ofEntries (es : ValueMap α) {m : ValueMap α} (h : m.Distinct) :
    (ofEntries es m).Distinct := by
  induction es generalizing m with
  | nil => exact h
  | cons e es ih => exact ih (h.insert e.1 e.2)

lemma get?_perm {m m' : ValueMap α} (h : m'.Perm m) (hd : m.Distinct) (k : String) :
    m'.get? k = m.get? k := by
  have hfolds := h.map fun e => asciiFold e.1
  by_cases hmem : asciiFold k ∈ m'.map fun e => asciiFold e.1
  · obtain ⟨v, hv, k', hk, hin⟩ := exists_get?_of_mem hmem
    rw [hv, get?_congr hk.symm]
    exact (get?_of_mem hd (h.mem_iff.1 hin)).symm
  · rw [get?_eq_none_iff.2 hmem, get?_eq_none_iff.2 fun h => hmem (hfolds.mem_iff.2 h)]

lemma tagged_ne_struct {v : CfmlValue} (h : tagged S m = some v) : asStruct v = none := by
  unfold tagged taggedBinary taggedQuery taggedDate at h
  repeat' split at h
  all_goals cases h
  all_goals rfl

lemma isSome_tagged (m : ValueMap CfmlValue) : (tagged S m).isSome = looksTagged S m := by
  unfold tagged looksTagged
  split
  · next t _ =>
    by_cases hb : t = "binary"
    · subst hb
      rw [if_pos rfl, taggedBinary]
      cases m.get? "data" with
      | none => rfl
      | some v => cases v <;> rfl
    · by_cases hq : t = "query"
      · subst hq
        rw [if_neg (by decide), if_pos rfl, taggedQuery]
        cases m.get? "columns" with
        | none => rfl
        | some v => cases v <;> rfl
      · by_cases hd : t = "datetime"
        · subst hd
          rw [if_neg (by decide), if_neg (by decide), if_pos rfl, taggedDate]
          cases (m.get? "secs").bind (number S) <;> cases (m.get? "nanos").bind (number S) <;> rfl
        · simp [hb, hq, hd]
  · rfl

lemma asStruct_fromJsonMap (m : ValueMap CfmlValue) :
    asStruct (fromJsonMap S m) = if looksTagged S m then none else some m := by
  rw [fromJsonMap, ← isSome_tagged]
  cases h : tagged S m with
  | none => rfl
  | some v => exact tagged_ne_struct h

lemma fromJsonMap_eq_struct_iff : fromJsonMap S m = .struct m' ↔ looksTagged S m = false ∧
    m = m' := by
  have hstruct : fromJsonMap S m = .struct m' ↔ asStruct (fromJsonMap S m) = some m' := by
    cases fromJsonMap S m <;> simp [asStruct]
  rw [hstruct, asStruct_fromJsonMap]
  cases looksTagged S m <;> simp

lemma looksTagged_congr (h : ∀ k, m.get? k = m'.get? k) : looksTagged S m = looksTagged S m' := by
  simp only [looksTagged, h]

/-! ## Values that come back -/

def reread (S : Serde) (v : CfmlValue) : CfmlValue := fromJson S (toJson S v)

lemma reread_array (xs : List CfmlValue) : reread S (.array xs) = .array (xs.map (reread S)) := by
  rw [reread, toJson, toJsons_eq, fromJson, fromJsons_eq, List.map_map]
  rfl

lemma reread_struct (hd : m.Distinct) :
    reread S (.struct m) = fromJsonMap S (m.map fun e => (e.1, reread S e.2)) := by
  have hd' : Distinct ([] ++ m.map fun e => (e.1, reread S e.2)) := by
    simpa [Distinct, List.map_map, Function.comp_def] using hd
  have hmap : (m.map fun e => (e.1, toJson S e.2)).map (fun e => (e.1, fromJson S e.2)) =
      m.map fun e => (e.1, reread S e.2) := by
    rw [List.map_map]
    rfl
  rw [reread, toJson, toJsonEntries_eq, fromJson, fromJsonEntries_eq, hmap,
    ofEntries_of_distinct hd', nil_append]

lemma kindOfText_kindText (k : DateKind) : kindOfText (some (kindText k)) = k := by
  cases k <;> decide

lemma get?_tail {k' : String} (h : asciiFold k' ≠ asciiFold k) (v : α) (m : ValueMap α) :
    ValueMap.get? ((k', v) :: m) k = m.get? k := by
  rw [get?_cons, if_neg h]

lemma get?_head (k : String) (v : α) (m : ValueMap α) : ValueMap.get? ((k, v) :: m) k = some v := by
  rw [get?_cons, if_pos rfl]

lemma fromJson_obj {es : List (String × Json)} (hd : Distinct es) :
    fromJson S (.obj es) = fromJsonMap S (es.map fun e => (e.1, fromJson S e.2)) := by
  have hd' : Distinct ([] ++ es.map fun e => (e.1, fromJson S e.2)) := by
    simpa [Distinct, List.map_map, Function.comp_def] using hd
  rw [fromJson, fromJsonEntries_eq, ofEntries_of_distinct hd', nil_append]

lemma fromJson_arr (items : List Json) :
    fromJson S (.arr items) = .array (items.map (fromJson S)) := by
  rw [fromJson, fromJsons_eq]

lemma reread_dateTime (d : CfmlDate) : reread S (.dateTime d) = .dateTime d := by
  obtain ⟨secs, nanos, kind⟩ := d
  have hlt := nanos.isLt
  have hnanos :
    (Int64.ofNat nanos.val).toInt = nanos.val := by rw [Int64.toInt_ofNat_of_lt (by omega)]
  have hdiv : (nanos.val : Int) / 1000000000 = 0 := by omega
  have hmod : (nanos.val : Int) % 1000000000 = nanos.val := by omega
  have hdate : epochDate secs (Int64.ofNat nanos.val) kind = ⟨secs, nanos, kind⟩ := by
    rw [epochDate, hnanos, hdiv, hmod]
    congr 1
    · exact Int64.add_zero secs
    · exact Fin.ext (Nat.mod_eq_of_lt hlt)
  rw [reread, toJson, fromJson_obj (by simp [Distinct]; decide)]
  simp only [map_cons, map_nil, fromJson]
  rw [fromJsonMap, tagged, get?_head]
  dsimp only
  rw [if_neg (by decide), if_neg (by decide), if_pos rfl, taggedDate,
    get?_tail (by decide), get?_head, get?_tail (by decide), get?_tail (by decide), get?_head,
    get?_tail (by decide), get?_tail (by decide), get?_tail (by decide), get?_head]
  dsimp only [bind_some, number, map_some]
  rw [S.asString_string, kindOfText_kindText, hdate]
  rfl

/-! ## Queries -/

def readRow (S : Serde) (q : QueryData CfmlValue) (r : Nat) : ValueMap CfmlValue :=
  (S.order (rowOf q.columns (toJsonColumns S q.data) r)).map fun e => (e.1, fromJson S e.2)

lemma rowOf_eq (h : Rectangular q) (hr : r < q.rowCount) :
    rowOf q.columns (toJsonColumns S q.data) r =
      (ofEntries (q.rowEntries r) []).map fun e => (e.1, toJson S e.2) := by
  have hentries :
    ((q.columns.zip (toJsonColumns S q.data)).map fun p => (p.1, p.2[r]?.getD .null)) =
      (q.rowEntries r).map fun e => (e.1, toJson S e.2) := by
    rw [toJsonColumns_eq, zip_map_right, List.map_map, rowEntries, List.map_map]
    refine map_congr_left fun p hp => ?_
    have hlt : r < p.2.length := by rwa [h.level p.2 (of_mem_zip hp).2]
    simp [shownAt, hlt]
  rw [rowOf, hentries]
  exact ofEntries_map (toJson S) (q.rowEntries r) []

lemma distinct_rowOf (columns : List String) (shown : List (List Json)) (r : Nat) :
    (rowOf columns shown r).Distinct := distinct_ofEntries _ nodup_nil

lemma distinct_order {es : ValueMap Json} (h : es.Distinct) : Distinct (S.order es) :=
  ((S.order_perm es).map _).nodup_iff.2 h

lemma get?_readRow (h : Rectangular q) (hr : r < q.rowCount) (k : String) : (readRow S q r).get? k =
      ((ofEntries (q.rowEntries r) []).get? k).map (reread S) := by
  rw [readRow, get?_map, get?_perm (S.order_perm _) (distinct_rowOf _ _ _), rowOf_eq h hr, get?_map,
    Option.map_map]
  rfl

lemma keys_readRow (hk : k ∈ (readRow S q r).keys) : k ∈ q.columns := by
  obtain ⟨e, he, rfl⟩ := List.mem_map.1 hk
  obtain ⟨e', he', rfl⟩ := List.mem_map.1 he
  have hmem : e'.1 ∈ (rowOf q.columns (toJsonColumns S q.data) r).keys :=
    List.mem_map_of_mem ((S.order_perm _).mem_iff.1 he')
  rcases mem_keys_ofEntries hmem with hnil | hcol
  · cases hnil
  · rw [List.map_map] at hcol
    obtain ⟨p, hp, heq⟩ := List.mem_map.1 hcol
    rw [← heq]
    exact (of_mem_zip hp).1

def plainRows (S : Serde) (q : QueryData CfmlValue) : List Nat :=
  (List.range q.rowCount).filter fun r => !looksTagged S (readRow S q r)

lemma reread_query (h : Rectangular q) : reread S (.query q.columns q.data) = .query q.columns
      (q.columns.map fun c => (plainRows S q).map fun r => reread S (q.viewCell r c)) := by
  have hrow : ∀ r, fromJson S (.obj (S.order (rowOf q.columns (toJsonColumns S q.data) r))) =
      fromJsonMap S (readRow S q r) := fun r => fromJson_obj (distinct_order (distinct_rowOf _ _ _))
  have hmaps : rowMaps (some (.array ((range q.rowCount).map fun r =>
      fromJsonMap S (readRow S q r)))) = (plainRows S q).map (readRow S q) := by
    rw [rowMaps, filterMap_map, plainRows, ← filterMap_eq_map, filterMap_filter]
    refine filterMap_congr fun r _ => ?_
    rw [Function.comp_apply, asStruct_fromJsonMap]
    cases looksTagged S (readRow S q r) <;> rfl
  have hcols : ((q.columns.map Json.str).map (fromJson S)).map S.asString = q.columns := by
    rw [List.map_map, List.map_map]
    conv_rhs => rw [← List.map_id q.columns]
    exact map_congr_left fun c _ => S.asString_string c
  have hrows : ((range q.rowCount).map fun r =>
      Json.obj (S.order (rowOf q.columns (toJsonColumns S q.data) r))).map (fromJson S) =
      (range q.rowCount).map fun r => fromJsonMap S (readRow S q r) := by
    rw [List.map_map]
    exact map_congr_left fun r _ => hrow r
  have hread : reread S (.query q.columns q.data) =
      queryOfRows q.columns ((plainRows S q).map (readRow S q)) := by
    rw [reread, toJson, queryJson, fromJson_obj (by simp [Distinct]; decide)]
    simp only [map_cons, map_nil, fromJson_arr]
    rw [fromJsonMap, tagged, get?_head, fromJson]
    dsimp only
    rw [if_neg (by decide), if_pos rfl, taggedQuery, get?_tail (by decide), get?_head,
      get?_tail (by decide), get?_tail (by decide), get?_head, hrows, ← hmaps]
    dsimp only [getD_some]
    rw [hcols]
  rw [hread, queryOfRows, fromNamedRows_eq]
  · congr 1
    refine map_congr_left fun c hc => ?_
    rw [List.map_map]
    refine map_congr_left fun r hr => ?_
    have hlt : r < q.rowCount := mem_range.1 (mem_of_mem_filter hr)
    rw [Function.comp_apply, rowValue, get?_readRow h hlt, get?_rowEntries h.aligned hc]
    rfl
  · intro row hrow k hk
    obtain ⟨r, -, rfl⟩ := List.mem_map.1 hrow
    exact ⟨k, keys_readRow hk, rfl⟩

lemma plainRows_eq (h : Rectangular q)
    (heq : (q.columns.map fun c => (plainRows S q).map fun r => reread S (q.viewCell r c)) =
      q.data) :
    plainRows S q = range q.rowCount := by
  refine filter_eq_self.2 fun r hr => ?_
  by_contra htagged
  have hcol : q.data ≠ [] := by
    intro hnil
    rw [rowCount, hnil] at hr
    cases hr
  obtain ⟨col, hmem⟩ := exists_mem_of_ne_nil _ hcol
  have hlen : (plainRows S q).length = (range q.rowCount).length := by
    rw [← heq] at hmem
    obtain ⟨c, -, hc⟩ := List.mem_map.1 hmem
    rw [length_range, ← h.level col (heq ▸ hmem), ← hc, length_map]
  have hall := length_filter_eq_length_iff.1 hlen
  exact htagged (hall r hr)

lemma get?_rowEntries_eq_none (hk : ¬∃ c ∈ q.columns, asciiFold c = asciiFold k) :
    (ofEntries (q.rowEntries r) []).get? k = none := by
  rw [get?_eq_none_iff]
  intro hmem
  obtain ⟨e, he, hfold⟩ := List.mem_map.1 hmem
  have hkeys : e.1 ∈ (ofEntries (q.rowEntries r) []).keys := List.mem_map_of_mem he
  rcases mem_keys_ofEntries hkeys with hnil | hcol
  · cases hnil
  · rw [rowEntries, List.map_map] at hcol
    obtain ⟨p, hp, heq⟩ := List.mem_map.1 hcol
    exact hk ⟨e.1, heq ▸ (of_mem_zip hp).1, hfold⟩

/-- Once the cells are kept, a row is read as the row view shows it. -/
lemma looksTagged_readRow (h : Rectangular q)
    (hcells : ∀ col ∈ q.data, ∀ v ∈ col, v ≠ .null ∧ reread S v = v)
    (hr : r < q.rowCount) :
    looksTagged S (readRow S q r) = looksTagged S (ofEntries (q.rowEntries r) []) := by
  refine looksTagged_congr fun k => ?_
  rw [get?_readRow h hr]
  by_cases hk : ∃ c ∈ q.columns, asciiFold c = asciiFold k
  · obtain ⟨c, hc, hfold⟩ := hk
    rw [get?_congr hfold.symm, get?_rowEntries h.aligned hc, map_some]
    obtain ⟨col, hcol, w, hw, hview⟩ := viewCell_cases h hr hc
    obtain ⟨hne, hkept⟩ := hcells col hcol w hw
    rw [hview, shown_of_ne_null hne, hkept]
  · rw [get?_rowEntries_eq_none hk, map_none]

lemma reread_eq_iff {v : CfmlValue} (hv : Data v) : reread S v = v ↔ Kept S v := by
  induction hv with
  | null => exact iff_of_true rfl .null
  | bool b => exact iff_of_true rfl (.bool b)
  | int i => exact iff_of_true rfl (.int i)
  | string s => exact iff_of_true rfl (.string s)
  | dateTime d => exact iff_of_true (reread_dateTime d) (.dateTime d)
  | @array xs items ih =>
    rw [reread_array, CfmlValue.array.injEq, map_eq_self_iff]
    constructor
    · exact fun h => .array fun x hx => (ih x hx).1 (h x hx)
    · rintro ⟨⟩
      rename_i hkept
      exact fun x hx => (ih x hx).2 (hkept x hx)
  | @struct m distinct values ih =>
    rw [reread_struct distinct, fromJsonMap_eq_struct_iff, map_eq_self_iff]
    have hentry : ∀ e : String × CfmlValue, (e.1, reread S e.2) = e ↔ reread S e.2 = e.2 :=
      fun e => ⟨fun h => congrArg Prod.snd h, fun h => Prod.ext rfl h⟩
    have hself : (∀ e ∈ m, (e.1, reread S e.2) = e) → (m.map fun e => (e.1, reread S e.2)) = m :=
      map_eq_self_iff.2
    constructor
    · rintro ⟨hplain, hsame⟩
      rw [hself hsame] at hplain
      exact .struct hplain fun e he => (ih e he).1 ((hentry e).1 (hsame e he))
    · rintro ⟨⟩
      rename_i hplain hkept
      have hsame : ∀ e ∈ m, (e.1, reread S e.2) = e :=
        fun e he => (hentry e).2 ((ih e he).2 (hkept e he))
      exact ⟨by rwa [hself hsame], hsame⟩
  | @query q rectangular cells ih =>
    rw [reread_query rectangular, CfmlValue.query.injEq]
    constructor
    · rintro ⟨-, heq⟩
      have hall := plainRows_eq rectangular heq
      have hplain := filter_eq_self.1 hall
      rw [hall] at heq
      obtain ⟨hcells, hfolded⟩ := (viewed_eq_data_iff CfmlValue.noConfusion rectangular).1 heq
      refine .query (fun col hcol v hv => (hcells col hcol v hv).1)
        (fun col hcol v hv => (ih col hcol v hv).1 (hcells col hcol v hv).2) hfolded fun r hr => ?_
      rw [← looksTagged_readRow rectangular hcells hr]
      simpa using hplain r (mem_range.2 hr)
    · rintro ⟨⟩
      rename_i hnull hkept hfolded hplain
      have hcells : ∀ col ∈ q.data, ∀ v ∈ col, v ≠ .null ∧ reread S v = v :=
        fun col hcol v hv => ⟨hnull col hcol v hv, (ih col hcol v hv).2 (hkept col hcol v hv)⟩
      have hall : plainRows S q = List.range q.rowCount := by
        refine filter_eq_self.2 fun r hr => ?_
        rw [looksTagged_readRow rectangular hcells (mem_range.1 hr)]
        simpa using hplain r (mem_range.1 hr)
      rw [hall]
      exact ⟨rfl, (viewed_eq_data_iff CfmlValue.noConfusion rectangular).2 ⟨hcells, hfolded⟩⟩

/-- **Session values come back as they were exactly when they are kept and are not nested too
deep.** -/
theorem session_round_trip (S : Serde) (L : TextLayer S T) {v : CfmlValue} (hv : Data v) :
    restored S L v = some v ↔ Kept S v ∧ depth (toJson S v) ≤ L.levels := by
  rw [restored, L.read_write v hv]
  split
  · next hdepth =>
    rw [map_some, some.injEq, and_iff_left hdepth]
    exact reread_eq_iff hv
  · next hdepth => exact iff_of_false nofun fun h => hdepth h.2

def plainSerde : Serde where
  order es := es
  order_perm _ := .refl _
  asString
    | .string s => s
    | _ => ""
  asString_string _ := rfl

/-- A text layer that keeps the tree. -/
def treeLayer : TextLayer plainSerde Json where
  write j := j
  read j := if depth j ≤ 127 then some j else none
  levels := 127
  read_write _ _ := rfl

theorem session_round_trip_query : let v := CfmlValue.array [.int 1, .query ["x"] [[.string "y"]]]
    Data v ∧ restored plainSerde treeLayer v = some v := by
  intro v
  have hcell : ∀ col ∈ [[CfmlValue.string "y"]], ∀ w ∈ col, w = .string "y" := by simp
  have hdata : Data v := by
    refine .array fun x hx => ?_
    rcases mem_cons.1 hx with rfl | hx
    · exact .int 1
    · obtain rfl := mem_singleton.1 hx
      exact .query (q := ⟨["x"], [[.string "y"]]⟩) ⟨rfl, by simp [rowCount]⟩
        fun col hcol w hw => hcell col hcol w hw ▸ .string "y"
  refine ⟨hdata,
    (session_round_trip plainSerde treeLayer hdata).2 ⟨.array fun x hx => ?_, by decide +kernel⟩⟩
  rcases mem_cons.1 hx with rfl | hx
  · exact .int 1
  · obtain rfl := mem_singleton.1 hx
    refine .query (fun col hcol w hw => ?_) (fun col hcol w hw => hcell col hcol w hw ▸ .string "y")
      (by simp) fun r hr => ?_
    · rw [hcell col hcol w hw]
      exact CfmlValue.noConfusion
    · obtain rfl : r = 0 := Nat.lt_one_iff.1 hr
      decide

/-- **What goes wrong**: a struct with the keys of a stored binary comes back as a binary. -/
theorem tagged_struct_changes :
    let v := CfmlValue.struct [("_cftype", .string "binary"), ("data", .string "00")]
    Data v ∧ restored plainSerde treeLayer v ≠ some v := by
  intro v
  have hdata : Data v := by
    refine .struct (by decide) fun e he => ?_
    simp at he
    rcases he with rfl | rfl <;> exact .string _
  refine ⟨hdata, fun h => ?_⟩
  have h : reread plainSerde v = v := some.inj h
  rw [reread_struct (by decide), fromJsonMap_eq_struct_iff] at h
  exact absurd h.1 (by decide)

end RustCfml.SessionJson
