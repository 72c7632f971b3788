import RustCfml.Common.ObjCodec
import RustCfml.Common.RowView

/-!
# What `objectLoad` gives back

`decode` undoes `encode` value by value, so the question is only what happens to a query, which goes
out through the row view. `loaded` is the answer in closed form, and `enc_spec` is the round trip
for every value: **decoding the encoding of `v` is `loaded v`**.
-/

namespace RustCfml.ObjCodec

open ByteReader QueryData List

lemma putLen_eq (n : Nat) : putLen n = if n < 128 then [UInt8.ofNat n]
      else (UInt8.ofNat (n % 128) ||| 0x80) :: putLen (n / 128) := by
  have hand : n &&& 0x7f = n % 128 := Nat.and_two_pow_sub_one_eq_mod n 7
  have hshift : n >>> 7 = n / 128 := Nat.shiftRight_eq_div_pow n 7
  rw [putLen]
  simp only [hand, hshift, Nat.div_eq_zero_iff_lt (show 0 < 128 by decide)]
  split
  · rw [Nat.mod_eq_of_lt ‹n < 128›]
  · rfl

lemma putLen_ne_nil (n : Nat) : putLen n ≠ [] := by
  rw [putLen_eq]
  split <;> simp

lemma varint_byte (b : Fin 128) : (UInt8.ofNat b &&& 0x7f).toNat = b ∧ UInt8.ofNat b &&& 0x80 = 0 ∧
      ((UInt8.ofNat b ||| 0x80) &&& 0x7f).toNat = b ∧ (UInt8.ofNat b ||| 0x80) &&& 0x80 ≠ 0 := by
  revert b
  decide

variable {levels n r : Nat} {q : QueryData CfmlValue} {parts : List Bytes} {c : String} {α : Type}
  {cols : List String}

lemma or_shift {b s : Nat} (hn : n < 2 ^ s) (hb : n + b * 2 ^ s < 2 ^ 64) :
    n ||| (b <<< s) % 2 ^ 64 = n + b * 2 ^ s := by
  have hlt : b * 2 ^ s < 2 ^ 64 := by omega
  rw [Nat.shiftLeft_eq, Nat.mod_eq_of_lt hlt, Nat.mul_comm, Nat.add_comm, Nat.or_comm]
  exact (Nat.two_pow_add_eq_or_of_lt hn b).symm

lemma lenLoop_last {k : Nat} {ss : List Nat} {m : Nat} {rest : Bytes} (hm : m < 128)
    (hn : n < 2 ^ k) (h64 : n + m * 2 ^ k < 2 ^ 64) (hrest : n + m * 2 ^ k ≤ rest.length) :
    lenLoop (k :: ss) n (putLen m ++ rest) = .ok (n + m * 2 ^ k, rest) := by
  obtain ⟨h1, h2, -, -⟩ := varint_byte ⟨m, hm⟩
  dsimp only at h1 h2
  rw [putLen_eq, if_pos hm]
  show (if UInt8.ofNat m &&& 0x80 = 0 then _ else _ : Reader Nat) rest = _
  rw [if_pos h2, h1, or_shift hn h64]
  show (if n + m * 2 ^ k > rest.length then _ else _ : Reader Nat) rest = _
  rw [if_neg (Nat.not_lt.2 hrest)]
  rfl

lemma lenLoop_putLen {j : Nat} : ∀ {k n m : Nat} {rest : Bytes}, m < 2 ^ (7 * (j + 1)) →
    n < 2 ^ (7 * k) →
      n + m * 2 ^ (7 * k) < 2 ^ 64 → n + m * 2 ^ (7 * k) ≤ rest.length →
      lenLoop ((range' k (j + 1)).map (7 * ·)) n (putLen m ++ rest) =
      .ok (n + m * 2 ^ (7 * k), rest) := by
  induction j with
  | zero =>
    intro k n m rest hm hn h64 hrest
    exact lenLoop_last hm hn h64 hrest
  | succ j ih =>
    intro k n m rest hm hn h64 hrest
    by_cases hm' : m < 128
    · exact lenLoop_last hm' hn h64 hrest
    · obtain ⟨-, -, h3, h4⟩ := varint_byte ⟨m % 128, Nat.mod_lt _ (by decide)⟩
      dsimp only at h3 h4
      -- the seven low bits go in at this shift, the rest of the number seven bits further up
      have hpow :
        2 ^ (7 * (k + 1)) = 128 * 2 ^ (7 * k) := by rw [Nat.mul_add, Nat.pow_add, Nat.mul_comm]
      have hsplit : n + m % 128 * 2 ^ (7 * k) + m / 128 * 2 ^ (7 * (k + 1)) =
          n + m * 2 ^ (7 * k) := by
        rw [hpow, ← Nat.mul_assoc, Nat.add_assoc, ← Nat.add_mul, Nat.mul_comm (m / 128),
          Nat.mod_add_div]
      have hlow : n + m % 128 * 2 ^ (7 * k) < 2 ^ (7 * (k + 1)) := by
        have hmod : m % 128 < 128 := Nat.mod_lt _ (by decide)
        have := Nat.mul_le_mul_right (2 ^ (7 * k)) (Nat.le_of_lt_succ hmod)
        omega
      have hhigh : m / 128 < 2 ^ (7 * (j + 1)) := by
        rw [Nat.div_lt_iff_lt_mul (by decide)]
        have : 2 ^ (7 * (j + 1 + 1)) = 2 ^ (7 * (j + 1)) * 128 := by rw [Nat.mul_add 7, Nat.pow_add]
        omega
      rw [putLen_eq, if_neg hm']
      show (if (UInt8.ofNat (m % 128) ||| 0x80) &&& 0x80 = 0 then _ else _ : Reader Nat)
        (putLen (m / 128) ++ rest) = _
      rw [if_neg h4, h3, or_shift hn (by omega), ← hsplit]
      exact ih hhigh hlow (by omega) (by omega)

lemma len_putLen {rest : Bytes} (hn : n < 2 ^ 64) (hrest : n ≤ rest.length) :
    len (putLen n ++ rest) = .ok (n, rest) := by
  have h : lenLoop ((range' 0 10).map (7 * ·)) 0 (putLen n ++ rest) =
    .ok (0 + n * 2 ^ (7 * 0), rest) :=
    lenLoop_putLen (Nat.lt_trans hn (by decide)) (by decide) (by omega) (by omega)
  rw [len, shifts, range_eq_range', h]
  simp

lemma Reads.len_bind {β : Type} {f : Nat → Reader β} {bs : Bytes} {b : β}
    (hn : n < 2 ^ 64) (hbs : n ≤ bs.length) (hf : Reads (f n) bs b) :
    Reads (len >>= f) (putLen n ++ bs) b := by
  intro rest
  show (len (putLen n ++ bs ++ rest)).bind (fun p => f p.1 p.2) = _
  rw [append_assoc, len_putLen hn (by rw [length_append]; omega)]
  exact hf rest

lemma reads_byte (b : UInt8) : Reads byte [b] b := fun _ => rfl

lemma reads_take (bs : Bytes) : Reads (take bs.length) bs bs := by
  intro rest
  rw [take, if_pos (by simp)]
  simp

lemma reads_text {s : String} (hs : (stringBytes s).length < 2 ^ 64) :
    Reads text (putText s) s := by
  have hutf : String.fromUTF8? ⟨(stringBytes s).toArray⟩ = some s := by
    rw [stringBytes, Array.toArray_toList, String.fromUTF8?, dif_pos s.isValidUTF8]
    rfl
  refine Reads.len_bind hs (Nat.le_refl _) fun rest => ?_
  show (take (stringBytes s).length (stringBytes s ++ rest)).bind _ = _
  rw [reads_take (stringBytes s) rest]
  simp only [Except.bind, hutf]
  rfl

lemma reads_fixed8 (n : UInt64) : Reads fixed8 (leBytes 8 n.toNat) n := by
  have h : Reads fixed8 (leBytes 8 n.toNat) (UInt64.ofNat (ofLeBytes (leBytes 8 n.toNat))) := by
    have ht := reads_take (leBytes 8 n.toNat)
    rw [length_leBytes] at ht
    exact ht.map
  rwa [ofLeBytes_leBytes n.toNat_lt, UInt64.ofNat_toNat] at h

/-! ## The values concerned, and what becomes of them -/

/-- A well-formed value of at most `levels` levels built from null, booleans, integers, doubles,
time spans, dates, strings, binaries, arrays, structs and queries. -/
def Plain : Nat → CfmlValue → Prop
  | 0, _ => False
  | levels + 1, v =>
    match v with
    | .null | .bool _ | .int _ | .double _ | .timeSpan _ | .dateTime _ => True
    | .string s => (stringBytes s).length < 2 ^ 64
    | .binary b => b.length < 2 ^ 64
    | .array xs => xs.length < 2 ^ 64 ∧ ∀ x ∈ xs, Plain levels x
    | .struct m => m.length < 2 ^ 64 ∧ ValueMap.Distinct m ∧
        ∀ e ∈ m, (stringBytes e.1).length < 2 ^ 64 ∧ Plain levels e.2
    | .query columns data =>
      columns.length < 2 ^ 64 ∧ (∀ c ∈ columns, (stringBytes c).length < 2 ^ 64) ∧
        Rectangular (⟨columns, data⟩ : QueryData CfmlValue) ∧
        (⟨columns, data⟩ : QueryData CfmlValue).rowCount < 2 ^ 64 ∧ ∀ col ∈ data, ∀ v ∈ col,
          Plain levels v
    | .queryColumn _ _ | .inst _ | .code => False

/-- The value `decode` returns for the encoding of one of them: each query as the row view shows it,
everything else as it was. -/
def loaded : Nat → CfmlValue → CfmlValue
  | 0, v => v
  | levels + 1, v =>
    match v with
    | .array xs => .array (xs.map (loaded levels))
    | .struct m => .struct (m.map fun e => (e.1, loaded levels e.2))
    | .query columns data =>
      let q : QueryData CfmlValue := ⟨columns, data⟩
      .query columns (columns.map fun c =>
        (List.range q.rowCount).map fun r => loaded levels (q.viewCell r c))
    | v => v

lemma Plain.scalar {v : CfmlValue} (h : Plain (levels + 1) v) : v.scalar = v := by
  cases v with
  | queryColumn cells row => exact h.elim
  | _ => rw [CfmlValue.scalar]; intro _ _ h; cases h

lemma Plain.emptyString (levels : Nat) : Plain (levels + 1) (.string "") := by
  show (stringBytes "").length < 2 ^ 64
  decide

lemma length_le_flatten {P : α → Bytes → Prop} (hP : ∀ a bs, P a bs → 0 < bs.length)
    {as : List α} (h : Forall₂ P as parts) : as.length ≤ parts.flatten.length := by
  induction h with
  | nil => exact Nat.le_refl _
  | cons ha _ ih =>
    have := hP _ _ ha
    rw [length_cons, flatten_cons, length_append]
    omega

/-- What the induction carries about one value's bytes: there are some, and they read back as the
loaded value. -/
def Written (levels : Nat) (v : CfmlValue) (bs : Bytes) : Prop :=
  0 < bs.length ∧ Reads (value levels) bs (loaded levels v)

lemma written_array {xs : List CfmlValue} (hlen : xs.length < 2 ^ 64)
    (h : Forall₂ (Written levels) xs parts) :
    Written (levels + 1) (.array xs) (8 :: putLen xs.length ++ parts.flatten) := by
  refine ⟨by simp, ?_⟩
  have hparts : Forall₂ (fun a bs => Reads (value levels) bs a) (xs.map (loaded levels)) parts :=
    forall₂_map_left_iff.2 (h.imp fun _ _ hw => hw.2)
  have hloop := Reads.times hparts
  rw [length_map] at hloop
  have hle : xs.length ≤ parts.flatten.length := length_le_flatten (fun _ _ hw => hw.1) h
  exact (reads_byte 8).bind (Reads.len_bind hlen hle hloop.map)

lemma reads_structLoop {value : Reader CfmlValue} {es : List (String × CfmlValue)}
    (m : ValueMap CfmlValue)
    (h : Forall₂ (fun e bs => (stringBytes e.1).length < 2 ^ 64 ∧
      ∃ vb, bs = putText e.1 ++ vb ∧ Reads value vb e.2) es parts) :
    Reads (structLoop value es.length m) parts.flatten (ValueMap.ofEntries es m) := by
  induction h generalizing m with
  | nil => exact Reads.pure m
  | @cons e bs es parts he _ ih =>
    obtain ⟨hk, vb, rfl, hv⟩ := he
    show Reads (text >>= fun k => value >>= fun v => structLoop value es.length (m.insert k v)) _ _
    rw [flatten_cons, append_assoc]
    exact (reads_text hk).bind (hv.bind (ih _))

lemma written_struct {m : ValueMap CfmlValue} (hlen : m.length < 2 ^ 64) (hd : ValueMap.Distinct m)
    (h : Forall₂ (fun e bs => (stringBytes e.1).length < 2 ^ 64 ∧
      ∃ vb, bs = putText e.1 ++ vb ∧ Written levels e.2 vb) m parts) :
    Written (levels + 1) (.struct m) (9 :: putLen m.length ++ parts.flatten) := by
  refine ⟨by simp, ?_⟩
  have hparts : Forall₂ (fun e bs => (stringBytes e.1).length < 2 ^ 64 ∧
      ∃ vb, bs = putText e.1 ++ vb ∧ Reads (value levels) vb e.2)
      (m.map fun e => (e.1, loaded levels e.2)) parts :=
    forall₂_map_left_iff.2 (h.imp fun _ _ hw =>
      ⟨hw.1, hw.2.choose, hw.2.choose_spec.1, hw.2.choose_spec.2.2⟩)
  have hloop := reads_structLoop [] hparts
  -- distinct keys go in as they come, so the loop rebuilds the entry list itself
  have hd' : ValueMap.Distinct (m.map fun e => (e.1, loaded levels e.2)) := by
    rw [ValueMap.Distinct, map_map]
    exact hd
  rw [length_map, ValueMap.ofEntries_of_distinct (m := []) hd', nil_append] at hloop
  have hle : m.length ≤ parts.flatten.length := by
    refine length_le_flatten (fun e bs hw => ?_) h
    obtain ⟨-, vb, rfl, hvb⟩ := hw
    rw [length_append]
    have := hvb.1
    omega
  exact (reads_byte 9).bind (Reads.len_bind hlen hle hloop.map)

/-! ## Queries -/

lemma reads_rowLoop {value : Reader CfmlValue} {f : String → CfmlValue} (m : ValueMap CfmlValue)
    (h : Forall₂ (fun c bs => Reads value bs (f c)) cols parts) :
    Reads (rowLoop value cols m)
    parts.flatten (ValueMap.ofEntries (cols.map fun c => (c, f c)) m) := by
  induction h generalizing m with
  | nil => exact Reads.pure m
  | @cons c bs cols parts hc _ ih =>
    show Reads (value >>= fun v => rowLoop value cols (m.insert c v)) _ _
    rw [flatten_cons]
    exact hc.bind (ih _)

/-- A row read back answers each column by what was written for it, when what was written depends on
the folded name only. -/
lemma rowValue_ofEntries {f : String → CfmlValue}
    (hf : ∀ a b, asciiFold a = asciiFold b → f a = f b)
    (hc : c ∈ cols) : rowValue (ValueMap.ofEntries (cols.map fun c => (c, f c)) []) c = f c := by
  have hmem : asciiFold c ∈ (cols.map fun c => (c, f c)).reverse.map fun e => asciiFold e.1 := by
    rw [map_reverse, mem_reverse, map_map]
    exact mem_map.2 ⟨c, hc, rfl⟩
  obtain ⟨v, hv, k, hk, hin⟩ := ValueMap.exists_get?_of_mem hmem
  obtain ⟨k', -, heq⟩ := mem_map.1 (mem_reverse.1 hin)
  obtain ⟨rfl, rfl⟩ := Prod.mk.inj heq
  rw [rowValue, ValueMap.get?_ofEntries, hv]
  exact hf _ _ hk

lemma fromNamedRows_rows {f : Nat → String → CfmlValue}
    (hf : ∀ r a b, asciiFold a = asciiFold b → f r a = f r b) (rs : List Nat) :
    fromNamedRows cols (rs.map fun r => ValueMap.ofEntries (cols.map fun c => (c, f r c)) []) =
      ⟨cols, cols.map fun c => rs.map fun r => f r c⟩ := by
  rw [fromNamedRows_eq]
  · congr 1
    refine map_congr_left fun c hc => ?_
    rw [map_map]
    exact map_congr_left fun r _ => rowValue_ofEntries (hf r) hc
  · intro row hrow k hk
    obtain ⟨r, -, rfl⟩ := mem_map.1 hrow
    rcases ValueMap.mem_keys_ofEntries hk with hk | hk
    · simp [ValueMap.keys] at hk
    · rw [map_map] at hk
      obtain ⟨c, hc, rfl⟩ := mem_map.1 hk
      exact ⟨c, hc, rfl⟩

lemma viewCell_cases (h : Rectangular q) (hr : r < q.rowCount) (hc : c ∈ q.columns) :
    ∃ col ∈ q.data, ∃ v ∈ col, q.viewCell r c = shown v := by
  obtain ⟨k, col, hview, -, hmem⟩ := exists_viewColumn h.aligned hc
  have hcol : col ∈ q.data := (of_mem_zip hmem).2
  have hlt : r < col.length := by rwa [h.level _ hcol]
  refine ⟨col, hcol, _, getElem_mem hlt, ?_⟩
  rw [QueryData.viewCell, hview, Option.map_some, shownAt, getElem?_eq_getElem hlt]
  rfl

lemma Plain.viewCell (h : Rectangular q) (hcells : ∀ col ∈ q.data, ∀ v ∈ col, Plain levels v)
    (hr : r < q.rowCount)
    (hc : c ∈ q.columns) : Plain levels (q.viewCell r c) := by
  obtain ⟨col, hcol, v, hv, heq⟩ := viewCell_cases h hr hc
  have hplain := hcells col hcol v hv
  rw [heq, shown]
  split
  · cases levels with
    | zero => exact hplain.elim
    | succ levels => exact Plain.emptyString levels
  · exact hplain

lemma encodeRow_ok (h : Rectangular q)
    (henc : ∀ v, Plain levels v → ∃ bs, enc levels v = .ok bs ∧ Written levels v bs)
    (hcells : ∀ col ∈ q.data, ∀ v ∈ col, Plain levels v) (hr : r < q.rowCount) :
    ∃ parts, encodeRow (enc levels) q r = .ok parts.flatten ∧
      Forall₂ (fun c bs => Written levels (q.viewCell r c) bs) q.columns parts := by
  have hcell : ∀ c ∈ q.columns, ∃ bs,
      encodeCell (enc levels) (ValueMap.ofEntries (q.rowEntries r) []) c = .ok bs ∧
        Written levels (q.viewCell r c) bs := by
    intro c hc
    obtain ⟨bs, hbs, hw⟩ := henc _ (Plain.viewCell h hcells hr hc)
    exact ⟨bs, by rw [encodeCell, get?_rowEntries h.aligned hc]; exact hbs, hw⟩
  obtain ⟨parts, hparts, hall⟩ := mapM_ok hcell
  refine ⟨parts, ?_, hall⟩
  rw [encodeRow, h.rowAt_eq hr]
  dsimp only
  rw [Option.getD_some, hparts]
  rfl

lemma row_nonempty (h : Rectangular q) (hr : r < q.rowCount)
    (hall : Forall₂ (fun c bs => Written levels (q.viewCell r c) bs) q.columns parts) :
    0 < parts.flatten.length := by
  have hcols : 0 < q.columns.length := by
    rw [h.aligned, length_pos_iff]
    rintro hnil
    rw [rowCount, hnil] at hr
    exact absurd hr (Nat.not_lt_zero r)
  exact Nat.lt_of_lt_of_le hcols (length_le_flatten (fun _ _ hw => hw.1) hall)

lemma written_query (h : Rectangular q) (hcols : q.columns.length < 2 ^ 64)
    (hnames : ∀ c ∈ q.columns, (stringBytes c).length < 2 ^ 64) (hrows : q.rowCount < 2 ^ 64)
    {rows : List Bytes} (hall : Forall₂ (fun r bs => r < q.rowCount ∧ ∃ parts, bs = flatten parts ∧
      Forall₂ (fun c bs => Written levels (q.viewCell r c) bs) q.columns parts)
      (range q.rowCount) rows) :
    Written (levels + 1) (.query q.columns q.data)
    (10 :: putLen q.columns.length ++ q.columns.flatMap putText ++
        (putLen q.rowCount ++ rows.flatten)) := by
  refine ⟨by simp, ?_⟩
  have hread : ∀ r bs, (r < q.rowCount ∧ ∃ parts, bs = flatten parts ∧
      Forall₂ (fun c bs => Written levels (q.viewCell r c) bs) q.columns parts) →
      Reads (rowLoop (value levels) q.columns []) bs
        (ValueMap.ofEntries (q.columns.map fun c => (c, loaded levels (q.viewCell r c))) []) := by
    rintro r bs ⟨-, parts, rfl, hparts⟩
    exact reads_rowLoop [] (hparts.imp fun _ _ hw => hw.2)
  have hloop := Reads.times (forall₂_map_left_iff.2 (hall.imp hread))
  rw [length_map, length_range] at hloop
  have hrowsLe : q.rowCount ≤ rows.flatten.length := by
    have hle := length_le_flatten (fun r bs hw => ?_) hall
    · rwa [length_range] at hle
    · obtain ⟨hr, parts, rfl, hparts⟩ := hw
      exact row_nonempty h hr hparts
  have htext : Forall₂ (fun c bs => 0 < bs.length ∧ Reads text bs c) q.columns
      (q.columns.map putText) :=
    forall₂_map_right_iff.2 (forall₂_same.2 fun c hc =>
      ⟨length_pos_iff.2 (append_ne_nil_of_left_ne_nil (putLen_ne_nil _) _),
        reads_text (hnames c hc)⟩)
  have hcolsLe : q.columns.length ≤
      (q.columns.flatMap putText ++ (putLen q.rowCount ++ rows.flatten)).length := by
    have hle := length_le_flatten (fun _ _ hw => hw.1) htext
    rw [length_append, flatMap_def]
    omega
  have hq := @fromNamedRows_rows q.columns (fun r c => loaded levels (q.viewCell r c))
    (fun r a b hab => congrArg (loaded levels) (viewCell_congr hab)) (range q.rowCount)
  have hquery : Reads (readQuery (value levels))
      (putLen q.columns.length ++ ((q.columns.map putText).flatten ++
        (putLen q.rowCount ++ rows.flatten))) (loaded (levels + 1) (.query q.columns q.data)) := by
    refine Reads.len_bind hcols (by rwa [← flatMap_def]) ?_
    refine (Reads.times (htext.imp fun _ _ hw => hw.2)).bind ?_
    refine Reads.len_bind hrows hrowsLe ?_
    have hvalue := hloop.map (f := queryOfRows q.columns)
    rw [queryOfRows, hq] at hvalue
    exact hvalue
  rw [append_assoc, flatMap_def]
  exact (reads_byte 10).bind hquery

lemma kindOfByte_kindByte (k : DateKind) : kindOfByte (kindByte k) = k := by
  cases k <;> rfl

lemma fromEpoch_nanos (d : CfmlDate) : fromEpoch d.secs d.nanos.val d.kind = d := by
  obtain ⟨secs, nanos, kind⟩ := d
  have hdiv : nanos.val / 1000000000 = 0 := Nat.div_eq_of_lt nanos.isLt
  have hmod : nanos.val % 1000000000 = nanos.val := Nat.mod_eq_of_lt nanos.isLt
  simp only [fromEpoch, hdiv, hmod]
  congr 1
  exact Int64.add_zero secs

lemma reads_dateTime (d : CfmlDate) : Reads (value (levels + 1))
      (11 :: putI64 d.secs ++ leBytes 4 d.nanos.val ++ [kindByte d.kind]) (.dateTime d) := by
  have hn := reads_take (leBytes 4 d.nanos.val)
  rw [length_leBytes] at hn
  have hdate : Reads readDate (putI64 d.secs ++ (leBytes 4 d.nanos.val ++ [kindByte d.kind]))
      (.dateTime d) := by
    refine (reads_fixed8 d.secs.toUInt64).bind (hn.bind ?_)
    rw [ofLeBytes_leBytes (Nat.lt_trans d.nanos.isLt (by decide)), Int64.toInt64_toUInt64]
    have hvalue := (reads_byte (kindByte d.kind)).map
      (f := fun kind => CfmlValue.dateTime (fromEpoch d.secs d.nanos.val (kindOfByte kind)))
    rwa [kindOfByte_kindByte, fromEpoch_nanos] at hvalue
  rw [append_assoc]
  exact (reads_byte 11).bind hdate

/-- **The round trip.** Every plain value within the depth limit is encoded, and its bytes read back
as its loaded form, whatever follows them. -/
theorem enc_spec : ∀ {v : CfmlValue}, Plain levels v → ∃ bs, enc levels v = .ok bs ∧
    Written levels v bs := by
  induction levels with
  | zero => exact fun h => h.elim
  | succ levels ih =>
    intro v hv
    rw [enc, hv.scalar]
    cases v with
    | null => exact ⟨_, rfl, by simp, (reads_byte 0).bind (Reads.pure _)⟩
    | bool b => cases b <;> exact ⟨_, rfl, by simp, (reads_byte _).bind (Reads.pure _)⟩
    | int i => exact ⟨_, rfl, by simp, (reads_byte 3).bind (reads_fixed8 i.toUInt64).map⟩
    | double d => exact ⟨_, rfl, by simp, (reads_byte 4).bind (reads_fixed8 d.bits).map⟩
    | timeSpan d => exact ⟨_, rfl, by simp, (reads_byte 5).bind (reads_fixed8 d.bits).map⟩
    | string s => exact ⟨_, rfl, by simp, (reads_byte 6).bind (reads_text hv).map⟩
    | binary b =>
      exact ⟨_, rfl, by simp, (reads_byte 7).bind
        (Reads.len_bind hv (Nat.le_refl _) (reads_take b).map)⟩
    | dateTime d => exact ⟨_, rfl, by simp, reads_dateTime d⟩
    | array xs =>
      obtain ⟨parts, hparts, hall⟩ := mapM_ok fun x hx => ih (hv.2 x hx)
      refine ⟨_, ?_, written_array hv.1 hall⟩
      dsimp only
      rw [hparts]
      rfl
    | struct m =>
      obtain ⟨hlen, hd, hes⟩ := hv
      have hentry : ∀ e ∈ m, ∃ bs, (do let v ← enc levels e.2; pure (putText e.1 ++ v)) = .ok bs ∧
          (stringBytes e.1).length < 2 ^ 64 ∧ ∃ vb, bs = putText e.1 ++ vb ∧
              Written levels e.2 vb := by
        intro e he
        obtain ⟨vb, hvb, hw⟩ := ih (hes e he).2
        exact ⟨putText e.1 ++ vb, by rw [hvb]; rfl, (hes e he).1, vb, rfl, hw⟩
      obtain ⟨parts, hparts, hall⟩ := mapM_ok hentry
      refine ⟨_, ?_, written_struct hlen hd hall⟩
      dsimp only
      rw [encodeMap, hparts]
      rfl
    | query columns data =>
      obtain ⟨hcols, hnames, hrect, hrows, hcells⟩ := hv
      have hrow : ∀ r ∈ range (⟨columns, data⟩ : QueryData CfmlValue).rowCount, ∃ bs,
          encodeRow (enc levels) ⟨columns, data⟩ r = .ok bs ∧
            r < (⟨columns, data⟩ : QueryData CfmlValue).rowCount ∧ ∃ parts, bs = flatten parts ∧
            Forall₂ (fun c bs => Written levels
              ((⟨columns, data⟩ : QueryData CfmlValue).viewCell r c) bs) columns parts := by
        intro r hr
        have hr' := mem_range.1 hr
        obtain ⟨parts, hparts, hall⟩ := encodeRow_ok hrect (fun v => ih) hcells hr'
        exact ⟨_, hparts, hr', parts, rfl, hall⟩
      obtain ⟨rows, hparts, hall⟩ := mapM_ok hrow
      refine ⟨_, ?_, written_query hrect hcols hnames hrows hall⟩
      dsimp only
      rw [encodeQuery, hparts]
      rfl
    | queryColumn cells row | inst m | code => exact hv.elim

/-! ## When nothing is lost -/

/-- No query anywhere in the value has a null cell, and columns whose names fold together hold the
same cells. -/
def QueriesKept : Nat → CfmlValue → Prop
  | 0, _ => True
  | levels + 1, v =>
    match v with
    | .array xs => ∀ x ∈ xs, QueriesKept levels x
    | .struct m => ∀ e ∈ m, QueriesKept levels e.2
    | .query columns data =>
      (∀ col ∈ data, ∀ v ∈ col, v ≠ .null ∧ QueriesKept levels v) ∧
        ∀ p ∈ columns.zip data, ∀ p' ∈ columns.zip data, asciiFold p.1 = asciiFold p'.1 → p.2 = p'.2
    | _ => True

lemma shown_of_ne_null {v : CfmlValue} (h : v ≠ .null) : shown v = v :=
  if_neg fun hv => h ((CfmlValue.isNull_iff v).1 hv)

lemma map_eq_iff_zip {β : Type} {f : α → β} {xs : List α} {ys : List β}
    (h : xs.length = ys.length) : xs.map f = ys ↔ ∀ p ∈ xs.zip ys, f p.1 = p.2 := by
  induction xs generalizing ys with
  | nil => cases ys with
    | nil => simp
    | cons y ys => simp at h
  | cons x xs ih => cases ys with
    | nil => simp at h
    | cons y ys =>
      rw [map_cons, zip_cons_cons, forall_mem_cons, cons.injEq, ih (by simpa using h)]

lemma view_map_eq {f : CfmlValue → CfmlValue} (h : Rectangular q) {col : List CfmlValue}
    (hview : q.viewColumn c = some col) (hcol : col ∈ q.data) :
    ((range q.rowCount).map fun r => f (q.viewCell r c)) = col.map fun v => f (shown v) := by
  refine ext_getElem (by simp [h.level col hcol]) fun r h1 h2 => ?_
  have hlt : r < col.length := by simpa using h2
  rw [getElem_map, getElem_map, getElem_range, viewCell, hview, Option.map_some, shownAt,
    getElem?_eq_getElem hlt]
  rfl

/-- The row view of a query, taken through `f`, gives the columns back exactly when there is no null
cell, `f` keeps every cell, and names that fold together stand over the same cells. -/
lemma viewed_eq_data_iff {f : CfmlValue → CfmlValue} (hf : f (.string "") ≠ .null)
    (h : Rectangular q) :
    (q.columns.map fun c => (range q.rowCount).map fun r => f (q.viewCell r c)) = q.data ↔
      (∀ col ∈ q.data, ∀ v ∈ col, v ≠ .null ∧ f v = v) ∧ ∀ p ∈ q.columns.zip q.data,
      ∀ p' ∈ q.columns.zip q.data,
          asciiFold p.1 = asciiFold p'.1 → p.2 = p'.2 := by
  rw [map_eq_iff_zip h.aligned]
  constructor
  · intro hall
    -- the column the view reads for a name is, by the equation at its own name, that name's column
    have hown : ∀ p ∈ q.columns.zip q.data, p.2 = p.2.map fun v => f (shown v) := by
      intro p hp
      obtain ⟨k, col, hview, hk, hmem⟩ := exists_viewColumn h.aligned (of_mem_zip hp).1
      have hcol := (of_mem_zip hmem).2
      have h1 := hall p hp
      have h2 := hall _ hmem
      simp only [viewCell_congr hk] at h2
      rw [view_map_eq h hview hcol] at h1 h2
      rw [← h1, h2, h2]
    refine ⟨fun col hcol v hv => ?_, fun p hp p' hp' hfold => ?_⟩
    · obtain ⟨i, hi, rfl⟩ := mem_iff_getElem.1 hcol
      have hi' : i < q.columns.length := h.aligned ▸ hi
      have hp : (q.columns[i], q.data[i]) ∈ q.columns.zip q.data :=
        mem_iff_getElem.2 ⟨i, by simp [hi, hi'], by simp⟩
      have hmap := hown _ hp
      obtain ⟨r, hr, rfl⟩ := mem_iff_getElem.1 hv
      have hcell : (q.data[i])[r] = f (shown (q.data[i])[r]) := by
        have := congrArg (fun l => l[r]?) hmap
        simpa [hr] using this
      have hne : (q.data[i])[r] ≠ .null := by
        intro hnull
        rw [hnull] at hcell
        exact hf hcell.symm
      rw [shown_of_ne_null hne] at hcell
      exact ⟨hne, hcell.symm⟩
    · rw [← hall p hp, ← hall p' hp']
      simp only [viewCell_congr hfold]
  · rintro ⟨hcells, hsame⟩ p hp
    obtain ⟨k, col, hview, hk, hmem⟩ := exists_viewColumn h.aligned (of_mem_zip hp).1
    have hcol := (of_mem_zip hmem).2
    rw [view_map_eq h hview hcol, ← hsame _ hmem p hp hk]
    conv_rhs => rw [← map_id col]
    refine map_congr_left fun v hv => ?_
    obtain ⟨hne, hkept⟩ := hcells col hcol v hv
    rw [shown_of_ne_null hne]
    exact hkept

lemma loaded_query_iff (h : Rectangular q)
    (ih : ∀ col ∈ q.data, ∀ v ∈ col, (loaded levels v = v ↔ QueriesKept levels v)) :
    loaded (levels + 1) (.query q.columns q.data) = .query q.columns q.data ↔
      QueriesKept (levels + 1) (.query q.columns q.data) := by
  have hempty :
    loaded levels (.string "") ≠ .null := by cases levels <;> exact CfmlValue.noConfusion
  have hquery : loaded (levels + 1) (.query q.columns q.data) = .query q.columns q.data ↔
      (q.columns.map fun c => (range q.rowCount).map fun r => loaded levels (q.viewCell r c)) =
        q.data :=
          ⟨fun he => (CfmlValue.query.inj he).2, fun he => congrArg (CfmlValue.query q.columns) he⟩
  rw [hquery, viewed_eq_data_iff hempty h]
  refine and_congr_left fun _ => forall₂_congr fun col hcol => forall₂_congr fun v hv => ?_
  rw [ih col hcol v hv]

lemma map_eq_self_iff {f : α → α} {xs : List α} : xs.map f = xs ↔ ∀ x ∈ xs, f x = x := by
  conv_lhs => rhs; rw [← map_id xs]
  exact map_inj_left

/-- **The loaded form is the value itself exactly when every query in it is kept.** -/
theorem loaded_eq_self_iff : ∀ {v : CfmlValue}, Plain levels v →
    (loaded levels v = v ↔ QueriesKept levels v) := by
  induction levels with
  | zero => exact fun h => h.elim
  | succ levels ih =>
    intro v hv
    cases v with
    | array xs =>
      show CfmlValue.array (xs.map (loaded levels)) = .array xs ↔ ∀ x ∈ xs, QueriesKept levels x
      rw [CfmlValue.array.injEq, map_eq_self_iff]
      exact forall₂_congr fun x hx => ih (hv.2 x hx)
    | struct m =>
      show CfmlValue.struct (m.map fun e => (e.1, loaded levels e.2)) = .struct m ↔
        ∀ e ∈ m, QueriesKept levels e.2
      rw [CfmlValue.struct.injEq, map_eq_self_iff]
      refine forall₂_congr fun e he => ?_
      rw [← ih (hv.2.2 e he).2]
      exact ⟨fun heq => congrArg Prod.snd heq, fun heq => Prod.ext rfl heq⟩
    | query columns data =>
      exact loaded_query_iff hv.2.2.1 fun col hcol v hv' => ih (hv.2.2.2.2 col hcol v hv')
    | queryColumn cells row | inst m | code => exact hv.elim
    | _ => exact iff_of_true rfl trivial

/-- **Round trip, exactly.** For every plain value nested at most `MAX_DEPTH` deep, encoding
succeeds and decoding the bytes returns the value itself if and only if no query in it has a null
cell or two columns of one folded name with different cells. -/
theorem decode_encode_iff {v : CfmlValue} (hv : Plain (maxDepth + 1) v) :
    (∃ bs, encode v = .ok bs ∧ decode bs = .ok v) ↔ QueriesKept (maxDepth + 1) v := by
  obtain ⟨bs, hbs, -, hread⟩ := enc_spec hv
  have hdecode : decode bs = .ok (loaded (maxDepth + 1) v) := by rw [decode, hread.run]
  rw [← loaded_eq_self_iff hv]
  constructor
  · rintro ⟨bs', hbs', hdec⟩
    rw [encode, hbs, Except.ok.injEq] at hbs'
    rw [← hbs', hdecode, Except.ok.injEq] at hdec
    exact hdec
  · intro heq
    exact ⟨bs, hbs, by rw [hdecode, heq]⟩

theorem decode_encode_array_query :
    let v := CfmlValue.array [.int 1, .query ["x", "y"] [[.string "é"], [.bool true]]]
    Plain (maxDepth + 1) v ∧ ∃ bs, encode v = .ok bs ∧ decode bs = .ok v := by
  intro v
  have hrect : Rectangular (⟨["x", "y"], [[.string "é"], [.bool true]]⟩ : QueryData CfmlValue) :=
    Uniform.rectangular (n := 1) ⟨rfl, by decide⟩
  have hv : Plain (maxDepth + 1) v := by
    refine ⟨by decide, forall_mem_cons.2 ⟨trivial, forall_mem_singleton.2 ?_⟩⟩
    refine ⟨by decide, by decide, hrect, by decide, forall_mem_cons.2 ⟨?_, ?_⟩⟩
    · exact forall_mem_singleton.2 (by decide : (stringBytes "é").length < 2 ^ 64)
    · exact forall_mem_singleton.2 (forall_mem_singleton.2 trivial)
  refine ⟨hv, (decode_encode_iff hv).2 ?_⟩
  refine forall_mem_cons.2 ⟨trivial, forall_mem_singleton.2 ⟨?_, ?_⟩⟩
  · exact forall_mem_cons.2 ⟨forall_mem_singleton.2 ⟨by simp, trivial⟩,
      forall_mem_singleton.2 (forall_mem_singleton.2 ⟨by simp, trivial⟩)⟩
  · intro p hp p' hp' hfold
    simp [zip_cons_cons, zip_nil_right] at hp hp'
    rcases hp with rfl | rfl <;> rcases hp' with rfl | rfl
    · rfl
    iterate 2 exact absurd hfold (by decide)
    · rfl

/-- **A null cell does not stay null**: a one-cell query holding `NULL` is encoded, and its bytes
decode to a query holding an empty string. -/
theorem decode_encode_null_cell : let v := CfmlValue.query ["a"] [[.null]]
    Plain (maxDepth + 1) v ∧ ∃ bs, encode v = .ok bs ∧
      decode bs = .ok (.query ["a"] [[.string ""]]) ∧
        decode bs ≠ .ok v := by
  intro v
  have hrect : Rectangular (⟨["a"], [[.null]]⟩ : QueryData CfmlValue) :=
    Uniform.rectangular (n := 1) ⟨rfl, by decide⟩
  have hv : Plain (maxDepth + 1) v :=
    ⟨by decide, by decide, hrect, by decide,
      forall_mem_singleton.2 (forall_mem_singleton.2 trivial)⟩
  obtain ⟨bs, hbs, -, hread⟩ := enc_spec hv
  have hdecode : decode bs = .ok (.query ["a"] [[.string ""]]) := by
    rw [decode, hread.run]
    rfl
  refine ⟨hv, bs, hbs, hdecode, ?_⟩
  rw [hdecode]
  simp [v]

end RustCfml.ObjCodec
