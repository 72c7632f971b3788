import RustCfml.Common.Key

/-!
# Tables as text (`cfml-stdlib/src/spreadsheet.rs`, `csvFormatRow`)

Two writers and one reader. A field is written between quotes, each of its own quotes twice, or as
it stands, where nothing in it means anything to the reader (`Written`). **What either writer writes
is read back.** -/

namespace RustCfml.Csv

open List

abbrev Text := List Char

/-- `field.replace('"', "\"\"")`. -/
def doubled (field : Text) : Text := field.flatMap fun c => if c = '"' then ['"', '"'] else [c]

def csvEscape (field delimiter : Text) : Text :=
  if delimiter <:+: field ∨ '"' ∈ field ∨ '\n' ∈ field ∨ '\r' ∈ field then
    '"' :: doubled field ++ ['"']
  else field

structure Sheet where
  highestRow : Nat
  highestColumn : Nat
  value : Nat × Nat → Text

def Sheet.rows (ws : Sheet) : List (List Text) :=
  (range' 1 ws.highestRow).map fun r => (range' 1 ws.highestColumn).map fun c => ws.value (c, r)

/-- The active sheet, where the book has it. -/
def toCsv (sheet : Option Sheet) (delimiter : Text) : Text :=
  match sheet with
  | none => []
  | some ws =>
    ws.rows.flatMap fun row => intercalate delimiter (row.map (csvEscape · delimiter)) ++ ['\n']

/-- The first argument, its values as strings or null. -/
inductive RowArg where
  | null
  | array (values : List (Option Text))
  | scalar (value : Text)

def oneChar (arg : Option Text) (default : Char) : Char := (arg.bind head?).getD default

def quoteAllArg : Option (Bool ⊕ String) → Bool
  | none => true
  | some (.inl b) => b
  | some (.inr s) => !(eqIgnoreAsciiCase s "false" || s == "0")

def formatField (delimiter quote escape : Char) (quoteAll : Bool) : Option Text → Text
  | none => []
  | some field =>
    let quotes :=
      if quoteAll ∨ delimiter ∈ field ∨ quote ∈ field ∨ '\n' ∈ field ∨ '\r' ∈ field then
        [quote] else []
    quotes ++ field.flatMap (fun c =>
      if c = quote ∨ c = escape ∧ escape ≠ quote then [escape, c] else [c]) ++ quotes

def csvFormatRow (values : RowArg) (delimiter quote escape : Option Text)
    (quoteAll : Option (Bool ⊕ String)) : Except String Text :=
  let delimiter := oneChar delimiter ','
  let quote := oneChar quote '"'
  let field := formatField delimiter quote (oneChar escape quote) (quoteAllArg quoteAll)
  match values with
  | .null => .error "csvFormatRow: first argument must be an array of values"
  | .array values => .ok (intercalate [delimiter] (values.map field))
  | .scalar value => .ok (field (some value))

/-- The rows the reader's loop pushes: whether it is within quotes, and the field and the row so
far. -/
@[local simp] def parseFrom (d : Char) : Bool → Text → List Text → Text → List (List Text)
  | _, field, row, [] => if field ≠ [] ∨ row ≠ [] then [row ++ [field]] else []
  | true, field, row, ch :: cs =>
    if ch = '"' then
      match cs with
      | [] => parseFrom d false field row []
      | next :: cs =>
        if next = '"' then parseFrom d true (field ++ ['"']) row cs
        else parseFrom d false field row (next :: cs)
    else parseFrom d true (field ++ [ch]) row cs
  | false, field, row, ch :: cs =>
    if ch = '"' then parseFrom d true field row cs
    else if ch = d then parseFrom d false [] (row ++ [field]) cs
    else if ch = '\n' then (row ++ [field]) :: parseFrom d false [] [] cs
    else if ch = '\r' then parseFrom d false field row cs
    else parseFrom d false (field ++ [ch]) row cs

def parseCsv (text : Text) (delimiter : Char) : List (List Text) :=
  parseFrom delimiter false [] [] text

variable {d : Char} {row : List Text} {rest : Text}

/-! ## One field -/

def Plain (d : Char) (field : Text) : Prop := d ∉ field ∧ '"' ∉ field ∧ '\n' ∉ field ∧ '\r' ∉ field

def Written (d : Char) (field text : Text) : Prop :=
  text = '"' :: doubled field ++ ['"'] ∨ text = field ∧ Plain d field

lemma written_csvEscape (d : Char) (field : Text) : Written d field (csvEscape field [d]) := by
  unfold csvEscape
  split
  case isTrue => exact .inl rfl
  case isFalse h => exact .inr ⟨rfl, by simpa [Plain, singleton_infix_iff] using h⟩

lemma written_formatField (d : Char) (quoteAll : Bool) (field : Text) :
    Written d field (formatField d '"' '"' quoteAll (some field)) := by
  have hdoubled : (field.flatMap fun c => if c = '"' ∨ c = '"' ∧ '"' ≠ '"' then ['"', c] else [c]) =
      doubled field := by
    apply flatMap_congr
    intro c _
    by_cases hc : c = '"' <;> simp [hc]
  simp only [formatField, hdoubled]
  split
  case isTrue => exact .inl rfl
  case isFalse h =>
    have hplain : Plain d field := by simpa [Plain] using (not_or.1 h).2
    have hself : doubled field = field.flatMap fun c => [c] := by
      apply flatMap_congr
      intro c hc
      have hq : c ≠ '"' := fun hq => hplain.2.1 (hq ▸ hc)
      exact if_neg hq
    exact .inr ⟨by simp [hself], hplain⟩

lemma parseFrom_char {c : Char} (hc : c ≠ '"') (acc cs : Text) :
    parseFrom d true acc row (c :: cs) = parseFrom d true (acc ++ [c]) row cs := by
  cases cs <;> simp [hc]

lemma parseFrom_doubled (hrest : rest.head? ≠ some '"') : ∀ field acc : Text,
    parseFrom d true acc row (doubled field ++ '"' :: rest) =
    parseFrom d false (acc ++ field) row rest
  | [], acc => by
    cases rest with
    | nil => simp [doubled]
    | cons c rest =>
      have hc : c ≠ '"' := by simpa using hrest
      simp [doubled, hc]
  | c :: field, acc => by
    have ih := parseFrom_doubled hrest field (acc ++ [c])
    by_cases hc : c = '"'
    · subst hc
      simpa [doubled] using ih
    · simpa [doubled, hc, parseFrom_char hc] using ih

lemma parseFrom_plain : ∀ field acc : Text, Plain d field →
    parseFrom d false acc row (field ++ rest) = parseFrom d false (acc ++ field) row rest
  | [], acc => by simp
  | c :: field, acc => by
    intro hplain
    simp only [Plain, mem_cons, not_or] at hplain
    obtain ⟨⟨hd, hd'⟩, ⟨hq, hq'⟩, ⟨hn, hn'⟩, hr, hr'⟩ := hplain
    have ih := parseFrom_plain field (acc ++ [c]) ⟨hd', hq', hn', hr'⟩
    simpa [Ne.symm hd, Ne.symm hq, Ne.symm hn, Ne.symm hr] using ih

lemma Written.parse {field text : Text} (h : Written d field text) (hrest : rest.head? ≠ some '"') :
    parseFrom d false [] row (text ++ rest) = parseFrom d false field row rest := by
  rcases h with rfl | ⟨rfl, hplain⟩
  · simpa using parseFrom_doubled hrest field []
  · exact parseFrom_plain text [] hplain

def lineEnds : List Text := [['\n'], ['\r', '\n']]

section Table

variable (hd : d ∉ ['"', '\r', '\n']) {write : Text → Text}
    (hwrite : ∀ field, Written d field (write field))
  {lineEnd : Text} (hline : lineEnd ∈ lineEnds)
include hd hwrite hline

lemma parseFrom_row : ∀ (fields row : List Text), fields ≠ [] →
    parseFrom d false [] row (intercalate [d] (fields.map write) ++ lineEnd ++ rest) =
      (row ++ fields) :: parseFrom d false [] [] rest
  | [], _, h => absurd rfl h
  | [field], row, _ => by
    simp only [lineEnds, mem_cons, not_mem_nil, or_false, not_or] at hline hd
    rw [map_singleton, intercalate_singleton, append_assoc]
    rcases hline with rfl | rfl
    all_goals
      rw [(hwrite field).parse (by simp)]
      simp [Ne.symm hd.2.2, Ne.symm hd.2.1]
  | field :: next :: fields, row, _ => by
    have ih := parseFrom_row (next :: fields) (row ++ [field]) (by simp)
    have hq : d ≠ '"' := fun h => hd (h ▸ mem_cons_self)
    rw [map_cons, map_cons, intercalate_cons_cons, append_assoc, append_assoc, append_assoc,
      (hwrite field).parse (by simpa using hq)]
    simpa [hq] using ih

lemma parseCsv_rows : ∀ table : List (List Text), (∀ row ∈ table, row ≠ []) →
    parseCsv (table.flatMap fun row => intercalate [d] (row.map write) ++ lineEnd) d = table
  | [], _ => rfl
  | fields :: table, h => by
    obtain ⟨hfields, htable⟩ := forall_mem_cons.1 h
    exact (parseFrom_row hd hwrite hline fields [] hfields).trans
      (congrArg (fields :: ·) (parseCsv_rows table htable))

end Table

/-- **A table is read back as it was written**, from a sheet or row by row with either choice of
quotes. -/
theorem parseCsv_written {table : List (List Text)} (h : ∀ row ∈ table, row ≠ [])
    (hd : d ∉ ['"', '\r', '\n']) :
    (∀ ws : Sheet, ws.rows = table → parseCsv (toCsv (some ws) [d]) d = table) ∧
    ∀ quoteAll, ∀ lineEnd ∈ lineEnds,
    (fun lines => parseCsv lines.flatten d) <$> table.mapM (fun row =>
      (· ++ lineEnd) <$> csvFormatRow (.array (row.map some)) (some [d]) none none quoteAll) =
      .ok table := by
  constructor
  · intro ws hrows
    subst hrows
    exact parseCsv_rows hd (written_csvEscape d) (by simp [lineEnds]) ws.rows h
  · intro quoteAll lineEnd hline
    have hwrite := written_formatField d (quoteAllArg quoteAll)
    simp only [csvFormatRow, map_map]
    exact (congrArg _ mapM_pure).trans (congrArg Except.ok (parseCsv_rows hd hwrite hline table h))

/-- A delimiter, a quote and a line end in the fields, and a field of nothing. -/
def hardTable : List (List Text) := [[['a', ','], []], [['"', '\n'], ['b']]]

theorem parseCsv_written_hard : ',' ∉ ['"', '\r', '\n'] ∧ parseCsv (toCsv (some ⟨2, 2, fun p =>
    (hardTable[p.2 - 1]?.getD [])[p.1 - 1]?.getD []⟩) [',']) ',' = hardTable :=
  ⟨by decide, (parseCsv_written (d := ',') (by decide) (by decide)).1 _ rfl⟩

end RustCfml.Csv
