import RustCfml.Lib.Comparator
import RustCfml.Qoq.Compare

/-!
# Is `compare_total` a total order?

The function is documented as the total order for sorting, `MIN` and `MAX`. **Transitivity is where
the coercions meet.** `"1.0"` and `1` are equal as numbers, `1` and `"1"` are equal as numbers, and
`"1.0"` is after `"1"` as text.
-/

namespace RustCfml.Qoq

open Lowercase Comparator

inductive CellKind where
  | null
  | bool
  | int
  | string
  | date
deriving DecidableEq

def cellKind : CfmlValue → Option CellKind
  | .null => some .null
  | .bool _ => some .bool
  | .int _ => some .int
  | .string _ => some .string
  | .dateTime _ => some .date
  | _ => none

def cellsOf (K : Set CellKind) : Set CfmlValue := {v | ∃ k ∈ K, cellKind v = some k}

lemma cellsOf_mono {K L : Set CellKind} (h : K ⊆ L) : cellsOf K ⊆ cellsOf L := by
  rintro v ⟨k, hk, hv⟩
  exact ⟨k, h hk, hv⟩

lemma cmpChars_cons (a b : Char) (as bs : List Char) :
    cmpChars (a :: as) (b :: bs) = (compare a.toNat b.toNat).then (cmpChars as bs) :=
  List.compareLex_cons_cons

lemma strCmpLoop_eq (T : CaseTables) : ∀ (as bs before before' : List Char),
      strCmpLoop (cmpChars (lowerFrom T before as) (lowerFrom T before' bs)) as bs =
        cmpChars (lowerFrom T before as) (lowerFrom T before' bs)
  | [], [], _, _ => rfl
  | [], b :: bs, before, before' => by
    rw [strCmpLoop]
    split
    · rename_i hall
      rw [lowerFrom_ascii T (List.all_eq_true.1 hall)]
      rfl
    · rfl
  | a :: as, [], before, before' => by
    rw [strCmpLoop]
    split
    · rename_i hall
      rw [lowerFrom_ascii T (List.all_eq_true.1 hall)]
      rfl
    · rfl
  | a :: as, b :: bs, before, before' => by
    rw [strCmpLoop]
    split
    · rename_i hascii
      obtain ⟨ha, hb⟩ := Bool.and_eq_true _ _ |>.mp hascii
      rw [lowerFrom_ascii_cons T ha, lowerFrom_ascii_cons T hb, cmpChars_cons]
      split
      · rename_i heq
        rw [heq, show compare b.toLower.toNat b.toLower.toNat = .eq from Std.ReflCmp.compare_self]
        exact strCmpLoop_eq T as bs (a :: before) (b :: before')
      · rename_i hne
        have hcmp : compare a.toLower.toNat b.toLower.toNat ≠ .eq := by
          intro h
          exact hne (Char.toNat_inj.1 (Nat.compare_eq_eq.1 h))
        cases hc : compare a.toLower.toNat b.toLower.toNat with
        | eq => exact absurd hc hcmp
        | lt | gt => rfl
    · rfl

lemma strCmp_eq (P : Platform) (a b : String) :
    strCmp P a b = cmpChars (toLowercase P.tables a.toList) (toLowercase P.tables b.toList) :=
  strCmpLoop_eq P.tables a.toList b.toList [] []

lemma strCmp_eq_iff {P : Platform} (a b : String) :
    strCmp P a b = .eq ↔ toLowercase P.tables a.toList = toLowercase P.tables b.toList := by
  rw [strCmp_eq]
  constructor
  · intro h
    have hmap := Std.compare_eq_iff_eq.1 h
    exact List.map_injective_iff.2 (fun _ _ => Char.toNat_inj.1) hmap
  · intro h
    rw [cmpChars, h]
    exact Std.ReflCmp.compare_self

/-- **`str_cmp` compares the full lowercase forms**, wherever the first character beyond ASCII
stands. The source walks bytes: up to that character each is one byte, and UTF-8 keeps the order of
code points. -/
theorem strCmp_lowercase (P : Platform) (a b : String) :
    strCmp P a b = cmpChars (lowerString P.tables a).toList (lowerString P.tables b).toList := by
  rw [lowerString, lowerString, String.toList_ofList, String.toList_ofList]
  exact strCmp_eq P a b

section

variable {P : Platform}

def numberKey : CfmlValue → Option Int
  | .bool b => some (boolInt b)
  | .int i => some i.toInt
  | _ => none

lemma totalOrderOn_numbers : TotalOrderOn (compareTotal P) (cellsOf {.null, .bool, .int}) := by
  refine .of_key compare numberKey ?_
  rintro a ⟨_, rfl | rfl | rfl, ha⟩ b ⟨_, rfl | rfl | rfl, hb⟩ <;>
    cases a <;> cases ha <;> cases b <;> cases hb <;> rfl

def textKey (P : Platform) : CfmlValue → Option (List Nat)
  | .string s => some ((toLowercase P.tables s.toList).map Char.toNat)
  | _ => none

lemma totalOrderOn_strings : TotalOrderOn (compareTotal P) (cellsOf {.null, .string}) := by
  refine .of_key compare (textKey P) ?_
  rintro a ⟨_, rfl | rfl, ha⟩ b ⟨_, rfl | rfl, hb⟩ <;>
    cases a <;> cases ha <;> cases b <;> cases hb <;> try rfl
  exact strCmp_eq P _ _

/-- What is relied on of the date conversions: the literal form starts with a brace, a lone letter
is no date, an ISO day is one, a day number in range is one and a day number beyond the range of
instants is none. -/
structure DateForms (P : Platform) : Prop where
  brace : ∀ d, ∃ rest, (P.toCfmlString d).toList = '\x7b' :: rest
  letter : P.parseDate "x" = none
  isoDay : ∃ d, P.parseDate "2030-01-01" = some d ∧ 0 < d.secs
  dayNumber : ∃ d, P.fromNumeric (F64.ofInt 40000) = some d ∧ 0 < d.secs
  outOfRange : P.fromNumeric (F64.ofInt 100000000000) = none

lemma strCmp_brace (h : DateForms P) (d : CfmlDate) {s : String} {c : Char} {cs : List Char}
    (hs : s.toList = c :: cs) (hc : isAscii c = true)
    (hlt : compare '\x7b'.toLower.toNat c.toLower.toNat = .gt) :
    strCmp P (P.toCfmlString d) s = .gt := by
  obtain ⟨rest, hrest⟩ := h.brace d
  have hne : '\x7b'.toLower ≠ c.toLower := by
    intro heq
    rw [heq,
      show compare c.toLower.toNat c.toLower.toNat = .eq from Std.ReflCmp.compare_self] at hlt
    exact Ordering.noConfusion hlt
  rw [strCmp, hrest, hs, strCmpLoop, if_pos (by rw [hc]; rfl), if_neg hne]
  exact hlt

def dateKey : CfmlValue → Option (List Int)
  | .bool b => some [0, boolInt b]
  | .dateTime d => some [1, d.epochNanos]
  | _ => none

lemma compare_datePair (x y : Int) : compare [1, x] [1, y] = compare x y := by
  show List.compareLex compare _ _ = _
  rw [List.compareLex_cons_cons, List.compareLex_cons_cons, List.compareLex_nil_nil]
  show (compare x y).then .eq = _
  cases compare x y <;> rfl

lemma dateVs_bool (h : DateForms P) (d : CfmlDate) (b : Bool) : dateVs P d (.bool b) = .gt := by
  cases b
  · exact strCmp_brace h d (c := 'f') (s := "false") rfl rfl rfl
  · exact strCmp_brace h d (c := 't') (s := "true") rfl rfl rfl

lemma totalOrderOn_dates (h : DateForms P) :
    TotalOrderOn (compareTotal P) (cellsOf {.null, .bool, .date}) := by
  refine .of_key compare dateKey ?_
  rintro a ⟨_, rfl | rfl | rfl, ha⟩ b ⟨_, rfl | rfl | rfl, hb⟩ <;>
    cases a <;> cases ha <;> cases b <;> cases hb <;> try rfl
  -- what is left: booleans and dates on both sides
  · rename_i b b'
    cases b <;> cases b' <;> rfl
  · rename_i b d
    show (dateVs P d (.bool b)).swap = .lt
    rw [dateVs_bool h d b]
    rfl
  · rename_i d b
    show dateVs P d (.bool b) = .gt
    exact dateVs_bool h d b
  · exact (compare_datePair _ _).symm

variable {K : Set CellKind} {e : CfmlDate}

lemma not_totalOrderOn_string_number {u : CfmlValue} (hu : u ∈ cellsOf K) (hs : CellKind.string ∈ K)
    (h1 : compareTotal P (.string "1.0") u = .eq) (h2 : compareTotal P u (.string "1") = .eq) :
    ¬ TotalOrderOn (compareTotal P) (cellsOf K) := by
  intro h
  have htrans := h.trans (.string "1.0") ⟨_, hs, rfl⟩ u hu (.string "1") ⟨_, hs, rfl⟩
    (by rw [h1]; exact Ordering.noConfusion) (by rw [h2]; exact Ordering.noConfusion)
  exact htrans rfl

lemma exists_earlier (he : 0 < e.secs) : ∃ d : CfmlDate, d.epochNanos < e.epochNanos := by
  refine ⟨⟨0, 0, .dateTime⟩, ?_⟩
  have h0 : (0 : Int64).toInt < e.secs.toInt := Int64.lt_iff_toInt_lt.1 he
  have hz : (0 : Int64).toInt = 0 := rfl
  show (0 : Int64).toInt * 1000000000 + ((0 : Fin 1000000000).val : Int) <
    e.secs.toInt * 1000000000 + e.nanos.val
  simp only [hz, Fin.val_zero]
  omega

/-- The shape of the two triples with a date `d`: a value `s` read as a later date, and a value `x`
after `s` that is no date and so is compared as text, before the brace. -/
lemma not_totalOrderOn_date {s x : CfmlValue} (hd : CellKind.date ∈ K) (hs : s ∈ cellsOf K)
    (hx : x ∈ cellsOf K)
    (he : 0 < e.secs)
    (hsd : ∀ d, compareTotal P s (.dateTime d) = (compare d.epochNanos e.epochNanos).swap)
    (hsx : compareTotal P s x = .lt) (hxd : ∀ d, compareTotal P x (.dateTime d) = .lt) :
    ¬ TotalOrderOn (compareTotal P) (cellsOf K) := by
  intro h
  obtain ⟨d, hlt⟩ := exists_earlier he
  have htrans := h.trans s hs x hx (.dateTime d) ⟨_, hd, rfl⟩
    (by rw [hsx]; exact Ordering.noConfusion) (by rw [hxd d]; exact Ordering.noConfusion)
  rw [hsd d, Int.compare_eq_lt.2 hlt] at htrans
  exact htrans rfl

lemma not_totalOrderOn_string_date (h : DateForms P) (hs : CellKind.string ∈ K)
    (hd : CellKind.date ∈ K) :
    ¬ TotalOrderOn (compareTotal P) (cellsOf K) := by
  obtain ⟨e, he, hpos⟩ := h.isoDay
  refine not_totalOrderOn_date (s := .string "2030-01-01") (x := .string "x") hd ⟨_, hs, rfl⟩
    ⟨_, hs, rfl⟩ hpos (fun d => ?_) rfl (fun d => ?_)
  · show (dateVs P d (.string "2030-01-01")).swap = _
    have htrim : String.ofList (trim "2030-01-01".toList) = "2030-01-01" := by decide
    simp only [dateVs, htrim, he]
  · show (dateVs P d (.string "x")).swap = _
    have htrim : String.ofList (trim "x".toList) = "x" := by decide
    simp only [dateVs, htrim, h.letter]
    show (strCmp P (P.toCfmlString d) "x").swap = _
    rw [strCmp_brace h d (c := 'x') (s := "x") rfl rfl rfl]
    rfl

lemma not_totalOrderOn_int_date (h : DateForms P)
    (hi : CellKind.int ∈ K) (hd : CellKind.date ∈ K) :
    ¬ TotalOrderOn (compareTotal P) (cellsOf K) := by
  obtain ⟨e, he, hpos⟩ := h.dayNumber
  refine not_totalOrderOn_date (s := .int 40000) (x := .int 100000000000) hd ⟨_, hi, rfl⟩
    ⟨_, hi, rfl⟩ hpos (fun d => ?_) rfl (fun d => ?_)
  · show (dateVs P d (.int 40000)).swap = _
    have hto : (40000 : Int64).toInt = 40000 := by decide
    simp [dateVs, hto, he]
  · show (dateVs P d (.int 100000000000)).swap = _
    have hto : (100000000000 : Int64).toInt = 100000000000 := by decide
    simp only [dateVs, hto, h.outOfRange]
    have htext : (asString P (.int 100000000000)).toList = '1' :: "00000000000".toList := by
      show (toString (100000000000 : Int64).toInt).toList = _
      decide
    rw [strCmp_brace h d htext rfl rfl]
    rfl

/-- The comparison of `ORDER BY`, `MIN` and `MAX` orders a column exactly when its cells, nulls
apart, are numbers and booleans, or texts, or dates and booleans. -/
theorem compareTotal_totalOrderOn_iff (h : DateForms P) (K : Set CellKind) :
    TotalOrderOn (compareTotal P) (cellsOf K) ↔
      K ⊆ {.null, .bool, .int} ∨ K ⊆ {.null, .string} ∨ K ⊆ {.null, .bool, .date} := by
  constructor
  · intro hord
    by_cases hs : CellKind.string ∈ K
    · -- a text next to any other kind meets one of the triples
      refine .inr (.inl fun k hk => ?_)
      cases k with
      | null => exact .inl rfl
      | string => exact .inr rfl
      | bool =>
        exact absurd hord (not_totalOrderOn_string_number (u := .bool true) ⟨_, hk, rfl⟩ hs rfl rfl)
      | int =>
        exact absurd hord (not_totalOrderOn_string_number (u := .int 1) ⟨_, hk, rfl⟩ hs rfl rfl)
      | date => exact absurd hord (not_totalOrderOn_string_date h hs hk)
    · by_cases hi : CellKind.int ∈ K
      · refine .inl fun k hk => ?_
        cases k with
        | null => exact .inl rfl
        | bool => exact .inr (.inl rfl)
        | int => exact .inr (.inr rfl)
        | string => exact absurd hk hs
        | date => exact absurd hord (not_totalOrderOn_int_date h hi hk)
      · refine .inr (.inr fun k hk => ?_)
        cases k with
        | null => exact .inl rfl
        | bool => exact .inr (.inl rfl)
        | date => exact .inr (.inr rfl)
        | string => exact absurd hk hs
        | int => exact absurd hk hi
  · rintro (hK | hK | hK)
    · exact totalOrderOn_numbers.mono (cellsOf_mono hK)
    · exact totalOrderOn_strings.mono (cellsOf_mono hK)
    · exact (totalOrderOn_dates h).mono (cellsOf_mono hK)

end

/-- ASCII texts, one day number and one ISO day that are dates. -/
def asciiPlatform : Platform where
  tables := .asciiLetters
  fromNumeric x := if x = F64.ofInt 40000 then some ⟨1246838400, 0, .dateTime⟩ else none
  parseDate s := if s = "2030-01-01" then some ⟨1893456000, 0, .dateTime⟩ else none
  toCfmlString _ := "\x7bts '2030-01-01 00:00:00'\x7d"
  renderOther _ := ""

lemma dateForms_asciiPlatform : DateForms asciiPlatform where
  brace _ := ⟨"ts '2030-01-01 00:00:00'\x7d".toList, String.toList_ofList⟩
  letter := by decide
  isoDay := ⟨_, rfl, by decide⟩
  dayNumber := ⟨_, rfl, by decide⟩
  outOfRange := by decide

theorem compareTotal_totalOrderOn_dates_and_booleans :
    TotalOrderOn (compareTotal asciiPlatform) (cellsOf {.bool, .date}) :=
  (compareTotal_totalOrderOn_iff dateForms_asciiPlatform {.bool, .date}).2
    (.inr (.inr (Set.subset_insert _ _)))

/-- `"1.0" ≤ 1` and `1 ≤ "1"`, yet `"1.0"` sorts after `"1"`. -/
theorem compareTotal_not_transitive : compareTotal asciiPlatform (.string "1.0") (.int 1) = .eq ∧
      compareTotal asciiPlatform (.int 1) (.string "1") = .eq ∧
        compareTotal asciiPlatform (.string "1.0") (.string "1") = .gt := by
  decide

end RustCfml.Qoq
