import RustCfml.Qoq.Union

/-!
# What group keys tell apart

`append_group_key` writes a tag for the kind of a cell, its text, and the separator U+0001. **The
tag is there so that `1` and `"1"` stay apart**, which the comparison of `WHERE` and `ON` calls
equal; within one kind the key and the comparison agree.
-/

namespace RustCfml.Qoq

open FirstOf Lowercase RowProduct List

inductive KeyKind where
  | null
  | bool
  | number
  | date
  | text
  deriving DecidableEq

def keyKind : CfmlValue → KeyKind
  | .null => .null
  | .bool _ => .bool
  | .int _ | .double _ => .number
  | .dateTime _ => .date
  | _ => .text

def KeyKind.tag : KeyKind → Char
  | .null => 'N'
  | .bool => 'B'
  | .number => '#'
  | .date => 'D'
  | .text => 'S'

section

variable (P : Platform)

def SameCell (a b : CfmlValue) : Prop := (a.isNull = true ∧ b.isNull = true) ∨
    sqlEqual P a b = some true

def Merges (a b : CfmlValue) : Prop := keyKind a = keyKind b ∧ SameCell P a b

/-- What stands between the tag and the separator. -/
def keyBody : CfmlValue → List Char
  | .null => []
  | .bool b => [if b then 'T' else 'F']
  | .int i => (toString i.toInt).toList
  | .double d => (fmtNum d).toList
  | .dateTime d => (toString d.epochNanos).toList
  | v => toLowercase P.tables (asString P v).toList

/-- A double that its text stands for, which `-0.0` and a NaN with a payload are not, and no text
with the separator in it. -/
structure Plain (v : CfmlValue) : Prop where
  readsBack : ∀ d, v = .double d → F64.parse (fmtNum d).toList = some d
  noSeparator : keyKind v = .text → '\u0001' ∉ toLowercase P.tables (asString P v).toList

/-- An integer that meets a double is written as the double nearest to it is: from 10¹⁵ on `Display`
fills up with zeros. -/
def Beside : CfmlValue → CfmlValue → Prop
  | .int i, .double _ | .double _, .int i => fmtNum (F64.ofInt i.toInt) = toString i.toInt
  | _, _ => True

variable {P}

lemma groupKey_eq (v : CfmlValue) : groupKey P v = ((keyKind v).tag :: keyBody P v) ++
    ['\u0001'] := by
  cases v <;> rfl

/-! ## One cell -/

lemma notMem_toString_int (i : Int) : '\u0001' ∉ (toString i).toList := by
  have hdigits : ∀ n : Nat, '\u0001' ∉ (Nat.repr n).toList := by
    intro n h
    rw [Nat.repr, String.toList_ofList] at h
    exact absurd (Nat.isDigit_of_mem_toDigits (by decide) (by decide) h) (by decide)
  cases i with
  | ofNat n => exact hdigits n
  | negSucc n =>
    show '\u0001' ∉ ("-" ++ Nat.repr (n + 1)).toList
    rw [String.toList_append, mem_append, not_or]
    exact ⟨by decide, hdigits (n + 1)⟩

lemma notMem_fmtNum (d : F64) : '\u0001' ∉ (fmtNum d).toList := by
  rw [fmtNum]
  split
  · exact notMem_toString_int d.truncInt
  · rw [String.toList_ofList, F64.display]
    have hsign : '\u0001' ∉ (if d.isNegative then ['-'] else []) := by split <;> decide
    have happ : ∀ {cs : List Char}, '\u0001' ∉ cs →
      '\u0001' ∉ (if d.isNegative then ['-'] else []) ++ cs :=
      fun hcs h => (mem_append.1 h).elim hsign hcs
    split
    · decide
    · dsimp only
      split
      · exact happ (by decide)
      · split
        · exact happ (by decide)
        · exact happ (F64.notMem_plain rfl (by decide) _ _)

lemma Plain.separator_notMem {v : CfmlValue} (h : Plain P v) :
    '\u0001' ∉ (keyKind v).tag :: keyBody P v := by
  have htag : '\u0001' ≠ (keyKind v).tag := by cases keyKind v <;> decide
  rw [mem_cons, not_or]
  refine ⟨htag, ?_⟩
  cases v with
  | null => exact not_mem_nil
  | bool b =>
    show '\u0001' ∉ [if b then 'T' else 'F']
    cases b <;> decide
  | int i => exact notMem_toString_int i.toInt
  | double d => exact notMem_fmtNum d
  | dateTime d => exact notMem_toString_int d.epochNanos
  | _ => exact h.noSeparator rfl

variable {a b : CfmlValue}

lemma compareNonNull_text (ha : keyKind a = .text) (hb : keyKind b = .text) :
    compareSql P a b = some (strCmp P (asString P a) (asString P b)) := by
  cases a <;> cases ha <;> cases b <;> cases hb <;> rfl

lemma sqlEqual_double (x y : F64) : sqlEqual P (.double x) (.double y) = some true ↔ x = y := by
  rw [← F64.totalCmp_eq_iff]
  show some (x.totalCmp y == .eq) = some true ↔ _
  cases x.totalCmp y <;> decide

lemma keyBody_int_double {i : Int64} {d : F64} (hd : F64.parse (fmtNum d).toList = some d)
    (hi : fmtNum (F64.ofInt i.toInt) = toString i.toInt) :
    keyBody P (.int i) = keyBody P (.double d) ↔ F64.ofInt i.toInt = d := by
  show (toString i.toInt).toList = (fmtNum d).toList ↔ _
  constructor
  · intro h
    rw [← h, F64.parse_toString] at hd
    exact Option.some.inj hd
  · rintro rfl
    rw [hi]

lemma keyBody_number (hk : keyKind a = .number) (hk' : keyKind b = .number) (ha : Plain P a)
    (hb : Plain P b)
    (hbeside : Beside a b) : keyBody P a = keyBody P b ↔ sqlEqual P a b = some true := by
  cases a <;> cases hk <;> cases b <;> cases hk'
  · rename_i i j
    have h := groupKey_eq_iff P (a := .int i) (b := .int j) (k := .int) (by decide) rfl rfl
    rw [← h, groupKey_eq, groupKey_eq]
    simp [keyKind]
  · rw [keyBody_int_double (hb.readsBack _ rfl) hbeside]
    exact (sqlEqual_double (P := P) _ _).symm
  · rw [eq_comm, keyBody_int_double (ha.readsBack _ rfl) hbeside, eq_comm]
    exact (sqlEqual_double (P := P) _ _).symm
  · rename_i x y
    rw [sqlEqual_double]
    constructor
    · intro h
      have hx := ha.readsBack x rfl
      rw [show (fmtNum x).toList = (fmtNum y).toList from h, hb.readsBack y rfl] at hx
      exact (Option.some.inj hx).symm
    · rintro rfl
      rfl

lemma keyBody_eq_iff (ha : Plain P a) (hb : Plain P b) (hbeside : Beside a b)
    (hkind : keyKind a = keyKind b) : keyBody P a = keyBody P b ↔ SameCell P a b := by
  cases hk : keyKind b with
  | null =>
    rw [hk] at hkind
    cases a <;> cases hkind
    cases b <;> cases hk
    exact ⟨fun _ => .inl ⟨rfl, rfl⟩, fun _ => rfl⟩
  | text =>
    rw [hk] at hkind
    have hkey :
      keyBody P a = toLowercase P.tables (asString P a).toList := by cases a <;> cases hkind <;> rfl
    have hkey' :
      keyBody P b = toLowercase P.tables (asString P b).toList := by cases b <;> cases hk <;> rfl
    have hnull : a.isNull = false := by cases a <;> cases hkind <;> rfl
    rw [hkey, hkey', ← strCmp_eq_iff, SameCell, sqlEqual, compareNonNull_text hkind hk, hnull]
    cases strCmp P (asString P a) (asString P b) <;> simp
  | number =>
    rw [hk] at hkind
    have hnull : a.isNull = false := by cases a <;> cases hkind <;> rfl
    rw [SameCell, hnull, keyBody_number hkind hk ha hb hbeside]
    simp
  | bool | date =>
    rw [hk] at hkind
    -- what is left has a kind of cell in the older sense
    have hcell : ∃ k, k ≠ CellKind.null ∧ cellKind a = some k ∧ cellKind b = some k := by
      cases a <;> cases hkind
      cases b <;> cases hk
      exact ⟨_, by decide, rfl, rfl⟩
    obtain ⟨k, hne, hka, hkb⟩ := hcell
    have hnull : a.isNull = false := by cases a <;> first | rfl | (cases hka; exact absurd rfl hne)
    rw [SameCell, hnull, ← groupKey_eq_iff P hne hka hkb, groupKey_eq, groupKey_eq, hkind, hk]
    simp

lemma groupKey_eq_iff_merges (ha : Plain P a) (hb : Plain P b) (hbeside : Beside a b) :
    groupKey P a = groupKey P b ↔ Merges P a b := by
  rw [groupKey_eq, groupKey_eq, append_cancel_right_eq, cons.injEq, Merges]
  constructor
  · rintro ⟨htag, hbody⟩
    have hkind : keyKind a = keyKind b := by
      revert htag
      cases keyKind a <;> cases keyKind b <;> decide
    exact ⟨hkind, (keyBody_eq_iff ha hb hbeside hkind).1 hbody⟩
  · rintro ⟨hkind, hsame⟩
    exact ⟨by rw [hkind], (keyBody_eq_iff ha hb hbeside hkind).2 hsame⟩

lemma append_separator_inj {α : Type} {sep : α} : ∀ {x y u v : List α}, sep ∉ x → sep ∉ y →
    x ++ sep :: u = y ++ sep :: v → x = y ∧ u = v
  | [], [], _, _, _, _, h => ⟨rfl, (cons.inj h).2⟩
  | [], b :: y, _, _, _, hy, h => absurd ((cons.inj h).1 ▸ mem_cons_self) hy
  | a :: x, [], _, _, hx, _, h => absurd ((cons.inj h).1 ▸ mem_cons_self) hx
  | a :: x, b :: y, _, _, hx, hy, h => by
    obtain ⟨rfl, htail⟩ := cons.inj h
    rw [mem_cons, not_or] at hx hy
    obtain ⟨rfl, hrest⟩ := append_separator_inj hx.2 hy.2 htail
    exact ⟨rfl, hrest⟩

lemma cellsKey_cons_eq {as bs : List CfmlValue} (ha : Plain P a) (hb : Plain P b) :
    cellsKey P (a :: as) = cellsKey P (b :: bs) ↔ groupKey P a = groupKey P b ∧
    cellsKey P as = cellsKey P bs := by
  have hcons : ∀ (v : CfmlValue) (vs : List CfmlValue), cellsKey P (v :: vs) =
      ((keyKind v).tag :: keyBody P v) ++ '\u0001' :: cellsKey P vs := by
    intro v vs
    rw [cellsKey, flatMap_cons, groupKey_eq, append_assoc]
    rfl
  rw [hcons, hcons, groupKey_eq, groupKey_eq, append_cancel_right_eq]
  constructor
  · exact append_separator_inj ha.separator_notMem hb.separator_notMem
  · rintro ⟨hfront, hrest⟩
    rw [hfront, hrest]

lemma cellsKey_eq_iff : ∀ {r r' : List CfmlValue}, Forall₂ Beside r r' →
    (∀ v ∈ r, Plain P v) → (∀ v ∈ r', Plain P v) →
    (cellsKey P r = cellsKey P r' ↔ Forall₂ (Merges P) r r')
  | [], [], _, _, _ => ⟨fun _ => .nil, fun _ => rfl⟩
  | a :: as, b :: bs, .cons hbeside hrest, hr, hr' => by
    have ha := hr a mem_cons_self
    have hb := hr' b mem_cons_self
    rw [cellsKey_cons_eq ha hb, groupKey_eq_iff_merges ha hb hbeside, forall₂_cons,
      cellsKey_eq_iff hrest (fun v hv => hr v (mem_cons_of_mem _ hv))
        fun v hv => hr' v (mem_cons_of_mem _ hv)]

lemma keepMask_getElem? : ∀ (seen ks : List (List Char)) (j : Nat),
    (keepMask seen ks)[j]? = some true ↔ ∃ k, ks[j]? = some k ∧ k ∉ seen ∧ ∀ i < j, ks[i]? ≠ some k
  | seen, [], j => by simp [keepMask]
  | seen, k :: ks, 0 => by simp [keepMask]
  | seen, k :: ks, j + 1 => by
    rw [keepMask, getElem?_cons_succ, keepMask_getElem? (k :: seen) ks j, getElem?_cons_succ]
    constructor
    · rintro ⟨k', hk', hseen, hearlier⟩
      rw [mem_cons, not_or] at hseen
      refine ⟨k', hk', hseen.2, fun i hi => ?_⟩
      cases i with
      | zero => simpa using Ne.symm hseen.1
      | succ i => exact hearlier i (Nat.lt_of_succ_lt_succ hi)
    · rintro ⟨k', hk', hseen, hearlier⟩
      refine ⟨k', hk', ?_, fun i hi => hearlier (i + 1) (Nat.succ_lt_succ hi)⟩
      rw [mem_cons, not_or]
      refine ⟨fun heq => hearlier 0 (Nat.succ_pos j) ?_, hseen⟩
      rw [heq]
      rfl

lemma groupRows_together_iff (key : Intersection → List Char) (inters : List Intersection)
    (x y : Intersection) :
    (∃ group ∈ SqlEngine.groupRows (inters.map fun x => (key x, x)), x ∈ group ∧ y ∈ group) ↔
      x ∈ inters ∧ y ∈ inters ∧ key x = key y := by
  have htogether :=
    together_indexBy_iff Prod.fst (inters.map fun x => (key x, x)) (key x, x) (key y, y)
  -- a row is in a group with its own key
  have hmem : ∀ e ∈ indexBy Prod.fst (inters.map fun x => (key x, x)), ∀ z,
      z ∈ e.2.map Prod.snd ↔ (key z, z) ∈ e.2 := by
    intro e he z
    rw [mem_map]
    constructor
    · rintro ⟨p, hp, rfl⟩
      obtain ⟨w, _, rfl⟩ := mem_map.1 (mem_indexBy e he p hp).1
      exact hp
    · exact fun hz => ⟨_, hz, rfl⟩
  have hin : ∀ z, (key z, z) ∈ inters.map (fun x => (key x, x)) ↔ z ∈ inters := by
    intro z
    rw [mem_map]
    exact ⟨fun ⟨w, hw, heq⟩ => (Prod.mk.inj heq).2 ▸ hw, fun hz => ⟨z, hz, rfl⟩⟩
  rw [hin, hin] at htogether
  rw [← htogether, SqlEngine.groupRows]
  simp only [mem_map, exists_exists_and_eq_and]
  refine exists_congr fun e => and_congr_right fun he => ?_
  rw [← mem_map, ← mem_map, hmem e he, hmem e he]

end

def half : F64 := .withSign false (1022 * 2 ^ 52)

/-- Two rows that are the same but for the case, and two with other numbers. -/
def letterRows : List (List CfmlValue) :=
  [[.string "A", .int 1], [.string "a", .int 1], [.string "a", .null], [.string "a", .double half]]

end RustCfml.Qoq
