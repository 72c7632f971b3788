import RustCfml.Serialize.Literal

/-!
# The tokens of a serialized value

The text of a value is followed through the lexer. It gives the value's tokens (`Value.tokens`)
**unless one of its strings or keys opens an interpolation** (`Value.Inert`), and then it gives a
bad token (`lexes_value`).
-/

namespace RustCfml.Serialize

open Gregorian List

variable (zs : Zones)

def intTokens (i : Int) : List Token :=
  if i < 0 then [.minus, natToken i.natAbs] else [natToken i.natAbs]

mutual

def Value.tokens : Value → List Token
  | .null => [.identifier "nullValue".toList, .lParen, .rParen]
  | .bool b => [.boolean b]
  | .int i => intTokens i
  | .date d _ =>
    .identifier "createDateTime".toList :: .lParen ::
      (joinWith .comma ((dateFields zs.current d).map intTokens ++ [[.string zs.current.name]]) ++
        [.rParen])
  | .str s => [.string (restored s.toList)]
  | .array items => .lBracket :: (joinWith .comma (itemTokens items) ++ [.rBracket])
  | .struct members =>
    .lBrace :: (joinWith .comma (memberTokens (keepsMember members) members) ++ [.rBrace])
  | .query columns =>
    .identifier "query".toList :: .lParen :: (joinWith .comma (columnTokens columns) ++ [.rParen])
termination_by structural v => v

def itemTokens : List Value → List (List Token)
  | [] => []
  | v :: vs => v.tokens :: itemTokens vs
termination_by structural vs => vs

def memberTokens (keep : String → Bool) : List (String × Value) → List (List Token)
  | [] => []
  | (k, v) :: ms =>
    if keep k then (.string (restored k.toList) :: .colon :: v.tokens) :: memberTokens keep ms
    else memberTokens keep ms
termination_by structural ms => ms

def columnTokens : List (String × List Value) → List (List Token)
  | [] => []
  | (name, cells) :: cs =>
    (.string (restored name.toList) :: .colon :: .lBracket ::
      (joinWith .comma (itemTokens cells) ++ [.rBracket])) :: columnTokens cs
termination_by structural cs => cs

end

mutual

/-- No string or key that is written opens an interpolation. -/
def Value.Inert : Value → Prop
  | .str s => (readBack s.toList).isSome = true
  | .array items => ItemsInert items
  | .struct members => MembersInert (keepsMember members) members
  | .query columns => ColumnsInert columns
  | .null => True
  | .bool _ => True
  | .int _ => True
  | .date _ _ => True
termination_by structural v => v

def ItemsInert : List Value → Prop
  | [] => True
  | v :: vs => v.Inert ∧ ItemsInert vs
termination_by structural vs => vs

def MembersInert (keep : String → Bool) : List (String × Value) → Prop
  | [] => True
  | (k, v) :: ms =>
    if keep k then ((readBack k.toList).isSome = true ∧ v.Inert) ∧ MembersInert keep ms
    else MembersInert keep ms
termination_by structural ms => ms

def ColumnsInert : List (String × List Value) → Prop
  | [] => True
  | (name, cells) :: cs =>
    ((readBack name.toList).isSome = true ∧ ItemsInert cells) ∧ ColumnsInert cs
termination_by structural cs => cs

end

/-! ## Lexing -/

lemma joinWith_cons {α : Type} (separator : α) (t : List α) {ts : List (List α)} (h : ts ≠ []) :
    joinWith separator (t :: ts) = t ++ separator :: joinWith separator ts := by
  cases ts with
  | nil => exact absurd rfl h
  | cons _ _ => rfl

structure LexesList (texts : List Text) (inert : Prop) (tokens : List (List Token)) : Prop where
  lexes : Lexes (joinWith ',' texts) inert (joinWith .comma tokens)
  nil_iff : texts = [] ↔ tokens = []

namespace LexesList

variable {texts : List Text} {inert inert' : Prop} {tokens : List (List Token)}

lemma nil : LexesList [] True [] := ⟨Lexes.nil, by simp⟩

lemma cons {text : Text} {toks : List Token} (h : Lexes text inert toks)
    (hs : LexesList texts inert' tokens) :
    LexesList (text :: texts) (inert ∧ inert') (toks :: tokens) := by
  refine ⟨?_, by simp⟩
  by_cases hnil : texts = []
  · have htokens := hs.nil_iff.1 hnil
    subst hnil htokens
    simpa [joinWith] using h.append hs.lexes fun rest hrest => hrest
  · rw [joinWith_cons _ _ hnil, joinWith_cons _ _ (fun h => hnil (hs.nil_iff.2 h))]
    refine h.append (Lexes.cons id (fun _ _ => rfl) hs.lexes) ?_
    intro rest _
    exact delimited_cons rfl _

lemma enclosed (hs : LexesList texts inert tokens) {opening closing : Char} {lhs rhs : Token}
    (hopen : ∀ rest, emit opening rest = ([lhs], 0))
    (hclose : ∀ rest, emit closing rest = ([rhs], 0))
    (hlhs : ¬lhs.Bad) (hrhs : ¬rhs.Bad) (hd : isDelimiter closing = true) :
    Lexes (opening :: (joinWith ',' texts ++ [closing]))
    inert (lhs :: (joinWith .comma tokens ++ [rhs])) := by
  refine Lexes.cons hlhs (fun _ _ => hopen _) ?_
  refine (hs.lexes.append (Lexes.cons hrhs (fun _ _ => hclose _) Lexes.nil) ?_).congr (by simp)
  intro rest _
  exact delimited_cons hd _

end LexesList

variable {inert : Prop}

lemma lexes_call {word : Text} {token : Token} {texts : List Text}
    {tokens : List (List Token)} (hword : Lexes word True [token])
    (hs : LexesList texts inert tokens) :
    Lexes (word ++ '(' :: (joinWith ',' texts ++ [')'])) inert
      (token :: .lParen :: (joinWith .comma tokens ++ [.rParen])) := by
  have hargs : Lexes ('(' :: (joinWith ',' texts ++ [')'])) inert
      (.lParen :: (joinWith .comma tokens ++ [.rParen])) :=
    hs.enclosed (fun _ => rfl) (fun _ => rfl) id id rfl
  exact (hword.append hargs fun rest _ => delimited_cons rfl _).congr (by simp)

lemma lexes_nullValue : Lexes "nullValue".toList True [.identifier "nullValue".toList] :=
  lexes_word 'n' "ullValue".toList (fun _ => rfl) (all_eq_true.1 (by decide))

lemma lexes_createDateTime :
    Lexes "createDateTime".toList True [.identifier "createDateTime".toList] :=
  lexes_word 'c' "reateDateTime".toList (fun _ => rfl) (all_eq_true.1 (by decide))

lemma lexes_query : Lexes "query".toList True [.identifier "query".toList] :=
  lexes_word 'q' "uery".toList (fun _ => rfl) (all_eq_true.1 (by decide))

lemma lexes_bool (b : Bool) :
    Lexes (if b then "true".toList else "false".toList) True [.boolean b] := by
  cases b
  · exact lexes_word 'f' "alse".toList (fun _ => rfl) (all_eq_true.1 (by decide))
  · exact lexes_word 't' "rue".toList (fun _ => rfl) (all_eq_true.1 (by decide))

lemma toDigits_head (n : Nat) : ∃ c t, Nat.toDigits 10 n = c :: t ∧ c.isDigit = true := by
  cases hd : Nat.toDigits 10 n with
  | nil => exact absurd hd Nat.toDigits_ne_nil
  | cons c t =>
    exact ⟨c, t, rfl, Nat.isDigit_of_mem_toDigits (by decide) (by decide) (hd ▸ mem_cons_self)⟩

lemma lexes_decimal (i : Int) : Lexes (decimal i) True (intTokens i) := by
  unfold decimal intTokens
  split_ifs with h
  · refine Lexes.cons id (fun rest _ => ?_) (lexes_digits _)
    obtain ⟨c, t, hd, hc⟩ := toDigits_head i.natAbs
    have hne : ∀ d : Char, d.isDigit = false → (Nat.toDigits 10 i.natAbs ++ rest).head? ≠
        some d := by
      intro d hdig
      rw [hd]
      simp [head?_cons]
      rintro rfl
      simp [hc] at hdig
    simp only [emit]
    rw [if_neg]
    rintro (h | h | h)
    all_goals exact hne _ (by decide) h
  · exact lexes_digits _

lemma lexesList_decimals (fields : List Int) {texts : List Text}
    {tokens : List (List Token)} (hs : LexesList texts inert tokens) :
    LexesList (fields.map decimal ++ texts) inert (fields.map intTokens ++ tokens) := by
  induction fields with
  | nil => exact hs
  | cons f fields ih =>
    have h := LexesList.cons (lexes_decimal f) ih
    exact ⟨h.lexes.congr (by simp), h.nil_iff⟩

variable {t : Text}

lemma hashSafe_of_forall (h : ∀ c ∈ t, c ≠ '#') : hashSafe t = true := by
  fun_induction hashSafe t with
  | case1 | case2 => rfl
  | case3 c c' rest ih =>
    have hc : c ≠ '#' := h c mem_cons_self
    rw [ih (forall_mem_cons.1 h).2]
    simp [hc]

lemma restored_of_hashSafe (h : hashSafe t = true) : restored t = t := by
  rw [restored, (readBack_eq_some_iff t).2 h]
  rfl

lemma isSome_readBack_of_hashSafe (h : hashSafe t = true) : (readBack t).isSome = true := by
  rw [(readBack_eq_some_iff t).2 h]
  rfl

lemma quoted_of_forall (h : ∀ c ∈ t, c ≠ '"') : quoted t = t := by
  induction t with
  | nil => rfl
  | cons c t ih =>
    rw [quoted_cons_of_ne (h c mem_cons_self), ih (forall_mem_cons.1 h).2]

lemma name_hashSafe : hashSafe zs.current.name = true :=
  hashSafe_of_forall fun c hc => (zs.name_chars c hc).1

lemma lexes_name : Lexes ('"' :: (zs.current.name ++ ['"'])) True [.string zs.current.name] := by
  have h := lexes_literal zs.current.name
  rw [cfmlLiteralString, quoted_of_forall fun c hc => (zs.name_chars c hc).2.1,
    restored_of_hashSafe (name_hashSafe zs)] at h
  exact h.congr (by simp [isSome_readBack_of_hashSafe (name_hashSafe zs)])

lemma trim_of_forall (h : ∀ c ∈ t, isWhitespace c = false) : trim t = t := by
  have hdrop : ∀ u : Text, (∀ c ∈ u, isWhitespace c = false) → u.dropWhile isWhitespace = u := by
    intro u hu
    cases u with
    | nil => rfl
    | cons c u => simp [hu c mem_cons_self]
  rw [trim, hdrop t h, hdrop t.reverse (fun c hc => h c (mem_reverse.1 hc)), reverse_reverse]

lemma argTz_name : zs.argTz zs.current.name = some zs.current := by
  have htrim := trim_of_forall fun c hc => (zs.name_chars c hc).2.2
  rw [Zones.argTz, Zones.resolveTz]
  simp only [htrim]
  rw [if_neg zs.name_ne, if_neg zs.name_ne, zs.found]

lemma serialize_null : Value.null.serialize zs = "nullValue".toList ++ '(' :: ([] ++ [')']) := by
  have h : "nullValue()".toList = "nullValue".toList ++ '(' :: ([] ++ [')']) := by decide +kernel
  exact h

lemma serialize_bool (b : Bool) :
    (Value.bool b).serialize zs = if b then "true".toList else "false".toList := by
  cases b <;> rfl

lemma serialize_date (d : CfmlDate) (kind : DateKind) :
    (Value.date d kind).serialize zs = "createDateTime".toList ++
    '(' :: (joinWith ',' ((dateFields zs.current d).map decimal ++
      ['"' :: (zs.current.name ++ ['"'])]) ++ [')']) := by
  have h : "createDateTime(".toList = "createDateTime".toList ++ ['('] := by decide +kernel
  have hdate : (Value.date d kind).serialize zs = "createDateTime(".toList ++
      joinWith ',' ((dateFields zs.current d).map decimal ++ ['"' :: (zs.current.name ++ ['"'])])
      ++ [')'] := rfl
  rw [hdate, h, append_assoc, append_assoc]
  rfl

lemma serialize_query (columns : List (String × List Value)) : (Value.query columns).serialize zs
      = "query".toList ++ '(' :: (joinWith ',' (serializeColumns zs columns) ++ [')']) := by
  have h : "query(".toList = "query".toList ++ ['('] := by decide +kernel
  have hquery : (Value.query columns).serialize zs
      = "query(".toList ++ (joinWith ',' (serializeColumns zs columns) ++ [')']) := rfl
  rw [hquery, h, append_assoc]
  rfl

lemma serialize_head (v : Value) : ∃ c t, v.serialize zs = c :: t ∧ c ≠ ':' := by
  cases v with
  | null => exact ⟨'n', _, serialize_null zs, by decide⟩
  | bool b =>
    rw [serialize_bool]
    cases b
    · exact ⟨'f', _, rfl, by decide⟩
    · exact ⟨'t', _, rfl, by decide⟩
  | int i =>
    obtain ⟨c, t, hd, hc⟩ := toDigits_head i.1.natAbs
    have hint : (Value.int i).serialize zs = decimal i := rfl
    rw [hint, decimal]
    split_ifs
    · exact ⟨'-', _, rfl, by decide⟩
    · refine ⟨c, t, hd, ?_⟩
      rintro rfl
      exact absurd hc (by decide)
  | date d kind => exact ⟨'c', _, serialize_date zs d kind, by decide⟩
  | str s => exact ⟨'"', _, rfl, by decide⟩
  | array items => exact ⟨'[', _, rfl, by decide⟩
  | struct members => exact ⟨'\x7b', _, rfl, by decide⟩
  | query columns => exact ⟨'q', _, serialize_query zs columns, by decide⟩

lemma lexes_pair (k : String) {text : Text} {tokens : List Token}
    (h : Lexes text inert tokens) (hhead : ∃ c t, text = c :: t ∧ c ≠ ':') :
    Lexes (cfmlLiteralString k.toList ++ ':' :: text) ((readBack k.toList).isSome = true ∧ inert)
      (.string (restored k.toList) :: .colon :: tokens) := by
  refine (lexes_literal k.toList).append (Lexes.cons id (fun rest _ => ?_) h) ?_
  · obtain ⟨c, t, rfl, hc⟩ := hhead
    simp only [emit, cons_append, head?_cons, Option.some.injEq]
    rw [if_neg hc]
  · intro rest _
    exact delimited_cons rfl _

mutual

theorem lexes_value : ∀ v : Value, Lexes (v.serialize zs) v.Inert (v.tokens zs)
  | .null => by
    rw [serialize_null, Value.Inert, Value.tokens]
    exact lexes_call lexes_nullValue LexesList.nil
  | .bool b => by
    rw [serialize_bool, Value.Inert, Value.tokens]
    exact lexes_bool b
  | .int i => lexes_decimal i
  | .date d kind => by
    have hname : LexesList ['"' :: (zs.current.name ++ ['"'])] True [[.string zs.current.name]] :=
      ⟨(LexesList.cons (lexes_name zs) LexesList.nil).lexes.congr (by simp), by simp⟩
    rw [serialize_date, Value.Inert, Value.tokens]
    exact lexes_call lexes_createDateTime (lexesList_decimals (dateFields zs.current d) hname)
  | .str s => lexes_literal s.toList
  | .array items => (lexes_items items).enclosed (fun _ => rfl) (fun _ => rfl) id id rfl
  | .struct members => by
    exact (lexes_members (keepsMember members) members).enclosed (fun _ => rfl) (fun _ => rfl)
      id id rfl
  | .query columns => by
    rw [serialize_query, Value.Inert, Value.tokens]
    exact lexes_call lexes_query (lexes_columns columns)

theorem lexes_items : ∀ vs : List Value,
    LexesList (serializeItems zs vs) (ItemsInert vs) (itemTokens zs vs)
  | [] => LexesList.nil
  | v :: vs => by exact LexesList.cons (lexes_value v) (lexes_items vs)

theorem lexes_members (keep : String → Bool) : ∀ ms : List (String × Value),
    LexesList (serializeMembers zs keep ms) (MembersInert keep ms) (memberTokens zs keep ms)
  | [] => LexesList.nil
  | (k, v) :: ms => by
    have hms := lexes_members keep ms
    have htext : serializeMembers zs keep ((k, v) :: ms)
        = if keep k then
            (cfmlLiteralString k.toList ++ ':' :: v.serialize zs) :: serializeMembers zs keep ms
          else serializeMembers zs keep ms := rfl
    rw [htext, MembersInert, memberTokens]
    split_ifs
    · exact LexesList.cons (lexes_pair k (lexes_value v) (serialize_head zs v)) hms
    · exact hms

theorem lexes_columns : ∀ cs : List (String × List Value),
    LexesList (serializeColumns zs cs) (ColumnsInert cs) (columnTokens zs cs)
  | [] => LexesList.nil
  | (name, cells) :: cs => by
    have hcells : Lexes ('[' :: (joinWith ',' (serializeItems zs cells) ++ [']']))
      (ItemsInert cells)
        (.lBracket :: (joinWith .comma (itemTokens zs cells) ++ [.rBracket])) :=
      (lexes_items cells).enclosed (fun _ => rfl) (fun _ => rfl) id id rfl
    exact LexesList.cons (lexes_pair name hcells ⟨'[', _, rfl, by decide⟩) (lexes_columns cs)

end

end RustCfml.Serialize
